import FrameLoop.Proofs.Loop.Closing

/-
  Delivery: a task that the loop takes is run, and run once.  Tasks start in the order in which
  they were pushed, a refused one never starts, and a loop that is gone has run every task whose
  call was or will be told that it was taken (`tasks_delivered`).  Nothing is pushed once the loop
  is gone, so this also holds of all that comes later (`Later`).
-/

namespace FrameLoop.Loop

variable {τ : Type} {code : Code τ} {parkTimeout : Span} {now : Instant}

/-! ## What comes later -/

/-- What can come after a state, with what happens on the way. -/
inductive Later (code : Code τ) (parkTimeout : Span) : State τ → List Event → State τ → Prop
  | refl (s : State τ) : Later code parkTimeout s [] s
  | step {s t u : State τ} {events more : List Event} (label : Step τ) :
    Later code parkTimeout s events t → step code parkTimeout t label = some (u, more) →
    Later code parkTimeout s (events ++ more) u

theorem Traced.later {s t : State τ} {history events : List Event} {tasks : List τ}
    (h : Traced code parkTimeout now s history tasks) (hl : Later code parkTimeout s events t) :
    ∃ more, Traced code parkTimeout now t (history ++ events) (tasks ++ more) := by
  induction hl with
  | refl => exact ⟨[], by simpa using h⟩
  | @step u _ _ _ label _ hstep ih =>
    obtain ⟨more, ih⟩ := ih
    refine ⟨more ++ (handed code u label).toList, ?_⟩
    rw [← List.append_assoc, ← List.append_assoc]
    exact ih.step label hstep

/-! ## A loop that is gone -/

/-- The loop is over when its phase says so. -/
theorem Orderly.part_eq_finished {s : State τ} (hs : Orderly s) (hgone : s.phase = .gone) :
    s.place.part = .finished := by
  have hphase := hs.phase
  rw [hgone] at hphase
  cases hp : s.place.part with
  | finished => rfl
  | serving => rw [hp] at hphase; obtain h | h := hphase <;> cases h
  | closing => rw [hp] at hphase; cases hphase
  | draining => rw [hp] at hphase; cases hphase

/-- At its end the thread of the loop is about to complete its signal, or has done so. -/
theorem Place.eq_of_part_finished {p : Place τ} (h : p.part = .finished) :
    p = .complete ∨ p = .stopped := by
  cases p with
  | complete => exact .inl rfl
  | stopped => exact .inr rfl
  | count b => cases b <;> cases h
  | pop b => cases b <;> cases h
  | body b => cases b <;> cases h
  | submitting b => cases b <;> cases h
  | requesting b => cases b <;> cases h
  | stamp b => cases b <;> cases h
  | _ => cases h

theorem Orderly.queue_eq_nil {s : State τ} (hs : Orderly s) (hgone : s.phase = .gone) :
    s.queue = [] := by
  have hknows := hs.queue
  obtain hp | hp := Place.eq_of_part_finished (hs.part_eq_finished hgone) <;> rwa [hp] at hknows

/-- A step of a caller makes no other change of the phase than from the first to the second. -/
theorem stepCaller_phase {s t : State τ} {i : Nat} {events : List Event} (hk : Informed s)
    (h : s.stepCaller i = some (t, events)) : PhaseKept s t := by
  cases hi : s.callers[i]? with
  | none => simp only [State.stepCaller, hi, reduceCtorEq] at h
  | some caller =>
    cases caller with
    | submission c =>
      simp only [State.stepCaller, hi, Option.some.injEq, Prod.mk.injEq] at h
      rw [← h.1]
      exact .inl (stepSubmission_state s true c).2.2.2
    | request grace stage =>
      simp only [State.stepCaller, hi, Option.some.injEq, Prod.mk.injEq] at h
      rw [← h.1]
      exact (stepRequest_asks s grace stage).phaseKept fun hholds =>
        hk.phase_of_holder (Informed.holders_pos_of_caller hi hholds)

/-- A loop that is gone stays so. -/
theorem Orderly.gone_step {s t : State τ} {label : Step τ} {events : List Event} (hs : Orderly s)
    (hk : Informed s) (hgone : s.phase = .gone)
    (h : Loop.step code parkTimeout s label = some (t, events)) : t.phase = .gone := by
  have hplace := Place.eq_of_part_finished (hs.part_eq_finished hgone)
  cases label with
  | submit task => cases h; exact hgone
  | request grace => cases h; exact hgone
  | release => cases h; exact hgone
  | caller i =>
    obtain hsame | ⟨hstarted, -⟩ := stepCaller_phase hk h
    · exact hsame.trans hgone
    · rw [hgone] at hstarted; cases hstarted
  | loop now =>
    obtain ⟨-, u, hu, rfl⟩ := loop_of_step h
    obtain hp | hp := hplace <;> simp only [State.stepLoop, hp, reduceCtorEq] at hu
    cases hu
    exact hgone
  | rouse =>
    obtain ⟨-, rfl, -⟩ := rouse_of_step h
    exact hgone

/-- Nothing is pushed into a sealed queue. -/
theorem Change.pushedCalls_eq_nil {s t : State τ} {task : Option τ} {events : List Event}
    (h : Change s t task events) (hs : ∀ c ∈ s.submissions, c.stage ≠ .push) :
    pushedCalls events = [] := by
  cases h with
  | proceeds c others queue submitters events left hsub ha _ _ =>
    cases ha with
    | push hc => exact absurd hc (hs c (hsub.mem_iff.2 List.mem_cons_self))
    | _ => rfl
  | keeps events _ _ he => exact (calls_eq_nil he).1
  | _ => rfl

/-- Nothing is pushed once the loop is gone, and it stays gone. -/
theorem Traced.pushedCalls_later {s t : State τ} {history events : List Event} {tasks : List τ}
    (h : Traced code parkTimeout now s history tasks) (hgone : s.phase = .gone)
    (hl : Later code parkTimeout s events t) : pushedCalls events = [] ∧ t.phase = .gone := by
  induction hl with
  | refl => exact ⟨rfl, hgone⟩
  | step label hl hstep ih =>
    obtain ⟨hpushed, hgone⟩ := ih
    obtain ⟨more, ht⟩ := h.later hl
    have hsealed := ht.orderly.noPush (by rw [ht.orderly.part_eq_finished hgone]; trivial)
    rw [pushedCalls_append, hpushed, (step_change hstep).pushedCalls_eq_nil hsealed]
    exact ⟨rfl, ht.orderly.gone_step ht.informed hgone hstep⟩

/-! ## Delivery -/

/-- What was started is the first part of what was pushed. -/
theorem Flow.started_prefix {s : State τ} {history : List Event} (h : Flow s history) :
    startedCalls history <+: pushedCalls history := ⟨_, h.queued⟩

/-- A task that starts is the one that was handed over with its call. -/
theorem Filed.started {s t : State τ} {tasks : List τ} {events : List Event} {task : Option τ}
    {call : Nat} (hs : Filed s tasks) (h : Change s t task events)
    (hmem : .started call ∈ events) :
    ∃ b left task, tasks[call]? = some task ∧ t.place = .body b left call task := by
  cases h with
  | begins => cases hmem
  | proceeds c others queue submitters events left _ ha _ _ => cases ha <;> simp at hmem
  | starts b left call' task queue hq _ hp _ _ =>
    obtain rfl : call = call' := by simpa using hmem
    exact ⟨b, left, task, hs.queued (call, task) (by rw [hq]; exact List.mem_cons_self), hp⟩
  | ends => simp at hmem
  | keeps events _ _ he => cases he _ hmem

/-- A loop that is gone has run all that was pushed. -/
theorem Traced.all_run {s : State τ} {history : List Event} {tasks : List τ}
    (h : Traced code parkTimeout now s history tasks) (hgone : s.phase = .gone) :
    startedCalls history = pushedCalls history ∧ finishedCalls history = startedCalls history := by
  obtain ⟨hqueued, hrunning⟩ := h.ledger.flow
  rw [h.orderly.queue_eq_nil hgone, List.map_nil, List.append_nil] at hqueued
  have hidle : s.place.running? = none := by
    obtain hp | hp := Place.eq_of_part_finished (h.orderly.part_eq_finished hgone)
    · rw [hp]
      rfl
    · rw [hp]
      rfl
  rw [hidle, Option.toList_none, List.append_nil] at hrunning
  exact ⟨hqueued, hrunning⟩

/-- Tasks are started in the order in which they were pushed, each as it was handed over; a refused
one is neither pushed nor started; the last look at the queue never finds a task.  When the loop is
gone its queue is empty, and every call that was told that its task was taken, or will be, began
before, and its task has been run once.  Nothing runs any more. -/
theorem tasks_delivered {s : State τ} {history : List Event} {tasks : List τ}
    (h : Traced code parkTimeout now s history tasks) :
    startedCalls history <+: pushedCalls history ∧
      (∀ label t events, step code parkTimeout s label = some (t, events) →
        ∀ call, .started call ∈ events →
          ∃ b left task, tasks[call]? = some task ∧ t.place = .body b left call task) ∧
      (∀ call, .rejected call ∈ history →
        call ∉ pushedCalls history ∧ call ∉ startedCalls history) ∧
      s.place ≠ .failed ∧
      (s.phase = .gone → s.queue = [] ∧
        ∀ t later, Later code parkTimeout s later t → startedCalls later = [] ∧
          ∀ call, .accepted call ∈ history ++ later → call < s.calls ∧
            (startedCalls history).count call = 1 ∧ (finishedCalls history).count call = 1) := by
  obtain ⟨hflow, -, hdocket, hfiled⟩ := h.ledger
  refine ⟨hflow.started_prefix, ?_, ?_, ?_, fun hgone => ⟨h.orderly.queue_eq_nil hgone, ?_⟩⟩
  · intro label t events hstep call hmem
    exact hfiled.started (step_change hstep) hmem
  · intro call hcall
    have hnot := hdocket.not_pushed_of_rejected hcall
    exact ⟨hnot, fun hmem => hnot (hflow.started_prefix.subset hmem)⟩
  · intro hfailed
    have hknows := h.orderly.queue
    rw [hfailed] at hknows
    exact hknows
  · intro t later hl
    obtain ⟨more, ht⟩ := h.later hl
    obtain ⟨hnone, htgone⟩ := h.pushedCalls_later hgone hl
    obtain ⟨hstarted, hfinished⟩ := h.all_run hgone
    have hsame : pushedCalls (history ++ later) = pushedCalls history := by
      rw [pushedCalls_append, hnone, List.append_nil]
    refine ⟨?_, fun call hcall => ?_⟩
    · have hlater := (ht.all_run htgone).1
      rw [hsame, startedCalls_append, hstarted] at hlater
      exact List.append_right_eq_self.1 hlater
    · have hcount := ht.ledger.docket.count_pushedCalls_of_accepted hcall
      rw [hsame] at hcount
      refine ⟨hdocket.lt_of_pushed (List.count_pos_iff.1 (by omega)), ?_, ?_⟩
      · rw [hstarted, hcount]
      · rw [hfinished, hstarted, hcount]

/-- Follow given steps, all of which have to be possible. -/
def follow (code : Code τ) (parkTimeout : Span) :
    State τ → List Event → List τ → List (Step τ) → Option (State τ × List Event × List τ)
  | s, history, tasks, [] => some (s, history, tasks)
  | s, history, tasks, label :: labels =>
    match step code parkTimeout s label with
    | none => none
    | some (t, events) =>
      follow code parkTimeout t (history ++ events) (tasks ++ (handed code s label).toList) labels

theorem Traced.follow {labels : List (Step τ)} {s t : State τ} {history events : List Event}
    {tasks more : List τ} (h : Traced code parkTimeout now s history tasks)
    (hf : follow code parkTimeout s history tasks labels = some (t, events, more)) :
    Traced code parkTimeout now t events more := by
  induction labels generalizing s history tasks with
  | nil => cases hf; exact h
  | cons label labels ih =>
    simp only [Loop.follow] at hf
    cases hstep : Loop.step code parkTimeout s label with
    | none => rw [hstep] at hf; cases hf
    | some next =>
      rw [hstep] at hf
      exact ih (h.step label hstep) hf

/-- A task that submits another one and panics, and tasks that only end. -/
def relay : Code Nat
  | 0 => .finish
  | 1 => .submit 0 fun _ => 2
  | _ => .panic

/-- A run in which a caller has looked at the phase before the queue is closed, and pushes behind
it.  The loop waits for this caller, and another one comes too late. -/
def lateRun : List (Step Nat) :=
  let awhile (n : Nat) : List (Step Nat) := .replicate n (.loop ⟨0⟩)
  let later (n : Nat) : List (Step Nat) := .replicate n (.loop ⟨1⟩)
  let caller (i n : Nat) : List (Step Nat) := .replicate n (.caller i)
  .submit 1 :: caller 0 5 ++ .request .none :: caller 0 3 ++ .submit 0 :: caller 0 2 ++ awhile 13 ++
    later 2 ++ .submit 0 :: caller 1 2 ++ later 1 ++ caller 0 2 ++ caller 1 1 ++ later 12

/-- The loop is gone when the late caller is about to hear that its task was taken.  The task has
been run, as the theorem says, and that of the caller who came too late has not. -/
theorem tasks_delivered_late :
    ∃ s history tasks t later, Traced relay .zero ⟨0⟩ s history tasks ∧ s.phase = .gone ∧
      Later relay .zero s later t ∧ .accepted 1 ∈ later ∧ .rejected 3 ∈ history ∧
      (startedCalls history).count 1 = 1 ∧ (finishedCalls history).count 1 = 1 ∧
      3 ∉ startedCalls history := by
  have hrun := Traced.begin.follow
    (show follow relay .zero (.begin ⟨0⟩) [] [] lateRun = some (_, _, _) from rfl)
  obtain ⟨-, -, hrejected, -, hgone⟩ := tasks_delivered hrun
  obtain ⟨-, haccepted⟩ := (hgone rfl).2 _ _ (.step (.caller 0) (.refl _) rfl)
  obtain ⟨-, hstarted, hfinished⟩ := haccepted 1 (by decide)
  exact ⟨_, _, _, _, _, hrun, rfl, .step (.caller 0) (.refl _) rfl, by decide, by decide, hstarted,
    hfinished, (hrejected 3 (by decide)).2⟩

end FrameLoop.Loop
