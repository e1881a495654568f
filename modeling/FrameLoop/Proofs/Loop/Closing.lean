import FrameLoop.Proofs.Loop.Requests

/-
  How a loop closes.  The thread of the loop serves, closes the queue and waits for the
  submissions under way, drains the queue, and is over (`Part`).  The phase follows it, a
  submission that is about to push keeps the loop from draining, and so nothing is pushed from
  then on: when the queue has been found empty, it stays empty (`Orderly`, `Traced.orderly`).
-/

namespace FrameLoop.Loop

variable {τ : Type}

/-- The parts of the life of the thread of a loop. -/
inductive Part
  /-- It runs tasks, and rests. -/
  | serving
  /-- The queue is closed; it waits for the submissions under way. -/
  | closing
  /-- It runs what is left. -/
  | draining
  | finished
  deriving DecidableEq, Repr

namespace Part

/-- The part of a batch. -/
def ofBatch : Batch → Part
  | .round => serving
  | .check _ => serving
  | .drain => draining

/-- The phases that the loop can be in. -/
def Allows : Part → Phase → Prop
  | serving, p => p = .started ∨ p = .stopping
  | closing, p => p = .closed
  | draining, p => p = .closed
  | finished, p => p = .gone

/-- Nothing is pushed any more. -/
def IsSealed : Part → Prop
  | serving => False
  | closing => False
  | draining => True
  | finished => True

end Part

namespace Place

/-- The part of the life of the loop that the place belongs to. -/
def part : Place τ → Part
  | .count b => .ofBatch b
  | .pop b _ _ => .ofBatch b
  | .body b _ _ _ => .ofBatch b
  | .submitting b _ _ _ _ => .ofBatch b
  | .requesting b _ _ _ _ _ => .ofBatch b
  | .stamp b => .ofBatch b
  | .awaitSubmissions => .closing
  | .verify => .draining
  | .failed => .draining
  | .seal => .draining
  | .complete => .finished
  | .stopped => .finished
  | _ => .serving

/-- What the thread of the loop knows of the queue: a draining batch that has run nothing yet
counted all of it, and behind the last batch it is empty. -/
def Knows (queue : List (Nat × τ)) : Place τ → Prop
  | .pop .drain left false => left = queue.length
  | .verify => queue = []
  | .failed => False
  | .seal => queue = []
  | .complete => queue = []
  | .stopped => queue = []
  | _ => True

/-- Before the queue is sealed, nothing is known of it. -/
theorem knows_of_not_sealed {p : Place τ} (h : ¬ p.part.IsSealed) (queue : List (Nat × τ)) :
    p.Knows queue := by
  cases p with
  | pop b left ran =>
    cases b with
    | drain => exact absurd trivial h
    | _ => trivial
  | verify => exact absurd trivial h
  | failed => exact absurd trivial h
  | «seal» => exact absurd trivial h
  | complete => exact absurd trivial h
  | stopped => exact absurd trivial h
  | _ => trivial

end Place

/-- The phase fits the place of the loop, no push is to come once the queue is sealed, and the loop
knows what it needs to know of the queue. -/
structure Orderly (s : State τ) : Prop where
  phase : s.place.part.Allows s.phase
  noPush : s.place.part.IsSealed → ∀ c ∈ s.submissions, c.stage ≠ .push
  queue : s.place.Knows s.queue

variable {code : Code τ} {parkTimeout : Span} {now : Instant}

theorem orderly_begin : Orderly (.begin now : State τ) := ⟨.inl rfl, False.elim, trivial⟩

theorem Part.Allows.isClosed {part : Part} {phase : Phase} (h : part.Allows phase)
    (hsealed : part.IsSealed) : phase.isClosed = true := by
  cases part with
  | serving => exact hsealed.elim
  | closing => exact hsealed.elim
  | draining => rw [show phase = .closed from h]; rfl
  | finished => rw [show phase = .gone from h]; rfl

/-- Behind a closed door no submission goes on to its push. -/
theorem Advance.noPush {s : State τ} {c : Submission τ} {queue : List (Nat × τ)}
    {submitters : Nat} {events : List Event} {left : Option (Submission τ)}
    (h : Advance s c queue submitters events left) (hc : c.stage ≠ .push)
    (hclosed : s.phase.isClosed = true) :
    queue = s.queue ∧ ∀ d ∈ left, d.stage ≠ .push := by
  cases h with
  | push hp => exact absurd hp hc
  | check _ => simp [hclosed]
  | _ => simp

/-- Behind a closed door no submission comes to its push. -/
theorem Change.noPush {s t : State τ} {task : Option τ} {events : List Event}
    (h : Change s t task events) (hs : ∀ c ∈ s.submissions, c.stage ≠ .push)
    (hclosed : s.phase.isClosed = true) : ∀ c ∈ t.submissions, c.stage ≠ .push := by
  cases h with
  | begins task _ ht =>
    intro c hc
    obtain _ | ⟨_, hc⟩ := ht.mem_iff.1 hc
    · exact SubmitStage.noConfusion
    · exact hs c hc
  | proceeds c others queue submitters events left hsub ha ht _ =>
    intro d hd
    have hc := hs c (hsub.mem_iff.2 List.mem_cons_self)
    obtain hd | hd := List.mem_append.1 (ht.mem_iff.1 hd)
    · exact (ha.noPush hc hclosed).2 d (Option.mem_toList.1 hd)
    · exact hs d (hsub.mem_iff.2 (List.mem_cons_of_mem c hd))
  | starts _ _ _ _ _ _ _ _ _ ht => rw [ht]; exact hs
  | ends _ _ _ _ ht => rw [ht]; exact hs
  | keeps _ _ ht _ => rw [ht]; exact hs

/-! ## Steps inside a part -/

/-- A request to stop moves the phase from the first to the second, or not at all. -/
def PhaseKept (s t : State τ) : Prop :=
  t.phase = s.phase ∨ s.phase = .started ∧ t.phase = .stopping

theorem Part.Allows.kept {part : Part} {s t : State τ} (h : part.Allows s.phase)
    (hp : PhaseKept s t) : part.Allows t.phase := by
  obtain hp | ⟨hs, ht⟩ := hp
  · rw [hp]; exact h
  · rw [hs] at h
    rw [ht]
    cases part with
    | serving => exact .inr rfl
    | _ => cases h

/-- A request that holds the lock when the loop was not asked before is the first one. -/
theorem Asks.phaseKept {s t : State τ} {grace : Grace} {stage : RequestStage}
    {events : List Event} {left : Option RequestStage} (h : Asks s grace stage t events left)
    (hs : stage.holds = true → s.phase = .started) : PhaseKept s t := by
  cases h with
  | stores => exact .inr ⟨hs rfl, rfl⟩
  | _ => exact .inl rfl

theorem Orderly.moves {s t : State τ} {task : Option τ} {events : List Event} (hs : Orderly s)
    (h : Change s t task events) (hpart : t.place.part = s.place.part) (hphase : PhaseKept s t)
    (hknows : t.place.part.IsSealed → t.place.Knows t.queue) : Orderly t where
  phase := by rw [hpart]; exact hs.phase.kept hphase
  noPush hsealed := by
    rw [hpart] at hsealed
    exact h.noPush (hs.noPush hsealed) (hs.phase.isClosed hsealed)
  queue := by
    by_cases hsealed : t.place.part.IsSealed
    · exact hknows hsealed
    · exact Place.knows_of_not_sealed hsealed _

theorem Orderly.caller {s t : State τ} {i : Nat} {events : List Event} (hs : Orderly s)
    (hk : Informed s) (h : s.stepCaller i = some (t, events)) : Orderly t := by
  cases hi : s.callers[i]? with
  | none => simp only [State.stepCaller, hi, reduceCtorEq] at h
  | some caller =>
    cases caller with
    | submission c =>
      have hchange := stepCaller_submission hi h
      obtain ⟨before, behind, hcallers, -, -⟩ := exists_around hi
      have hc : c ∈ s.submissions :=
        (submissions_perm s.place hcallers).mem_iff.2 List.mem_cons_self
      obtain ⟨-, -, hplace, hphase⟩ := stepSubmission_state s true c
      have hadvance := stepSubmission_advance s true c
      simp only [State.stepCaller, hi, Option.some.injEq, Prod.mk.injEq] at h
      obtain ⟨rfl, rfl⟩ := h
      refine hs.moves hchange (by simp only [hplace]) (.inl hphase) fun hsealed => ?_
      simp only [hplace] at hsealed ⊢
      rw [(hadvance.noPush (hs.noPush hsealed c hc) (hs.phase.isClosed hsealed)).1]
      exact hs.queue
    | request grace stage =>
      have hchange := stepCaller_request hi h
      obtain ⟨hbooks, -, hplace, -⟩ := stepRequest_state s grace stage
      have hphase : PhaseKept s (s.stepRequest grace stage).state :=
        (stepRequest_asks s grace stage).phaseKept fun hholds =>
          hk.phase_of_holder (Informed.holders_pos_of_caller hi hholds)
      simp only [State.stepCaller, hi, Option.some.injEq, Prod.mk.injEq] at h
      obtain ⟨rfl, rfl⟩ := h
      refine hs.moves hchange (by simp only [hplace]) hphase fun _ => ?_
      simp only [hplace, show (s.stepRequest grace stage).state.queue = s.queue from
        congrArg Books.queue hbooks]
      exact hs.queue

/-! ## Steps of the thread of the loop -/

/-- While a task runs, nothing is known of the queue. -/
theorem Place.knows_of_running {p : Place τ} {call : Nat} (h : p.running? = some call)
    (queue : List (Nat × τ)) : p.Knows queue := by
  cases p with
  | body => trivial
  | submitting => trivial
  | requesting => trivial
  | _ => cases h

/-- The loop counts the queue, and a draining batch knows how long it is. -/
theorem knows_count (b : Batch) (queue : List (Nat × τ)) :
    (Place.pop b queue.length false).Knows queue := by
  cases b with
  | drain => rfl
  | _ => trivial

/-- A batch that is over leaves a queue of which nothing is known, unless it was the last. -/
theorem knows_batchOver {b : Batch} {ran : Bool} {queue : List (Nat × τ)}
    (h : b = .drain → ran = false → queue = []) :
    (State.batchOver b ran : Place τ).Knows queue := by
  cases b with
  | drain =>
    cases ran with
    | true => trivial
    | false => exact h rfl rfl
  | _ => cases ran <;> trivial

theorem part_batchOver (b : Batch) (ran : Bool) :
    (State.batchOver b ran : Place τ).part = .ofBatch b := by
  cases b <;> cases ran <;> rfl

theorem Orderly.pop {s t : State τ} {b : Batch} {left : Nat} {ran : Bool} {events : List Event}
    (hs : Orderly s) (hp : s.place = .pop b left ran)
    (h : s.stepLoop code parkTimeout now = some (t, events)) : Orderly t := by
  have hchange := pop_change hp h
  have hpart : s.place.part = .ofBatch b := by rw [hp]; rfl
  have hknows := hs.queue
  rw [hp] at hknows
  obtain ⟨rfl, rfl, hempty⟩ | ⟨left, call, task, queue, -, rfl, rfl⟩ := stepLoop_pop hp h
  · refine hs.moves hchange (by rw [hpart, part_batchOver]) (.inl rfl) fun _ => ?_
    refine knows_batchOver fun hb hran => ?_
    rw [hb, hran] at hknows
    exact hempty.elim (fun hleft => List.eq_nil_of_length_eq_zero (hknows.symm.trans hleft)) id
  · exact hs.moves hchange hpart.symm (.inl rfl) fun _ => Place.knows_of_running rfl _

theorem Orderly.task {s t : State τ} {call : Nat} {events : List Event} (hs : Orderly s)
    (hk : Informed s) (hr : s.place.running? = some call)
    (h : s.stepLoop code parkTimeout now = some (t, events)) : Orderly t := by
  have hchange := stepLoop_change h
  cases hp : s.place with
  | body b left call running =>
    have hpart : s.place.part = .ofBatch b := by rw [hp]; rfl
    simp only [State.stepLoop, hp, Option.some.injEq] at h
    cases hop : code running <;> simp only [hop, State.stepBody, Prod.mk.injEq] at h <;>
      obtain ⟨rfl, rfl⟩ := h <;>
      exact hs.moves hchange hpart.symm (.inl rfl) fun _ => by cases b <;> trivial
  | submitting b left call c next =>
    have hpart : s.place.part = .ofBatch b := by rw [hp]; rfl
    obtain ⟨-, -, -, hphase⟩ := stepSubmission_state s false c
    simp only [State.stepLoop, hp, Option.some.injEq, Prod.mk.injEq] at h
    obtain ⟨rfl, rfl⟩ := h
    refine hs.moves hchange ?_ (.inl hphase) fun _ => ?_
    · rw [hpart]; dsimp only; split <;> rfl
    · dsimp only; split <;> trivial
  | requesting b left call grace stage next =>
    have hpart : s.place.part = .ofBatch b := by rw [hp]; rfl
    have hphase : PhaseKept s (s.stepRequest grace stage).state :=
      (stepRequest_asks s grace stage).phaseKept fun hholds =>
        hk.phase_of_holder (Informed.holders_pos_of_place (by rw [hp]; exact hholds))
    simp only [State.stepLoop, hp, Option.some.injEq, Prod.mk.injEq] at h
    obtain ⟨rfl, rfl⟩ := h
    refine hs.moves hchange ?_ hphase fun _ => ?_
    · rw [hpart]; dsimp only; split <;> rfl
    · dsimp only; split <;> trivial
  | _ => rw [hp] at hr; cases hr

/-- The queue is sealed when no submission is counted. -/
theorem Tally.noPush {s : State τ} (h : Tally s) (hn : s.submitters = 0) :
    ∀ c ∈ s.submissions, c.stage ≠ .push := by
  intro c hc hpush
  have hpos : 0 < s.submissions.countP fun c => c.stage.isCounted :=
    List.countP_pos_iff.2 ⟨c, hc, by rw [hpush]; rfl⟩
  rw [← h, hn] at hpos
  exact Nat.lt_irrefl _ hpos

theorem Orderly.rest {s t : State τ} {events : List Event} (hs : Orderly s)
    (hp : (∃ limit, s.place = .park limit) ∨ ∃ wakeAt, s.place = .asleep wakeAt)
    (h : s.stepLoop code parkTimeout now = some (t, events)) : Orderly t := by
  have hchange := rest_change hp h
  have hpart : s.place.part = .serving := by
    obtain ⟨_, hp⟩ | ⟨_, hp⟩ := hp <;> rw [hp] <;> rfl
  obtain ⟨rfl, ⟨token, rfl⟩ | ⟨limit, -, rfl⟩⟩ := stepLoop_rest hp h
  · exact hs.moves hchange hpart.symm (.inl rfl) False.elim
  · exact hs.moves hchange hpart.symm (.inl rfl) False.elim

/-- A step of the thread of the loop.  Most of them stay in their part; the queue is closed, sealed
and left behind by one step each. -/
theorem Orderly.loop {s t : State τ} {events : List Event} (hs : Orderly s) (hn : Tally s)
    (hk : Informed s) (h : s.stepLoop code parkTimeout now = some (t, events)) : Orderly t := by
  have hchange := stepLoop_change h
  have hphase := hs.phase
  have hknows := hs.queue
  cases hp : s.place with
  | body => exact hs.task hk (by rw [hp]; rfl) h
  | submitting => exact hs.task hk (by rw [hp]; rfl) h
  | requesting => exact hs.task hk (by rw [hp]; rfl) h
  | pop => exact hs.pop hp h
  | park limit => exact hs.rest (.inl ⟨limit, hp⟩) h
  | asleep wakeAt => exact hs.rest (.inr ⟨wakeAt, hp⟩) h
  | failed => simp only [State.stepLoop, hp, reduceCtorEq] at h
  | stopped => simp only [State.stepLoop, hp, reduceCtorEq] at h
  | count b =>
    simp only [State.stepLoop, hp, Option.some.injEq, Prod.mk.injEq] at h
    obtain ⟨rfl, rfl⟩ := h
    exact hs.moves hchange (by rw [hp]; rfl) (.inl rfl) fun _ => knows_count b s.queue
  | stamp b =>
    simp only [State.stepLoop, hp, Option.some.injEq, Prod.mk.injEq] at h
    obtain ⟨rfl, rfl⟩ := h
    cases b with
    | round => exact hs.moves hchange (by rw [hp]; rfl) (.inl rfl) fun _ => trivial
    | drain => exact hs.moves hchange (by rw [hp]; rfl) (.inl rfl) fun _ => trivial
    | check g =>
      -- the quiet period decides whether the queue is closed or looked at again
      refine hs.moves hchange ?_ (.inl rfl) fun _ => ?_
      · rw [hp]
        dsimp only
        split <;> rfl
      · dsimp only
        split <;> trivial
  | close =>
    simp only [State.stepLoop, hp, Option.some.injEq, Prod.mk.injEq] at h
    obtain ⟨rfl, rfl⟩ := h
    exact ⟨rfl, False.elim, trivial⟩
  | awaitSubmissions =>
    rw [hp] at hphase
    by_cases hzero : s.submitters = 0
    · simp only [State.stepLoop, hp, hzero, if_true, Option.some.injEq, Prod.mk.injEq] at h
      obtain ⟨rfl, rfl⟩ := h
      refine ⟨hphase, fun _ c hc => hn.noPush hzero c ?_, trivial⟩
      rwa [State.submissions, hp]
    · simp only [State.stepLoop, hp, hzero, if_false, Option.some.injEq, Prod.mk.injEq] at h
      obtain ⟨rfl, rfl⟩ := h
      exact hs.moves hchange (by rw [hp]) (.inl rfl) False.elim
  | verify =>
    rw [hp] at hknows
    have hempty : s.queue.isEmpty = true := List.isEmpty_iff.2 hknows
    simp only [State.stepLoop, hp, hempty, if_true, Option.some.injEq, Prod.mk.injEq] at h
    obtain ⟨rfl, rfl⟩ := h
    exact hs.moves hchange (by rw [hp]; rfl) (.inl rfl) fun _ => hknows
  | «seal» =>
    rw [hp] at hknows
    have hnoPush := hs.noPush (by rw [hp]; trivial)
    rw [State.submissions, hp] at hnoPush
    simp only [State.stepLoop, hp, Option.some.injEq, Prod.mk.injEq] at h
    obtain ⟨rfl, rfl⟩ := h
    exact ⟨rfl, fun _ => hnoPush, hknows⟩
  | complete =>
    rw [hp] at hknows
    simp only [State.stepLoop, hp, Option.some.injEq, Prod.mk.injEq] at h
    obtain ⟨rfl, rfl⟩ := h
    exact hs.moves hchange (by rw [hp]; rfl) (.inl rfl) fun _ => hknows
  | _ =>
    simp only [State.stepLoop, hp, Option.some.injEq, Prod.mk.injEq] at h
    obtain ⟨rfl, rfl⟩ := h
    refine hs.moves hchange ?_ (.inl rfl) fun _ => ?_
    · rw [hp]; dsimp only; repeat' split
      all_goals rfl
    · dsimp only; repeat' split
      all_goals trivial

/-! ## Runs -/

theorem Orderly.step {s t : State τ} {label : Step τ} {events : List Event} (hs : Orderly s)
    (hn : Tally s) (hk : Informed s) (h : step code parkTimeout s label = some (t, events)) :
    Orderly t := by
  have hchange := step_change h
  cases label with
  | submit task =>
    simp only [Loop.step, Option.some.injEq, Prod.mk.injEq] at h
    obtain ⟨rfl, rfl⟩ := h
    exact hs.moves hchange rfl (.inl rfl) fun _ => hs.queue
  | request grace =>
    simp only [Loop.step, Option.some.injEq, Prod.mk.injEq] at h
    obtain ⟨rfl, rfl⟩ := h
    exact hs.moves hchange rfl (.inl rfl) fun _ => hs.queue
  | release =>
    simp only [Loop.step, Option.some.injEq, Prod.mk.injEq] at h
    obtain ⟨rfl, rfl⟩ := h
    exact hs.moves hchange rfl (.inl rfl) fun _ => hs.queue
  | caller i => exact hs.caller hk h
  | loop now =>
    obtain ⟨-, u, hu, rfl⟩ := loop_of_step h
    obtain ⟨hphase, hnoPush, hqueue⟩ := hs.loop hn hk hu
    exact ⟨hphase, hnoPush, hqueue⟩
  | rouse =>
    obtain ⟨⟨wakeAt, hp⟩, rfl, rfl⟩ := rouse_of_step h
    exact hs.moves hchange (by rw [hp]; rfl) (.inl rfl) False.elim

theorem Traced.orderly {s : State τ} {history : List Event} {tasks : List τ}
    (h : Traced code parkTimeout now s history tasks) : Orderly s := by
  induction h with
  | begin => exact orderly_begin
  | step label htraced hstep ih => exact ih.step htraced.ledger.tally htraced.informed hstep

end FrameLoop.Loop
