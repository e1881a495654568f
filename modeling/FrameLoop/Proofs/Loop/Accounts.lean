import FrameLoop.Proofs.Loop.Quiet

/-
  What a batch runs, and what it leaves.  The account of a run (`Account`, `Spell`) says which tasks
  have begun, what they have submitted, and what was pushed by others.  In every run the tasks begin
  in the order of the queue, and what is pushed comes behind it (`Spell.queue`).  What a running
  task submits is answered before the task goes on, and in a batch the answer is the same for all
  (`Kept`), for the queue is closed in a draining batch and in no other.  A batch takes as many
  tasks as it has counted (`Budget`).  So it runs just what it has counted, however much is pushed
  meanwhile (`Spell.batch_over`, `Spell.drain_over`).
-/

namespace FrameLoop.Loop

variable {τ : Type} {code : Code τ} {parkTimeout : Span} {start now : Instant}

/-! ## What happens in a run -/

/-- The step is one of the thread of the loop. -/
def Step.isLoop : Step τ → Bool
  | .loop _ => true
  | _ => false

/-- The task that begins with a step, by the events of the step and the state behind it. -/
def begun (events : List Event) (t : State τ) : List (Nat × τ) :=
  match t.place with
  | .body _ _ call task => if .started call ∈ events then [(call, task)] else []
  | _ => []

/-- What happens in a run, as far as it concerns the tasks. -/
structure Account (τ : Type) where
  /-- The calls whose tasks have begun, with the tasks, in this order. -/
  ran : List (Nat × τ) := []
  /-- The calls in which running tasks have submitted a task, with these tasks, in this order. -/
  submitted : List (Nat × τ) := []
  /-- The calls whose tasks were pushed by other threads. -/
  foreign : List Nat := []
  events : List Event := []

/-- One step more, from `s` to `t`. -/
def Account.extend (a : Account τ) (code : Code τ) (s : State τ) (label : Step τ)
    (events : List Event) (t : State τ) : Account τ where
  ran := a.ran ++ begun events t
  submitted := a.submitted ++
    if label.isLoop then ((handed code s label).map (s.calls, ·)).toList else []
  foreign := a.foreign ++ if label.isLoop then [] else pushedCalls events
  events := a.events ++ events

/-- A run from `s`, of steps by any thread, in which the thread of the loop goes on as long as it is
at a place of this kind. -/
inductive Spell (code : Code τ) (parkTimeout : Span) (inside : Place τ → Prop) (s : State τ) :
    Account τ → State τ → Prop
  | begin : Spell code parkTimeout inside s {} s
  | step {t u : State τ} {a : Account τ} {events : List Event} (label : Step τ) :
    Spell code parkTimeout inside s a t → inside t.place →
    step code parkTimeout t label = some (u, events) →
    Spell code parkTimeout inside s (a.extend code t label events u) u

theorem Spell.later {inside : Place τ → Prop} {s t : State τ} {a : Account τ}
    (h : Spell code parkTimeout inside s a t) : Later code parkTimeout s a.events t := by
  induction h with
  | begin => exact .refl s
  | step label _ _ hstep ih => exact .step label ih hstep

/-! ## The queue -/

theorem begun_eq_nil {events : List Event} (h : ∀ call, .started call ∉ events) (t : State τ) :
    begun events t = [] := by
  unfold begun
  split
  · exact if_neg (h _)
  · rfl

/-- A step takes the task that begins with it from the front of the queue, and what is pushed comes
behind it. -/
theorem Change.queue {s t : State τ} {task : Option τ} {events : List Event}
    (h : Change s t task events) :
    startedCalls events = (begun events t).map Prod.fst ∧
      ∃ arrived, begun events t ++ t.queue = s.queue ++ arrived ∧
        pushedCalls events = arrived.map Prod.fst := by
  cases h with
  | begins task hb _ =>
    rw [begun_eq_nil (by simp)]
    exact ⟨rfl, [], by rw [List.append_nil]; exact congrArg Books.queue hb, rfl⟩
  | proceeds c others queue submitters events left _ ha _ hb =>
    have hq : t.queue = queue := congrArg Books.queue hb
    have hnone : begun events t = [] := begun_eq_nil (by cases ha <;> simp) t
    rw [hnone, hq]
    cases ha with
    | push => exact ⟨rfl, [(c.call, c.task)], rfl, rfl⟩
    | _ => exact ⟨rfl, [], (List.append_nil _).symm, rfl⟩
  | starts b left call task queue hs _ ht hb _ =>
    have hbegun : begun [.started call] t = [(call, task)] := by simp [begun, ht]
    rw [hbegun, hs, show t.queue = queue from congrArg Books.queue hb]
    exact ⟨rfl, [], (List.append_nil _).symm, rfl⟩
  | ends call failed _ hb _ =>
    rw [begun_eq_nil (by simp)]
    exact ⟨rfl, [], by rw [List.append_nil]; exact congrArg Books.queue hb, rfl⟩
  | keeps events hb _ he =>
    obtain ⟨hpushed, hstarted, -⟩ := calls_eq_nil he
    rw [begun_eq_nil (fun call hmem => by cases he _ hmem) t, hstarted, hpushed]
    exact ⟨rfl, [], by rw [List.append_nil]; exact congrArg Books.queue hb, rfl⟩

/-- In a run the tasks begin in the order of the queue, and what arrives is behind it. -/
theorem Spell.queue {inside : Place τ → Prop} {s t : State τ} {a : Account τ}
    (h : Spell code parkTimeout inside s a t) :
    startedCalls a.events = a.ran.map Prod.fst ∧
      ∃ arrived, a.ran ++ t.queue = s.queue ++ arrived ∧
        pushedCalls a.events = arrived.map Prod.fst := by
  induction h with
  | begin => exact ⟨rfl, [], (List.append_nil _).symm, rfl⟩
  | step label _ _ hstep ih =>
    obtain ⟨hran, earlier, hearlier, hcalls⟩ := ih
    obtain ⟨hstarted, arrived, hqueue, hpushed⟩ := (step_change hstep).queue
    simp only [Account.extend]
    refine ⟨by rw [startedCalls_append, List.map_append, hran, hstarted],
      earlier ++ arrived, ?_, by rw [pushedCalls_append, List.map_append, hcalls, hpushed]⟩
    rw [List.append_assoc, hqueue, ← List.append_assoc, hearlier, List.append_assoc]

/-! ## What the running task submits -/

/-- The answer to a submission, by a loop that is closed or not. -/
def verdict (closed : Bool) (call : Nat) : Event :=
  if closed then .rejected call else .accepted call

/-- A submission can be at this stage when it is made to a loop that is closed, or not. -/
def SubmitStage.Fits (closed : Bool) : SubmitStage → Prop
  | .enter => True
  | .check => True
  | .retreat => closed = true
  | _ => closed = false

/-- The submission, unless its task is pushed. -/
def unpushed : Option (Submission τ) → List (Nat × τ)
  | some c => if c.stage.isPushed then [] else [(c.call, c.task)]
  | none => []

/-- What a step of the thread of the loop from `s` to `t` does to the submission of the running
task: the call that begins with it, and its events. -/
inductive Own (s t : State τ) : Option (Nat × τ) → List Event → Prop
  | silent (events : List Event) :
    s.place.submission? = none → t.place.submission? = none → pushedCalls events = [] →
    Own s t none events
  | begins (task : τ) :
    s.place.submission? = none → t.place.submission? = some ⟨s.calls, task, .enter⟩ →
    Own s t (some (s.calls, task)) []
  | proceeds (c : Submission τ) (queue : List (Nat × τ)) (submitters : Nat) (events : List Event)
    (left : Option (Submission τ)) :
    s.place.submission? = some c → Advance s c queue submitters events left → t.queue = queue →
    t.place.submission? = left → Own s t none events

namespace Place

/-- The batch that is under way. -/
def batch? : Place τ → Option Batch
  | .pop b _ _ => some b
  | .body b _ _ _ => some b
  | .submitting b _ _ _ _ => some b
  | .requesting b _ _ _ _ _ => some b
  | _ => none

/-- How many tasks the batch may still take. -/
def left : Place τ → Nat
  | .pop _ left _ => left
  | .body _ left _ _ => left
  | .submitting _ left _ _ _ => left
  | .requesting _ left _ _ _ _ => left
  | _ => 0

/-- The batch for which the loop counts its queue, or that is under way. -/
def serves? : Place τ → Option Batch
  | .count b => some b
  | p => p.batch?

theorem serves?_of_batch? {p : Place τ} {b : Batch} (h : p.batch? = some b) :
    p.serves? = some b := by
  cases p <;> cases h <;> rfl

theorem part_of_serves {p : Place τ} {b : Batch} (h : p.serves? = some b) :
    p.part = .ofBatch b := by
  cases p <;> cases h <;> rfl

end Place

theorem own_of_body {s t : State τ} {b : Batch} {left call : Nat} {running : τ}
    {events : List Event} (hp : s.place = .body b left call running)
    (h : s.stepLoop code parkTimeout now = some (t, events)) :
    Own s t ((handed code s (.loop now)).map (s.calls, ·)) events := by
  have hs : s.place.submission? = none := by rw [hp]; rfl
  simp only [State.stepLoop, hp, Option.some.injEq] at h
  simp only [handed, hp]
  cases hop : code running <;> simp only [hop, State.stepBody, Prod.mk.injEq] at h <;>
    obtain ⟨rfl, rfl⟩ := h
  case submit task next => exact .begins task hs rfl
  all_goals exact .silent _ hs rfl rfl

/-- A step of the thread of the loop in a batch. -/
theorem own_of_stepLoop {s t : State τ} {b : Batch} {events : List Event}
    (hp : s.place.serves? = some b)
    (h : s.stepLoop code parkTimeout now = some (t, events)) :
    Own s t ((handed code s (.loop now)).map (s.calls, ·)) events := by
  cases hplace : s.place with
  | body b left call running => exact own_of_body hplace h
  | submitting b left call c next =>
    have hadvance := stepSubmission_advance s false c
    rw [handed_loop_eq_none code now (by simp [hplace])]
    simp only [State.stepLoop, hplace, Option.some.injEq, Prod.mk.injEq] at h
    obtain ⟨rfl, rfl⟩ := h
    refine .proceeds c _ _ _ _ (by rw [hplace]; rfl) hadvance rfl ?_
    dsimp only
    cases (s.stepSubmission false c).value <;> rfl
  | requesting b left call grace stage next =>
    obtain ⟨-, -, -, hevents⟩ := stepRequest_state s grace stage
    rw [handed_loop_eq_none code now (by simp [hplace])]
    simp only [State.stepLoop, hplace, Option.some.injEq, Prod.mk.injEq] at h
    obtain ⟨rfl, rfl⟩ := h
    refine .silent _ (by rw [hplace]; rfl) ?_ (calls_eq_nil hevents).1
    dsimp only
    cases (s.stepRequest grace stage).value <;> rfl
  | pop b left ran =>
    rw [handed_loop_eq_none code now (by simp [hplace])]
    obtain ⟨rfl, rfl, -⟩ | ⟨left, call, task, queue, -, rfl, rfl⟩ := stepLoop_pop hplace h
    · exact .silent _ (by rw [hplace]; rfl)
        (Place.submission?_eq_none (running?_batchOver b ran)) rfl
    · exact .silent _ (by rw [hplace]; rfl) rfl rfl
  | count b =>
    rw [handed_loop_eq_none code now (by simp [hplace])]
    simp only [State.stepLoop, hplace, Option.some.injEq, Prod.mk.injEq] at h
    obtain ⟨rfl, rfl⟩ := h
    exact .silent _ (by rw [hplace]; rfl) rfl rfl
  | _ => rw [hplace] at hp; cases hp

namespace Own

variable {s t : State τ} {own : Option (Nat × τ)} {events : List Event} {closed : Bool}

/-- The submission of the running task is never at a stage that does not fit. -/
theorem fits (h : Own s t own events) (hclosed : s.phase.isClosed = closed)
    (hs : ∀ c ∈ s.place.submission?, c.stage.Fits closed) :
    ∀ c ∈ t.place.submission?, c.stage.Fits closed := by
  cases h with
  | silent _ _ ht _ => simp [ht]
  | begins task _ ht => simp [ht, SubmitStage.Fits]
  | proceeds c _ _ _ _ hc ha _ ht =>
    have hfits := hs c hc
    rw [ht]
    cases ha with
    | check => cases closed <;> simp [hclosed, SubmitStage.Fits]
    | _ hstage => simp_all [SubmitStage.Fits]

/-- A submission of the running task is under way until it is answered, and the answer is the same
for all. -/
theorem answers (h : Own s t own events) (hs : ∀ c ∈ s.place.submission?, c.stage.Fits closed) :
    (∀ c ∈ s.place.submission?,
      (∃ d ∈ t.place.submission?, d.call = c.call) ∨ verdict closed c.call ∈ events) ∧
      ∀ x ∈ own, ∃ d ∈ t.place.submission?, d.call = x.1 := by
  cases h with
  | silent _ hs' _ _ => simp [hs']
  | begins task hs' ht => simp [hs', ht]
  | proceeds c _ _ _ _ hc ha _ ht =>
    have hfits := hs c hc
    rw [hc, ht]
    cases ha <;> simp_all [SubmitStage.Fits, verdict]

/-- As long as the loop is not closed, what the running task has submitted is pushed, or is about to
be. -/
theorem pushes (h : Own s t own events) (hs : ∀ c ∈ s.place.submission?, c.stage.Fits false)
    {arrived : List (Nat × τ)} (hq : begun events t ++ t.queue = s.queue ++ arrived)
    (hpushed : pushedCalls events = arrived.map Prod.fst) :
    arrived ++ unpushed t.place.submission? = unpushed s.place.submission? ++ own.toList := by
  cases h with
  | silent _ hs' ht hnone =>
    rw [hnone] at hpushed
    simp [List.map_eq_nil_iff.1 hpushed.symm, hs', ht, unpushed]
  | begins task hs' ht =>
    simp [List.map_eq_nil_iff.1 hpushed.symm, hs', ht, unpushed, SubmitStage.isPushed]
  | proceeds c _ _ _ _ hc ha htq ht =>
    have hfits := hs c hc
    have hnone : begun events t = [] := begun_eq_nil (by cases ha <;> simp) t
    rw [hnone, htq, List.nil_append] at hq
    rw [hc, ht, Option.toList_none, List.append_nil]
    cases ha with
    | push hstage =>
      rw [← List.append_cancel_left hq]
      simp [unpushed, hstage, SubmitStage.isPushed]
    | retreat hstage => simp [hstage, SubmitStage.Fits] at hfits
    | check hstage =>
      rw [List.self_eq_append_right.1 hq]
      cases s.phase.isClosed <;> simp [unpushed, hstage, SubmitStage.isPushed]
    | _ hstage =>
      rw [List.self_eq_append_right.1 hq]
      simp_all [unpushed, SubmitStage.isPushed]

end Own

/-! ## The books of a batch -/

/-- The queue is closed in a draining batch, and in no other. -/
def Batch.isDrain : Batch → Bool
  | .drain => true
  | _ => false

theorem Orderly.isClosed_eq {s : State τ} {b : Batch} (h : Orderly s)
    (hb : s.place.serves? = some b) : s.phase.isClosed = b.isDrain := by
  have hphase := h.phase
  rw [Place.part_of_serves hb] at hphase
  cases b with
  | drain => exact hphase.isClosed trivial
  | _ => obtain hphase | hphase := hphase <;> rw [hphase] <;> rfl

/-- In a batch only the thread of the loop goes on to another place. -/
theorem place_eq_of_serves {s t : State τ} {b : Batch} {label : Step τ} {events : List Event}
    (hb : s.place.serves? = some b) (hlabel : label.isLoop = false)
    (h : step code parkTimeout s label = some (t, events)) : t.place = s.place := by
  obtain ⟨now, rfl⟩ | hplace | ⟨⟨wakeAt, hasleep⟩, -⟩ := place_of_step h
  · cases hlabel
  · exact hplace
  · rw [hasleep] at hb
    cases hb

/-- What the running tasks have submitted in a run from `s` to `t`, while the loop counted or served
batches that found it closed, or not. -/
structure Kept (closed : Bool) (s : State τ) (a : Account τ) (t : State τ) : Prop where
  /-- When nobody else pushes, all that arrives was submitted by the tasks that run. -/
  sole : closed = false → a.foreign = [] →
    a.ran ++ t.queue ++ unpushed t.place.submission? = s.queue ++ a.submitted
  fits : ∀ c ∈ t.place.submission?, c.stage.Fits closed
  answered : ∀ x ∈ a.submitted,
    (∃ d ∈ t.place.submission?, d.call = x.1) ∨ verdict closed x.1 ∈ a.events

namespace Kept

variable {closed : Bool} {s t u : State τ} {a : Account τ} {events : List Event} {b : Batch}

theorem begin (h : s.place.submission? = none) : Kept closed s {} s where
  sole _ _ := by rw [h]; simp [unpushed]
  fits := by simp [h]
  answered := by simp

theorem loop (hs : Kept b.isDrain s a t) (hb : t.place.serves? = some b) (ht : Orderly t)
    (h : step code parkTimeout t (.loop now) = some (u, events)) :
    Kept b.isDrain s (a.extend code t (.loop now) events u) u := by
  obtain ⟨-, arrived, hqueue, hpushed⟩ := (step_change h).queue
  obtain ⟨-, v, hv, rfl⟩ := loop_of_step h
  have hown := own_of_stepLoop hb hv
  obtain ⟨hunder, hnew⟩ := hown.answers hs.fits
  constructor
  case sole =>
    intro hopen hforeign
    have hfits := hs.fits
    rw [hopen] at hfits
    have hearlier := hs.sole hopen (List.append_eq_nil_iff.1 hforeign).1
    simp only [Account.extend, Step.isLoop, if_true]
    rw [List.append_assoc a.ran, hqueue, ← List.append_assoc a.ran, List.append_assoc _ arrived,
      hown.pushes hfits hqueue hpushed, ← List.append_assoc, hearlier, List.append_assoc]
  case fits => exact hown.fits (ht.isClosed_eq hb) hs.fits
  case answered =>
    intro x hx
    obtain hx | hx := List.mem_append.1 hx
    · obtain ⟨c, hc, hcall⟩ | hanswer := hs.answered x hx
      · rw [← hcall]
        exact (hunder c hc).imp id fun hmem => List.mem_append_right _ hmem
      · exact .inr (List.mem_append_left _ hanswer)
    · exact .inl (hnew x (Option.mem_toList.1 hx))

theorem others {label : Step τ} (hs : Kept closed s a t) (hb : t.place.serves? = some b)
    (hlabel : label.isLoop = false) (h : step code parkTimeout t label = some (u, events)) :
    Kept closed s (a.extend code t label events u) u := by
  obtain ⟨-, arrived, hqueue, hpushed⟩ := (step_change h).queue
  have hplace := place_eq_of_serves hb hlabel h
  have hsame : (a.extend code t label events u).submitted = a.submitted := by
    simp [Account.extend, hlabel]
  constructor
  case sole =>
    intro hopen hforeign
    simp only [Account.extend, hlabel, Bool.false_eq_true, if_false] at hforeign
    obtain ⟨hforeign, hnone⟩ := List.append_eq_nil_iff.1 hforeign
    rw [hnone] at hpushed
    rw [List.map_eq_nil_iff.1 hpushed.symm, List.append_nil] at hqueue
    have hearlier := hs.sole hopen hforeign
    rw [hsame, hplace, ← hearlier, ← hqueue, ← List.append_assoc]
    rfl
  case fits => rw [hplace]; exact hs.fits
  case answered =>
    rw [hsame, hplace]
    exact fun x hx => (hs.answered x hx).imp id fun hmem => List.mem_append_left _ hmem

/-- Where no task submits, all that was submitted is answered. -/
theorem all_answered (hs : Kept closed s a t) (ht : t.place.submission? = none) :
    ∀ x ∈ a.submitted, verdict closed x.1 ∈ a.events := by
  intro x hx
  obtain ⟨d, hd, -⟩ | hanswer := hs.answered x hx
  · rw [ht] at hd
    cases hd
  · exact hanswer

end Kept

theorem Spell.kept {inside : Place τ → Prop} {b : Batch} {s t : State τ} {a : Account τ}
    {history : List Event} {tasks : List τ} (h : Spell code parkTimeout inside s a t)
    (htraced : Traced code parkTimeout start s history tasks) (hs : s.place.submission? = none)
    (hinside : ∀ p, inside p → p.serves? = some b) : Kept b.isDrain s a t := by
  induction h with
  | begin => exact .begin hs
  | step label hspell hin hstep ih =>
    obtain ⟨more, ht⟩ := htraced.later hspell.later
    cases label with
    | loop now => exact ih.loop (hinside _ hin) ht.orderly hstep
    | _ => exact ih.others (hinside _ hin) rfl hstep

/-! ## The number of tasks -/

theorem batch?_batchOver (b : Batch) (ran : Bool) :
    (State.batchOver b ran : Place τ).batch? = none := by
  cases b <;> cases ran <;> rfl

/-- A task begins only with a step before which none runs, and behind which one does. -/
theorem Change.begun_eq_nil {s t : State τ} {task : Option τ} {events : List Event}
    (h : Change s t task events) (hr : t.place.running? ≠ none → s.place.running? ≠ none) :
    begun events t = [] := by
  refine Loop.begun_eq_nil (fun call hmem => ?_) t
  cases h with
  | begins => cases hmem
  | proceeds c others queue submitters events left _ ha _ _ => cases ha <;> simp at hmem
  | starts _ _ _ _ _ _ hidle ht => exact hr (by simp [ht, Place.running?]) hidle
  | ends => simp at hmem
  | keeps events _ _ he => cases he _ hmem

/-- While a task runs, the batch goes on. -/
theorem batch_of_running {s t : State τ} {b : Batch} {call : Nat} {events : List Event}
    (hb : s.place.batch? = some b) (hr : s.place.running? = some call)
    (h : s.stepLoop code parkTimeout now = some (t, events)) :
    t.place.batch? = some b ∧ t.place.left = s.place.left ∧
      t.place.hasRun = s.place.hasRun := by
  cases hp : s.place with
  | body c left call running =>
    rw [hp] at hb
    simp only [State.stepLoop, hp, Option.some.injEq] at h
    cases hop : code running <;> simp only [hop, State.stepBody, Prod.mk.injEq] at h <;>
      obtain ⟨rfl, rfl⟩ := h <;> exact ⟨hb, rfl, rfl⟩
  | submitting c left call submission next =>
    rw [hp] at hb
    simp only [State.stepLoop, hp, Option.some.injEq, Prod.mk.injEq] at h
    obtain ⟨rfl, rfl⟩ := h
    dsimp only
    cases (s.stepSubmission false submission).value <;> exact ⟨hb, rfl, rfl⟩
  | requesting c left call grace stage next =>
    rw [hp] at hb
    simp only [State.stepLoop, hp, Option.some.injEq, Prod.mk.injEq] at h
    obtain ⟨rfl, rfl⟩ := h
    dsimp only
    cases (s.stepRequest grace stage).value <;> exact ⟨hb, rfl, rfl⟩
  | _ => rw [hp] at hr; cases hr

/-- A batch that has counted `n` tasks, and where it is: it may take as many as are not yet taken,
or it is over. -/
inductive Budget (b : Batch) (n : Nat) (ran : List (Nat × τ)) (p : Place τ) : Prop
  | goes : p.batch? = some b → ran.length + p.left = n → p.hasRun = !ran.isEmpty →
    Budget b n ran p
  | spent : p = State.batchOver b (!ran.isEmpty) → ran.length = n → Budget b n ran p

theorem Place.eq_pop {p : Place τ} {b : Batch} (hb : p.batch? = some b) (hr : p.running? = none) :
    ∃ left ran, p = .pop b left ran := by
  cases p with
  | pop c left ran =>
    cases hb
    exact ⟨left, ran, rfl⟩
  | body => cases hr
  | submitting => cases hr
  | requesting => cases hr
  | _ => cases hb

/-- A task that starts is one of those that the batch may still take. -/
theorem left_of_pop {s t : State τ} {b : Batch} {left rest call : Nat} {ran : Bool} {task : τ}
    {events : List Event} (hp : s.place = .pop b left ran) (ht : t.place = .body b rest call task)
    (h : s.stepLoop code parkTimeout now = some (t, events)) : rest + 1 = left := by
  cases left with
  | zero =>
    simp only [State.stepLoop, hp, Option.some.injEq, Prod.mk.injEq] at h
    rw [← h.1] at ht
    cases b <;> cases ran <;> cases ht
  | succ left =>
    cases hq : s.queue with
    | nil =>
      simp only [State.stepLoop, hp, hq, Option.some.injEq, Prod.mk.injEq] at h
      rw [← h.1] at ht
      cases b <;> cases ran <;> cases ht
    | cons entry queue =>
      simp only [State.stepLoop, hp, hq, Option.some.injEq, Prod.mk.injEq] at h
      rw [← h.1] at ht
      cases ht
      rfl

/-- The thread of the loop goes on.  The queue is not empty before the budget is spent. -/
theorem Budget.loop {b : Batch} {n : Nat} {ran : List (Nat × τ)} {s t : State τ}
    {events : List Event} (hs : Budget b n ran s.place) (hb : s.place.batch? = some b)
    (hn : n ≤ ran.length + s.queue.length)
    (h : step code parkTimeout s (.loop now) = some (t, events)) :
    Budget b n (ran ++ begun events t) t.place := by
  have hchange := step_change h
  obtain ⟨-, u, hu, rfl⟩ := loop_of_step h
  cases hs with
  | spent hp _ => rw [hp, batch?_batchOver] at hb; cases hb
  | goes _ hleft hrun =>
    cases hr : s.place.running? with
    | some call =>
      obtain ⟨htb, htleft, htrun⟩ := batch_of_running hb hr hu
      rw [hchange.begun_eq_nil fun _ => by simp [hr], List.append_nil]
      exact .goes htb (by rw [← hleft, ← htleft]) (htrun.trans hrun)
    | none =>
      obtain ⟨left, haveRun, hp⟩ := Place.eq_pop hb hr
      rw [hp] at hleft hrun
      obtain ⟨rfl, rfl, hspent⟩ | ⟨left', call, task, queue, hq, rfl, rfl⟩ := stepLoop_pop hp hu
      · rw [Loop.begun_eq_nil (by simp), List.append_nil]
        refine .spent (by rw [← hrun]; rfl) ?_
        obtain rfl | hempty := hspent
        · exact hleft
        · rw [hempty, List.length_nil] at hn
          exact Nat.le_antisymm (by rw [← hleft]; exact Nat.le_add_right _ _) hn
      · have hspent := left_of_pop hp rfl hu
        rw [show begun _ _ = [(call, task)] by simp [begun]]
        refine .goes rfl ?_ (by simp [Place.hasRun])
        rw [← hleft, List.length_append, Nat.add_assoc]
        exact congrArg _ ((Nat.add_comm 1 _).trans hspent)

theorem Budget.others {b : Batch} {n : Nat} {ran : List (Nat × τ)} {s t : State τ}
    {label : Step τ} {events : List Event} (hs : Budget b n ran s.place)
    (hb : s.place.batch? = some b) (hlabel : label.isLoop = false)
    (h : step code parkTimeout s label = some (t, events)) :
    Budget b n (ran ++ begun events t) t.place := by
  have hplace := place_eq_of_serves (Place.serves?_of_batch? hb) hlabel h
  rwa [(step_change h).begun_eq_nil (by rw [hplace]; exact id), List.append_nil, hplace]

theorem Spell.budget {b : Batch} {s t : State τ} {a : Account τ}
    (h : Spell code parkTimeout (fun p => p.batch? = some b) s a t)
    (hs : s.place = .pop b s.queue.length false) : Budget b s.queue.length a.ran t.place := by
  induction h with
  | begin => exact .goes (by rw [hs]; rfl) (by rw [hs]; exact Nat.zero_add _) (by rw [hs]; rfl)
  | step label hspell hin hstep ih =>
    cases label with
    | loop now =>
      refine ih.loop hin ?_ hstep
      obtain ⟨-, arrived, hqueue, -⟩ := hspell.queue
      have hlength := congrArg List.length hqueue
      rw [List.length_append, List.length_append] at hlength
      omega
    | _ => exact ih.others hin rfl hstep

/-! ## What a batch does -/

/-- Nobody pushes while the loop drains its queue. -/
theorem Spell.pushes_nothing {inside : Place τ → Prop} {s t : State τ} {a : Account τ}
    {history : List Event} {tasks : List τ} (h : Spell code parkTimeout inside s a t)
    (htraced : Traced code parkTimeout start s history tasks)
    (hinside : ∀ p, inside p → p.serves? = some .drain) :
    pushedCalls a.events = [] ∧ a.foreign = [] := by
  induction h with
  | begin => exact ⟨rfl, rfl⟩
  | step label hspell hin hstep ih =>
    obtain ⟨more, ht⟩ := htraced.later hspell.later
    obtain ⟨hpushed, hforeign⟩ := ih
    have hsealed := ht.orderly.noPush (by rw [Place.part_of_serves (hinside _ hin)]; trivial)
    have hnone := (step_change hstep).pushedCalls_eq_nil hsealed
    simp [Account.extend, hpushed, hforeign, hnone]

/-- Between two states the tasks that have come to their end, and the one that runs, are the one
that ran and those that have begun. -/
theorem Flow.between {s t : State τ} {history events : List Event} (hs : Flow s history)
    (ht : Flow t (history ++ events)) :
    finishedCalls events ++ t.place.running?.toList =
      s.place.running?.toList ++ startedCalls events := by
  have h := ht.running
  rw [finishedCalls_append, startedCalls_append, ← hs.running, List.append_assoc,
    List.append_assoc] at h
  exact List.append_cancel_left h

/-- A run between two states without a task has brought to their end the tasks that it began. -/
theorem Spell.finished {inside : Place τ → Prop} {s t : State τ} {a : Account τ}
    {history : List Event} {tasks : List τ} (h : Spell code parkTimeout inside s a t)
    (htraced : Traced code parkTimeout start s history tasks) (hs : s.place.running? = none)
    (ht : t.place.running? = none) : finishedCalls a.events = a.ran.map Prod.fst := by
  obtain ⟨more, hlater⟩ := htraced.later h.later
  have hflow := htraced.ledger.flow.between hlater.ledger.flow
  rw [hs, ht, Option.toList_none, List.append_nil, List.nil_append, h.queue.1] at hflow
  exact hflow

/-- A batch that is over has run what it counted.  What was submitted meanwhile is left, or was
refused. -/
theorem Spell.batch_over {b : Batch} {s t : State τ} {a : Account τ} {history : List Event}
    {tasks : List τ} (h : Spell code parkTimeout (fun p => p.batch? = some b) s a t)
    (htraced : Traced code parkTimeout start s history tasks)
    (hs : s.place = .pop b s.queue.length false) (ht : t.place.batch? ≠ some b) :
    t.place = State.batchOver b (!s.queue.isEmpty) ∧ a.ran = s.queue ∧
      finishedCalls a.events = s.queue.map Prod.fst ∧
      (a.foreign = [] → t.queue = if b.isDrain then [] else a.submitted) ∧
      ∀ x ∈ a.submitted, verdict b.isDrain x.1 ∈ a.events := by
  have hidle : s.place.running? = none := by rw [hs]; rfl
  have hkept := h.kept htraced (Place.submission?_eq_none hidle) fun _ => Place.serves?_of_batch?
  obtain ⟨-, arrived, hqueue, hpushed⟩ := h.queue
  cases h.budget hs with
  | goes hp _ _ => exact absurd hp ht
  | spent hp hlength =>
    have hover : t.place.running? = none := by rw [hp]; exact running?_batchOver b _
    have hnone := Place.submission?_eq_none hover
    obtain ⟨hran, hleft⟩ := List.append_inj hqueue hlength
    refine ⟨by rw [hp, hran], hran, by rw [h.finished htraced hidle hover, hran],
      fun hforeign => ?_, hkept.all_answered hnone⟩
    cases hb : b.isDrain with
    | false =>
      have hsole := hkept.sole hb hforeign
      rw [hnone, hran, unpushed, List.append_nil] at hsole
      exact List.append_cancel_left hsole
    | true =>
      have hdrain : b = .drain := by cases b <;> first | rfl | cases hb
      obtain ⟨hnothing, -⟩ :=
        h.pushes_nothing htraced fun _ hp => Place.serves?_of_batch? (hdrain ▸ hp)
      rw [hnothing] at hpushed
      exact hleft.trans (List.map_eq_nil_iff.1 hpushed.symm)

/-- A drain that is over has run all that was queued, and its tasks have submitted in vain. -/
theorem Spell.drain_over {s t : State τ} {a : Account τ} {history : List Event}
    {tasks : List τ} (h : Spell code parkTimeout (fun p => p.serves? = some .drain) s a t)
    (htraced : Traced code parkTimeout start s history tasks) (hs : s.place = .count .drain)
    (ht : t.place = .verify) :
    a.ran = s.queue ∧ finishedCalls a.events = s.queue.map Prod.fst ∧ t.queue = [] ∧
      pushedCalls a.events = [] ∧ ∀ x ∈ a.submitted, .rejected x.1 ∈ a.events := by
  have hidle : s.place.running? = none := by rw [hs]; rfl
  have hover : t.place.running? = none := by rw [ht]; rfl
  have hkept := h.kept htraced (Place.submission?_eq_none hidle) fun p hp => hp
  obtain ⟨-, arrived, hqueue, hpushed⟩ := h.queue
  obtain ⟨hnothing, -⟩ := h.pushes_nothing htraced fun p hp => hp
  obtain ⟨more, hlater⟩ := htraced.later h.later
  have hempty := hlater.orderly.queue
  rw [ht] at hempty
  have hran : a.ran = s.queue := by
    rw [hnothing] at hpushed
    rw [hempty, List.map_eq_nil_iff.1 hpushed.symm, List.append_nil, List.append_nil] at hqueue
    exact hqueue
  exact ⟨hran, by rw [h.finished htraced hidle hover, hran], hempty, hnothing,
    hkept.all_answered (Place.submission?_eq_none hover)⟩

end FrameLoop.Loop
