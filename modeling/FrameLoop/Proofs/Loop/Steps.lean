import FrameLoop.Loop.Machine
import FrameLoop.Proofs.Positions

/-
  What a step of a loop does to the books that are kept on its tasks: the queue, the counter of
  submissions, the submissions under way and the task that runs.  A step does one of five things
  (`Change`): a call begins, a submission goes on, a task starts, a task ends, or the books stay
  as they are.  `step_change` says so of every step, and what a run keeps follows from what these
  five keep.
-/

namespace FrameLoop.Loop

variable {τ : Type}

/-! ## Submissions and the running task -/

/-- The submission that a caller makes. -/
def Caller.submission? : Caller τ → Option (Submission τ)
  | .submission c => some c
  | .request _ _ => none

namespace Place

/-- The submission that the running task makes. -/
def submission? : Place τ → Option (Submission τ)
  | .submitting _ _ _ c _ => some c
  | _ => none

/-- The call whose task is running. -/
def running? : Place τ → Option Nat
  | .body _ _ call _ => some call
  | .submitting _ _ call _ _ => some call
  | .requesting _ _ call _ _ _ => some call
  | _ => none

end Place

/-- The submission is counted among those under way. -/
def SubmitStage.isCounted : SubmitStage → Bool
  | .enter => false
  | .check => true
  | .push => true
  | .leave => true
  | .retreat => true
  | .wake => false

/-- The task of the submission is pushed. -/
def SubmitStage.isPushed : SubmitStage → Bool
  | .leave => true
  | .wake => true
  | _ => false

/-- All submissions under way, those of the loop's own tasks included. -/
def State.submissions (s : State τ) : List (Submission τ) :=
  s.place.submission?.toList ++ s.callers.filterMap Caller.submission?

/-- What the books say, apart from the submissions under way. -/
structure Books (τ : Type) where
  queue : List (Nat × τ)
  submitters : Nat
  calls : Nat
  running : Option Nat

/-- The books of a state. -/
def State.books (s : State τ) : Books τ := ⟨s.queue, s.submitters, s.calls, s.place.running?⟩

/-- The event is about the task of a call. -/
def Event.isEntry : Event → Bool
  | .pushed _ => true
  | .accepted _ => true
  | .rejected _ => true
  | .started _ => true
  | .finished _ _ => true
  | _ => false

/-- The task that a step hands to the loop, in a call that begins with the step. -/
def handed (code : Code τ) (s : State τ) : Step τ → Option τ
  | .submit task => some task
  | .loop _ =>
    match s.place with
    | .body _ _ _ running =>
      match code running with
      | .submit task _ => some task
      | _ => none
    | _ => none
  | _ => none

/-- What a step of the submission `c` does: the queue and the counter behind it, its events, and
what is left of the submission. -/
inductive Advance (s : State τ) (c : Submission τ) :
    List (Nat × τ) → Nat → List Event → Option (Submission τ) → Prop
  | enter : c.stage = .enter →
    Advance s c s.queue (s.submitters + 1) [] (some { c with stage := .check })
  | check : c.stage = .check →
    Advance s c s.queue s.submitters []
      (some { c with stage := if s.phase.isClosed then .retreat else .push })
  | push : c.stage = .push →
    Advance s c (s.queue ++ [(c.call, c.task)]) s.submitters [.pushed c.call]
      (some { c with stage := .leave })
  /-- A caller from outside goes on to wake the loop. -/
  | leave : c.stage = .leave →
    Advance s c s.queue (s.submitters - 1) [] (some { c with stage := .wake })
  /-- A task of the loop has nobody to wake. -/
  | finish : c.stage = .leave →
    Advance s c s.queue (s.submitters - 1) [.accepted c.call] none
  | retreat : c.stage = .retreat →
    Advance s c s.queue (s.submitters - 1) [.rejected c.call] none
  | wake : c.stage = .wake →
    Advance s c s.queue s.submitters [.accepted c.call] none

/-- What is left of a submission after a step. -/
def Submission.after (c : Submission τ) : Progress SubmitStage Bool → Option (Submission τ)
  | .next stage => some { c with stage }
  | .returned _ => none

theorem stepSubmission_advance (s : State τ) (foreign : Bool) (c : Submission τ) :
    Advance s c (s.stepSubmission foreign c).state.queue
      (s.stepSubmission foreign c).state.submitters (s.stepSubmission foreign c).events
      (c.after (s.stepSubmission foreign c).value) := by
  unfold State.stepSubmission
  cases hc : c.stage with
  | enter => exact .enter hc
  | check => exact .check hc
  | push => exact .push hc
  | leave =>
    cases foreign with
    | true => exact .leave hc
    | false => exact .finish hc
  | retreat => exact .retreat hc
  | wake => exact .wake hc

theorem stepSubmission_state (s : State τ) (foreign : Bool) (c : Submission τ) :
    (s.stepSubmission foreign c).state.calls = s.calls ∧
      (s.stepSubmission foreign c).state.callers = s.callers ∧
      (s.stepSubmission foreign c).state.place = s.place ∧
      (s.stepSubmission foreign c).state.phase = s.phase := by
  unfold State.stepSubmission
  cases c.stage with
  | leave => cases foreign <;> exact ⟨rfl, rfl, rfl, rfl⟩
  | _ => exact ⟨rfl, rfl, rfl, rfl⟩

/-! ## The five things that a step can do -/

/-- What a step from `s` to `t` does to the books, the task that it hands over, and the events
that come with it. -/
inductive Change (s t : State τ) : Option τ → List Event → Prop
  /-- A call that submits a task begins. -/
  | begins (task : τ) :
    t.books = { s.books with calls := s.calls + 1 } →
    t.submissions.Perm (⟨s.calls, task, .enter⟩ :: s.submissions) → Change s t (some task) []
  /-- A submission goes on. -/
  | proceeds (c : Submission τ) (others : List (Submission τ)) (queue : List (Nat × τ))
    (submitters : Nat) (events : List Event) (left : Option (Submission τ)) :
    s.submissions.Perm (c :: others) → Advance s c queue submitters events left →
    t.submissions.Perm (left.toList ++ others) →
    t.books = { s.books with queue, submitters } → Change s t none events
  /-- The first task of the queue starts. -/
  | starts (b : Batch) (left call : Nat) (task : τ) (queue : List (Nat × τ)) :
    s.queue = (call, task) :: queue → s.place.running? = none →
    t.place = .body b left call task →
    t.books = { s.books with queue, running := some call } →
    t.submissions = s.submissions → Change s t none [.started call]
  /-- The running task ends. -/
  | ends (call : Nat) (failed : Bool) :
    s.place.running? = some call → t.books = { s.books with running := none } →
    t.submissions = s.submissions → Change s t none [.finished call failed]
  /-- The books stay as they are. -/
  | keeps (events : List Event) :
    t.books = s.books → t.submissions = s.submissions →
    (∀ e ∈ events, e.isEntry = false) → Change s t none events

theorem Change.clock {s t : State τ} {task : Option τ} {events : List Event}
    (h : Change s t task events) (now : Instant) :
    Change s { t with clock := now } task events := by
  cases h with
  | begins task hb hs => exact .begins task hb hs
  | proceeds c others queue submitters events left hs ha ht hb =>
    exact .proceeds c others queue submitters events left hs ha ht hb
  | starts b left call task queue hq hr hp hb hs =>
    exact .starts b left call task queue hq hr hp hb hs
  | ends call failed hr hb hs => exact .ends call failed hr hb hs
  | keeps events hb hs he => exact .keeps events hb hs he

/-! ## The steps of the callers -/

/-- The submissions of some callers can be told before all others. -/
theorem submissions_perm (place : Place τ) {callers before some behind : List (Caller τ)}
    (h : callers = before ++ (some ++ behind)) :
    (place.submission?.toList ++ callers.filterMap Caller.submission?).Perm
      (some.filterMap Caller.submission? ++
        (place.submission?.toList ++ (before ++ behind).filterMap Caller.submission?)) := by
  rw [h, List.filterMap_append, List.filterMap_append, List.filterMap_append]
  exact ((List.perm_append_comm_assoc _ _ _).append_left _).trans
    (List.perm_append_comm_assoc _ _ _)

/-- A step of a caller who submits changes the books as the submission does. -/
theorem stepCaller_submission {s t : State τ} {i : Nat} {c : Submission τ} {events : List Event}
    (hi : s.callers[i]? = some (.submission c)) (h : s.stepCaller i = some (t, events)) :
    Change s t none events := by
  obtain ⟨before, behind, hcallers, hset, herase⟩ := exists_around hi
  obtain ⟨hcalls, -, hplace, -⟩ := stepSubmission_state s true c
  simp only [State.stepCaller, hi, Option.some.injEq, Prod.mk.injEq] at h
  obtain ⟨rfl, rfl⟩ := h
  refine .proceeds c _ _ _ _ _ (submissions_perm s.place hcallers)
    (stepSubmission_advance s true c) ?_ ?_
  · rw [State.submissions]
    simp only [hplace]
    cases hv : (s.stepSubmission true c).value with
    | next stage => exact submissions_perm s.place (hset (.submission { c with stage }))
    | returned accepted => exact submissions_perm s.place herase
  · simp only [State.books, hcalls, hplace]

theorem stepRequest_state (s : State τ) (grace : Grace) (stage : RequestStage) :
    (s.stepRequest grace stage).state.books = s.books ∧
      (s.stepRequest grace stage).state.callers = s.callers ∧
      (s.stepRequest grace stage).state.place = s.place ∧
      ∀ e ∈ (s.stepRequest grace stage).events, e.isEntry = false := by
  unfold State.stepRequest
  cases stage with
  | lock =>
    dsimp only
    repeat' split
    all_goals simp [State.books]
  | _ => simp [State.books, Event.isEntry]

/-- A step of a caller who asks the loop to stop leaves the books alone. -/
theorem stepCaller_request {s t : State τ} {i : Nat} {grace : Grace} {stage : RequestStage}
    {events : List Event} (hi : s.callers[i]? = some (.request grace stage))
    (h : s.stepCaller i = some (t, events)) : Change s t none events := by
  obtain ⟨before, behind, hcallers, hset, herase⟩ := exists_around hi
  obtain ⟨hbooks, -, hplace, hevents⟩ := stepRequest_state s grace stage
  simp only [State.stepCaller, hi, Option.some.injEq, Prod.mk.injEq] at h
  obtain ⟨rfl, rfl⟩ := h
  refine .keeps _ (by simpa only [State.books] using hbooks) ?_ hevents
  cases hv : (s.stepRequest grace stage).value with
  | next stage =>
    simp only [State.submissions, hplace, hset]
    rw [hcallers]
    simp [Caller.submission?, List.filterMap_cons]
  | returned =>
    simp only [State.submissions, hplace, herase]
    rw [hcallers]
    simp [Caller.submission?, List.filterMap_cons]

/-! ## The steps of the loop -/

theorem Place.submission?_eq_none {p : Place τ} (h : p.running? = none) : p.submission? = none := by
  cases p with
  | submitting => cases h
  | _ => rfl

theorem Change.moves {s t : State τ} {events : List Event}
    (hs : s.place.running? = none) (ht : t.place.running? = none) (hq : t.queue = s.queue)
    (hn : t.submitters = s.submitters) (hc : t.calls = s.calls) (hcs : t.callers = s.callers)
    (he : ∀ e ∈ events, e.isEntry = false) : Change s t none events :=
  .keeps events (by simp only [State.books, hq, hn, hc, hs, ht])
    (by simp only [State.submissions, hcs, Place.submission?_eq_none hs,
      Place.submission?_eq_none ht]) he

theorem running?_batchOver (b : Batch) (ran : Bool) :
    (State.batchOver b ran : Place τ).running? = none := by
  cases b <;> cases ran <;> rfl

theorem body_change {code : Code τ} {parkTimeout : Span} {now : Instant} {s t : State τ}
    {b : Batch} {left call : Nat} {running : τ} {events : List Event}
    (hp : s.place = .body b left call running)
    (h : s.stepLoop code parkTimeout now = some (t, events)) :
    Change s t (handed code s (.loop now)) events := by
  have hr : s.place.running? = some call := by rw [hp]; rfl
  have hs : s.submissions = s.callers.filterMap Caller.submission? := by
    rw [State.submissions, hp]; rfl
  have hb : s.books = ⟨s.queue, s.submitters, s.calls, some call⟩ := by rw [State.books, hr]
  simp only [State.stepLoop, hp, Option.some.injEq] at h
  simp only [handed, hp]
  cases hop : code running <;> simp only [hop, State.stepBody, Prod.mk.injEq] at h <;>
    obtain ⟨rfl, rfl⟩ := h
  case finish => exact .ends call false hr rfl hs.symm
  case panic => exact .ends call true hr rfl hs.symm
  case submit task next =>
    refine .begins task ?_ (.of_eq ?_)
    · rw [hb]; rfl
    · rw [hs]; rfl
  case stop grace next => exact .keeps [] hb.symm hs.symm (by simp)
  case look next => exact .keeps [] hb.symm hs.symm (by simp)
  case skip next => exact .keeps [] hb.symm hs.symm (by simp)

/-- Only a task hands over a task. -/
theorem handed_loop_eq_none (code : Code τ) {s : State τ} (now : Instant)
    (h : ∀ b left call running, s.place ≠ .body b left call running) :
    handed code s (.loop now) = none := by
  cases hp : s.place with
  | body b left call running => exact absurd hp (h b left call running)
  | _ => simp only [handed, hp]

theorem submitting_change {code : Code τ} {parkTimeout : Span} {now : Instant} {s t : State τ}
    {b : Batch} {left call : Nat} {c : Submission τ} {next : Bool → τ} {events : List Event}
    (hp : s.place = .submitting b left call c next)
    (h : s.stepLoop code parkTimeout now = some (t, events)) : Change s t none events := by
  obtain ⟨hcalls, hcallers, -, -⟩ := stepSubmission_state s false c
  simp only [State.stepLoop, hp, Option.some.injEq, Prod.mk.injEq] at h
  obtain ⟨rfl, rfl⟩ := h
  have hs : s.submissions = c :: s.callers.filterMap Caller.submission? := by
    rw [State.submissions, hp]; rfl
  refine .proceeds c _ _ _ _ _ (.of_eq hs) (stepSubmission_advance s false c) ?_ ?_
  · rw [State.submissions]
    simp only [hcallers]
    cases (s.stepSubmission false c).value with
    | next stage => exact .refl _
    | returned accepted => exact .refl _
  · simp only [State.books, hcalls, hp]
    cases (s.stepSubmission false c).value with
    | next stage => rfl
    | returned accepted => rfl

theorem requesting_change {code : Code τ} {parkTimeout : Span} {now : Instant} {s t : State τ}
    {b : Batch} {left call : Nat} {grace : Grace} {stage : RequestStage} {next : τ}
    {events : List Event} (hp : s.place = .requesting b left call grace stage next)
    (h : s.stepLoop code parkTimeout now = some (t, events)) : Change s t none events := by
  obtain ⟨hbooks, hcallers, hplace, hevents⟩ := stepRequest_state s grace stage
  simp only [State.books, hplace, hp, Books.mk.injEq] at hbooks
  obtain ⟨hqueue, hsubmitters, hcalls, -⟩ := hbooks
  simp only [State.stepLoop, hp, Option.some.injEq, Prod.mk.injEq] at h
  obtain ⟨rfl, rfl⟩ := h
  refine .keeps _ ?_ ?_ hevents
  · simp only [State.books, hqueue, hsubmitters, hcalls, hp]
    cases (s.stepRequest grace stage).value <;> rfl
  · rw [State.submissions, State.submissions]
    simp only [hcallers, hp]
    cases (s.stepRequest grace stage).value <;> rfl

/-- When the loop asks the queue for a task, the batch is over, or the first task of the queue
starts. -/
theorem stepLoop_pop {code : Code τ} {parkTimeout : Span} {now : Instant} {s t : State τ}
    {b : Batch} {left : Nat} {ran : Bool} {events : List Event} (hp : s.place = .pop b left ran)
    (h : s.stepLoop code parkTimeout now = some (t, events)) :
    (t = { s with place := State.batchOver b ran } ∧ events = [] ∧ (left = 0 ∨ s.queue = [])) ∨
      ∃ left call task queue, s.queue = (call, task) :: queue ∧
        t = { s with queue, place := .body b left call task } ∧ events = [.started call] := by
  cases left with
  | zero =>
    simp only [State.stepLoop, hp, Option.some.injEq, Prod.mk.injEq] at h
    exact .inl ⟨h.1.symm, h.2.symm, .inl rfl⟩
  | succ left =>
    cases hq : s.queue with
    | nil =>
      simp only [State.stepLoop, hp, hq, Option.some.injEq, Prod.mk.injEq] at h
      exact .inl ⟨h.1.symm, h.2.symm, .inr rfl⟩
    | cons entry queue =>
      obtain ⟨call, task⟩ := entry
      simp only [State.stepLoop, hp, hq, Option.some.injEq, Prod.mk.injEq] at h
      exact .inr ⟨left, call, task, queue, rfl, h.1.symm, h.2.symm⟩

theorem pop_change {code : Code τ} {parkTimeout : Span} {now : Instant} {s t : State τ}
    {b : Batch} {left : Nat} {ran : Bool} {events : List Event} (hp : s.place = .pop b left ran)
    (h : s.stepLoop code parkTimeout now = some (t, events)) : Change s t none events := by
  have hs : s.place.running? = none := by rw [hp]; rfl
  obtain ⟨rfl, rfl, -⟩ | ⟨left, call, task, queue, hq, rfl, rfl⟩ := stepLoop_pop hp h
  · exact .moves hs (running?_batchOver b ran) rfl rfl rfl rfl (by simp)
  · refine .starts b left call task queue hq hs rfl rfl ?_
    rw [State.submissions, State.submissions, Place.submission?_eq_none hs]
    rfl

/-- Before its rest and in it, the loop takes its token, or its rest is over, or it falls asleep. -/
theorem stepLoop_rest {code : Code τ} {parkTimeout : Span} {now : Instant} {s t : State τ}
    {events : List Event}
    (hp : (∃ limit, s.place = .park limit) ∨ ∃ wakeAt, s.place = .asleep wakeAt)
    (h : s.stepLoop code parkTimeout now = some (t, events)) :
    events = [] ∧ ((∃ token, t = { s with token, place := .count .round }) ∨
      ∃ limit, s.place = .park limit ∧ t = { s with place := .asleep (now.after limit) }) := by
  obtain ⟨limit, hp⟩ | ⟨wakeAt, hp⟩ := hp
  · simp only [State.stepLoop, hp] at h
    split at h <;> cases h
    · exact ⟨rfl, .inl ⟨false, rfl⟩⟩
    · exact ⟨rfl, .inr ⟨limit, hp, rfl⟩⟩
  · simp only [State.stepLoop, hp] at h
    split at h
    · cases h
      exact ⟨rfl, .inl ⟨false, rfl⟩⟩
    · split at h
      · cases h
        exact ⟨rfl, .inl ⟨s.token, rfl⟩⟩
      · cases h

theorem rest_change {code : Code τ} {parkTimeout : Span} {now : Instant} {s t : State τ}
    {events : List Event}
    (hp : (∃ limit, s.place = .park limit) ∨ ∃ wakeAt, s.place = .asleep wakeAt)
    (h : s.stepLoop code parkTimeout now = some (t, events)) : Change s t none events := by
  have hs : s.place.running? = none := by obtain ⟨_, hp⟩ | ⟨_, hp⟩ := hp <;> rw [hp] <;> rfl
  obtain ⟨rfl, ⟨token, rfl⟩ | ⟨limit, -, rfl⟩⟩ := stepLoop_rest hp h
  · exact .moves hs rfl rfl rfl rfl rfl (by simp)
  · exact .moves hs rfl rfl rfl rfl rfl (by simp)

/-- A step of the thread of the loop does one of the five things. -/
theorem stepLoop_change {code : Code τ} {parkTimeout : Span} {now : Instant} {s t : State τ}
    {events : List Event} (h : s.stepLoop code parkTimeout now = some (t, events)) :
    Change s t (handed code s (.loop now)) events := by
  by_cases hbody : ∃ b left call running, s.place = .body b left call running
  · obtain ⟨b, left, call, running, hp⟩ := hbody
    exact body_change hp h
  rw [handed_loop_eq_none code now fun b left call running hp => hbody ⟨b, left, call, running, hp⟩]
  cases hp : s.place with
  | body b left call running => exact absurd ⟨b, left, call, running, hp⟩ hbody
  | submitting b left call c next => exact submitting_change hp h
  | requesting b left call grace stage next => exact requesting_change hp h
  | pop b left ran => exact pop_change hp h
  | park limit => exact rest_change (.inl ⟨limit, hp⟩) h
  | asleep wakeAt => exact rest_change (.inr ⟨wakeAt, hp⟩) h
  | failed => simp only [State.stepLoop, hp, reduceCtorEq] at h
  | stopped => simp only [State.stepLoop, hp, reduceCtorEq] at h
  | _ =>
    -- A place without a task, whose step only chooses the next one.
    have hs : s.place.running? = none := by rw [hp]; rfl
    simp only [State.stepLoop, hp, Option.some.injEq, Prod.mk.injEq] at h
    obtain ⟨rfl, rfl⟩ := h
    refine .moves hs ?_ rfl rfl rfl rfl (by simp [Event.isEntry])
    dsimp only
    repeat' split
    all_goals rfl

/-! ## All steps -/

theorem loop_of_step {code : Code τ} {parkTimeout : Span} {now : Instant} {s t : State τ}
    {events : List Event} (h : step code parkTimeout s (.loop now) = some (t, events)) :
    s.clock ≤ now ∧
      ∃ u, s.stepLoop code parkTimeout now = some (u, events) ∧ t = { u with clock := now } := by
  simp only [step] at h
  split at h
  · obtain ⟨⟨u, es⟩, hu, hut⟩ := Option.map_eq_some_iff.1 h
    cases hut
    exact ⟨‹_›, u, hu, rfl⟩
  · cases h

/-- The loop wakes up for no reason only when it is asleep. -/
theorem rouse_of_step {code : Code τ} {parkTimeout : Span} {s t : State τ} {events : List Event}
    (h : step code parkTimeout s .rouse = some (t, events)) :
    (∃ wakeAt, s.place = .asleep wakeAt) ∧ t = { s with place := .count .round } ∧
      events = [] := by
  cases hp : s.place with
  | asleep wakeAt =>
    simp only [step, hp, Option.some.injEq, Prod.mk.injEq] at h
    exact ⟨⟨wakeAt, rfl⟩, h.1.symm, h.2.symm⟩
  | _ => simp only [step, hp, reduceCtorEq] at h

/-- Every step does one of the five things. -/
theorem step_change {code : Code τ} {parkTimeout : Span} {s t : State τ} {events : List Event}
    {label : Step τ} (h : step code parkTimeout s label = some (t, events)) :
    Change s t (handed code s label) events := by
  cases label with
  | submit task =>
    simp only [step, Option.some.injEq, Prod.mk.injEq] at h
    obtain ⟨rfl, rfl⟩ := h
    refine .begins task rfl ?_
    rw [State.submissions, State.submissions, List.filterMap_append, ← List.append_assoc]
    exact List.perm_append_comm
  | request grace =>
    simp only [step, Option.some.injEq, Prod.mk.injEq] at h
    obtain ⟨rfl, rfl⟩ := h
    exact .keeps [] rfl (by simp [State.submissions, Caller.submission?]) (by simp)
  | release =>
    simp only [step, Option.some.injEq, Prod.mk.injEq] at h
    obtain ⟨rfl, rfl⟩ := h
    exact .keeps [] rfl (by simp [State.submissions, Caller.submission?]) (by simp)
  | caller i =>
    cases hi : s.callers[i]? with
    | none => simp only [step, State.stepCaller, hi, reduceCtorEq] at h
    | some caller =>
      cases caller with
      | submission c => exact stepCaller_submission hi h
      | request grace stage => exact stepCaller_request hi h
  | loop now =>
    obtain ⟨-, u, hu, rfl⟩ := loop_of_step h
    exact (stepLoop_change hu).clock now
  | rouse =>
    obtain ⟨⟨wakeAt, hp⟩, rfl, rfl⟩ := rouse_of_step h
    exact .moves (by rw [hp]; rfl) rfl rfl rfl rfl rfl (by simp)

end FrameLoop.Loop
