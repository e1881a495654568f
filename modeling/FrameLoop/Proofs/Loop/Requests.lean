import FrameLoop.Proofs.Loop.Ledger

/-
  Requests to stop.  They are about the course of a loop (`Course`): its phase, the grace that was
  stored, and the lock on it.  The thread of the loop changes the phase without the lock, so a
  request that has taken the lock and seen a loop that was not asked before could still come too
  late.  It does not: before a request is stored the thread of the loop has nothing to go by
  (`Place.notice`), and does not leave the first phase (`Informed`, `Traced.informed`).
-/

namespace FrameLoop.Loop

variable {τ : Type}

/-! ## The course of a loop -/

/-- What a request to stop changes, and the thread of the loop on its way to its end. -/
structure Course where
  phase : Phase
  grace : Option Grace
  locked : Bool
  signal : Nat
  done : Bool

/-- The course of the loop in a state. -/
def State.course (s : State τ) : Course := ⟨s.phase, s.grace, s.locked, s.signal, s.done⟩

/-- A request at this stage holds the lock. -/
def RequestStage.holds : RequestStage → Bool
  | .store => true
  | _ => false

/-- The call holds the lock. -/
def Caller.holds : Caller τ → Bool
  | .submission _ => false
  | .request _ stage => stage.holds

/-- The running task holds the lock. -/
def Place.holds : Place τ → Bool
  | .requesting _ _ _ _ stage _ => stage.holds
  | _ => false

/-- How many requests hold the lock, those of the loop's own tasks included. -/
def State.holders (s : State τ) : Nat := s.place.holds.toNat + s.callers.countP Caller.holds

/-- The request that does the next step when this one is made, and its stage. -/
def asking (s : State τ) : Step τ → Option (Grace × RequestStage)
  | .caller i =>
    match s.callers[i]? with
    | some (.request grace stage) => some (grace, stage)
    | _ => none
  | .loop _ =>
    match s.place with
    | .requesting _ _ _ grace stage _ => some (grace, stage)
    | _ => none
  | _ => none

/-- The event leaves the course as it is; a signal that is returned is this one. -/
def Event.Stays (signal : Nat) : Event → Prop
  | .requested _ => False
  | .entered _ => False
  | .answered n => n = signal
  | _ => True

/-! ## A step of a request -/

/-- What a step of a request does: the state behind it, its events, and the stage that the request
comes to. -/
inductive Asks (s : State τ) (grace : Grace) :
    RequestStage → State τ → List Event → Option RequestStage → Prop
  /-- The loop was asked before. -/
  | returns : s.phase.isStopping = true → Asks s grace .look s [] none
  | insists : s.phase.isStopping = false → Asks s grace .look s [] (some .lock)
  /-- Another request holds the lock. -/
  | waits : s.locked = true → Asks s grace .lock s [] (some .lock)
  /-- With the lock, it sees that the loop was asked before. -/
  | yields : s.locked = false → s.phase.isStopping = true →
    Asks s grace .lock s [] (some (.wake false))
  | locks : s.locked = false → s.phase.isStopping = false →
    Asks s grace .lock { s with locked := true } [] (some .store)
  | stores : Asks s grace .store
    { s with grace := some grace.stored, phase := .stopping, locked := false }
    [.requested grace.stored, .entered .stopping] (some (.wake true))
  | wakes (stored : Bool) : Asks s grace (.wake stored) { s with token := true }
    [.answered s.signal] none

/-- The stage that a request comes to. -/
def Progress.stage? {α β : Type} : Progress α β → Option α
  | .next stage => some stage
  | .returned _ => none

theorem stepRequest_asks (s : State τ) (grace : Grace) (stage : RequestStage) :
    Asks s grace stage (s.stepRequest grace stage).state (s.stepRequest grace stage).events
      (s.stepRequest grace stage).value.stage? := by
  unfold State.stepRequest
  cases stage with
  | look =>
    cases hp : s.phase.isStopping with
    | true => exact .returns hp
    | false => exact .insists hp
  | lock =>
    cases hl : s.locked with
    | true => exact .waits hl
    | false =>
      cases hp : s.phase.isStopping with
      | true => exact .yields hl hp
      | false => exact .locks hl hp
  | store => exact .stores
  | wake stored => exact .wakes stored

theorem Phase.isStopping_eq_false_iff {p : Phase} : p.isStopping = false ↔ p = .started := by
  cases p <;> decide

theorem Phase.ne_started_of_isStopping {p : Phase} (h : p.isStopping = true) : p ≠ .started := by
  rintro rfl
  cases h

/-! ## What the thread of the loop goes by -/

/-- What the thread of the loop has seen of a request to stop. -/
inductive Notice
  | nothing
  /-- That the loop was asked. -/
  | asked
  /-- The grace that was stored. -/
  | read (grace : Grace)

/-- What the loop has seen before it runs the batch. -/
def Batch.notice : Batch → Notice
  | .round => .nothing
  | .check grace => .read grace
  | .drain => .asked

/-- What the loop has seen before it comes to this place. -/
def Place.notice : Place τ → Notice
  | .count b => b.notice
  | .pop b _ _ => b.notice
  | .body b _ _ _ => b.notice
  | .submitting b _ _ _ _ => b.notice
  | .requesting b _ _ _ _ _ => b.notice
  | .stamp b => b.notice
  | .readPhase => .nothing
  | .checkEmpty => .nothing
  | .park _ => .nothing
  | .asleep _ => .nothing
  | .compareTimeout grace => .read grace
  | .compareQuiet grace => .read grace
  | _ => .asked

/-- What was seen is so. -/
def Notice.Fits (c : Course) : Notice → Prop
  | .nothing => True
  | .asked => c.phase ≠ .started
  | .read grace => c.grace = some grace

/-- The grace is stored with the second phase, and the lock is held in the first phase only. -/
structure Course.Sound (c : Course) : Prop where
  unset : c.grace = none ↔ c.phase = .started
  locked : c.locked = true → c.phase = .started

/-- The course is sound, what the loop goes by is so, and at most one request holds the lock. -/
structure Informed (s : State τ) : Prop extends s.course.Sound where
  notice : s.place.notice.Fits s.course
  holders : s.holders = s.course.locked.toNat

variable {code : Code τ} {parkTimeout : Span} {now : Instant}

theorem informed_begin : Informed (.begin now : State τ) :=
  ⟨⟨⟨fun _ => rfl, fun _ => rfl⟩, fun _ => rfl⟩, trivial, rfl⟩

namespace Informed

variable {s t : State τ}

/-- Whatever the loop has seen, it was asked. -/
theorem asked (hs : Informed s) (hn : s.place.notice ≠ .nothing) : s.phase ≠ .started := by
  have hfits := hs.notice
  cases hp : s.place.notice with
  | nothing => exact absurd hp hn
  | asked => rwa [hp] at hfits
  | read grace =>
    rw [hp] at hfits
    intro hstarted
    have hnone : s.grace = none := hs.unset.2 hstarted
    rw [show s.grace = some grace from hfits] at hnone
    cases hnone

/-- A request that holds the lock will be the first one. -/
theorem phase_of_holder (hs : Informed s) (hh : 0 < s.holders) : s.phase = .started := by
  refine hs.locked ?_
  rw [hs.holders] at hh
  cases hl : s.course.locked with
  | true => rfl
  | false => rw [hl] at hh; cases hh

theorem holders_pos_of_caller {i : Nat} {c : Caller τ} (hi : s.callers[i]? = some c)
    (hc : c.holds = true) : 0 < s.holders :=
  Nat.lt_of_lt_of_le (List.countP_pos_iff.2 ⟨c, List.mem_of_getElem? hi, hc⟩) (Nat.le_add_left _ _)

theorem holders_pos_of_place (hp : s.place.holds = true) : 0 < s.holders := by
  rw [State.holders, hp]
  exact Nat.lt_of_lt_of_le Nat.zero_lt_one (Nat.le_add_right _ _)

end Informed

/-! ## What a step does to the course -/

/-- What a step from `s` to `t` does to the course, and the events that come with it. -/
inductive Turn (s t : State τ) (label : Step τ) : List Event → Prop
  | keeps (events : List Event) :
    t.course = s.course → t.holders = s.holders → t.place.notice.Fits s.course →
    (∀ e ∈ events, e.Stays s.signal) → Turn s t label events
  /-- A request takes the lock, and goes on to store its grace. -/
  | locks :
    s.locked = false → s.phase = .started → t.course = { s.course with locked := true } →
    t.holders = s.holders + 1 → t.place.notice = s.place.notice → Turn s t label []
  /-- The request that holds the lock stores its grace. -/
  | stores (grace : Grace) :
    asking s label = some (grace, .store) →
    t.course = { s.course with
      phase := .stopping, grace := some grace.stored, locked := false } →
    t.holders + 1 = s.holders → t.place.notice = s.place.notice →
    Turn s t label [.requested grace.stored, .entered .stopping]
  /-- The thread of the loop closes the queue, or is at its end. -/
  | enters (p : Phase) :
    (s.place = .close ∧ p = .closed ∨ s.place = .seal ∧ p = .gone) →
    t.course = { s.course with phase := p } → t.holders = s.holders →
    t.place.notice = .asked → Turn s t label [.entered p]
  | completes :
    s.place = .complete → t.course = { s.course with done := true } → t.holders = s.holders →
    t.place.notice = .asked → Turn s t label [.completed]

namespace Informed

variable {s t : State τ}

/-- In the first phase the thread of the loop has seen nothing. -/
theorem notice_eq_nothing (hs : Informed s) (hp : s.phase = .started) :
    s.place.notice = .nothing :=
  Classical.byContradiction fun hn => hs.asked hn hp

theorem turn {label : Step τ} {events : List Event} (hs : Informed s)
    (h : Turn s t label events) : Informed t := by
  have hholders := hs.holders
  cases h with
  | keeps events hc hh hn _ =>
    refine ⟨?_, ?_, ?_⟩ <;> rw [hc]
    · exact hs.toSound
    · exact hn
    · rw [hh, hholders]
  | locks hl hp hc hh hn =>
    have hnone : s.course.locked = false := hl
    refine ⟨?_, ?_, ?_⟩ <;> rw [hc]
    · exact ⟨hs.unset, fun _ => hp⟩
    · rw [hn, hs.notice_eq_nothing hp]
      trivial
    · rw [hh, hholders, hnone]
      rfl
  | stores grace _ hc hh hn =>
    have hstarted : s.phase = .started := hs.phase_of_holder (by omega)
    have hone : s.course.locked.toNat ≤ 1 := Bool.toNat_le s.course.locked
    refine ⟨?_, ?_, ?_⟩ <;> rw [hc]
    · exact ⟨⟨nofun, nofun⟩, nofun⟩
    · rw [hn, hs.notice_eq_nothing hstarted]
      trivial
    · rw [Bool.toNat_false]
      omega
  | enters p hp hc hh hn =>
    have hasked : s.phase ≠ .started := by
      refine hs.asked ?_
      obtain ⟨hplace, -⟩ | ⟨hplace, -⟩ := hp <;> rw [hplace] <;> exact nofun
    have hlater : p ≠ .started := by
      obtain ⟨-, rfl⟩ | ⟨-, rfl⟩ := hp <;> exact nofun
    refine ⟨?_, ?_, ?_⟩ <;> rw [hc]
    · exact ⟨⟨fun h => absurd (hs.unset.1 h) hasked, fun h => absurd h hlater⟩,
        fun h => absurd (hs.locked h) hasked⟩
    · rw [hn]
      exact hlater
    · rw [hh, hholders]
  | completes hp hc hh hn =>
    have hasked : s.phase ≠ .started := hs.asked (by rw [hp]; exact nofun)
    refine ⟨?_, ?_, ?_⟩ <;> rw [hc]
    · exact ⟨hs.unset, hs.locked⟩
    · rw [hn]
      exact hasked
    · rw [hh, hholders]

end Informed

/-! ## The steps of requests -/

theorem Informed.request {s t u : State τ} {label : Step τ} {events : List Event} {grace : Grace}
    {stage : RequestStage} {left : Option RequestStage} (hs : Informed s)
    (hasking : asking s label = some (grace, stage)) (h : Asks s grace stage u events left)
    (hcourse : t.course = u.course)
    (hholders : t.holders + stage.holds.toNat = s.holders + (left.any (·.holds)).toNat)
    (hnotice : t.place.notice = s.place.notice) : Turn s t label events := by
  have hfits : t.place.notice.Fits s.course := by rw [hnotice]; exact hs.notice
  cases h with
  | locks hl hp =>
    exact .locks hl (Phase.isStopping_eq_false_iff.1 hp) hcourse hholders hnotice
  | stores => exact .stores grace hasking hcourse hholders hnotice
  | wakes stored => exact .keeps _ hcourse hholders hfits (by simp [Event.Stays])
  | _ => exact .keeps [] hcourse hholders hfits (by simp)

/-- A submission leaves the course as it is, and answers no request. -/
theorem stepSubmission_course (s : State τ) (foreign : Bool) (c : Submission τ) :
    (s.stepSubmission foreign c).state.course = s.course ∧
      ∀ e ∈ (s.stepSubmission foreign c).events, e.Stays s.signal := by
  unfold State.stepSubmission
  cases c.stage with
  | leave => cases foreign <;> simp [State.course, Event.Stays]
  | _ => simp [State.course, Event.Stays]

theorem Informed.caller {s t : State τ} {i : Nat} {events : List Event} (hs : Informed s)
    (h : s.stepCaller i = some (t, events)) : Turn s t (.caller i) events := by
  cases hi : s.callers[i]? with
  | none => simp only [State.stepCaller, hi, reduceCtorEq] at h
  | some caller =>
    cases caller with
    | submission c =>
      obtain ⟨hcourse, hevents⟩ := stepSubmission_course s true c
      obtain ⟨-, -, hplace, -⟩ := stepSubmission_state s true c
      simp only [State.stepCaller, hi, Option.some.injEq, Prod.mk.injEq] at h
      obtain ⟨rfl, rfl⟩ := h
      refine .keeps _ hcourse ?_ (by simpa only [hplace] using hs.notice) hevents
      simp only [State.holders, hplace, Nat.add_left_cancel_iff]
      cases (s.stepSubmission true c).value with
      | next stage => exact countP_set_around Caller.holds hi _
      | returned accepted => exact countP_erase_around Caller.holds hi
    | request grace stage =>
      have hasks := stepRequest_asks s grace stage
      obtain ⟨-, -, hplace, -⟩ := stepRequest_state s grace stage
      simp only [State.stepCaller, hi, Option.some.injEq, Prod.mk.injEq] at h
      obtain ⟨rfl, rfl⟩ := h
      refine hs.request (by simp only [asking, hi]) hasks rfl ?_ (by simp only [hplace])
      simp only [State.holders, hplace, Nat.add_assoc, Nat.add_left_cancel_iff]
      cases (s.stepRequest grace stage).value with
      | next stage' => exact countP_set_around Caller.holds hi (.request grace stage')
      | returned => exact countP_erase_around Caller.holds hi

/-! ## The steps of the thread of the loop -/

theorem notice_batchOver (b : Batch) (ran : Bool) :
    (State.batchOver b ran : Place τ).notice = b.notice := by
  cases b <;> cases ran <;> rfl

theorem holds_batchOver (b : Batch) (ran : Bool) :
    (State.batchOver b ran : Place τ).holds = false := by
  cases b <;> cases ran <;> rfl

/-- The loop goes from one place to another, and nobody asks it. -/
theorem Turn.moves {s t : State τ} {label : Step τ} {events : List Event}
    (hcourse : t.course = s.course) (hcallers : t.callers = s.callers)
    (hs : s.place.holds = false) (ht : t.place.holds = false)
    (hnotice : t.place.notice.Fits s.course) (he : ∀ e ∈ events, e.Stays s.signal) :
    Turn s t label events :=
  .keeps events hcourse (by simp only [State.holders, hcallers, hs, ht]) hnotice he

theorem Informed.task {s t : State τ} {call : Nat} {events : List Event} (hs : Informed s)
    (hr : s.place.running? = some call)
    (h : s.stepLoop code parkTimeout now = some (t, events)) : Turn s t (.loop now) events := by
  have hnotice := hs.notice
  cases hp : s.place with
  | body b left call running =>
    rw [hp] at hnotice
    simp only [State.stepLoop, hp, Option.some.injEq] at h
    cases hop : code running <;> simp only [hop, State.stepBody, Prod.mk.injEq] at h <;>
      obtain ⟨rfl, rfl⟩ := h <;>
      exact .moves rfl rfl (by rw [hp]; rfl) rfl hnotice (by simp [Event.Stays])
  | submitting b left call c next =>
    rw [hp] at hnotice
    obtain ⟨hcourse, hevents⟩ := stepSubmission_course s false c
    obtain ⟨-, hcallers, -, -⟩ := stepSubmission_state s false c
    simp only [State.stepLoop, hp, Option.some.injEq, Prod.mk.injEq] at h
    obtain ⟨rfl, rfl⟩ := h
    refine .moves hcourse hcallers (by rw [hp]; rfl) ?_ ?_ hevents <;> dsimp only
    · split <;> rfl
    · split <;> exact hnotice
  | requesting b left call grace stage next =>
    have hasks := stepRequest_asks s grace stage
    obtain ⟨-, hcallers, -, -⟩ := stepRequest_state s grace stage
    simp only [State.stepLoop, hp, Option.some.injEq, Prod.mk.injEq] at h
    obtain ⟨rfl, rfl⟩ := h
    refine hs.request (by simp only [asking, hp]) hasks rfl ?_ ?_
    · simp only [State.holders, hcallers, hp]
      cases (s.stepRequest grace stage).value with
      | next stage' => simp [Place.holds, Progress.stage?]; omega
      | returned => simp [Place.holds, Progress.stage?]; omega
    · rw [hp]
      dsimp only
      split <;> rfl
  | _ => rw [hp] at hr; cases hr

theorem Informed.pop {s t : State τ} {b : Batch} {left : Nat} {ran : Bool} {events : List Event}
    (hs : Informed s) (hp : s.place = .pop b left ran)
    (h : s.stepLoop code parkTimeout now = some (t, events)) : Turn s t (.loop now) events := by
  have hfits := hs.notice
  rw [hp] at hfits
  have hholds : s.place.holds = false := by rw [hp]; rfl
  have hover : (State.batchOver b ran : Place τ).notice.Fits s.course := by
    rw [notice_batchOver]
    exact hfits
  obtain ⟨rfl, rfl, -⟩ | ⟨left, call, task, queue, -, rfl, rfl⟩ := stepLoop_pop hp h
  · exact .moves rfl rfl hholds (holds_batchOver b ran) hover (by simp)
  · exact .moves rfl rfl hholds rfl hfits (by simp [Event.Stays])

theorem Informed.rest {s t : State τ} {events : List Event}
    (hp : (∃ limit, s.place = .park limit) ∨ ∃ wakeAt, s.place = .asleep wakeAt)
    (h : s.stepLoop code parkTimeout now = some (t, events)) : Turn s t (.loop now) events := by
  have hholds : s.place.holds = false := by obtain ⟨_, hp⟩ | ⟨_, hp⟩ := hp <;> rw [hp] <;> rfl
  obtain ⟨rfl, ⟨token, rfl⟩ | ⟨limit, -, rfl⟩⟩ := stepLoop_rest hp h
  · exact .moves rfl rfl hholds rfl trivial (by simp)
  · exact .moves rfl rfl hholds rfl trivial (by simp)

/-- The loop looks at the phase, and at the grace when it was asked to stop.  What it finds is
what it goes by from then on. -/
theorem Informed.reads {s t : State τ} {events : List Event} (hs : Informed s)
    (hp : s.place = .readPhase ∨ s.place = .readGrace)
    (h : s.stepLoop code parkTimeout now = some (t, events)) : Turn s t (.loop now) events := by
  obtain hp | hp := hp <;> simp only [State.stepLoop, hp, Option.some.injEq, Prod.mk.injEq] at h <;>
    obtain ⟨rfl, rfl⟩ := h
  · cases hstopping : s.phase.isStopping with
    | false =>
      exact .moves rfl rfl (by rw [hp]; rfl) rfl trivial (by simp [Event.Stays])
    | true =>
      have hasked := Phase.ne_started_of_isStopping hstopping
      cases hmarked : s.marked.isSome with
      | true => exact .moves rfl rfl (by rw [hp]; rfl) rfl hasked (by simp [Event.Stays])
      | false => exact .moves rfl rfl (by rw [hp]; rfl) rfl hasked (by simp [Event.Stays])
  · have hasked := hs.asked (by simp [hp, Place.notice])
    obtain ⟨grace, hgrace⟩ : ∃ grace, s.grace = some grace :=
      Option.ne_none_iff_exists'.1 fun h => hasked (hs.unset.1 h)
    refine .moves rfl rfl (by rw [hp]; rfl) ?_ ?_ (by simp) <;> dsimp only <;> split
    · rfl
    · rfl
    · exact hasked
    · rw [hgrace]
      exact hgrace

/-- The loop compares the clock with the timeout or with the quiet period, or has run a batch; it
goes on, or is about to close the queue. -/
theorem Informed.decides {s t : State τ} {events : List Event} (hs : Informed s)
    (hp : (∃ b, s.place = .stamp b) ∨ (∃ grace, s.place = .compareTimeout grace) ∨
      ∃ grace, s.place = .compareQuiet grace)
    (h : s.stepLoop code parkTimeout now = some (t, events)) : Turn s t (.loop now) events := by
  have hfits := hs.notice
  have hasked := hs.asked
  obtain ⟨b, hp⟩ | ⟨grace, hp⟩ | ⟨grace, hp⟩ := hp <;>
    simp only [State.stepLoop, hp, Option.some.injEq, Prod.mk.injEq] at h <;>
    obtain ⟨rfl, rfl⟩ := h <;> rw [hp] at hfits hasked
  · cases b with
    | round => exact .moves rfl rfl (by rw [hp]; rfl) rfl trivial (by simp [Event.Stays])
    | drain => exact .moves rfl rfl (by rw [hp]; rfl) rfl hfits (by simp [Event.Stays])
    | check grace =>
      refine .moves rfl rfl (by rw [hp]; rfl) ?_ ?_ (by simp [Event.Stays]) <;> dsimp only <;> split
      · rfl
      · rfl
      · exact hasked (by simp [Place.notice, Batch.notice])
      · trivial
  · refine .moves rfl rfl (by rw [hp]; rfl) ?_ ?_ (by simp) <;> dsimp only <;> split
    · rfl
    · rfl
    · exact hasked (by simp [Place.notice])
    · exact hfits
  · refine .moves rfl rfl (by rw [hp]; rfl) ?_ ?_ (by simp) <;> dsimp only <;> split
    · rfl
    · rfl
    · trivial
    · exact hasked (by simp [Place.notice])

theorem Informed.loop {s t : State τ} {events : List Event} (hs : Informed s)
    (h : s.stepLoop code parkTimeout now = some (t, events)) : Turn s t (.loop now) events := by
  have hfits := hs.notice
  have hasked := hs.asked
  cases hp : s.place with
  | body => exact hs.task (by rw [hp]; rfl) h
  | submitting => exact hs.task (by rw [hp]; rfl) h
  | requesting => exact hs.task (by rw [hp]; rfl) h
  | pop => exact hs.pop hp h
  | park limit => exact Informed.rest (.inl ⟨limit, hp⟩) h
  | asleep wakeAt => exact Informed.rest (.inr ⟨wakeAt, hp⟩) h
  | readPhase => exact hs.reads (.inl hp) h
  | readGrace => exact hs.reads (.inr hp) h
  | stamp b => exact hs.decides (.inl ⟨b, hp⟩) h
  | compareTimeout grace => exact hs.decides (.inr (.inl ⟨grace, hp⟩)) h
  | compareQuiet grace => exact hs.decides (.inr (.inr ⟨grace, hp⟩)) h
  | failed => simp only [State.stepLoop, hp, reduceCtorEq] at h
  | stopped => simp only [State.stepLoop, hp, reduceCtorEq] at h
  | close =>
    simp only [State.stepLoop, hp, Option.some.injEq, Prod.mk.injEq] at h
    obtain ⟨rfl, rfl⟩ := h
    exact .enters .closed (.inl ⟨hp, rfl⟩) rfl (by simp only [State.holders, hp]; rfl) rfl
  | «seal» =>
    simp only [State.stepLoop, hp, Option.some.injEq, Prod.mk.injEq] at h
    obtain ⟨rfl, rfl⟩ := h
    exact .enters .gone (.inr ⟨hp, rfl⟩) rfl (by simp only [State.holders, hp]; rfl) rfl
  | complete =>
    simp only [State.stepLoop, hp, Option.some.injEq, Prod.mk.injEq] at h
    obtain ⟨rfl, rfl⟩ := h
    exact .completes hp rfl (by simp only [State.holders, hp]; rfl) rfl
  | count b =>
    rw [hp] at hfits
    simp only [State.stepLoop, hp, Option.some.injEq, Prod.mk.injEq] at h
    obtain ⟨rfl, rfl⟩ := h
    exact .moves rfl rfl (by rw [hp]; rfl) rfl hfits (by simp)
  | checkEmpty =>
    simp only [State.stepLoop, hp, Option.some.injEq, Prod.mk.injEq] at h
    obtain ⟨rfl, rfl⟩ := h
    refine .moves rfl rfl (by rw [hp]; rfl) ?_ ?_ (by simp) <;> dsimp only <;> split
    all_goals first | rfl | trivial
  | _ =>
    -- the loop was asked, and is not yet at a place that says with which grace
    rw [hp] at hasked
    simp only [State.stepLoop, hp, Option.some.injEq, Prod.mk.injEq] at h
    obtain ⟨rfl, rfl⟩ := h
    refine .moves rfl rfl (by rw [hp]; rfl) ?_ ?_ (by simp [Event.Stays]) <;> dsimp only
    · try split
      all_goals rfl
    · try split
      all_goals exact hasked (by simp [Place.notice])

/-! ## All steps -/

theorem Turn.clock {s t : State τ} {label : Step τ} {events : List Event}
    (h : Turn s t label events) (now : Instant) : Turn s { t with clock := now } label events := by
  cases h with
  | keeps events hc hh hn he => exact .keeps events hc hh hn he
  | locks hl hp hc hh hn => exact .locks hl hp hc hh hn
  | stores grace ha hc hh hn => exact .stores grace ha hc hh hn
  | enters p hp hc hh hn => exact .enters p hp hc hh hn
  | completes hp hc hh hn => exact .completes hp hc hh hn

/-- What every step does to the course. -/
theorem Informed.step {s t : State τ} {label : Step τ} {events : List Event} (hs : Informed s)
    (h : step code parkTimeout s label = some (t, events)) : Turn s t label events := by
  cases label with
  | submit task =>
    cases h
    exact .keeps [] rfl (by simp [State.holders, Caller.holds]) hs.notice (by simp)
  | request grace =>
    cases h
    exact .keeps [] rfl (by simp [State.holders, Caller.holds, RequestStage.holds]) hs.notice
      (by simp)
  | release =>
    cases h
    exact .keeps [] rfl (by simp [State.holders, Caller.holds, RequestStage.holds]) hs.notice
      (by simp)
  | caller i => exact hs.caller h
  | loop now =>
    obtain ⟨-, u, hu, rfl⟩ := loop_of_step h
    exact (hs.loop hu).clock now
  | rouse =>
    obtain ⟨⟨wakeAt, hp⟩, rfl, rfl⟩ := rouse_of_step h
    exact .moves rfl rfl (by rw [hp]; rfl) rfl trivial (by simp)

theorem Traced.informed {s : State τ} {history : List Event} {tasks : List τ}
    (h : Traced code parkTimeout now s history tasks) : Informed s := by
  induction h with
  | begin => exact informed_begin
  | step label _ hstep ih => exact ih.turn (ih.step hstep)

end FrameLoop.Loop
