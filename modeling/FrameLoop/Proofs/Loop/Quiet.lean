import FrameLoop.Proofs.Loop.Stopping

/-
  The quiet period.  A loop that was asked to stop checks, after each batch, whether it may: it
  compares the clock with the timeout, runs another batch, and if that ran nothing compares the
  clock with the quiet period.  It counts from the last reading of the clock behind a batch that had
  run a task, or from the reading when it saw the request, whichever is the later.

  Both readings are among the events.  The reading with which a check begins is not, so it is
  carried along with a run (`Clocked`).  What the loop has read when it comes to a place
  (`Place.HasRead`), and that it has read the clock behind every task (`Place.IsStamped`), is kept
  by every step (`Timed`).  There are three ways out of the service (`Leaves`).  In a check that began
  in time it is the one behind the quiet period, if one was asked for (`Leaves.quiet_passed`).
-/

namespace FrameLoop.Loop

variable {τ : Type} {code : Code τ} {parkTimeout : Span} {start now : Instant}

/-! ## Readings of the clock -/

/-- The loop read the clock behind a batch that had run a task. -/
def Event.isRan : Event → Bool
  | .ranBatch _ => true
  | _ => false

/-- The reading when the loop saw the request. -/
def Event.noticed? : Event → Option Instant
  | .noticed now => some now
  | _ => none

/-- The event is a reading of the clock. -/
def Event.isReading : Event → Bool
  | .ranBatch _ => true
  | .noticed _ => true
  | _ => false

/-- The readings when the loop saw a request for the first time. -/
def noticings (history : List Event) : List Instant := history.filterMap Event.noticed?

/-- What has happened since the loop last read the clock behind a batch. -/
def sinceRan (history : List Event) : List Event := history.rtakeWhile fun e => !e.isRan

/-- Behind every task that has come to its end the loop has read the clock. -/
def Stamped (history : List Event) : Prop :=
  ∀ call failed, .finished call failed ∉ sinceRan history

@[simp] theorem noticings_append (h es : List Event) :
    noticings (h ++ es) = noticings h ++ noticings es := List.filterMap_append

theorem noticings_eq_nil {es : List Event} (h : ∀ e ∈ es, e.isReading = false) :
    noticings es = [] := by
  apply List.filterMap_eq_nil_iff.2
  intro e he
  have := h e he
  cases e <;> first | rfl | cases this

theorem stamped_concat_ranBatch (history : List Event) (now : Instant) :
    Stamped (history ++ [.ranBatch now]) := by
  intro call failed
  rw [sinceRan, List.rtakeWhile_concat_neg _ _ _ (by simp [Event.isRan])]
  exact List.not_mem_nil

theorem Stamped.append {history events : List Event} (h : Stamped history)
    (he : finishedCalls events = []) : Stamped (history ++ events) := by
  intro call failed hmem
  obtain hmem | hmem := List.mem_append.1 (rtakeWhile_append_subset _ history events hmem)
  · exact h call failed hmem
  · cases List.filterMap_eq_nil_iff.1 he _ hmem

theorem lt_since_of_le {d : Span} {now earlier later : Instant} (hle : earlier ≤ later)
    (h : d < now.since later) : d < now.since earlier := by
  have hle : earlier.nanos ≤ later.nanos := hle
  have h : d.nanos < now.nanos - later.nanos := h
  show d.nanos < now.nanos - earlier.nanos
  omega

/-! ## What the loop has read -/

/-- The loop is in a check that began when the timeout had not passed since it saw the request. -/
def InCheck (g : Grace) (marked checked : Option Instant) : Prop :=
  ∃ m c, marked = some m ∧ checked = some c ∧ c.since m ≤ g.timeout

/-- What the loop has read of the clock before it runs the batch. -/
def Batch.HasRead (marked checked : Option Instant) : Batch → Prop
  | .check g => InCheck g marked checked
  | _ => True

namespace Place

/-- What the loop has read of the clock before it comes to the place. -/
def HasRead (marked checked : Option Instant) : Place τ → Prop
  | .count b => b.HasRead marked checked
  | .pop b _ _ => b.HasRead marked checked
  | .body b _ _ _ => b.HasRead marked checked
  | .submitting b _ _ _ _ => b.HasRead marked checked
  | .requesting b _ _ _ _ _ => b.HasRead marked checked
  | .stamp b => b.HasRead marked checked
  | .mark => marked = none
  | .readGrace => ∃ m, marked = some m
  | .compareTimeout _ => ∃ m, marked = some m
  | .compareQuiet g => InCheck g marked checked
  | _ => True

/-- The batch that is under way has run a task, or runs one. -/
def hasRun : Place τ → Bool
  | .pop _ _ ran => ran
  | .body _ _ _ _ => true
  | .submitting _ _ _ _ _ => true
  | .requesting _ _ _ _ _ _ => true
  | .stamp _ => true
  | _ => false

/-- The loop serves, and has read the clock behind every task. -/
def IsStamped (p : Place τ) : Prop := p.part = .serving ∧ p.hasRun = false

end Place

/-- The readings that the loop keeps are those it has made, none of them is later than `now`, and
the quiet period counts from the last of them. -/
structure Told (now : Instant) (s : State τ) (history : List Event) : Prop where
  lastRun : s.lastRun ≤ now
  marked : ∀ m, s.marked = some m → m ≤ s.lastRun
  noticed : noticings history = s.marked.toList
  ran : ∀ r, .ranBatch r ∈ history → r ≤ s.lastRun

/-- The loop keeps its readings, and has made those that it needs where it is. -/
structure Timed (now : Instant) (s : State τ) (history : List Event) (checked : Option Instant) :
    Prop extends Told now s history where
  place : s.place.HasRead s.marked checked
  stamped : s.place.IsStamped → Stamped history

/-- The reading with which a check begins. -/
def beginsCheck (s : State τ) : Step τ → Option Instant
  | .loop now =>
    match s.place with
    | .compareTimeout _ => some now
    | _ => none
  | _ => none

/-- Only the look at the timeout begins a check. -/
theorem beginsCheck_eq_none {s : State τ} (now : Instant)
    (h : ∀ g, s.place ≠ .compareTimeout g) : beginsCheck s (.loop now) = none := by
  cases hp : s.place with
  | compareTimeout g => exact absurd hp (h g)
  | _ => simp only [beginsCheck, hp]

namespace Told

variable {s t : State τ} {history events : List Event} {before : Instant}

theorem keeps (hs : Told before s history) (hnow : before ≤ now) (hlast : t.lastRun = s.lastRun)
    (hmarked : t.marked = s.marked) (he : ∀ e ∈ events, e.isReading = false) :
    Told now t (history ++ events) where
  lastRun := by
    rw [hlast]
    exact Nat.le_trans hs.lastRun hnow
  marked := by
    rw [hlast, hmarked]
    exact hs.marked
  noticed := by rw [noticings_append, noticings_eq_nil he, List.append_nil, hmarked, hs.noticed]
  ran := by
    intro r hr
    rw [hlast]
    obtain hr | hr := List.mem_append.1 hr
    · exact hs.ran r hr
    · cases he _ hr

theorem stamps (hs : Told before s history) (hnow : before ≤ now) (hlast : t.lastRun = now)
    (hmarked : t.marked = s.marked) : Told now t (history ++ [.ranBatch now]) where
  lastRun := by
    rw [hlast]
    exact Nat.le_refl _
  marked := by
    intro m hm
    rw [hlast]
    exact Nat.le_trans (hs.marked m (hmarked ▸ hm)) (Nat.le_trans hs.lastRun hnow)
  noticed := by
    rw [noticings_append, hmarked, hs.noticed]
    exact List.append_nil _
  ran := by
    intro r hr
    rw [hlast]
    obtain hr | hr := List.mem_append.1 hr
    · exact Nat.le_trans (hs.ran r hr) (Nat.le_trans hs.lastRun hnow)
    · rw [show r = now by simpa using hr]
      exact Nat.le_refl _

/-- The loop reads the clock when it has seen the request, for the first time. -/
theorem marks (hs : Told before s history) (hnow : before ≤ now) (hnone : s.marked = none)
    (hlast : t.lastRun = now) (hmarked : t.marked = some now) :
    Told now t (history ++ [.noticed now]) where
  lastRun := by
    rw [hlast]
    exact Nat.le_refl _
  marked := by
    intro m hm
    rw [hmarked] at hm
    rw [hlast, ← Option.some.inj hm]
    exact Nat.le_refl _
  noticed := by
    rw [noticings_append, hs.noticed, hnone, hmarked]
    rfl
  ran := by
    intro r hr
    have hr : .ranBatch r ∈ history := by simpa using hr
    rw [hlast]
    exact Nat.le_trans (hs.ran r hr) (Nat.le_trans hs.lastRun hnow)

end Told

/-! ## The steps of the thread of the loop -/

theorem stepSubmission_reads (s : State τ) (foreign : Bool) (c : Submission τ) :
    (s.stepSubmission foreign c).state.clock = s.clock ∧
      (s.stepSubmission foreign c).state.lastRun = s.lastRun ∧
      (s.stepSubmission foreign c).state.marked = s.marked ∧
      finishedCalls (s.stepSubmission foreign c).events = [] ∧
      ∀ e ∈ (s.stepSubmission foreign c).events, e.isReading = false := by
  unfold State.stepSubmission
  cases c.stage with
  | leave => cases foreign <;> simp [finishedCalls, Event.finished?, Event.isReading]
  | _ => simp [finishedCalls, Event.finished?, Event.isReading]

theorem Asks.reads {s t : State τ} {grace : Grace} {stage : RequestStage} {events : List Event}
    {left : Option RequestStage} (h : Asks s grace stage t events left) :
    t.clock = s.clock ∧ t.lastRun = s.lastRun ∧ t.marked = s.marked ∧ finishedCalls events = [] ∧
      ∀ e ∈ events, e.isReading = false := by
  cases h <;> simp [finishedCalls, Event.finished?, Event.isReading]

/-- Behind a batch the loop has read what it had read before. -/
theorem hasRead_batchOver {b : Batch} {marked checked : Option Instant}
    (h : b.HasRead marked checked) (ran : Bool) :
    (State.batchOver b ran : Place τ).HasRead marked checked := by
  cases b <;> cases ran <;> exact h

/-- A batch that has run a task is read before it counts. -/
theorem isStamped_of_batchOver {b : Batch} {ran : Bool} (left : Nat)
    (h : (State.batchOver b ran : Place τ).IsStamped) :
    (Place.pop b left ran : Place τ).IsStamped := by
  obtain ⟨hpart, hrun⟩ := h
  cases b with
  | drain => cases ran <;> cases hpart
  | _ =>
    cases ran with
    | false => exact ⟨rfl, rfl⟩
    | true => cases hrun

/-- Behind the service of the loop nothing is asked of its readings. -/
theorem hasRead_of_part {p : Place τ} {marked checked : Option Instant} (h : p.part ≠ .serving) :
    p.HasRead marked checked := by
  have hbatch {b : Batch} (h : Part.ofBatch b ≠ .serving) : b.HasRead marked checked := by
    cases b with
    | check g => exact absurd rfl h
    | _ => trivial
  cases p with
  | count b => exact hbatch h
  | pop b => exact hbatch h
  | body b => exact hbatch h
  | submitting b => exact hbatch h
  | requesting b => exact hbatch h
  | stamp b => exact hbatch h
  | mark => exact absurd rfl h
  | readGrace => exact absurd rfl h
  | compareTimeout => exact absurd rfl h
  | compareQuiet => exact absurd rfl h
  | _ => trivial

namespace Timed

variable {s t : State τ} {history events : List Event} {checked checked' : Option Instant}
  {before : Instant}

/-- A step that reads nothing, and comes to a place with a reading behind every task only from such
a place, ending no task. -/
theorem goes (hs : Timed before s history checked) (hnow : before ≤ now)
    (hlast : t.lastRun = s.lastRun) (hmarked : t.marked = s.marked)
    (hread : t.place.HasRead s.marked checked')
    (hstamped : t.place.IsStamped → s.place.IsStamped ∧ finishedCalls events = [])
    (he : ∀ e ∈ events, e.isReading = false) : Timed now t (history ++ events) checked' where
  toTold := hs.keeps hnow hlast hmarked he
  place := by rwa [hmarked]
  stamped ht := (hs.stamped (hstamped ht).1).append (hstamped ht).2

theorem pop {b : Batch} {left : Nat} {ran : Bool} (hs : Timed before s history checked)
    (hnow : before ≤ now) (hp : s.place = .pop b left ran)
    (h : s.stepLoop code parkTimeout now = some (t, events)) :
    Timed now t (history ++ events) checked := by
  have hread := hs.place
  rw [hp] at hread
  have hover : (State.batchOver b ran : Place τ).HasRead s.marked checked :=
    hasRead_batchOver hread ran
  have hstamped (h : (State.batchOver b ran : Place τ).IsStamped) : s.place.IsStamped := by
    rw [hp]
    exact isStamped_of_batchOver left h
  obtain ⟨rfl, rfl, -⟩ | ⟨left, call, task, queue, -, rfl, rfl⟩ := stepLoop_pop hp h
  · exact hs.goes hnow rfl rfl hover (fun h => ⟨hstamped h, rfl⟩) (by simp)
  · exact hs.goes hnow rfl rfl hread (fun h => by cases h.2) (by simp [Event.isReading])

theorem task {call : Nat} (hs : Timed before s history checked) (hnow : before ≤ now)
    (hr : s.place.running? = some call)
    (h : s.stepLoop code parkTimeout now = some (t, events)) :
    Timed now t (history ++ events) checked := by
  have hread := hs.place
  cases hp : s.place with
  | body b left call running =>
    rw [hp] at hread
    simp only [State.stepLoop, hp, Option.some.injEq] at h
    cases hop : code running <;> simp only [hop, State.stepBody, Prod.mk.injEq] at h <;>
      obtain ⟨rfl, rfl⟩ := h <;>
      exact hs.goes hnow rfl rfl hread (fun h => by cases h.2) (by simp [Event.isReading])
  | submitting b left call c next =>
    rw [hp] at hread
    obtain ⟨-, hlast, hmarked, -, he⟩ := stepSubmission_reads s false c
    simp only [State.stepLoop, hp, Option.some.injEq, Prod.mk.injEq] at h
    obtain ⟨rfl, rfl⟩ := h
    refine hs.goes hnow hlast hmarked ?_ ?_ he <;> dsimp only
    · split <;> exact hread
    · split <;> exact fun h => by cases h.2
  | requesting b left call grace stage next =>
    rw [hp] at hread
    obtain ⟨-, hlast, hmarked, -, he⟩ := (stepRequest_asks s grace stage).reads
    simp only [State.stepLoop, hp, Option.some.injEq, Prod.mk.injEq] at h
    obtain ⟨rfl, rfl⟩ := h
    refine hs.goes hnow hlast hmarked ?_ ?_ he <;> dsimp only
    · split <;> exact hread
    · split <;> exact fun h => by cases h.2
  | _ => rw [hp] at hr; cases hr

/-- A batch that has run a task is over; the quiet period counts from now. -/
theorem stamp {b : Batch} (hs : Timed before s history checked) (hnow : before ≤ now)
    (hp : s.place = .stamp b) (h : s.stepLoop code parkTimeout now = some (t, events)) :
    Timed now t (history ++ events) checked := by
  simp only [State.stepLoop, hp, Option.some.injEq, Prod.mk.injEq] at h
  obtain ⟨rfl, rfl⟩ := h
  refine ⟨hs.stamps hnow rfl rfl, ?_, fun _ => stamped_concat_ranBatch history now⟩
  cases b with
  | round => trivial
  | drain => trivial
  | check g =>
    dsimp only
    split <;> trivial

/-- The loop looks at the phase.  It reads the clock only when it has not done so before. -/
theorem looks (hs : Timed before s history checked) (hnow : before ≤ now)
    (hp : s.place = .readPhase) (h : s.stepLoop code parkTimeout now = some (t, events)) :
    Timed now t (history ++ events) checked := by
  simp only [State.stepLoop, hp, Option.some.injEq, Prod.mk.injEq] at h
  obtain ⟨rfl, rfl⟩ := h
  have hstamped : s.place.IsStamped := by rw [hp]; exact ⟨rfl, rfl⟩
  refine hs.goes hnow rfl rfl ?_ (fun _ => ⟨hstamped, rfl⟩) (by simp [Event.isReading])
  dsimp only
  split
  · cases hmarked : s.marked with
    | none => exact rfl
    | some m => exact ⟨m, rfl⟩
  · trivial

/-- The loop compares the clock with the timeout: it goes on with the check, or is about to close
the queue. -/
theorem compares {g : Grace} (hs : Timed before s history checked) (hnow : before ≤ now)
    (hp : s.place = .compareTimeout g) (h : s.stepLoop code parkTimeout now = some (t, events)) :
    Timed now t (history ++ events) (some now) := by
  obtain ⟨m, hm⟩ : ∃ m, s.marked = some m := by
    have hread := hs.place
    rwa [hp] at hread
  simp only [State.stepLoop, hp, Option.some.injEq, Prod.mk.injEq] at h
  obtain ⟨rfl, rfl⟩ := h
  have hstamped : s.place.IsStamped := by rw [hp]; exact ⟨rfl, rfl⟩
  refine hs.goes hnow rfl rfl ?_ (fun _ => ⟨hstamped, rfl⟩) (by simp)
  simp only [hm, Option.getD_some]
  split
  · trivial
  · exact ⟨m, now, rfl, rfl, Nat.le_of_not_lt ‹_›⟩

theorem rest (hs : Timed before s history checked) (hnow : before ≤ now)
    (hp : (∃ limit, s.place = .park limit) ∨ ∃ wakeAt, s.place = .asleep wakeAt)
    (h : s.stepLoop code parkTimeout now = some (t, events)) :
    Timed now t (history ++ events) checked := by
  have hstamped : s.place.IsStamped := by
    obtain ⟨_, hp⟩ | ⟨_, hp⟩ := hp <;> rw [hp] <;> exact ⟨rfl, rfl⟩
  obtain ⟨rfl, ⟨token, rfl⟩ | ⟨limit, -, rfl⟩⟩ := stepLoop_rest hp h
  · exact hs.goes hnow rfl rfl trivial (fun _ => ⟨hstamped, rfl⟩) (by simp)
  · exact hs.goes hnow rfl rfl trivial (fun _ => ⟨hstamped, rfl⟩) (by simp)

theorem closes (hs : Timed before s history checked) (hnow : before ≤ now)
    (hlast : t.lastRun = s.lastRun) (hmarked : t.marked = s.marked) (ht : t.place.part ≠ .serving)
    (he : ∀ e ∈ events, e.isReading = false) : Timed now t (history ++ events) checked :=
  hs.goes hnow hlast hmarked (hasRead_of_part ht) (fun h => absurd h.1 ht) he

theorem elsewhere (hs : Timed before s history checked) (hnow : before ≤ now)
    (hcheck : ∀ g, s.place ≠ .compareTimeout g)
    (h : s.stepLoop code parkTimeout now = some (t, events)) :
    Timed now t (history ++ events) checked := by
  have hread := hs.place
  cases hp : s.place with
  | body => exact hs.task hnow (by rw [hp]; rfl) h
  | submitting => exact hs.task hnow (by rw [hp]; rfl) h
  | requesting => exact hs.task hnow (by rw [hp]; rfl) h
  | pop => exact hs.pop hnow hp h
  | stamp => exact hs.stamp hnow hp h
  | readPhase => exact hs.looks hnow hp h
  | compareTimeout g => exact absurd hp (hcheck g)
  | park limit => exact hs.rest hnow (.inl ⟨limit, hp⟩) h
  | asleep wakeAt => exact hs.rest hnow (.inr ⟨wakeAt, hp⟩) h
  | failed => simp only [State.stepLoop, hp, reduceCtorEq] at h
  | stopped => simp only [State.stepLoop, hp, reduceCtorEq] at h
  | count b =>
    rw [hp] at hread
    simp only [State.stepLoop, hp, Option.some.injEq, Prod.mk.injEq] at h
    obtain ⟨rfl, rfl⟩ := h
    exact hs.goes hnow rfl rfl hread (fun h => ⟨by rw [hp]; exact h, rfl⟩) (by simp)
  | mark =>
    rw [hp] at hread
    simp only [State.stepLoop, hp, Option.some.injEq, Prod.mk.injEq] at h
    obtain ⟨rfl, rfl⟩ := h
    have hstamped := hs.stamped (by rw [hp]; exact ⟨rfl, rfl⟩)
    exact ⟨hs.marks hnow hread rfl rfl, ⟨now, rfl⟩, fun _ => hstamped.append rfl⟩
  | readGrace =>
    rw [hp] at hread
    simp only [State.stepLoop, hp, Option.some.injEq, Prod.mk.injEq] at h
    obtain ⟨rfl, rfl⟩ := h
    refine hs.goes hnow rfl rfl ?_ (fun _ => ⟨by rw [hp]; exact ⟨rfl, rfl⟩, rfl⟩) (by simp)
    dsimp only
    split <;> exact hread
  | compareQuiet g =>
    simp only [State.stepLoop, hp, Option.some.injEq, Prod.mk.injEq] at h
    obtain ⟨rfl, rfl⟩ := h
    refine hs.goes hnow rfl rfl ?_ (fun _ => ⟨by rw [hp]; exact ⟨rfl, rfl⟩, rfl⟩) (by simp)
    dsimp only
    split <;> trivial
  | checkEmpty =>
    simp only [State.stepLoop, hp, Option.some.injEq, Prod.mk.injEq] at h
    obtain ⟨rfl, rfl⟩ := h
    refine hs.goes hnow rfl rfl ?_ (fun _ => ⟨by rw [hp]; exact ⟨rfl, rfl⟩, rfl⟩) (by simp)
    dsimp only
    split <;> trivial
  | _ =>
    -- the loop closes the queue, or has closed it
    simp only [State.stepLoop, hp, Option.some.injEq, Prod.mk.injEq] at h
    obtain ⟨rfl, rfl⟩ := h
    refine hs.closes hnow rfl rfl ?_ (by simp [Event.isReading])
    dsimp only
    try split
    all_goals exact Part.noConfusion

theorem loop (hs : Timed before s history checked) (hnow : before ≤ now)
    (h : s.stepLoop code parkTimeout now = some (t, events)) :
    Timed now t (history ++ events) ((beginsCheck s (.loop now)).or checked) := by
  by_cases hcheck : ∃ g, s.place = .compareTimeout g
  · obtain ⟨g, hp⟩ := hcheck
    simp only [beginsCheck, hp, Option.some_or]
    exact hs.compares hnow hp h
  · have hcheck (g : Grace) : s.place ≠ .compareTimeout g := fun hp => hcheck ⟨g, hp⟩
    rw [beginsCheck_eq_none now hcheck, Option.none_or]
    exact hs.elsewhere hnow hcheck h

theorem clock (h : Timed now s history checked) :
    Timed now { s with clock := now } history checked :=
  ⟨⟨h.lastRun, h.marked, h.noticed, h.ran⟩, h.place, h.stamped⟩

theorem stays (hs : Timed s.clock s history checked) (hclock : t.clock = s.clock)
    (hlast : t.lastRun = s.lastRun) (hmarked : t.marked = s.marked) (hplace : t.place = s.place)
    (hends : finishedCalls events = []) (he : ∀ e ∈ events, e.isReading = false) :
    Timed t.clock t (history ++ events) checked := by
  rw [hclock]
  apply hs.goes (Nat.le_refl _) hlast hmarked ?_ ?_ he
  · rw [hplace]
    exact hs.place
  · rw [hplace]
    exact fun h => ⟨h, hends⟩

end Timed

/-- A step of a caller moves nothing that the loop has read. -/
theorem stepCaller_reads {s t : State τ} {i : Nat} {events : List Event}
    (h : s.stepCaller i = some (t, events)) :
    t.clock = s.clock ∧ t.lastRun = s.lastRun ∧ t.marked = s.marked ∧ t.place = s.place ∧
      finishedCalls events = [] ∧ ∀ e ∈ events, e.isReading = false := by
  cases hi : s.callers[i]? with
  | none => simp only [State.stepCaller, hi, reduceCtorEq] at h
  | some caller =>
    cases caller with
    | submission c =>
      obtain ⟨hclock, hlast, hmarked, hends, he⟩ := stepSubmission_reads s true c
      obtain ⟨-, -, hplace, -⟩ := stepSubmission_state s true c
      simp only [State.stepCaller, hi, Option.some.injEq, Prod.mk.injEq] at h
      obtain ⟨rfl, rfl⟩ := h
      exact ⟨hclock, hlast, hmarked, hplace, hends, he⟩
    | request grace stage =>
      obtain ⟨hclock, hlast, hmarked, hends, he⟩ := (stepRequest_asks s grace stage).reads
      obtain ⟨-, -, hplace, -⟩ := stepRequest_state s grace stage
      simp only [State.stepCaller, hi, Option.some.injEq, Prod.mk.injEq] at h
      obtain ⟨rfl, rfl⟩ := h
      exact ⟨hclock, hlast, hmarked, hplace, hends, he⟩

/-! ## Runs -/

/-- The states that can be reached, each with all that has happened on the way, and with the reading
with which the last check began. -/
inductive Clocked (code : Code τ) (parkTimeout : Span) (start : Instant) :
    State τ → List Event → Option Instant → Prop
  | begin : Clocked code parkTimeout start (.begin start) [] none
  | step {s t : State τ} {history events : List Event} {checked : Option Instant} (label : Step τ) :
    Clocked code parkTimeout start s history checked →
    step code parkTimeout s label = some (t, events) →
    Clocked code parkTimeout start t (history ++ events) ((beginsCheck s label).or checked)

/-- The reading of the last check is all that is added to a run: the states are the reachable ones. -/
theorem reachable_iff_clocked {s : State τ} {history : List Event} :
    Reachable code parkTimeout start s history ↔
      ∃ checked, Clocked code parkTimeout start s history checked := by
  constructor
  · intro h
    induction h with
    | begin => exact ⟨none, .begin⟩
    | step label _ hstep ih =>
      obtain ⟨checked, ih⟩ := ih
      exact ⟨_, ih.step label hstep⟩
  · rintro ⟨checked, h⟩
    induction h with
    | begin => exact .begin
    | step label _ hstep ih => exact ih.step label hstep

theorem Timed.step {s t : State τ} {history events : List Event} {checked : Option Instant}
    {label : Step τ} (hs : Timed s.clock s history checked)
    (h : step code parkTimeout s label = some (t, events)) :
    Timed t.clock t (history ++ events) ((beginsCheck s label).or checked) := by
  cases label with
  | submit task => cases h; exact hs.stays rfl rfl rfl rfl rfl (by simp)
  | request grace => cases h; exact hs.stays rfl rfl rfl rfl rfl (by simp)
  | release => cases h; exact hs.stays rfl rfl rfl rfl rfl (by simp)
  | caller i =>
    obtain ⟨hclock, hlast, hmarked, hplace, hends, he⟩ := stepCaller_reads h
    exact hs.stays hclock hlast hmarked hplace hends he
  | loop now =>
    obtain ⟨hnow, u, hu, rfl⟩ := loop_of_step h
    exact (hs.loop hnow hu).clock
  | rouse =>
    obtain ⟨⟨wakeAt, hp⟩, rfl, rfl⟩ := rouse_of_step h
    have hstamped : s.place.IsStamped := by rw [hp]; exact ⟨rfl, rfl⟩
    exact hs.goes (Nat.le_refl _) rfl rfl trivial (fun _ => ⟨hstamped, rfl⟩) (by simp)

theorem Clocked.timed {s : State τ} {history : List Event} {checked : Option Instant}
    (h : Clocked code parkTimeout start s history checked) : Timed s.clock s history checked := by
  induction h with
  | begin =>
    have hnew : Stamped [] := fun _ _ => List.not_mem_nil
    exact ⟨⟨Nat.le_refl _, by simp [State.begin], rfl, by simp⟩, trivial, fun _ => hnew⟩
  | step label _ hstep ih => exact ih.step hstep

/-- What the loop goes by in a check is the grace that was stored. -/
theorem Clocked.informed {s : State τ} {history : List Event} {checked : Option Instant}
    (h : Clocked code parkTimeout start s history checked) : Informed s := by
  obtain ⟨tasks, htraced⟩ := reachable_iff_traced.1 (reachable_iff_clocked.2 ⟨checked, h⟩)
  exact htraced.informed

/-! ## The end of the service -/

/-- The three ways to the close of the queue: the timeout has passed, a task has run and no quiet
period was asked for, or the quiet period has passed. -/
inductive Leaves (now : Instant) (s : State τ) (g : Grace) : Prop
  | late : s.place = .compareTimeout g → g.timeout < now.since (s.marked.getD now) → Leaves now s g
  | busy : s.place = .stamp (.check g) → g.quiet.isZero = true → Leaves now s g
  | quiet : s.place = .compareQuiet g → g.quiet < now.since s.lastRun → Leaves now s g

/-- Behind a batch the loop does not close the queue at once. -/
theorem batchOver_ne_close (b : Batch) (ran : Bool) :
    (State.batchOver b ran : Place τ) ≠ .close := by
  intro h
  cases b <;> cases ran <;> cases h

/-- There is no other way. -/
theorem leaves_of_close {s t : State τ} {events : List Event}
    (h : s.stepLoop code parkTimeout now = some (t, events)) (ht : t.place = .close) :
    ∃ g, Leaves now s g := by
  cases hp : s.place with
  | compareTimeout g =>
    simp only [State.stepLoop, hp, Option.some.injEq, Prod.mk.injEq] at h
    obtain ⟨rfl, rfl⟩ := h
    dsimp only at ht
    split at ht
    · exact ⟨g, .late hp ‹_›⟩
    · cases ht
  | compareQuiet g =>
    simp only [State.stepLoop, hp, Option.some.injEq, Prod.mk.injEq] at h
    obtain ⟨rfl, rfl⟩ := h
    dsimp only at ht
    split at ht
    · cases ht
    · exact ⟨g, .quiet hp (Nat.lt_of_not_le ‹_›)⟩
  | stamp b =>
    simp only [State.stepLoop, hp, Option.some.injEq, Prod.mk.injEq] at h
    obtain ⟨rfl, rfl⟩ := h
    cases b with
    | check g =>
      dsimp only at ht
      split at ht
      · exact ⟨g, .busy hp ‹_›⟩
      · cases ht
    | _ => cases ht
  | body b left call running =>
    simp only [State.stepLoop, hp, Option.some.injEq] at h
    cases hop : code running <;> simp only [hop, State.stepBody, Prod.mk.injEq] at h <;>
      obtain ⟨rfl, rfl⟩ := h <;> cases ht
  | pop b left ran =>
    obtain ⟨rfl, -⟩ | ⟨_, _, _, _, -, rfl, -⟩ := stepLoop_pop hp h
    · exact absurd ht (batchOver_ne_close b ran)
    · cases ht
  | park limit =>
    obtain ⟨-, ⟨_, rfl⟩ | ⟨_, -, rfl⟩⟩ := stepLoop_rest (.inl ⟨limit, hp⟩) h <;> cases ht
  | asleep wakeAt =>
    obtain ⟨-, ⟨_, rfl⟩ | ⟨_, -, rfl⟩⟩ := stepLoop_rest (.inr ⟨wakeAt, hp⟩) h <;> cases ht
  | failed => simp only [State.stepLoop, hp, reduceCtorEq] at h
  | stopped => simp only [State.stepLoop, hp, reduceCtorEq] at h
  | _ =>
    simp only [State.stepLoop, hp, Option.some.injEq, Prod.mk.injEq] at h
    obtain ⟨rfl, rfl⟩ := h
    dsimp only at ht
    repeat' split at ht
    all_goals cases ht

/-- Only the thread of the loop goes on to another place; for no reason it only wakes up. -/
theorem place_of_step {s t : State τ} {label : Step τ} {events : List Event}
    (h : step code parkTimeout s label = some (t, events)) :
    (∃ now, label = .loop now) ∨ t.place = s.place ∨
      (∃ wakeAt, s.place = .asleep wakeAt) ∧ t.place = .count .round := by
  cases label with
  | submit task => cases h; exact .inr (.inl rfl)
  | request grace => cases h; exact .inr (.inl rfl)
  | release => cases h; exact .inr (.inl rfl)
  | caller i => exact .inr (.inl (stepCaller_reads h).2.2.2.1)
  | loop now => exact .inl ⟨now, rfl⟩
  | rouse =>
    obtain ⟨hasleep, rfl, -⟩ := rouse_of_step h
    exact .inr (.inr ⟨hasleep, rfl⟩)

/-- In a check that began when the timeout had not passed, the loop leaves only behind the quiet
period. -/
theorem Leaves.quiet_passed {s : State τ} {history : List Event} {checked : Option Instant}
    {g : Grace} {before : Instant} (h : Leaves now s g) (hs : Timed before s history checked)
    (hk : Informed s) :
    ∃ m c, s.grace = some g ∧ noticings history = [m] ∧
      (beginsCheck s (.loop now)).or checked = some c ∧
      (c.since m ≤ g.timeout → .zero < g.quiet →
        g.quiet < now.since m ∧ (∀ r, .ranBatch r ∈ history → g.quiet < now.since r) ∧
          Stamped history) := by
  have hfits := hk.notice
  have hread := hs.place
  have hstamped := hs.stamped
  cases h with
  | late hp hlate =>
    rw [hp] at hfits hread
    obtain ⟨m, hm⟩ := hread
    rw [hm, Option.getD_some] at hlate
    refine ⟨m, now, hfits, ?_, ?_, fun hle => absurd hlate (Nat.not_lt_of_le hle)⟩
    · rw [hs.noticed, hm]
      rfl
    · simp only [beginsCheck, hp, Option.some_or]
  | busy hp hzero =>
    rw [hp] at hfits hread
    obtain ⟨m, c, hm, hc, -⟩ := hread
    refine ⟨m, c, hfits, ?_, ?_, fun _ hquiet => ?_⟩
    · rw [hs.noticed, hm]
      rfl
    · simp only [beginsCheck, hp, Option.none_or, hc]
    · rw [Span.isZero, beq_iff_eq] at hzero
      have hquiet : 0 < g.quiet.nanos := hquiet
      omega
  | quiet hp hquiet =>
    rw [hp] at hfits hread hstamped
    obtain ⟨m, c, hm, hc, -⟩ := hread
    refine ⟨m, c, hfits, ?_, ?_, fun _ _ => ⟨?_, fun r hr => ?_, hstamped ⟨rfl, rfl⟩⟩⟩
    · rw [hs.noticed, hm]
      rfl
    · simp only [beginsCheck, hp, Option.none_or, hc]
    · exact lt_since_of_le (hs.marked m hm) hquiet
    · exact lt_since_of_le (hs.ran r hr) hquiet

/-- A step behind which no task runs has started none. -/
theorem Change.startedCalls_eq_nil {s t : State τ} {task : Option τ} {events : List Event}
    (h : Change s t task events) (ht : t.place.running? = none) : startedCalls events = [] := by
  cases h with
  | begins => rfl
  | proceeds c others queue submitters events left _ ha _ _ => cases ha <;> rfl
  | starts b left call task queue _ _ hp _ _ =>
    rw [hp] at ht
    cases ht
  | ends => rfl
  | keeps events _ _ he => exact (calls_eq_nil he).2.1

/-- A loop that is about to close the queue starts nothing before it has done so. -/
theorem Later.starts_nothing {s t : State τ} {later : List Event}
    (hl : Later code parkTimeout s later t) (hs : s.place = .close) :
    t.place = .close ∧ startedCalls later = [] ∨ .entered .closed ∈ later := by
  induction hl with
  | refl => exact .inl ⟨hs, rfl⟩
  | @step _ u _ _ label _ hstep ih =>
    obtain ⟨hp, hnone⟩ | hclosed := ih
    · obtain ⟨now, rfl⟩ | hplace | ⟨⟨wakeAt, hasleep⟩, -⟩ := place_of_step hstep
      · obtain ⟨-, v, hv, rfl⟩ := loop_of_step hstep
        simp only [State.stepLoop, hp, Option.some.injEq, Prod.mk.injEq] at hv
        obtain ⟨rfl, rfl⟩ := hv
        exact .inr (by simp)
      · have hclose : u.place = .close := hplace.trans hp
        refine .inl ⟨hclose, ?_⟩
        have hidle : u.place.running? = none := by rw [hclose]; rfl
        rw [startedCalls_append, hnone, (step_change hstep).startedCalls_eq_nil hidle]
        rfl
      · rw [hp] at hasleep
        cases hasleep
    · exact .inr (List.mem_append_left _ hclosed)

/-- The look at the timeout decides whether the loop goes on with the check. -/
theorem step_compareTimeout {s : State τ} {g : Grace} {m : Instant}
    (hp : s.place = .compareTimeout g) (hm : s.marked = some m) (hnow : s.clock ≤ now) :
    step code parkTimeout s (.loop now) =
      some ({ s with
        place := if g.timeout < now.since m then .close else .count (.check g)
        clock := now }, []) := by
  simp only [Loop.step, if_pos hnow, State.stepLoop, hp, hm, Option.getD_some, Option.map_some]

/-- When more than the timeout has passed the loop leaves, and runs nothing before it closes the
queue. -/
theorem Clocked.leaves_late {s : State τ} {history : List Event} {checked : Option Instant}
    {g : Grace} (h : Clocked code parkTimeout start s history checked)
    (hp : s.place = .compareTimeout g) (hnow : s.clock ≤ now) :
    ∃ m t, s.grace = some g ∧ noticings history = [m] ∧
      Loop.step code parkTimeout s (.loop now) = some (t, []) ∧
      (g.timeout < now.since m → t.place = .close ∧ t.queue = s.queue ∧
        ∀ later u, Later code parkTimeout t later u → .entered .closed ∉ later →
          startedCalls later = []) := by
  have hfits := h.informed.notice
  have hread := h.timed.place
  rw [hp] at hfits hread
  obtain ⟨m, hm⟩ := hread
  refine ⟨m, _, hfits, ?_, step_compareTimeout hp hm hnow, fun hlate => ?_⟩
  · rw [h.timed.noticed, hm]
    rfl
  · simp only [if_pos hlate, true_and]
    intro later u hl hopen
    obtain ⟨-, hnone⟩ | hclosed := hl.starts_nothing rfl
    · exact hnone
    · exact absurd hclosed hopen

/-- The time that is left of the quiet period can be told, whenever the loop asks for it. -/
theorem Clocked.rests_exactly {s t : State τ} {history events : List Event}
    {checked : Option Instant} {g : Grace}
    (h : Clocked code parkTimeout start s history checked) (hp : s.place = .compareQuiet g)
    (hstep : Loop.step code parkTimeout s (.loop now) = some (t, events))
    (hnot : t.place ≠ .close) :
    ∃ idle left : Span, now.nanos = s.lastRun.nanos + idle.nanos ∧
      g.quiet.nanos = idle.nanos + left.nanos ∧
      t.place = .park (max (min left longestQuietRest) shortestQuietRest) := by
  have hlast : s.lastRun.nanos ≤ s.clock.nanos := h.timed.lastRun
  obtain ⟨hnow, u, hu, rfl⟩ := loop_of_step hstep
  have hnow : s.clock.nanos ≤ now.nanos := hnow
  simp only [State.stepLoop, hp, Option.some.injEq, Prod.mk.injEq] at hu
  obtain ⟨rfl, rfl⟩ := hu
  by_cases hidle : now.since s.lastRun ≤ g.quiet
  · refine ⟨now.since s.lastRun, g.quiet - now.since s.lastRun, ?_, ?_, if_pos hidle⟩
    · show now.nanos = s.lastRun.nanos + (now.nanos - s.lastRun.nanos)
      omega
    · have hidle : (now.since s.lastRun).nanos ≤ g.quiet.nanos := hidle
      show g.quiet.nanos = _ + (g.quiet.nanos - (now.since s.lastRun).nanos)
      omega
  · exact absurd (if_neg hidle) hnot

/-- The loop leaves its service only with a check, by the grace `g` that was stored.  When a check
begins at `c`, and the timeout has not passed since the loop saw the request at `m`, it leaves only
when more than the quiet period has passed since `m` and since every reading behind a batch that had
run a task; behind every task that came to its end there is such a reading.  At a look that finds
more than the timeout passed, it leaves, and starts no task before it has closed the queue.  When it
rests instead, the time since it last ran a task is not more than the quiet period, and what is left
of that bounds the rest. -/
theorem quiet_period_kept {s : State τ} {history : List Event} {checked : Option Instant}
    (h : Clocked code parkTimeout start s history checked) :
    (∀ label t events, step code parkTimeout s label = some (t, events) →
      s.place ≠ .close → t.place = .close →
        ∃ now g m c, label = .loop now ∧ s.grace = some g ∧ noticings history = [m] ∧
          (beginsCheck s label).or checked = some c ∧
          (c.since m ≤ g.timeout → .zero < g.quiet →
            g.quiet < now.since m ∧ (∀ r, .ranBatch r ∈ history → g.quiet < now.since r) ∧
              Stamped history)) ∧
      (∀ g now, s.place = .compareTimeout g → s.clock ≤ now →
        ∃ m t, s.grace = some g ∧ noticings history = [m] ∧
          step code parkTimeout s (.loop now) = some (t, []) ∧
          (g.timeout < now.since m → t.place = .close ∧ t.queue = s.queue ∧
            ∀ later u, Later code parkTimeout t later u → .entered .closed ∉ later →
              startedCalls later = [])) ∧
      ∀ g now t events, s.place = .compareQuiet g →
        step code parkTimeout s (.loop now) = some (t, events) → t.place ≠ .close →
          ∃ idle left : Span, now.nanos = s.lastRun.nanos + idle.nanos ∧
            g.quiet.nanos = idle.nanos + left.nanos ∧
            t.place = .park (max (min left longestQuietRest) shortestQuietRest) := by
  have hs := h.timed
  have hk := h.informed
  refine ⟨fun label t events hstep hnot hclose => ?_, fun g now hp hnow => ?_,
    fun g now t events hp hstep hnot => ?_⟩
  · obtain ⟨now, rfl⟩ | hplace | ⟨-, hplace⟩ := place_of_step hstep
    · obtain ⟨-, u, hu, rfl⟩ := loop_of_step hstep
      obtain ⟨g, hleaves⟩ := leaves_of_close hu hclose
      obtain ⟨m, c, hgrace, hm, hc, hquiet⟩ := hleaves.quiet_passed hs hk
      exact ⟨now, g, m, c, rfl, hgrace, hm, hc, hquiet⟩
    · exact absurd (hplace.symm.trans hclose) hnot
    · rw [hclose] at hplace
      cases hplace
  · exact h.leaves_late hp hnow
  · exact h.rests_exactly hp hstep hnot

/-- The reading with which the last check of given steps begins. -/
def lastCheck (code : Code τ) (parkTimeout : Span) :
    State τ → Option Instant → List (Step τ) → Option Instant
  | _, checked, [] => checked
  | s, checked, label :: labels =>
    match step code parkTimeout s label with
    | none => checked
    | some (t, _) => lastCheck code parkTimeout t ((beginsCheck s label).or checked) labels

theorem Clocked.follow {labels : List (Step τ)} {s t : State τ} {history events : List Event}
    {tasks more : List τ} {checked : Option Instant}
    (h : Clocked code parkTimeout start s history checked)
    (hf : follow code parkTimeout s history tasks labels = some (t, events, more)) :
    Clocked code parkTimeout start t events (lastCheck code parkTimeout s checked labels) := by
  induction labels generalizing s history tasks checked with
  | nil => cases hf; exact h
  | cons label labels ih =>
    simp only [Loop.follow] at hf
    simp only [lastCheck]
    cases hstep : Loop.step code parkTimeout s label with
    | none => rw [hstep] at hf; cases hf
    | some next =>
      rw [hstep] at hf
      exact ih (h.step label hstep) hf

/-- A run in which a task comes when the loop has seen the request and is about to look whether the
timeout has passed. -/
def lateTask : List (Step Nat) :=
  .request ⟨.ofNanos 2, .ofNanos 9⟩ :: .replicate 3 (.caller 0) ++ .replicate 5 (.loop ⟨1⟩) ++
    .submit 0 :: .replicate 5 (.caller 0)

/-- The task is run in this check, and the loop comes to its look at the quiet period in the
next. -/
def quietCheck : List (Step Nat) :=
  lateTask ++ .replicate 5 (.loop ⟨2⟩) ++ .loop ⟨3⟩ :: .replicate 7 (.loop ⟨5⟩)

/-- The loop goes on to its rest, is awake at once, and looks at the quiet period again. -/
def quietEnd : List (Step Nat) := quietCheck ++ .loop ⟨5⟩ :: .replicate 8 (.loop ⟨6⟩)

/-- The loop leaves late, with the task in its queue; or it rests, when just the quiet period has
passed since the task ran; or it leaves when more than that has passed. -/
theorem quiet_period_kept_late_task :
    (∃ s history checked t, Clocked relay .zero ⟨0⟩ s history checked ∧ s.queue = [(0, 0)] ∧
      step relay .zero s (.loop ⟨20⟩) = some (t, []) ∧ t.place = .close ∧ t.queue = s.queue) ∧
      (∃ s history checked t, Clocked relay .zero ⟨0⟩ s history checked ∧
        step relay .zero s (.loop ⟨5⟩) = some (t, []) ∧
        ∃ idle left : Span, 5 = 3 + idle.nanos ∧ 2 = idle.nanos + left.nanos ∧
          t.place = .park (max (min left longestQuietRest) shortestQuietRest)) ∧
      ∃ s history checked t, Clocked relay .zero ⟨0⟩ s history checked ∧
        step relay .zero s (.loop ⟨6⟩) = some (t, []) ∧ t.place = .close ∧
        .ranBatch ⟨3⟩ ∈ history ∧ .ofNanos 2 < Instant.since ⟨6⟩ ⟨3⟩ ∧ Stamped history := by
  refine ⟨?_, ?_, ?_⟩
  · have hrun := Clocked.begin.follow
      (show follow relay .zero (.begin ⟨0⟩) [] [] lateTask = some (_, _, _) from rfl)
    obtain ⟨m, t, -, hm, hstep, hlate⟩ :=
      (quiet_period_kept hrun).2.1 ⟨.ofNanos 2, .ofNanos 9⟩ ⟨20⟩ rfl (by decide)
    obtain rfl : ⟨1⟩ = m := (List.cons.inj hm).1
    obtain ⟨hclose, hqueue, -⟩ := hlate (by decide)
    exact ⟨_, _, _, t, hrun, rfl, hstep, hclose, hqueue⟩
  · have hrun := Clocked.begin.follow
      (show follow relay .zero (.begin ⟨0⟩) [] [] quietCheck = some (_, _, _) from rfl)
    have hrest := (quiet_period_kept hrun).2.2 ⟨.ofNanos 2, .ofNanos 9⟩ ⟨5⟩ _ [] rfl rfl
      (fun h => by cases h)
    exact ⟨_, _, _, _, hrun, rfl, hrest⟩
  · have hrun := Clocked.begin.follow
      (show follow relay .zero (.begin ⟨0⟩) [] [] quietEnd = some (_, _, _) from rfl)
    obtain ⟨now, g, m, c, hnow, hg, hm, hc, hquiet⟩ :=
      (quiet_period_kept hrun).1 (.loop ⟨6⟩) _ [] rfl (fun h => by cases h) rfl
    cases hnow
    obtain rfl : ⟨.ofNanos 2, .ofNanos 9⟩ = g := Option.some.inj hg
    obtain rfl : ⟨1⟩ = m := (List.cons.inj hm).1
    obtain rfl : ⟨6⟩ = c := Option.some.inj hc
    obtain ⟨-, hran, hstamped⟩ := hquiet (by decide) (by decide)
    exact ⟨_, _, _, _, hrun, rfl, rfl, by decide, hran ⟨3⟩ (by decide), hstamped⟩

end FrameLoop.Loop
