import FrameLoop.Proofs.Loop.Accounts

/-
  Batches come to their end.  What is submitted meanwhile waits for another batch, so neither a task
  that submits itself again nor a thread that goes on pushing keeps the loop in a batch; and the
  queue that is drained does not grow.  The other threads can do any steps between those of the loop
  (`Meanwhile`), and the end comes all the same (`Comes`).  The induction is on the number of tasks
  that the batch may still take, on the acts of each (`Ends`), and on the stages of a submission or
  a request to stop.
-/

namespace FrameLoop.Loop

variable {τ : Type} {code : Code τ} {parkTimeout : Span} {start now : Instant}

/-! ## What must come -/

/-- The task comes to its end, by itself or by a panic, when the loop takes what it submits, or
refuses it, and whatever it sees of such a loop. -/
inductive Ends (code : Code τ) (accepted : Bool) : τ → Prop
  | finish {task : τ} : code task = .finish → Ends code accepted task
  | panic {task : τ} : code task = .panic → Ends code accepted task
  | submit {task other : τ} {next : Bool → τ} : code task = .submit other next →
    Ends code accepted (next accepted) → Ends code accepted task
  | stop {task next : τ} {grace : Grace} : code task = .stop grace next →
    Ends code accepted next → Ends code accepted task
  | look {task : τ} {next : View → τ} : code task = .look next →
    (∀ v : View, v.phase.isClosed = !accepted → Ends code accepted (next v)) →
    Ends code accepted task
  | skip {task next : τ} : code task = .skip next → Ends code accepted next →
    Ends code accepted task

/-- What the other threads can do before the thread of the loop does its next step. -/
inductive Meanwhile (code : Code τ) (parkTimeout : Span) (s : State τ) : State τ → Prop
  | refl : Meanwhile code parkTimeout s s
  | step {t u : State τ} {events : List Event} (label : Step τ) :
    Meanwhile code parkTimeout s t → label.isLoop = false →
    step code parkTimeout t label = some (u, events) → Meanwhile code parkTimeout s u

/-- The running task asks the loop to stop, and the `i`th caller holds the lock that it needs. -/
def WaitsFor (s : State τ) (i : Nat) : Prop :=
  (∃ b left call grace next, s.place = .requesting b left call grace .lock next) ∧
    ∃ holder, s.callers[i]? = some (.request holder .store)

/-- The step is the next one of the thread of the loop, or of the caller for whom it waits. -/
inductive IsDue (s : State τ) : Step τ → Prop
  | loop (now : Instant) : (∀ i, ¬ WaitsFor s i) → IsDue s (.loop now)
  | holder (i : Nat) : WaitsFor s i → IsDue s (.caller i)

/-- Whatever the other threads do before, the steps that are due can be made, and lead to a state
with `P`. -/
inductive Comes (code : Code τ) (parkTimeout : Span) (P : State τ → Prop) : State τ → Prop
  | here {s : State τ} : P s → Comes code parkTimeout P s
  | onward {s : State τ} :
    (∀ t, Meanwhile code parkTimeout s t →
      ∃ label u events, IsDue t label ∧ step code parkTimeout t label = some (u, events)) →
    (∀ t label u events, Meanwhile code parkTimeout s t → IsDue t label →
      step code parkTimeout t label = some (u, events) → Comes code parkTimeout P u) →
    Comes code parkTimeout P s

theorem Comes.trans {P Q : State τ → Prop} {s : State τ} (h : Comes code parkTimeout P s)
    (hq : ∀ t, P t → Comes code parkTimeout Q t) : Comes code parkTimeout Q s := by
  induction h with
  | here hp => exact hq _ hp
  | onward hcan _ ih => exact .onward hcan ih

/-- The queue as it can be later, when the batch has taken nothing from it: others may have pushed,
unless the queue is sealed. -/
def Grows (b : Batch) (queue later : List (Nat × τ)) : Prop :=
  ∃ more, later = queue ++ more ∧ (b = .drain → more = [])

theorem Grows.refl (b : Batch) (queue : List (Nat × τ)) : Grows b queue queue :=
  ⟨[], (List.append_nil _).symm, fun _ => rfl⟩

theorem Grows.trans {b : Batch} {first second third : List (Nat × τ)} (h : Grows b first second)
    (h' : Grows b second third) : Grows b first third := by
  obtain ⟨more, rfl, hnone⟩ := h
  obtain ⟨more', rfl, hnone'⟩ := h'
  exact ⟨more ++ more', List.append_assoc _ _ _, fun hb => by rw [hnone hb, hnone' hb]; rfl⟩

/-- The state can be reached. -/
def Occurs (code : Code τ) (parkTimeout : Span) (start : Instant) (s : State τ) : Prop :=
  ∃ history tasks, Traced code parkTimeout start s history tasks

namespace Occurs

variable {s t : State τ} {label : Step τ} {events : List Event} {b : Batch}

theorem step (hs : Occurs code parkTimeout start s)
    (h : Loop.step code parkTimeout s label = some (t, events)) :
    Occurs code parkTimeout start t := by
  obtain ⟨history, tasks, hs⟩ := hs
  exact ⟨_, _, hs.step label h⟩

theorem orderly (hs : Occurs code parkTimeout start s) : Orderly s := by
  obtain ⟨history, tasks, hs⟩ := hs
  exact hs.orderly

theorem informed (hs : Occurs code parkTimeout start s) : Informed s := by
  obtain ⟨history, tasks, hs⟩ := hs
  exact hs.informed

theorem rank_le (hs : Occurs code parkTimeout start s)
    (h : Loop.step code parkTimeout s label = some (t, events)) :
    s.phase.rank ≤ t.phase.rank := by
  obtain ⟨history, tasks, hs⟩ := hs
  exact (hs.lasting (.step label (.refl s) h)).1

/-- A step in a batch with which no task begins. -/
theorem grows (hs : Occurs code parkTimeout start s) (hb : s.place.serves? = some b)
    (h : Loop.step code parkTimeout s label = some (t, events)) (hnone : begun events t = []) :
    Grows b s.queue t.queue := by
  obtain ⟨-, arrived, hqueue, hpushed⟩ := (step_change h).queue
  rw [hnone, List.nil_append] at hqueue
  refine ⟨arrived, hqueue, ?_⟩
  rintro rfl
  have hsealed := hs.orderly.noPush (by rw [Place.part_of_serves hb]; trivial)
  rw [(step_change h).pushedCalls_eq_nil hsealed] at hpushed
  exact List.map_eq_nil_iff.1 hpushed.symm

/-- The other threads leave the loop where it is in a batch, and take nothing from its queue. -/
theorem meanwhile (hs : Occurs code parkTimeout start s) (hb : s.place.serves? = some b)
    (h : Meanwhile code parkTimeout s t) :
    Occurs code parkTimeout start t ∧ t.place = s.place ∧ s.phase.rank ≤ t.phase.rank ∧
      Grows b s.queue t.queue := by
  induction h with
  | refl => exact ⟨hs, rfl, Nat.le_refl _, .refl b _⟩
  | step label _ hlabel hstep ih =>
    obtain ⟨ht, hplace, hrank, hgrows⟩ := ih
    rw [← hplace] at hb
    have hsame := place_eq_of_serves hb hlabel hstep
    have hnone := (step_change hstep).begun_eq_nil (by rw [hsame]; exact id)
    exact ⟨ht.step hstep, hsame.trans hplace, Nat.le_trans hrank (ht.rank_le hstep),
      hgrows.trans (ht.grows hb hstep hnone)⟩

end Occurs

/-- In a batch the step that is due can be made. -/
theorem exists_due (code : Code τ) (parkTimeout : Span) {s : State τ} {b : Batch}
    (hb : s.place.serves? = some b) :
    ∃ label u events, IsDue s label ∧ step code parkTimeout s label = some (u, events) := by
  by_cases hwait : ∃ i, WaitsFor s i
  · obtain ⟨i, hwait⟩ := hwait
    obtain ⟨-, holder, hi⟩ := id hwait
    exact ⟨.caller i, _, _, .holder i hwait, by simp only [step, State.stepCaller, hi]; rfl⟩
  · have hstep : ∃ next, s.stepLoop code parkTimeout s.clock = some next := by
      cases hp : s.place with
      | pop c left ran =>
        cases left with
        | zero => simp [State.stepLoop, hp]
        | succ left => cases hq : s.queue <;> simp [State.stepLoop, hp, hq]
      | count => simp [State.stepLoop, hp]
      | body => simp [State.stepLoop, hp]
      | submitting => simp [State.stepLoop, hp]
      | requesting => simp [State.stepLoop, hp]
      | _ => rw [hp] at hb; cases hb
    obtain ⟨⟨u, events⟩, hu⟩ := hstep
    refine ⟨.loop s.clock, { u with clock := s.clock }, events,
      .loop _ fun i hi => hwait ⟨i, hi⟩, ?_⟩
    rw [step, if_pos (show s.clock ≤ s.clock from Nat.le_refl _), hu]
    rfl

namespace Comes

variable {P : State τ → Prop} {s : State τ} {b : Batch} {left call : Nat}

theorem due (hs : Occurs code parkTimeout start s) (hb : s.place.serves? = some b)
    (h : ∀ t label u events, Occurs code parkTimeout start t → t.place = s.place →
      s.phase.rank ≤ t.phase.rank → Grows b s.queue t.queue → IsDue t label →
      step code parkTimeout t label = some (u, events) → Comes code parkTimeout P u) :
    Comes code parkTimeout P s := by
  refine .onward (fun t hmeanwhile => ?_) fun t label u events hmeanwhile hdue hstep => ?_
  · rw [← (hs.meanwhile hb hmeanwhile).2.1] at hb
    exact exists_due code parkTimeout hb
  · obtain ⟨ht, hplace, hrank, hgrows⟩ := hs.meanwhile hb hmeanwhile
    exact h t label u events ht hplace hrank hgrows hdue hstep

theorem advance (hs : Occurs code parkTimeout start s) (hb : s.place.serves? = some b)
    (hlock : ∀ b left call grace next, s.place ≠ .requesting b left call grace .lock next)
    (h : ∀ t now u events, Occurs code parkTimeout start t → t.place = s.place →
      Grows b s.queue t.queue → step code parkTimeout t (.loop now) = some (u, events) →
      Comes code parkTimeout P u) : Comes code parkTimeout P s := by
  refine due hs hb fun t label u events ht hplace _ hgrows hdue hstep => ?_
  cases hdue with
  | loop now _ => exact h t now u events ht hplace hgrows hstep
  | holder i hwait =>
    obtain ⟨⟨b, left, call, grace, next, hp⟩, -⟩ := hwait
    exact absurd (hplace.symm.trans hp) (hlock b left call grace next)

theorem advance_task (hs : Occurs code parkTimeout start s) (hb : s.place.batch? = some b)
    (hr : s.place.running? ≠ none)
    (hlock : ∀ b left call grace next, s.place ≠ .requesting b left call grace .lock next)
    (h : ∀ t now u events, Occurs code parkTimeout start t → t.place = s.place →
      t.stepLoop code parkTimeout now = some (u, events) →
      Occurs code parkTimeout start { u with clock := now } → Grows b s.queue u.queue →
      Comes code parkTimeout P { u with clock := now }) : Comes code parkTimeout P s := by
  have hb := Place.serves?_of_batch? hb
  refine advance hs hb hlock fun t now u events ht hplace hgrows hstep => ?_
  rw [← hplace] at hb hr
  have hlater := ht.grows hb hstep ((step_change hstep).begun_eq_nil fun _ => hr)
  have hu := ht.step hstep
  obtain ⟨-, v, hv, rfl⟩ := loop_of_step hstep
  exact h t now v events ht hplace hv hu (hgrows.trans hlater)

end Comes

/-! ### Submissions and requests of a task -/

/-- How many stages of a submission by a task of the loop are to come, at most. -/
def SubmitStage.todo : SubmitStage → Nat
  | .enter => 3
  | .check => 2
  | .push => 1
  | _ => 0

/-- How many stages of a request are to come, at most. -/
def RequestStage.todo : RequestStage → Nat
  | .look => 3
  | .lock => 2
  | .store => 1
  | .wake _ => 0

/-- A task that submits goes on to the next stage, or is answered. -/
theorem submitting_step {s t : State τ} {b : Batch} {left call : Nat} {c : Submission τ}
    {next : Bool → τ} {events : List Event} (hs : Orderly s)
    (hp : s.place = .submitting b left call c next) (hfits : c.stage.Fits b.isDrain)
    (h : s.stepLoop code parkTimeout now = some (t, events)) :
    t.place = .body b left call (next !b.isDrain) ∨
      ∃ d, t.place = .submitting b left call d next ∧ d.stage.Fits b.isDrain ∧
        d.stage.todo < c.stage.todo := by
  have hclosed : s.phase.isClosed = b.isDrain := hs.isClosed_eq (by rw [hp]; rfl)
  simp only [State.stepLoop, hp, Option.some.injEq, Prod.mk.injEq] at h
  obtain ⟨rfl, rfl⟩ := h
  cases hc : c.stage with
  | check =>
    right
    cases hb : b.isDrain <;>
      simp [State.stepSubmission, hc, hclosed, hb, SubmitStage.Fits, SubmitStage.todo]
  | _ => simp_all [State.stepSubmission, SubmitStage.Fits, SubmitStage.todo]

/-- A task that need not wait finds the lock free. -/
theorem unlocked_of_due {s : State τ} {b : Batch} {left call : Nat} {grace : Grace} {next : τ}
    (hs : Informed s) (hp : s.place = .requesting b left call grace .lock next)
    (hfree : ∀ i, ¬ WaitsFor s i) : s.locked = false := by
  cases hl : s.locked with
  | false => rfl
  | true =>
    -- the task itself does not hold the lock, so a caller does
    have hholders : s.place.holds.toNat + s.callers.countP Caller.holds = s.locked.toNat :=
      hs.holders
    rw [hl, hp, show (Place.requesting b left call grace .lock next).holds = false from rfl,
      Bool.toNat_false, Nat.zero_add] at hholders
    obtain ⟨caller, hmem, hholds⟩ :=
      List.countP_pos_iff.1 (hholders ▸ Nat.zero_lt_one : 0 < s.callers.countP Caller.holds)
    obtain ⟨i, hi⟩ := List.mem_iff_getElem?.1 hmem
    cases caller with
    | submission c => cases hholds
    | request holder stage =>
      cases stage with
      | store => exact absurd ⟨⟨b, left, call, grace, next, hp⟩, holder, hi⟩ (hfree i)
      | _ => cases hholds

/-- A task that asks the loop to stop, and need not wait for the lock, goes on to the next stage, or
its call returns. -/
theorem requesting_step {s t : State τ} {b : Batch} {left call : Nat} {grace : Grace}
    {stage : RequestStage} {next : τ} {events : List Event} (hs : Informed s)
    (hp : s.place = .requesting b left call grace stage next) (hfree : ∀ i, ¬ WaitsFor s i)
    (h : s.stepLoop code parkTimeout now = some (t, events)) :
    t.place = .body b left call next ∨
      ∃ stage', t.place = .requesting b left call grace stage' next ∧ stage'.todo < stage.todo := by
  have hasks := stepRequest_asks s grace stage
  simp only [State.stepLoop, hp, Option.some.injEq, Prod.mk.injEq] at h
  obtain ⟨rfl, rfl⟩ := h
  dsimp only
  cases hv : (s.stepRequest grace stage).value with
  | returned => exact .inl rfl
  | next stage' =>
    refine .inr ⟨stage', rfl, ?_⟩
    rw [hv] at hasks
    generalize (s.stepRequest grace stage).state = u at hasks
    generalize (s.stepRequest grace stage).events = es at hasks
    cases hasks with
    | waits hl =>
      rw [unlocked_of_due hs hp hfree] at hl
      cases hl
    | _ => decide

namespace Comes

variable {P : State τ → Prop} {b : Batch} {left call : Nat}

/-- A submission of the running task comes to its answer. -/
theorem submission {s : State τ} {c : Submission τ} {next : Bool → τ}
    (hs : Occurs code parkTimeout start s) (hp : s.place = .submitting b left call c next)
    (hfits : c.stage.Fits b.isDrain)
    (h : ∀ t, Occurs code parkTimeout start t → t.place = .body b left call (next !b.isDrain) →
      Grows b s.queue t.queue → Comes code parkTimeout P t) : Comes code parkTimeout P s := by
  induction hn : c.stage.todo using Nat.strong_induction_on generalizing s c with
  | _ n ih =>
    refine advance_task hs (by rw [hp]; rfl) (by simp [hp, Place.running?]) (by simp [hp])
      fun t now u events ht hplace hu hocc hgrows => ?_
    obtain hbody | ⟨d, hd, hdfits, hless⟩ := submitting_step ht.orderly (hplace.trans hp) hfits hu
    · exact h _ hocc hbody hgrows
    · exact ih d.stage.todo (hn ▸ hless) hocc hd hdfits
        (fun v hv hbody hmore => h v hv hbody (hgrows.trans hmore)) rfl

/-- A request of the running task comes to its end. -/
theorem request {s : State τ} {grace : Grace} {stage : RequestStage} {next : τ}
    (hs : Occurs code parkTimeout start s)
    (hp : s.place = .requesting b left call grace stage next)
    (h : ∀ t, Occurs code parkTimeout start t → t.place = .body b left call next →
      Grows b s.queue t.queue → Comes code parkTimeout P t) : Comes code parkTimeout P s := by
  -- a caller who holds the lock ends the first phase, so the task waits only once
  induction hn : stage.todo + (4 - s.phase.rank) using Nat.strong_induction_on
    generalizing s stage with
  | _ n ih =>
    have hb : s.place.serves? = some b := by rw [hp]; rfl
    refine due hs hb fun t label u events ht hplace hrank hgrows hdue hstep => ?_
    rw [← hplace] at hb
    have hmore := hgrows.trans (ht.grows hb hstep
      ((step_change hstep).begun_eq_nil fun _ => by simp [hplace, hp, Place.running?]))
    have hu := ht.step hstep
    have hlater := ht.rank_le hstep
    cases hdue with
    | loop now hfree =>
      obtain ⟨-, v, hv, rfl⟩ := loop_of_step hstep
      obtain hbody | ⟨stage', hstage, hless⟩ :=
        requesting_step ht.informed (hplace.trans hp) hfree hv
      · exact h _ hu hbody hmore
      · exact ih _ (by omega) hu hstage
          (fun w hw hbody hrest => h w hw hbody (hmore.trans hrest)) rfl
    | holder i hwait =>
      obtain ⟨-, holder, hi⟩ := hwait
      have hstarted := ht.informed.phase_of_holder (Informed.holders_pos_of_caller hi rfl)
      simp only [step, State.stepCaller, hi, Option.some.injEq, Prod.mk.injEq] at hstep
      obtain ⟨rfl, -⟩ := hstep
      refine ih _ ?_ hu (hplace.trans hp)
        (fun w hw hbody hrest => h w hw hbody (hmore.trans hrest)) rfl
      rw [hstarted] at hrank
      have hfirst : s.phase.rank ≤ 1 := hrank
      show stage.todo + (4 - 2) < n
      omega

theorem act {s : State τ} {running : τ} (hs : Occurs code parkTimeout start s)
    (hp : s.place = .body b left call running)
    (h : ∀ (t : State τ) now u, t.phase.isClosed = b.isDrain →
      u = { (t.stepBody b left call (code running)).1 with clock := now } →
      Occurs code parkTimeout start u → Grows b s.queue u.queue → Comes code parkTimeout P u) :
    Comes code parkTimeout P s := by
  refine advance_task hs (by rw [hp]; rfl) (by simp [hp, Place.running?]) (by simp [hp])
    fun t now u events ht hplace hu hocc hgrows => ?_
  have hclosed := ht.orderly.isClosed_eq (b := b) (by rw [hplace, hp]; rfl)
  simp only [State.stepLoop, hplace.trans hp, Option.some.injEq] at hu
  exact h t now _ hclosed (by rw [hu]) hocc hgrows

/-- A task that ends comes to its end, and the loop to its queue. -/
theorem task {s : State τ} {running : τ} (hends : Ends code (!b.isDrain) running)
    (hs : Occurs code parkTimeout start s) (hp : s.place = .body b left call running)
    (h : ∀ t, Occurs code parkTimeout start t → t.place = .pop b left true →
      Grows b s.queue t.queue → Comes code parkTimeout P t) : Comes code parkTimeout P s := by
  induction hends generalizing s with
  | finish hop =>
    refine act hs hp fun t now u _ hu hocc hgrows => ?_
    rw [hop] at hu
    exact h u hocc (by rw [hu]; rfl) hgrows
  | panic hop =>
    refine act hs hp fun t now u _ hu hocc hgrows => ?_
    rw [hop] at hu
    exact h u hocc (by rw [hu]; rfl) hgrows
  | @submit _ other next hop _ ih =>
    refine act hs hp fun t now u _ hu hocc hgrows => ?_
    rw [hop] at hu
    have hcall : u.place = .submitting b left call ⟨t.calls, other, .enter⟩ next := by rw [hu]; rfl
    refine submission hocc hcall trivial fun v hv hbody hmore => ?_
    exact ih hv hbody fun w hw hpop hrest => h w hw hpop ((hgrows.trans hmore).trans hrest)
  | stop hop _ ih =>
    refine act hs hp fun t now u _ hu hocc hgrows => ?_
    rw [hop] at hu
    refine request hocc (by rw [hu]; rfl) fun v hv hbody hmore => ?_
    exact ih hv hbody fun w hw hpop hrest => h w hw hpop ((hgrows.trans hmore).trans hrest)
  | look hop _ ih =>
    refine act hs hp fun t now u hclosed hu hocc hgrows => ?_
    rw [hop] at hu
    exact ih t.view (hclosed.trans (Bool.not_not _).symm) hocc (by rw [hu]; rfl)
      fun v hv hpop hmore => h v hv hpop (hgrows.trans hmore)
  | skip hop _ ih =>
    refine act hs hp fun t now u _ hu hocc hgrows => ?_
    rw [hop] at hu
    exact ih hocc (by rw [hu]; rfl) fun v hv hpop hmore => h v hv hpop (hgrows.trans hmore)

/-- A batch whose tasks end comes to its end. -/
theorem batch {s : State τ} {ran : Bool} (hs : Occurs code parkTimeout start s)
    (hp : s.place = .pop b left ran) (hleft : left ≤ s.queue.length)
    (hends : ∀ x ∈ s.queue.take left, Ends code (!b.isDrain) x.2)
    (h : ∀ t, Occurs code parkTimeout start t →
      t.place = State.batchOver b (ran || left != 0) → Grows b (s.queue.drop left) t.queue →
      Comes code parkTimeout P t) : Comes code parkTimeout P s := by
  induction left generalizing s ran with
  | zero =>
    refine advance hs (b := b) (by rw [hp]; rfl) (by simp [hp])
      fun t now u events ht hplace hgrows hstep => ?_
    have hu := ht.step hstep
    obtain ⟨-, v, hv, rfl⟩ := loop_of_step hstep
    obtain ⟨rfl, -, -⟩ | ⟨_, _, _, _, _, rfl, -⟩ := stepLoop_pop (hplace.trans hp) hv
    · exact h _ hu (by simp) hgrows
    · cases left_of_pop (hplace.trans hp) rfl hv
  | succ left ih =>
    cases hq : s.queue with
    | nil => rw [hq] at hleft; cases hleft
    | cons x rest =>
      rw [hq] at hleft hends h
      refine advance hs (b := b) (by rw [hp]; rfl) (by simp [hp])
        fun t now u events ht hplace hgrows hstep => ?_
      have hu := ht.step hstep
      obtain ⟨more, hmore, hsealed⟩ := hgrows
      rw [hq] at hmore
      obtain ⟨-, v, hv, rfl⟩ := loop_of_step hstep
      obtain ⟨-, -, hspent⟩ | ⟨left', call, running, queue, htq, rfl, -⟩ :=
        stepLoop_pop (hplace.trans hp) hv
      · rw [hmore] at hspent
        simp at hspent
      · obtain rfl : left' = left := Nat.succ.inj (left_of_pop (hplace.trans hp) rfl hv)
        rw [htq, List.cons_append] at hmore
        obtain ⟨rfl, rfl⟩ := List.cons.inj hmore
        have hbegun : Grows b rest (rest ++ more) := ⟨more, rfl, hsealed⟩
        refine task (hends _ List.mem_cons_self) hu rfl fun w hw hpop hgrown => ?_
        obtain ⟨more', hmore', hsealed'⟩ := hbegun.trans hgrown
        have hleft : left' ≤ rest.length := Nat.le_of_succ_le_succ hleft
        refine ih hw hpop ?_ ?_ fun z hz hover hrest => h z hz (by simpa using hover) ?_
        · rw [hmore', List.length_append]
          exact Nat.le_trans hleft (Nat.le_add_right _ _)
        · rw [hmore', List.take_append_of_le_length hleft]
          exact fun y hy => hends y (List.mem_cons_of_mem _ hy)
        · refine .trans ⟨more', ?_, hsealed'⟩ hrest
          rw [hmore', List.drop_append_of_le_length hleft]
          rfl

/-- A batch that has counted its queue comes to its end. -/
theorem ended {s : State τ} (hs : Occurs code parkTimeout start s)
    (hp : s.place = .pop b s.queue.length false)
    (hends : ∀ x ∈ s.queue, Ends code (!b.isDrain) x.2) :
    Comes code parkTimeout (fun t => Occurs code parkTimeout start t ∧
      t.place = State.batchOver b (!s.queue.isEmpty) ∧ Grows b [] t.queue) s := by
  refine batch hs hp (Nat.le_refl _) (by rwa [List.take_length]) fun t ht hplace hgrows => ?_
  refine .here ⟨ht, ?_, by rwa [List.drop_length] at hgrows⟩
  rw [hplace]
  cases s.queue <;> rfl

/-- A draining batch leaves the queue empty. -/
theorem counted {s : State τ} (hs : Occurs code parkTimeout start s)
    (hp : s.place = .count .drain) (hends : ∀ x ∈ s.queue, Ends code false x.2)
    (h : ∀ t, Occurs code parkTimeout start t →
      t.place = State.batchOver .drain (!s.queue.isEmpty) → t.queue = [] →
      Comes code parkTimeout P t) : Comes code parkTimeout P s := by
  refine advance hs (by rw [hp]; rfl) (by simp [hp])
    fun t now u events ht hplace hgrows hstep => ?_
  have hu := ht.step hstep
  obtain ⟨-, v, hv, rfl⟩ := loop_of_step hstep
  simp only [State.stepLoop, hplace.trans hp, Option.some.injEq, Prod.mk.injEq] at hv
  obtain ⟨rfl, rfl⟩ := hv
  obtain ⟨more, hmore, hnone⟩ := hgrows
  rw [hnone rfl, List.append_nil] at hmore
  refine (ended (b := .drain) hu rfl (by rw [← hmore] at hends; exact hends)).trans ?_
  rintro w ⟨hw, hover, rest, hrest, hempty⟩
  exact h w hw (by rw [hover, ← hmore]) (by rw [hrest, hempty rfl]; rfl)

/-- The drain comes to its end: when it has run something, it counts once more. -/
theorem verify {s : State τ} (hs : Occurs code parkTimeout start s)
    (hp : s.place = .count .drain) (hends : ∀ x ∈ s.queue, Ends code false x.2) :
    Comes code parkTimeout (fun t => t.place = .verify) s := by
  refine counted hs hp hends fun t ht hover hempty => ?_
  cases hq : s.queue with
  | nil =>
    rw [hq] at hover
    exact .here hover
  | cons x rest =>
    rw [hq] at hover
    refine counted ht hover (by simp [hempty]) fun u _ hlast _ => ?_
    rw [hempty] at hlast
    exact .here hlast

end Comes

/-! ## Batches -/

/-- A batch that has counted its queue runs what was queued then, in this order, each task to its
end, and nothing else, however much is pushed meanwhile.  When nobody else pushes it leaves what its
tasks have submitted, in this order, and all of it was accepted; but when the queue is closed it
leaves nothing, and all of it was refused.  The loop drains its queue when it is closed.  The drain
runs what was queued when it began, and leaves nothing; nobody can push any more, and what its tasks
submit is refused.  A batch and the drain come to their end if the tasks that they run do. -/
theorem batches_bounded {s : State τ} {history : List Event} {tasks : List τ}
    (h : Traced code parkTimeout start s history tasks) :
    (∀ b now, s.place = .count b → s.clock ≤ now →
      ∃ t, step code parkTimeout s (.loop now) = some (t, []) ∧ t.queue = s.queue ∧
        ((∀ x ∈ s.queue, Ends code (!s.phase.isClosed) x.2) →
          Comes code parkTimeout (fun u => u.place.batch? ≠ some b) t) ∧
        ∀ a u, Spell code parkTimeout (fun p => p.batch? = some b) t a u →
          u.place.batch? ≠ some b →
          u.place = State.batchOver b (!s.queue.isEmpty) ∧ a.ran = s.queue ∧
            finishedCalls a.events = s.queue.map Prod.fst ∧
            (a.foreign = [] → u.queue = if s.phase.isClosed then [] else a.submitted) ∧
            ∀ x ∈ a.submitted, verdict s.phase.isClosed x.1 ∈ a.events) ∧
      (s.place = .count .drain →
        s.phase = .closed ∧
          ((∀ x ∈ s.queue, Ends code false x.2) →
            Comes code parkTimeout (fun t => t.place = .verify) s) ∧
          ∀ a t, Spell code parkTimeout (fun p => p.serves? = some .drain) s a t →
            t.place = .verify →
            a.ran = s.queue ∧ finishedCalls a.events = s.queue.map Prod.fst ∧ t.queue = [] ∧
              pushedCalls a.events = [] ∧ ∀ x ∈ a.submitted, .rejected x.1 ∈ a.events) := by
  have hs : Occurs code parkTimeout start s := ⟨history, tasks, h⟩
  constructor
  · intro b now hp hnow
    have hclosed := h.orderly.isClosed_eq (b := b) (by rw [hp]; rfl)
    have hstep : step code parkTimeout s (.loop now) =
        some ({ s with place := .pop b s.queue.length false, clock := now }, []) := by
      simp only [step, if_pos hnow, State.stepLoop, hp, Option.map_some]
    rw [hclosed]
    refine ⟨_, hstep, rfl, fun hends => ?_, fun a u hspell hover => ?_⟩
    · refine (Comes.ended (b := b) (hs.step hstep) rfl hends).trans ?_
      rintro u ⟨-, hover, -⟩
      refine .here ?_
      rw [hover, batch?_batchOver]
      simp
    · exact hspell.batch_over (h.step (.loop now) hstep) rfl hover
  · intro hp
    have hphase := h.orderly.phase
    rw [hp] at hphase
    exact ⟨hphase, Comes.verify hs hp, fun a t hspell ht => hspell.drain_over h hp ht⟩

/-- Follow given steps, all of which have to be possible, as long as the loop is at a place of this
kind. -/
def followSpell (code : Code τ) (parkTimeout : Span) (inside : Place τ → Prop)
    [DecidablePred inside] :
    Account τ → State τ → List (Step τ) → Option (Account τ × State τ)
  | a, t, [] => some (a, t)
  | a, t, label :: labels =>
    if inside t.place then
      match step code parkTimeout t label with
      | none => none
      | some (u, events) =>
        followSpell code parkTimeout inside (a.extend code t label events u) u labels
    else none

theorem Spell.follow {inside : Place τ → Prop} [DecidablePred inside] {s t u : State τ}
    {a a' : Account τ} (labels : List (Step τ)) (h : Spell code parkTimeout inside s a t)
    (hf : followSpell code parkTimeout inside a t labels = some (a', u)) :
    Spell code parkTimeout inside s a' u := by
  induction labels generalizing a t with
  | nil => cases hf; exact h
  | cons label labels ih =>
    simp only [followSpell] at hf
    split at hf
    · cases hstep : Loop.step code parkTimeout t label with
      | none => rw [hstep] at hf; cases hf
      | some next =>
        rw [hstep] at hf
        exact ih (h.step label ‹_› hstep) hf
    · cases hf

/-- A task that submits itself again, whatever it is told, and one that panics. -/
def again : Code Nat
  | 0 => .submit 0 fun _ => 1
  | 1 => .finish
  | _ => .panic

/-- Both are submitted. -/
def againRound : List (Step Nat) :=
  .submit 0 :: .replicate 5 (.caller 0) ++ .submit 2 :: .replicate 5 (.caller 0)

/-- They are run, and the loop is asked to stop at once. -/
def againDrain : List (Step Nat) :=
  againRound ++ .replicate 11 (.loop ⟨0⟩) ++ .request .none :: .replicate 3 (.caller 0) ++
    .replicate 4 (.loop ⟨0⟩) ++ .replicate 3 (.loop ⟨1⟩)

/-- The task that submits itself again is run once with each batch.  It is the only one in the queue
when that is closed; it is run once more, and what it submits is refused. -/
theorem batches_bounded_again :
    (∃ s history tasks t a u, Traced again .zero ⟨0⟩ s history tasks ∧ s.place = .count .round ∧
      step again .zero s (.loop ⟨0⟩) = some (t, []) ∧
      Comes again .zero (fun u => u.place.batch? ≠ some .round) t ∧
      Spell again .zero (fun p => p.batch? = some .round) t a u ∧
      a.ran = [(0, 0), (1, 2)] ∧ u.queue = [(2, 0)] ∧ .accepted 2 ∈ a.events) ∧
      ∃ s history tasks a t, Traced again .zero ⟨0⟩ s history tasks ∧ s.place = .count .drain ∧
        Comes again .zero (fun t => t.place = .verify) s ∧
        Spell again .zero (fun p => p.serves? = some .drain) s a t ∧
        a.ran = [(2, 0)] ∧ t.queue = [] ∧ .rejected 3 ∈ a.events := by
  have hends (accepted : Bool) : ∀ x ∈ [(2, 0), (0, 0), (1, 2)], Ends again accepted x.2 := by
    simp only [List.forall_mem_cons]
    exact ⟨.submit rfl (.finish rfl), .submit rfl (.finish rfl), .panic rfl, by simp⟩
  constructor
  · have hrun := Traced.begin.follow
      (show follow again .zero (.begin ⟨0⟩) [] [] againRound = some (_, _, _) from rfl)
    obtain ⟨t, hstep, -, hcomes, hover⟩ := (batches_bounded hrun).1 .round ⟨0⟩ rfl (by decide)
    cases hstep
    obtain ⟨-, hran, -, hleft, hanswers⟩ :=
      hover _ _ (.follow (.replicate 10 (.loop ⟨0⟩)) .begin rfl) (by decide)
    exact ⟨_, _, _, _, _, _, hrun, rfl, rfl,
      hcomes (List.forall_mem_cons.1 (hends true)).2,
      .follow (.replicate 10 (.loop ⟨0⟩)) .begin rfl, hran, hleft rfl, hanswers (2, 0) (by decide)⟩
  · have hrun := Traced.begin.follow
      (show follow again .zero (.begin ⟨0⟩) [] [] againDrain = some (_, _, _) from rfl)
    obtain ⟨-, hcomes, hover⟩ := (batches_bounded hrun).2 rfl
    obtain ⟨hran, -, hleft, -, hrefused⟩ :=
      hover _ _ (.follow (.replicate 10 (.loop ⟨1⟩)) .begin rfl) rfl
    exact ⟨_, _, _, _, _, hrun, rfl,
      hcomes (List.forall_mem_singleton.2 (List.forall_mem_cons.1 (hends false)).1),
      .follow (.replicate 10 (.loop ⟨1⟩)) .begin rfl, hran, hleft, hrefused (3, 0) (by decide)⟩

end FrameLoop.Loop
