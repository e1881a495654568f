import FrameLoop.Group.LoopGroup
import FrameLoop.Group.Session
import FrameLoop.Parker.Word

/-
  Waiting for the end of a group.

  The children have their turns in order, and one that gives up early keeps its turn (`Turns`).
  Each call is preceded by a reading of the clock, and may take what is left until the deadline at
  that reading (`Turns.exists_readings`); so all calls together keep the one deadline
  (`await_shares_deadline`).  Waiting ends when all children have had their turn, or when a reading
  has come to the deadline; what it answers are the flags of the children at that moment.

  The deadline has to be a moment that the clock can show.  A span that leads beyond the last one
  ends in a panic before any child is looked at, and no other span does (`await_panics_iff`), though
  every child can be awaited for any span.  This is so whatever the children and the clock do.  That
  waiting ends needs more: a clock that stands still while children give up early, over and over,
  keeps it going for ever (`Stalls`).
-/

namespace FrameLoop.Group

section

variable {σ : Type}

namespace Waitable

/-- What may be relied on, with the order of the worlds in time.  Readings of the clock do not go
back, and a child that answers that it has come to its end has come to it for good.  A child may
give up early as often as it likes. -/
structure Lawful (w : Waitable σ) (later : σ → σ → Prop) : Prop where
  refl (x : σ) : later x x
  trans {x y z : σ} : later x y → later y z → later x z
  reads (x : σ) : later x (w.now x).2
  waits (i : Nat) (limit : Span) (x : σ) : later x (w.await i limit x).2
  clock {x y : σ} : later x y → (w.now x).1 ≤ (w.now y).1
  gone {i : Nat} {limit : Span} {x y : σ} :
    (w.await i limit x).1 = true → later (w.await i limit x).2 y → w.isGone i y = true

theorem Lawful.turn {w : Waitable σ} {later : σ → σ → Prop} (hw : w.Lawful later) {i : Nat}
    {limit : Span} {x y : σ} {gone : Bool} (h : w.await i limit (w.now x).2 = (gone, y)) :
    later x y := by
  have hwaits := hw.waits i limit (w.now x).2
  rw [h] at hwaits
  exact hw.trans (hw.reads x) hwaits

/-- Calls before the deadline, from the turn of child `i` to the turn of child `j`.  A child keeps
its turn until it answers that it has come to its end, and there are `n` children. -/
inductive Turns (w : Waitable σ) (deadline : Instant) (n : Nat) :
    Nat → σ → List ChildWait → Nat → σ → Prop
  | none (i : Nat) (x : σ) : Turns w deadline n i x [] i x
  | call {i j : Nat} {x y z : σ} {calls : List ChildWait} (gone : Bool) :
    i < n → (w.now x).1 < deadline →
    w.await i (deadline.since (w.now x).1) (w.now x).2 = (gone, y) →
    Turns w deadline n (if gone then i + 1 else i) y calls j z →
    Turns w deadline n i x (⟨i, deadline.since (w.now x).1, gone⟩ :: calls) j z

/-- From `x` to `y` one of `n` children is called before the deadline and gives up early, and by then
the clock has not gone on. -/
def Stalls (w : Waitable σ) (deadline : Instant) (n : Nat) (y x : σ) : Prop :=
  (w.now x).1 < deadline ∧ (w.now y).1 ≤ (w.now x).1 ∧
    ∃ i < n, w.await i (deadline.since (w.now x).1) (w.now x).2 = (false, y)

end Waitable

/-! ## The loop over the children -/

variable {w : Waitable σ} {later : σ → σ → Prop} {deadline : Instant} {n i j : Nat} {x y : σ}
  {calls : List ChildWait}

theorem since_isZero_iff (deadline now : Instant) :
    (deadline.since now).isZero = true ↔ deadline ≤ now := by
  rw [Span.isZero, beq_iff_eq]
  exact Nat.sub_eq_zero_iff_le

theorem deadline?_eq_some_iff {now : Instant} {limit : Span} :
    now.deadline? limit = some deadline ↔
      (now.after limit).nanos / 1000000000 ≤ Instant.maxSeconds ∧ now.after limit = deadline := by
  simp [Instant.deadline?]

theorem deadline?_eq_none_iff {now : Instant} {limit : Span} :
    now.deadline? limit = none ↔ Instant.maxSeconds < (now.after limit).nanos / 1000000000 := by
  simp [Instant.deadline?]

theorem since_deadline {now : Instant} {limit : Span}
    (h : now.deadline? limit = some deadline) : deadline.since now = limit := by
  obtain ⟨-, rfl⟩ := deadline?_eq_some_iff.1 h
  exact Span.ext (Nat.add_sub_cancel_left _ _)

theorem since_antitone {t u : Instant} (h : t ≤ u) : deadline.since u ≤ deadline.since t :=
  Nat.sub_le_sub_left h deadline.nanos

theorem awaitUntil_late (h : deadline ≤ (w.now x).1) (fuel k i : Nat) (before : List ChildWait) :
    awaitUntil w deadline (fuel + 1) (k + 1) i before x = (true, before, (w.now x).2) := by
  simp [awaitUntil, (since_isZero_iff _ _).2 h]

/-- Before it a child is called, and whose turn is next depends on its answer. -/
theorem awaitUntil_early (h : (w.now x).1 < deadline) {gone : Bool}
    (hawait : w.await i (deadline.since (w.now x).1) (w.now x).2 = (gone, y)) (fuel k : Nat)
    (before : List ChildWait) :
    awaitUntil w deadline (fuel + 1) (k + 1) i before x =
      awaitUntil w deadline fuel (if gone then k else k + 1) (if gone then i + 1 else i)
        (⟨i, deadline.since (w.now x).1, gone⟩ :: before) y := by
  have htime : (deadline.since (w.now x).1).isZero = false :=
    Bool.eq_false_iff.2 (mt (since_isZero_iff _ _).1 (Nat.not_le.2 h))
  cases gone <;> simp [awaitUntil, htime, hawait]

/-- Waiting runs out of fuel, or all children have had their turn, or the deadline is reached. -/
theorem awaitUntil_turns (deadline : Instant) (fuel k i : Nat) (before : List ChildWait) (x : σ) :
    ∃ calls j y, w.Turns deadline (i + k) i x calls j y ∧
      (awaitUntil w deadline fuel k i before x = (false, calls.reverse ++ before, y) ∧
          calls.length = fuel ∨
        awaitUntil w deadline fuel k i before x = (true, calls.reverse ++ before, y) ∧ j = i + k ∨
        awaitUntil w deadline fuel k i before x = (true, calls.reverse ++ before, (w.now y).2) ∧
          deadline ≤ (w.now y).1) := by
  induction fuel generalizing k i before x with
  | zero => exact ⟨[], i, x, .none i x, .inl ⟨rfl, rfl⟩⟩
  | succ fuel ih =>
    cases k with
    | zero => exact ⟨[], i, x, .none i x, .inr (.inl ⟨rfl, rfl⟩)⟩
    | succ k =>
      by_cases hlate : deadline ≤ (w.now x).1
      · exact ⟨[], i, x, .none i x, .inr (.inr ⟨awaitUntil_late hlate fuel k i before, hlate⟩)⟩
      · have hearly : (w.now x).1 < deadline := Nat.lt_of_not_le hlate
        cases hawait : w.await i (deadline.since (w.now x).1) (w.now x).2 with
        | mk gone y =>
          have hturn : (if gone then i + 1 else i) + (if gone then k else k + 1) = i + (k + 1) := by
            split <;> omega
          obtain ⟨calls, j, z, hturns, hends⟩ := ih (if gone then k else k + 1)
            (if gone then i + 1 else i) (⟨i, deadline.since (w.now x).1, gone⟩ :: before) y
          rw [hturn] at hturns hends
          refine ⟨_ :: calls, j, z, .call gone (by omega) hearly hawait hturns, ?_⟩
          simpa [awaitUntil_early hearly hawait] using hends

/-- More fuel changes nothing about waiting that has come to its end. -/
theorem awaitUntil_add {fuel k : Nat} {before : List ChildWait}
    (h : (awaitUntil w deadline fuel k i before x).1 = true) (more : Nat) :
    awaitUntil w deadline (fuel + more) k i before x = awaitUntil w deadline fuel k i before x := by
  induction fuel generalizing k i before x with
  | zero => exact absurd h Bool.false_ne_true
  | succ fuel ih =>
    rw [Nat.succ_add]
    cases k with
    | zero => rfl
    | succ k =>
      by_cases hlate : deadline ≤ (w.now x).1
      · rw [awaitUntil_late hlate, awaitUntil_late hlate]
      · have hearly : (w.now x).1 < deadline := Nat.lt_of_not_le hlate
        rw [awaitUntil_early hearly rfl] at h ⊢
        rw [awaitUntil_early hearly rfl]
        exact ih h

/-- Waiting ends if it ends behind the next call. -/
theorem exists_ended_early (hearly : (w.now x).1 < deadline) {gone : Bool}
    (hawait : w.await i (deadline.since (w.now x).1) (w.now x).2 = (gone, y)) {k : Nat}
    {before : List ChildWait}
    (h : ∃ fuel, (awaitUntil w deadline fuel (if gone then k else k + 1) (if gone then i + 1 else i)
      (⟨i, deadline.since (w.now x).1, gone⟩ :: before) y).1 = true) :
    ∃ fuel, (awaitUntil w deadline fuel (k + 1) i before x).1 = true := by
  obtain ⟨fuel, h⟩ := h
  exact ⟨fuel + 1, by rw [awaitUntil_early hearly hawait, h]⟩

/-- Waiting ends if the clock does not stand still for ever while children give up early. -/
theorem exists_ended (hw : w.Lawful later) (hstalls : ∀ y, later x y → Acc (w.Stalls deadline n) y)
    (k i : Nat) (before : List ChildWait) (hturn : i + k = n) {y : σ} (hy : later x y) :
    ∃ fuel, (awaitUntil w deadline fuel k i before y).1 = true := by
  induction k generalizing i before y with
  | zero => exact ⟨1, rfl⟩
  | succ k ih =>
    -- a child that gives up leaves less time, or the clock stands still once more
    induction hleft : (deadline.since (w.now y).1).nanos using Nat.strongRecOn
      generalizing before y with
    | ind left ihleft =>
      induction hstalls y hy generalizing before with
      | intro y _ ihstall =>
        by_cases hlate : deadline ≤ (w.now y).1
        · exact ⟨1, by rw [awaitUntil_late hlate]⟩
        have hearly : (w.now y).1 < deadline := Nat.lt_of_not_le hlate
        cases hawait : w.await i (deadline.since (w.now y).1) (w.now y).2 with
        | mk gone z =>
          have hyz : later y z := hw.turn hawait
          have hz : later x z := hw.trans hy hyz
          refine exists_ended_early hearly hawait ?_
          cases gone with
          | true => exact ih (i + 1) _ (by omega) hz
          | false =>
            by_cases hstill : (w.now z).1 ≤ (w.now y).1
            · have hsame : (w.now z).1 = (w.now y).1 :=
                Instant.ext (Nat.le_antisymm hstill (hw.clock hyz))
              exact ihstall z ⟨hearly, hstill, i, by omega, hawait⟩ _ hz (by rw [hsame, hleft])
            · have hless : (deadline.since (w.now z).1).nanos < left :=
                hleft ▸ Nat.sub_lt_sub_left hearly (Nat.lt_of_not_le hstill)
              exact ihleft _ hless _ hz rfl

theorem Waitable.Lawful.left_le (hw : w.Lawful later) {limit : Span}
    (hdeadline : (w.now x).1.deadline? limit = some deadline) :
    deadline.since (w.now (w.now x).2).1 ≤ limit := by
  have hle : deadline.since (w.now (w.now x).2).1 ≤ deadline.since (w.now x).1 :=
    since_antitone (hw.clock (hw.reads x))
  rwa [since_deadline hdeadline] at hle

/-- How waiting for a group ends, if its deadline can be shown. -/
theorem await_turns {limit : Span} (hdeadline : (w.now x).1.deadline? limit = some deadline)
    (fuel n : Nat) :
    ∃ calls j y, w.Turns deadline n 0 (w.now x).2 calls j y ∧
      (await w fuel n limit x = (.waiting, calls, y) ∧ calls.length = fuel ∨
        ∃ last, await w fuel n limit x =
            (.ended ((List.range n).all fun i => w.isGone i last), calls, last) ∧
          (j = n ∧ last = y ∨ deadline ≤ (w.now y).1 ∧ last = (w.now y).2)) := by
  obtain ⟨calls, j, y, hturns, hends⟩ := awaitUntil_turns deadline fuel n 0 [] (w.now x).2
  rw [Nat.zero_add] at hturns hends
  refine ⟨calls, j, y, hturns, ?_⟩
  unfold await
  simp only [hdeadline]
  obtain ⟨heq, hfuel⟩ | ⟨heq, hall⟩ | ⟨heq, hlate⟩ := hends
  · exact .inl ⟨by simp [heq], hfuel⟩
  · exact .inr ⟨y, by simp [heq], .inl ⟨hall, rfl⟩⟩
  · exact .inr ⟨(w.now y).2, by simp [heq], .inr ⟨hlate, rfl⟩⟩

/-! ## What the calls of children have in common -/

namespace Waitable.Turns

/-- A child that answers that it has come to its end is counted, and the turn goes to the next. -/
theorem turn_add (gone : Bool) (i k : Nat) :
    (if gone then i + 1 else i) + k = i + (k + if gone then 1 else 0) := by
  cases gone with
  | true => exact (Nat.add_assoc i 1 k).trans (congrArg _ (Nat.add_comm 1 k))
  | false => rfl

/-- Whose turn it is depends on how many children have answered that they have come to their end. -/
theorem turn_eq (h : w.Turns deadline n i x calls j y) : j = i + calls.countP (·.gone) := by
  induction h with
  | none => rfl
  | call gone _ _ _ _ ih => rw [ih, List.countP_cons, turn_add]

/-- So a call is for the child behind those that have answered so before it. -/
theorem child_eq (h : w.Turns deadline n i x calls j y) {before after : List ChildWait}
    {c : ChildWait} (hcalls : calls = before ++ c :: after) :
    c.child = i + before.countP (·.gone) ∧ c.child < n := by
  induction h generalizing before with
  | none => exact absurd hcalls (by simp)
  | call gone hturn _ _ _ ih =>
    cases before with
    | nil =>
      obtain ⟨rfl, -⟩ := List.cons.inj hcalls
      exact ⟨rfl, hturn⟩
    | cons first before =>
      obtain ⟨rfl, hrest⟩ := List.cons.inj hcalls
      obtain ⟨hchild, hlt⟩ := ih hrest
      exact ⟨by rw [hchild, List.countP_cons, turn_add], hlt⟩

theorem leads (h : w.Turns deadline n i x calls j y) (hw : w.Lawful later) : later x y := by
  induction h with
  | none i x => exact hw.refl x
  | call _ _ _ hawait _ ih => exact hw.trans (hw.turn hawait) ih

/-- Every call goes with a reading of the clock before it, in their order and before the deadline,
and may take what is left at that reading. -/
theorem exists_readings (h : w.Turns deadline n i x calls j y) (hw : w.Lawful later) :
    ∃ readings : List Instant, calls.map (·.limit) = readings.map deadline.since ∧
      readings.Pairwise (· ≤ ·) ∧ ∀ t ∈ readings, (w.now x).1 ≤ t ∧ t < deadline := by
  induction h with
  | none => exact ⟨[], rfl, .nil, by simp⟩
  | @call i j x y z calls gone _ hearly hawait _ ih =>
    obtain ⟨readings, hlimits, hsorted, hbounds⟩ := ih
    have hfirst : (w.now x).1 ≤ (w.now y).1 := hw.clock (hw.turn hawait)
    have hbehind : ∀ t ∈ readings, (w.now x).1 ≤ t ∧ t < deadline := fun t ht =>
      ⟨Nat.le_trans hfirst (hbounds t ht).1, (hbounds t ht).2⟩
    refine ⟨(w.now x).1 :: readings, by simp [hlimits], ?_, ?_⟩
    · exact List.pairwise_cons.2 ⟨fun t ht => (hbehind t ht).1, hsorted⟩
    · exact List.forall_mem_cons.2 ⟨⟨Nat.le_refl _, hearly⟩, hbehind⟩

theorem limit_bounds (h : w.Turns deadline n i x calls j y) (hw : w.Lawful later) :
    ∀ c ∈ calls, Span.zero < c.limit ∧ c.limit ≤ deadline.since (w.now x).1 := by
  obtain ⟨readings, hlimits, -, hbounds⟩ := h.exists_readings hw
  intro c hc
  obtain ⟨t, ht, hct⟩ := List.mem_map.1 (hlimits ▸ List.mem_map_of_mem hc)
  rw [← hct]
  exact ⟨Nat.sub_pos_of_lt (hbounds t ht).2, since_antitone (hbounds t ht).1⟩

theorem limits_decrease (h : w.Turns deadline n i x calls j y) (hw : w.Lawful later) :
    calls.Pairwise fun c d => d.limit ≤ c.limit := by
  obtain ⟨readings, hlimits, hsorted, -⟩ := h.exists_readings hw
  have hdecrease : (readings.map deadline.since).Pairwise fun c d => d ≤ c :=
    List.pairwise_map.2 (hsorted.imp since_antitone)
  rw [← hlimits] at hdecrease
  exact List.pairwise_map.1 hdecrease

/-- The children that have had their turn are gone for good. -/
theorem isGone (h : w.Turns deadline n i x calls j y) (hw : w.Lawful later) {z : σ}
    (hz : later y z) : ∀ m, i ≤ m → m < j → w.isGone m z = true := by
  induction h with
  | none => intro m hle hlt; omega
  | @call i j x y y' calls gone _ _ hawait hmore ih =>
    intro m hle hlt
    cases gone with
    | false => exact ih hz m hle hlt
    | true =>
      obtain rfl | hlt' := Nat.eq_or_lt_of_le hle
      · have hanswer : (w.await i (deadline.since (w.now x).1) (w.now x).2).1 = true := by
          rw [hawait]
        refine hw.gone hanswer ?_
        rw [hawait]
        exact hw.trans (hmore.leads hw) hz
      · exact ih hz m hlt' hlt

end Waitable.Turns

end

/-! ## Driven executors -/

namespace DrivenWorld

variable {α : Type} {v w : DrivenWorld α}

theorem isGone_waitable (w : DrivenWorld α) (i : Nat) :
    waitable.isGone i w = (w.children[i]?).any (·.gone) := rfl

/-- One world is later than another: no time has been taken back, and who was gone still is. -/
def Later (v w : DrivenWorld α) : Prop :=
  v.now ≤ w.now ∧ ∀ i, waitable.isGone i v = true → waitable.isGone i w = true

theorem Later.refl (w : DrivenWorld α) : Later w w := ⟨Nat.le_refl _, fun _ h => h⟩

theorem Later.trans {u : DrivenWorld α} (h : Later u v) (h' : Later v w) : Later u w :=
  ⟨Nat.le_trans h.1 h'.1, fun i hi => h'.2 i (h.2 i hi)⟩

theorem Later.of_same (hnow : v.now ≤ w.now) (hchildren : w.children = v.children) : Later v w := by
  refine ⟨hnow, fun i hi => ?_⟩
  rwa [isGone_waitable, hchildren]

theorem later_arrive (w : DrivenWorld α) : Later w w.arrive := .of_same (Nat.le_refl _) rfl

theorem later_onChild (w : DrivenWorld α) (i : Nat) {f : Driven → Driven}
    (hf : ∀ c, c.gone = true → (f c).gone = true) : Later w (w.onChild i f) := by
  refine ⟨Nat.le_refl _, fun j hj => ?_⟩
  simp only [isGone_waitable, onChild, List.getElem?_modify, Option.any_eq_true] at hj ⊢
  obtain ⟨c, hc, hgone⟩ := hj
  rw [hc]
  refine ⟨_, rfl, ?_⟩
  split
  · exact hf c hgone
  · exact hgone

theorem later_complete (w : DrivenWorld α) (i : Nat) : Later w (w.complete i).2 := by
  unfold complete
  cases w.children[i]? with
  | none => exact .refl w
  | some child =>
    by_cases hdone : child.done = true
    · simpa [hdone] using Later.refl w
    · have hchild : Later w (w.onChild i fun c => { c with done := true }) :=
        later_onChild w i fun _ h => h
      by_cases hheard : child.heard = true
      · simpa [hdone, hheard] using hchild.trans (later_arrive _)
      · simpa [hdone, hheard] using hchild

theorem later_finish (w : DrivenWorld α) (i : Nat) : Later w (w.finish i).2 :=
  (later_onChild w i fun _ _ => rfl).trans (later_complete _ i)

/-- A child that is awaited answers whether it is gone, and nobody comes back meanwhile. -/
theorem awaitChild_spec (w : DrivenWorld α) (i : Nat) (limit : Span) :
    (w.awaitChild i limit).1 = waitable.isGone i (w.awaitChild i limit).2 ∧
      Later w (w.awaitChild i limit).2 := by
  unfold awaitChild
  cases hchild : w.children[i]? with
  | none => exact ⟨by simp [isGone_waitable, hchild], .refl w⟩
  | some child =>
    have hcount : Later w ((w.note (.await i)).onChild i fun c => { c with awaits := c.awaits + 1 }) :=
      Later.trans (.of_same (Nat.le_refl _) rfl) (later_onChild _ i fun _ h => h)
    cases hkind : child.kind with
    | awaited calls =>
      refine ⟨by simp only [hkind, isGone_waitable], ?_⟩
      simp only [hkind]
      split
      · exact hcount.trans (later_finish _ i)
      · exact hcount
    | _ =>
      refine ⟨by simp only [hkind, isGone_waitable], ?_⟩
      simp only [hkind]
      split
      · exact .refl w
      · exact .of_same (Nat.le_add_right _ _) rfl

theorem lawful : (waitable : Waitable (DrivenWorld α)).Lawful Later where
  refl := .refl
  trans := .trans
  reads _ := .of_same (Nat.le_add_right _ _) rfl
  waits i limit w := (awaitChild_spec w i limit).2
  clock h := h.1
  gone {i limit w _} hanswer hlater :=
    hlater.2 i ((awaitChild_spec w i limit).1.symm.trans hanswer)

end DrivenWorld

/-! ## The one deadline -/

section

variable {σ : Type} {w : Waitable σ} {later : σ → σ → Prop} {x : σ}

/-- Waiting for `n` children.  Every call of a child goes with a reading of the clock before it, and
may take what is left until the deadline at that reading.  So the limits of the calls are positive,
at most the limit of all, and never increase.  The children are called in order, each until it
answers that it has come to its end.  Waiting goes on as long as each call is made before the
deadline; it ends when all children have answered so or a reading has come to the deadline, and
answers whether all of them are gone at that moment, which they are if all have answered so. -/
theorem await_shares_deadline (hw : w.Lawful later) {limit : Span} {deadline : Instant}
    (hdeadline : (w.now x).1.deadline? limit = some deadline) (fuel n : Nat) :
    let result := await w fuel n limit x
    let calls := result.2.1
    let last := result.2.2
    let Reached := ∃ y, later x y ∧ deadline ≤ (w.now y).1 ∧ last = (w.now y).2
    (∃ readings : List Instant, calls.map (·.limit) = readings.map deadline.since ∧
      readings.Pairwise (· ≤ ·) ∧ ∀ t ∈ readings, (w.now x).1 ≤ t ∧ t < deadline) ∧
    (∀ c ∈ calls, Span.zero < c.limit ∧ c.limit ≤ limit) ∧
    calls.Pairwise (fun c d => d.limit ≤ c.limit) ∧
    (∀ before c after, calls = before ++ c :: after →
      c.child = before.countP (·.gone) ∧ c.child < n) ∧
    (result.1 = .waiting ∧ calls.length = fuel ∨
      ∃ gone, result.1 = .ended gone ∧ (gone = true ↔ ∀ i < n, w.isGone i last = true) ∧
        (calls.countP (·.gone) = n ∨ Reached) ∧ (gone = false → Reached)) := by
  intro result calls last Reached
  obtain ⟨made, j, y, hturns, hends⟩ := await_turns hdeadline fuel n
  have hmade : calls = made := by
    obtain ⟨heq, -⟩ | ⟨last', heq, -⟩ := hends
    · simp only [calls, result, heq]
    · simp only [calls, result, heq]
  rw [hmade]
  have hfirst : (w.now x).1 ≤ (w.now (w.now x).2).1 := hw.clock (hw.reads x)
  refine ⟨?_, fun c hc => ?_, hturns.limits_decrease hw, ?_, ?_⟩
  · obtain ⟨readings, hlimits, hsorted, hbounds⟩ := hturns.exists_readings hw
    exact ⟨readings, hlimits, hsorted, fun t ht =>
      ⟨Nat.le_trans hfirst (hbounds t ht).1, (hbounds t ht).2⟩⟩
  · obtain ⟨hpos, hle⟩ := hturns.limit_bounds hw c hc
    exact ⟨hpos, Nat.le_trans hle (hw.left_le hdeadline)⟩
  · intro before c after hcalls
    obtain ⟨hchild, hlt⟩ := hturns.child_eq hcalls
    exact ⟨hchild.trans (Nat.zero_add _), hlt⟩
  · have hpast : later x y := hw.trans (hw.reads x) (hturns.leads hw)
    obtain ⟨heq, hfuel⟩ | ⟨last', heq, hlast⟩ := hends
    · exact .inl ⟨by simp only [result, heq], hfuel⟩
    · have hlast' : last = last' := by simp only [last, result, heq]
      refine .inr ⟨(List.range n).all fun i => w.isGone i last', by simp only [result, heq], ?_, ?_,
        ?_⟩
      · rw [hlast', List.all_eq_true]
        simp only [List.mem_range]
      · obtain ⟨hall, -⟩ | ⟨hlate, hread⟩ := hlast
        · rw [hturns.turn_eq, Nat.zero_add] at hall
          exact .inl hall
        · exact .inr ⟨y, hpast, hlate, hlast'.trans hread⟩
      · intro hfalse
        obtain ⟨rfl, rfl⟩ | ⟨hlate, hread⟩ := hlast
        · -- children that have all had their turn are all gone
          have hall : ((List.range j).all fun i => w.isGone i last') = true :=
            List.all_eq_true.2 fun i hi =>
              hturns.isGone hw (hw.refl last') i (Nat.zero_le i) (List.mem_range.1 hi)
          rw [hall] at hfalse
          cases hfalse
        · exact ⟨y, hpast, hlate, hlast'.trans hread⟩

end

/-- Five milliseconds for a child that gives up once before its end and one that never comes to its
end.  The second takes all that is left, the next reading is at the deadline, and waiting answers
that not all of them are gone. -/
theorem await_shares_deadline_driven :
    let plan : DrivenPlan := { size := 2, kinds := [.awaited 2, .manual] }
    let x : DrivenWorld Nat :=
      (build DrivenWorld.surroundings 2 standardGrace 2 (.ofPlan plan)).2.world
    let deadline : Instant := Instant.bootedLongAgo.after (.ofMillis 5)
    let result := await DrivenWorld.waitable 9 2 (.ofMillis 5) x
    (DrivenWorld.waitable.now x).1.deadline? (.ofMillis 5) = some deadline ∧
      result.1 = .ended false ∧
      result.2.1 = [⟨0, .ofNanos 4999000, false⟩, ⟨0, .ofNanos 4998000, true⟩,
        ⟨1, .ofNanos 4997000, false⟩] ∧
      result.2.1.Pairwise (fun c d => d.limit ≤ c.limit) ∧
      ∃ y, DrivenWorld.Later x y ∧ deadline ≤ (DrivenWorld.waitable.now y).1 ∧
        result.2.2 = (DrivenWorld.waitable.now y).2 := by
  intro plan x deadline result
  have hdeadline : (DrivenWorld.waitable.now x).1.deadline? (.ofMillis 5) = some deadline :=
    by decide +kernel
  have hfalse : result.1 = .ended false := by decide +kernel
  obtain ⟨-, -, hdecrease, -, hends⟩ := await_shares_deadline DrivenWorld.lawful hdeadline 9 2
  refine ⟨hdeadline, hfalse, by decide +kernel, hdecrease, ?_⟩
  obtain ⟨hwaiting, -⟩ | ⟨gone, hended, -, -, hreached⟩ := hends
  · exact absurd (hfalse.symm.trans hwaiting) (by decide)
  · exact hreached (Waited.ended.inj (hended.symm.trans hfalse))

/-! ## Spans that lead too far -/

/-- The clock of driven executors goes on with every reading. -/
theorem DrivenWorld.not_stalls {α : Type} {deadline : Instant} {n : Nat} (v w : DrivenWorld α) :
    ¬ waitable.Stalls deadline n w v := by
  rintro ⟨-, hstill, i, -, hawait⟩
  have hstep : v.now < (waitable.now v).2.now := Nat.lt_add_of_pos_right (by decide)
  have hwait := (awaitChild_spec (waitable.now v).2 i (deadline.since (waitable.now v).1)).2.1
  have hw : (waitable.await i (deadline.since (waitable.now v).1) (waitable.now v).2).2 = w :=
    congrArg Prod.snd hawait
  rw [← hw] at hstill
  exact absurd (Nat.lt_of_lt_of_le hstep hwait) (Nat.not_lt.2 hstill)

namespace LoopWorld

variable {α : Type}

theorem map_host_hearMany (members : List (Member α)) (tally : Tally α) :
    (hearMany members tally).1.map (·.host) = members.map (·.host) := by
  induction members generalizing tally with
  | nil => rfl
  | cons m ms ih =>
    have hone : (hearOne m tally).1.host = m.host := by
      unfold hearOne
      split <;> rfl
    simp only [hearMany, List.map_cons, hone, ih]

theorem catchUp_now (h : Loop.Host α) : catchUp h.now h = h := if_neg (Nat.lt_irrefl _)

/-- A loop that is awaited answers whether it is gone. -/
theorem awaitChild_fst (w : LoopWorld α) (i : Nat) (limit : Span) :
    (w.awaitChild i limit).1 = waitable.isGone i (w.awaitChild i limit).2 := by
  unfold awaitChild onHost
  cases hi : w.members[i]? with
  | none => simp [waitable, hi]
  | some m =>
    have hlt : i < w.members.length := (List.getElem?_eq_some_iff.1 hi).1
    -- the loop itself is at the present moment already, so that the time passes for the others
    have hhost : ∀ host : Loop.Host α,
        ((proceedTo host.now { w with members := w.members.set i { m with host } }).members.map
          (·.host))[i]? = some host := by
      intro host
      simp [proceedTo, hearAll, map_host_hearMany, hlt, catchUp_now]
    have hgone := hhost ((catchUp w.now m.host).await limit).2
    rw [List.getElem?_map, Option.map_eq_some_iff] at hgone
    obtain ⟨member, hmember, hsame⟩ := hgone
    simp only [waitable, hmember, Option.any_some, hsame]
    rfl

end LoopWorld

section

variable {σ : Type} {w : Waitable σ} {x : σ} {limit : Span}

/-- Behind the end of waiting, all that is said is which children are gone. -/
theorem gone_iff_of_ended {fuel n : Nat} {gone : Bool} {calls : List ChildWait} {last : σ}
    (h : await w fuel n limit x = (.ended gone, calls, last)) :
    gone = true ↔ ∀ i < n, w.isGone i last = true := by
  cases hdeadline : (w.now x).1.deadline? limit with
  | none => simp [await, hdeadline] at h
  | some deadline =>
    obtain ⟨made, j, y, -, ⟨heq, -⟩ | ⟨last', heq, -⟩⟩ := await_turns hdeadline fuel n
    · rw [heq] at h
      cases h
    · rw [heq] at h
      cases h
      rw [List.all_eq_true]
      simp only [List.mem_range]

/-- Waiting for a group ends, if its deadline can be shown and the clock does not stand still for
ever while children give up early. -/
theorem exists_await_ended {later : σ → σ → Prop} {deadline : Instant} {n : Nat}
    (hw : w.Lawful later) (hdeadline : (w.now x).1.deadline? limit = some deadline)
    (hstalls : ∀ y, later x y → Acc (w.Stalls deadline n) y) :
    ∃ least gone calls last, later x last ∧
      ∀ fuel ≥ least, await w fuel n limit x = (.ended gone, calls, last) := by
  obtain ⟨least, hended⟩ := exists_ended hw hstalls n 0 [] (Nat.zero_add n) (hw.reads x)
  have hmore : ∀ fuel ≥ least, await w fuel n limit x = await w least n limit x := by
    intro fuel hfuel
    obtain ⟨more, rfl⟩ := Nat.exists_eq_add_of_le hfuel
    simp only [await, hdeadline, awaitUntil_add hended]
  have hnot : (await w least n limit x).1 ≠ .waiting := by simp [await, hdeadline, hended]
  obtain ⟨calls, j, y, hturns, ⟨heq, -⟩ | ⟨last, heq, hlast⟩⟩ := await_turns hdeadline least n
  · rw [heq] at hnot
    exact absurd rfl hnot
  · have hy : later x y := hw.trans (hw.reads x) (hturns.leads hw)
    refine ⟨least, _, calls, last, ?_, fun fuel hfuel => (hmore fuel hfuel).trans heq⟩
    obtain ⟨-, rfl⟩ | ⟨-, rfl⟩ := hlast
    · exact hy
    · exact hw.trans hy (hw.reads y)

/-- What waiting for a group makes of any limit, whatever the children and the clock do.  If the
seconds of the deadline do not fit into a reading of the clock, it panics before any child is looked
at.  If they do, it does not panic, and when it has come to its end it has answered whether all
children are gone.  It does come to its end where readings do not go back, a child that says so is
gone for good, and the clock does not stand still for ever while children give up early.

Waiting for one child, be it a driven executor or a loop, answers whether this child is gone,
whatever the limit; and for the rest of a thread the system can be told any limit, exactly or cut
down to what it can be told. -/
theorem await_panics_iff (w : Waitable σ) (n : Nat) (limit : Span) (x : σ) (α : Type) :
    let deadline := (w.now x).1.after limit
    let seconds := deadline.nanos / 1000000000
    (Instant.maxSeconds < seconds →
      ∀ fuel, await w fuel n limit x = (.overflow, [], (w.now x).2)) ∧
    (seconds ≤ Instant.maxSeconds →
      (∀ fuel, (await w fuel n limit x).1 ≠ .overflow) ∧
      (∀ fuel gone calls last, await w fuel n limit x = (.ended gone, calls, last) →
        (gone = true ↔ ∀ i < n, w.isGone i last = true)) ∧
      ∀ later, w.Lawful later → (∀ y, later x y → Acc (w.Stalls deadline n) y) →
        ∃ least gone calls last, later x last ∧
          ∀ fuel ≥ least, await w fuel n limit x = (.ended gone, calls, last)) ∧
    (∀ (v : DrivenWorld α) i, (v.awaitChild i limit).1 =
      DrivenWorld.waitable.isGone i (v.awaitChild i limit).2) ∧
    (∀ (v : LoopWorld α) i, (v.awaitChild i limit).1 =
      LoopWorld.waitable.isGone i (v.awaitChild i limit).2) ∧
    let (seconds, nanos) := WordParker.sleepLimit limit
    seconds ≤ Instant.maxSeconds ∧ nanos < 1000000000 ∧
      (limit.seconds ≤ Instant.maxSeconds → seconds * 1000000000 + nanos = limit.nanos) := by
  intro deadline seconds
  refine ⟨fun hfar fuel => ?_, fun hnear => ?_, fun v i => (v.awaitChild_spec i limit).1,
    fun v i => v.awaitChild_fst i limit, Nat.min_le_right _ _, Nat.mod_lt _ (by decide),
    fun hfits => ?_⟩
  · have hnone := deadline?_eq_none_iff.2 hfar
    simp only [await, hnone]
  · have hdeadline := deadline?_eq_some_iff.2 ⟨hnear, rfl⟩
    refine ⟨fun fuel => ?_, fun fuel gone calls last h => gone_iff_of_ended h,
      fun later hw hstalls => exists_await_ended hw hdeadline hstalls⟩
    obtain ⟨calls, j, y, -, ⟨heq, -⟩ | ⟨last, heq, -⟩⟩ := await_turns hdeadline fuel n
    · rw [heq]
      exact Waited.noConfusion
    · rw [heq]
      exact Waited.noConfusion
  · rw [Nat.min_eq_left hfits]
    exact Nat.div_add_mod' limit.nanos 1000000000

end

/-- A group whose only child is gone, and the longest limit that leads to a moment that the clock
can show: waiting ends and answers that all are gone.  With a nanosecond more it panics. -/
theorem await_panics_iff_boundary :
    let plan : DrivenPlan := { size := 1, kinds := [.ended] }
    let x : DrivenWorld Nat :=
      (build DrivenWorld.surroundings 1 standardGrace 1 (.ofPlan plan)).2.world
    let most : Nat := (Instant.maxSeconds + 1) * 1000000000 - 1 - x.now.nanos
    (∃ least calls last, ∀ fuel ≥ least,
      await DrivenWorld.waitable fuel 1 (.ofNanos most) x = (.ended true, calls, last)) ∧
    ∀ fuel, (await DrivenWorld.waitable fuel 1 (.ofNanos (most + 1)) x).1 = .overflow := by
  intro plan x most
  obtain ⟨-, hnear, -⟩ := await_panics_iff DrivenWorld.waitable 1 (.ofNanos most) x Nat
  obtain ⟨hfar, -⟩ := await_panics_iff DrivenWorld.waitable 1 (.ofNanos (most + 1)) x Nat
  obtain ⟨-, hanswer, hends⟩ := hnear (by decide +kernel)
  refine ⟨?_, fun fuel => ?_⟩
  · obtain ⟨least, gone, calls, last, hlater, hended⟩ := hends DrivenWorld.Later
      DrivenWorld.lawful fun y _ => .intro y fun z h => absurd h (DrivenWorld.not_stalls y z)
    have hstill : ∀ i < 1, DrivenWorld.waitable.isGone i last = true := fun i hi =>
      hlater.2 i (by rw [Nat.lt_one_iff.1 hi]; rfl)
    obtain rfl : gone = true := (hanswer least gone calls last (hended least (Nat.le_refl _))).2 hstill
    exact ⟨least, calls, last, hended⟩
  · rw [hfar (by decide +kernel)]

/-- The longest span that can be written, for the same group.  Its child is gone and says so when it
is awaited for as long, but waiting for the group panics, whatever the patience. -/
theorem await_longest_panics :
    let plan : DrivenPlan := { size := 1, kinds := [.ended] }
    let x : DrivenWorld Nat :=
      (build DrivenWorld.surroundings 1 standardGrace 1 (.ofPlan plan)).2.world
    DrivenWorld.waitable.isGone 0 x = true ∧ (x.awaitChild 0 .longest).1 = true ∧
      (∀ fuel, (await DrivenWorld.waitable fuel 1 .longest x).1 = .overflow) ∧
      (x.answerGroup (.await .longest)).1 = .panicked := by
  intro plan x
  have hoverflow : ∀ fuel, await DrivenWorld.waitable fuel x.children.length .longest x =
      (.overflow, [], (DrivenWorld.waitable.now x).2) := by
    intro fuel
    have hnone : (DrivenWorld.waitable.now x).1.deadline? .longest = none := by decide +kernel
    simp only [await, hnone]
  refine ⟨rfl, rfl, fun fuel => congrArg (·.1) (hoverflow fuel), ?_⟩
  simp only [DrivenWorld.answerGroup, hoverflow]

end FrameLoop.Group
