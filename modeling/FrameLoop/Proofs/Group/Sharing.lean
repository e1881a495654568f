import FrameLoop.Group.Session
import FrameLoop.Group.Sharing
import FrameLoop.Proofs.Group.Undoing
import FrameLoop.Proofs.Positions
import FrameLoop.Proofs.Rotation
import FrameLoop.Proofs.Runs

/-
  Children that are taken by many threads at once.

  The threads share the counter of the rotation and nothing else.  So the positions that they are
  given are those that the rotation hands out one after the other, whoever counts, and each of them
  belongs to a call that has returned or is under way (`Counted`).  With the standard rotation a
  call always finds its child, and the children are taken in turn (`children_taken_evenly`).

  Groups that run are such groups when they have been built (`built_sharing`), and what they take is
  what a single thread takes (`takeNext_runs`).
-/

namespace FrameLoop.Group

namespace Sharing

/-- The position, if a call was given one. -/
def Event.given? : Event → Option Nat
  | counted _ position => some position
  | _ => none

/-- The child, if a call returned one. -/
def Event.taken? : Event → Option Nat
  | took _ child => some child
  | _ => none

/-- The positions that calls were given, in the order in which they have counted. -/
def given (history : List Event) : List Nat := history.filterMap Event.given?

/-- The children that calls have returned, in the order in which they returned. -/
def taken (history : List Event) : List Nat := history.filterMap Event.taken?

theorem given_append (history events : List Event) :
    given (history ++ events) = given history ++ given events :=
  List.filterMap_append

theorem taken_append (history events : List Event) :
    taken (history ++ events) = taken history ++ taken events :=
  List.filterMap_append

variable {g g' : Sharing} {n : Nat} {start : Rotation} {history events : List Event}

/-- When one thread moves, the calls of the others stay under way. -/
theorem underWay_set {i : Nat} {x : Taker} (h : g.takers[i]? = some x) :
    ∃ before behind, g.underWay = before ++ (x.position?.toList ++ behind) ∧
      ∀ y, (g.takers.set i y).filterMap Taker.position? =
        before ++ (y.position?.toList ++ behind) := by
  have hone (y : Taker) : [y].filterMap Taker.position? = y.position?.toList := by
    cases y <;> rfl
  obtain ⟨before, behind, hl, hset, -⟩ := exists_around h
  refine ⟨before.filterMap Taker.position?, behind.filterMap Taker.position?, ?_, fun y => ?_⟩
  · rw [underWay, hl, List.filterMap_append, List.filterMap_append, hone]
  · rw [hset, List.filterMap_append, List.filterMap_append, hone]

/-- A group of `n` children whose rotation was `start` before anybody took one. -/
structure Counted (start : Rotation) (n : Nat) (g : Sharing) (history : List Event) : Prop where
  size : g.size = n
  rotation : g.rotation = start.skip (given history).length
  /-- The positions given are those of the rotation, one after the other. -/
  given : given history =
    (List.range (given history).length).map fun k => (start.skip k).next.1
  /-- Each of them belongs to a call that has returned or is under way. -/
  settled : (Sharing.given history).Perm (taken history ++ g.underWay)
  found : ∀ taker, .panicked taker ∉ history

namespace Counted

theorem begin (start : Rotation) (n : Nat) :
    Counted start n { size := n, rotation := start } [] where
  size := rfl
  rotation := rfl
  given := rfl
  settled := .refl _
  found := by simp

theorem lt_size (h : Counted start n g history) (hin : ∀ k, (start.skip k).next.1 < n) {i : Nat}
    {position : Nat} (hi : g.takers[i]? = some (.counted position)) : position < g.size := by
  have hmem : position ∈ g.underWay :=
    List.mem_filterMap.2 ⟨_, List.mem_of_getElem? hi, rfl⟩
  have hgiven : position ∈ Sharing.given history :=
    h.settled.mem_iff.2 (List.mem_append_right _ hmem)
  rw [h.given] at hgiven
  obtain ⟨k, -, rfl⟩ := List.mem_map.1 hgiven
  exact h.size ▸ hin k

theorem count (h : Counted start n g history) {i : Nat} (hi : g.takers[i]? = some .idle) :
    Counted start n
      { g with
        rotation := g.rotation.next.2
        takers := g.takers.set i (.counted g.rotation.next.1) }
      (history ++ [.counted i g.rotation.next.1]) := by
  have hgiven : Sharing.given (history ++ [.counted i g.rotation.next.1]) =
      Sharing.given history ++ [g.rotation.next.1] := given_append _ _
  obtain ⟨before, behind, hl, hset⟩ := underWay_set hi
  refine ⟨h.size, ?_, ?_, ?_, ?_⟩
  · rw [hgiven, List.length_append, List.length_singleton, Rotation.skip_succ, ← h.rotation]
  · rw [hgiven, List.length_append, List.length_singleton, List.range_succ, List.map_append,
      ← h.given, h.rotation]
    rfl
  · rw [hgiven, taken_append]
    refine (h.settled.append_right _).trans ?_
    rw [hl, underWay, hset, List.perm_iff_count]
    intro x
    simp only [List.count_append, Taker.position?, Option.toList, List.count_nil, taken,
      List.filterMap_cons, List.filterMap_nil, Event.taken?]
    omega
  · simpa using h.found

theorem look (h : Counted start n g history) {i position : Nat}
    (hi : g.takers[i]? = some (.counted position)) :
    Counted start n { g with takers := g.takers.set i .idle } (history ++ [.took i position]) := by
  have hgiven : Sharing.given (history ++ [.took i position]) = Sharing.given history :=
    (given_append _ _).trans (List.append_nil _)
  obtain ⟨before, behind, hl, hset⟩ := underWay_set hi
  refine ⟨h.size, by rw [hgiven]; exact h.rotation, by rw [hgiven]; exact h.given, ?_, ?_⟩
  · rw [hgiven, taken_append]
    refine h.settled.trans ?_
    rw [hl, underWay, hset, List.perm_iff_count]
    intro x
    simp only [List.count_append, Taker.position?, Option.toList, List.count_nil, taken,
      List.filterMap_cons, List.filterMap_nil, Event.taken?]
    omega
  · simpa using h.found

theorem step (h : Counted start n g history) (hin : ∀ k, (start.skip k).next.1 < n)
    {label : Step} (hstep : g.step label = some (g', events)) :
    Counted start n g' (history ++ events) := by
  cases label with
  | join =>
    cases hstep
    rw [List.append_nil]
    refine ⟨h.size, h.rotation, h.given, ?_, h.found⟩
    rw [underWay, List.filterMap_append]
    exact (List.append_nil g.underWay).symm ▸ h.settled
  | count i =>
    simp only [Sharing.step] at hstep
    split at hstep
    · next hi =>
      cases hstep
      exact h.count hi
    · cases hstep
  | look i =>
    simp only [Sharing.step] at hstep
    split at hstep
    · next position hi =>
      rw [if_pos (h.lt_size hin hi)] at hstep
      cases hstep
      exact h.look hi
    · cases hstep

/-- The positions given are remainders, as long as the counter has not wrapped. -/
theorem given_eq (h : Counted start n g history)
    (hturns : ∀ k, (start.skip k).next.1 = k % 2 ^ 64 % n)
    (hm : (Sharing.given history).length ≤ 2 ^ 64) :
    Sharing.given history = (List.range (Sharing.given history).length).map (· % n) := by
  refine h.given.trans (List.map_congr_left fun k hk => ?_)
  rw [hturns, Nat.mod_eq_of_lt ((List.mem_range.1 hk).trans_le hm)]

/-- When no call is under way, every position given has been returned. -/
theorem given_perm_taken (h : Counted start n g history) (hidle : ∀ x ∈ g.takers, x = .idle) :
    (Sharing.given history).Perm (taken history) := by
  have hnone : g.underWay = [] := List.filterMap_eq_nil_iff.2 fun x hx => by
    rw [hidle x hx]
    rfl
  have hall := h.settled
  rwa [hnone, List.append_nil] at hall

end Counted

end Sharing

/-! ## Groups that run -/

namespace DrivenWorld

variable {α : Type}

/-- A group as those see it who take its children. -/
def sharing (w : DrivenWorld α) (takers : List Taker) : Option Sharing :=
  w.rotation.map fun rotation => { size := w.children.length, rotation, takers }

/-- A thread that takes one child after the other, undisturbed, takes the next ones of the group. -/
theorem takeNext_runs {count : Nat} {w w' : DrivenWorld α} {g : Sharing} {children : List Nat}
    (hg : w.sharing [.idle] = some g) (h : takeNext count w = (some children, w')) :
    ∃ g' events, w'.sharing [.idle] = some g' ∧ Runs Sharing.step g events g' ∧
      Sharing.taken events = children := by
  induction count generalizing w g children with
  | zero =>
    cases h
    exact ⟨g, [], hg, .refl g, rfl⟩
  | succ count ih =>
    obtain ⟨rotation, hrotation, rfl⟩ := Option.map_eq_some_iff.1 hg
    simp only [takeNext, hrotation] at h
    split at h
    · next hlt =>
      simp only [Prod.mk.injEq, Option.map_eq_some_iff] at h
      obtain ⟨⟨more, hmore, rfl⟩, rfl⟩ := h
      obtain ⟨g', events, hlast, hruns, rfl⟩ := ih rfl (Prod.ext hmore rfl)
      have hlook : Sharing.step
          ⟨w.children.length, rotation.next.2, [.counted rotation.next.1]⟩ (.look 0) =
          some (⟨w.children.length, rotation.next.2, [.idle]⟩, [.took 0 rotation.next.1]) := by
        simp only [Sharing.step, List.getElem?_cons_zero, if_pos hlt, List.set_cons_zero]
      exact ⟨g', _, hlast, .step (.count 0) rfl (.step (.look 0) hlook hruns), rfl⟩
    · cases h

theorem create_of_no_failure {w : DrivenWorld α} (h : w.plan.failure = none) (i : Nat) :
    (w.create i).1 = .created ∧ (w.create i).2.plan = w.plan ∧
      (w.create i).2.children.length = w.children.length + 1 := by
  unfold create
  simp only [note, h]
  exact ⟨trivial, trivial, List.length_append⟩

theorem made_length {plan : DrivenPlan} (h : plan.failure = none) (k : Nat) :
    (surroundings.made k (ofPlan plan : DrivenWorld α)).plan = plan ∧
      (surroundings.made k (ofPlan plan : DrivenWorld α)).children.length = k := by
  induction k with
  | zero => exact ⟨rfl, rfl⟩
  | succ k ih =>
    obtain ⟨hplan, hlength⟩ := ih
    obtain ⟨-, hplan', hlength'⟩ := create_of_no_failure (hplan ▸ h) k
    exact ⟨hplan'.trans hplan, hlength'.trans (congrArg (· + 1) hlength)⟩

theorem sharing_callFrom_listen (k i : Nat) (t : Trail (DrivenWorld α)) (takers : List Taker) :
    (callFrom surroundings.listen .listen k i t).world.sharing takers = t.world.sharing takers := by
  induction k generalizing i t with
  | zero => rfl
  | succ k ih =>
    refine (ih _ _).trans ?_
    show (t.world.hear i).sharing takers = _
    unfold hear
    split
    · rfl
    · simp [sharing, onChild]

theorem choose_standard {w : DrivenWorld α} (hrotation : w.plan.rotation = .standard none) {n : Nat}
    {rotation : Rotation} (h : Rotation.standard? (.ofNat n) = some rotation) :
    w.choose n =
      (.chosen rotation.length, { w.note (.choose n) with rotation := some rotation }) := by
  have hmake : (w.note (.choose n)).plan.rotation.make? n = some rotation := by
    show w.plan.rotation.make? n = _
    rw [hrotation]
    exact h
  simp only [choose, hmake]

/-- A group with the standard rotation is built, and it is this group to those who take its
children. -/
theorem built_sharing {plan : DrivenPlan} (hzero : plan.size ≠ 0)
    (hmany : plan.size ≤ mostChildren) (hfailure : plan.failure = none)
    (hrotation : plan.rotation = .standard none) (patience : Nat) (grace : Loop.Grace) :
    let result := build surroundings patience grace plan.size (ofPlan plan : DrivenWorld α)
    result.1 = .built ∧ result.2.world.sharing [] = Sharing.ofSize plan.size := by
  have hword : plan.size < 2 ^ 64 := hmany.trans_lt (by decide)
  have hcreated (j : Nat) (_ : j < plan.size) : (surroundings.create j
      (surroundings.made j (ofPlan plan : DrivenWorld α))).1 = .created := by
    refine (create_of_no_failure ?_ j).1
    rw [(made_length hfailure j).1, hfailure]
  obtain ⟨hplan, hlength⟩ := made_length (α := α) hfailure plan.size
  obtain ⟨rotation, hstandard⟩ := Rotation.exists_standard? (by omega) hword
  have hchoose := choose_standard (hplan.symm ▸ hrotation) hstandard
  have hbuild := @build_of_created _ surroundings grace _ _ hmany hzero hcreated patience
  have hchosen : (surroundings.choose plan.size
      (surroundings.made plan.size (ofPlan plan : DrivenWorld α))) = _ := hchoose
  rw [hchosen, Rotation.length_standard? hword hstandard] at hbuild
  simp only [if_true] at hbuild
  dsimp only
  rw [hbuild]
  refine ⟨rfl, ?_⟩
  rw [listenFirst, sharing_callFrom_listen, Sharing.ofSize, hstandard]
  exact congrArg (fun size => some (Sharing.mk size rotation [])) hlength

end DrivenWorld

/-- Any number of threads take children of a group of `n` with the standard rotation.  Whatever
their calls do between each other, no call looks beyond the children, and each that has counted
can return its child.  The `k`th to count is given the child `k` modulo `n`, and what the calls
were given is what they have returned and what they are about to.  So of `m` calls as many as of
the others were given to each child, or one more, and when they have returned, it was returned that
often. -/
theorem children_taken_evenly {n : Nat} (hpos : 0 < n) (hword : n < 2 ^ 64) :
    ∃ start, Sharing.ofSize n = some start ∧
      (n ≤ mostChildren → ∀ (kinds : List DrivenKind) patience grace,
        let group : DrivenWorld Nat := .ofPlan { size := n, kinds }
        let result := build DrivenWorld.surroundings patience grace n group
        result.1 = .built ∧ result.2.world.sharing [] = some start) ∧
      ∀ {events g}, Runs Sharing.step start events g →
        let given := Sharing.given events
        let taken := Sharing.taken events
        (∀ i, .panicked i ∉ events) ∧
        (∀ i position, g.takers[i]? = some (.counted position) →
          position < n ∧ ∃ g', g.step (.look i) = some (g', [.took i position])) ∧
        (∀ k < 2 ^ 64, ∀ position, given[k]? = some position → position = k % n) ∧
        given.Perm (taken ++ g.underWay) ∧
        (given.length ≤ 2 ^ 64 → ∀ child < n,
          given.count child = given.length / n ∨
            given.count child = (given.length + n - 1) / n) ∧
        ((∀ x ∈ g.takers, x = .idle) → taken.length ≤ 2 ^ 64 → ∀ child < n,
          taken.count child = taken.length / n ∨
            taken.count child = (taken.length + n - 1) / n) := by
  obtain ⟨rotation, hrotation⟩ := Rotation.exists_standard? hpos hword
  have hturns := Rotation.next_skip hpos hword hrotation
  have hin := Rotation.next_skip_lt hpos hword hrotation
  have hstart : Sharing.ofSize n = some { size := n, rotation } :=
    congrArg (Option.map _) hrotation
  refine ⟨{ size := n, rotation }, hstart, fun hmany kinds patience grace => ?_, ?_⟩
  · rw [← hstart]
    exact @DrivenWorld.built_sharing Nat { size := n, kinds } hpos.ne' hmany rfl rfl patience grace
  intro events g hruns given taken
  have h : Sharing.Counted rotation n g events :=
    hruns.keeps (P := Sharing.Counted rotation n) (fun _ h hstep => h.step hin hstep)
      (.begin rotation n)
  have heven (hm : given.length ≤ 2 ^ 64) (child : Nat) (hchild : child < n) :
      given.count child = given.length / n ∨ given.count child = (given.length + n - 1) / n := by
    have hgiven : given = _ := h.given_eq hturns hm
    rw [hgiven, List.length_map, List.length_range]
    exact Rotation.count_turns_even hpos given.length hchild
  refine ⟨h.found, fun i position hi => ?_, fun k hk position hposition => ?_, h.settled, heven,
    fun hidle hm => ?_⟩
  · have hlt := h.lt_size hin hi
    exact ⟨h.size ▸ hlt, { g with takers := g.takers.set i .idle },
      by simp only [Sharing.step, hi, if_pos hlt]⟩
  · have hgiven : given = _ := h.given
    rw [hgiven, List.getElem?_map] at hposition
    obtain ⟨j, hj, rfl⟩ := Option.map_eq_some_iff.1 hposition
    obtain ⟨-, rfl⟩ := List.getElem?_eq_some_iff.1 hj
    rw [List.getElem_range, hturns, Nat.mod_eq_of_lt hk]
  · have hperm := h.given_perm_taken hidle
    have hlength : given.length = taken.length := hperm.length_eq
    intro child hchild
    rw [← hlength, ← hperm.count_eq]
    exact heven (hlength ▸ hm) child hchild

/-- Three children and three threads, of which the first counts first and returns last. -/
theorem children_taken_evenly_overlapping :
    ∃ start g events, Sharing.ofSize 3 = some start ∧ Runs Sharing.step start events g ∧
      Sharing.given events = [0, 1, 2, 0] ∧ Sharing.taken events = [1, 2, 0, 0] ∧
      ∀ child < 3, (Sharing.taken events).count child = 4 / 3 ∨
        (Sharing.taken events).count child = (4 + 3 - 1) / 3 := by
  let labels : List Sharing.Step :=
    [.join, .join, .join, .count 0, .count 1, .look 1, .count 1, .look 1, .count 2, .look 2,
      .look 0]
  obtain ⟨start, hstart, -, h⟩ := children_taken_evenly (n := 3) (by decide) (by decide)
  cases hstart
  let last := (follow Sharing.step ⟨3, .modulo 0 3, []⟩ [] labels).get (by decide)
  have hlast : follow Sharing.step ⟨3, .modulo 0 3, []⟩ [] labels = some last :=
    (Option.some_get _).symm
  obtain ⟨events, hruns, hevents⟩ := follow_runs hlast
  obtain rfl : last.2 = events := hevents
  obtain ⟨-, -, -, -, -, heven⟩ := h hruns
  have htaken : Sharing.taken last.2 = [1, 2, 0, 0] := by decide
  have hidle : ∀ x ∈ last.1.takers, x = .idle := by decide
  rw [htaken] at heven
  refine ⟨_, last.1, last.2, rfl, hruns, by decide, htaken, ?_⟩
  rw [htaken]
  exact heven hidle (by decide)

end FrameLoop.Group
