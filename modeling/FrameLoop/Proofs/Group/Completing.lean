import FrameLoop.Proofs.Group.Counting

/-
  When the signal of a group is completed.

  It is not as long as the count is not full (`Tracked.not_done`).  The count is full when all
  listeners of the group have ended (`Tracked.full`), and then the one that made it full has
  completed the signal, and its call has returned (`Tracked.completed`).
-/

namespace FrameLoop.Group.Aggregation

open Signal

variable {a : Aggregation} {history : List Event} {es : List Entry} {cs as : List Nat}

/-- Every child has a listener, which has ended. -/
def AllEnded (a : Aggregation) (es : List Entry) : Prop :=
  ∀ c ∈ a.children, ∃ l, c.listener = some l ∧ ∃ failed, .ended c.signal l failed ∈ happenings es

namespace Tracked

/-! ## Who makes the count full -/

/-- Only the listener that made the count full begins to complete the signal of the group. -/
theorem last_of_attempted (h : Tracked a es cs as) {i : Nat} (hi : i ∈ as) :
    cs[a.size - 1]? = some i := by
  have hlt := h.inside i (List.mem_append_right _ hi)
  have hattempted := (h.followed i _ (List.getElem?_eq_getElem hlt)).attempted
  have hpos := List.count_pos_iff.2 hi
  by_contra hne
  rw [if_neg hne] at hattempted
  omega

/-- It has begun to, once, or is about to. -/
theorem attempted_of_last (h : Tracked a es cs as) {i : Nat}
    (hlast : cs[a.size - 1]? = some i) :
    ∃ c, a.children[i]? = some c ∧
      (c.stage = some .attempt ∧ as = [] ∨ c.stage ≠ some .attempt ∧ as = [i]) := by
  obtain ⟨c, hc⟩ : ∃ c, a.children[i]? = some c :=
    ⟨_, List.getElem?_eq_getElem
      (h.inside i (List.mem_append_left _ (List.mem_of_getElem? hlast)))⟩
  have hsame : ∀ j ∈ as, j = i := fun j hj =>
    Option.some.inj ((h.last_of_attempted hj).symm.trans hlast)
  have hattempted := (h.followed i _ hc).attempted
  rw [List.count_eq_length.2 fun j hj => (hsame j hj).symm, if_pos hlast] at hattempted
  refine ⟨c, hc, ?_⟩
  by_cases hstage : c.stage = some .attempt
  · rw [if_pos hstage] at hattempted
    exact .inl ⟨hstage, List.eq_nil_of_length_eq_zero (by omega)⟩
  · rw [if_neg hstage] at hattempted
    obtain ⟨j, rfl⟩ := List.length_eq_one_iff.1 hattempted
    exact .inr ⟨hstage, by rw [hsame j (List.mem_singleton_self j)]⟩

theorem length_attempted_le_one (h : Tracked a es cs as) : as.length ≤ 1 := by
  cases hlast : cs[a.size - 1]? with
  | none =>
    have hnil : as = [] := List.eq_nil_iff_forall_not_mem.2 fun i hi =>
      nomatch hlast.symm.trans (h.last_of_attempted hi)
    rw [hnil]
    exact Nat.zero_le 1
  | some i =>
    obtain ⟨c, -, ⟨-, rfl⟩ | ⟨-, rfl⟩⟩ := h.attempted_of_last hlast
    · exact Nat.zero_le 1
    · exact Nat.le_refl 1

theorem not_attempted (h : Tracked a es cs as) (hlt : cs.length < a.size) : as = [] := by
  refine List.eq_nil_iff_forall_not_mem.2 fun i hi => ?_
  have hlast := h.last_of_attempted hi
  rw [List.getElem?_eq_none (by omega)] at hlast
  cases hlast

theorem not_done (h : Tracked a es cs as) (hsole : Sole a es as) (hlt : cs.length < a.size) :
    (a.crowd.signals a.signal).done = false := by
  have hasked := hsole.asked
  have hwon := h.crowd.accounted.won a.signal
  rw [h.not_attempted hlt, List.length_nil] at hasked
  exact Bool.toNat_eq_zero.1 (by omega)

/-! ## When all listeners have ended -/

/-- A listener that has ended runs no more, and has counted. -/
theorem counted_of_ended (h : Tracked a es cs as) {i : Nat} {c : Child} {l : Nat} {failed : Bool}
    (hc : a.children[i]? = some c) (hl : c.listener = some l)
    (hended : .ended c.signal l failed ∈ happenings es) :
    c.stage = none ∧ (c.signal, l) ∉ a.crowd.all Thread.running ∧ i ∈ cs := by
  have hfollowed := h.followed i c hc
  have hbegan := hfollowed.began l hl
  have hran := hfollowed.ran l hl
  have hcrowd := h.crowd.accounted.ran c.signal l
  have hone := h.crowd.accounted.count_began_le_one c.signal l
  have hpos := List.count_pos_iff.2 hended
  have hstage : c.stage = none := by
    cases hstage : c.stage with
    | none => rfl
    | some stage =>
      rw [hstage, Option.isSome_some, Bool.toNat_true] at hran
      cases failed <;> omega
  rw [hstage, if_neg (by nofun)] at hbegan
  refine ⟨hstage, List.count_eq_zero.1 ?_, List.count_pos_iff.1 ?_⟩
  · cases failed <;> omega
  · cases failed <;> omega

/-- When all listeners have ended the count is full. -/
theorem full (h : Tracked a es cs as) (hall : AllEnded a es) : cs.length = a.size := by
  have hsub : List.range a.size ⊆ cs := fun i hi => by
    have hc := List.getElem?_eq_getElem (List.mem_range.1 hi)
    obtain ⟨l, hl, failed, hended⟩ := hall _ (List.mem_of_getElem? hc)
    exact (h.counted_of_ended hc hl hended).2.2
  have hle := (List.subperm_of_subset List.nodup_range hsub).length_le
  rw [List.length_range] at hle
  exact Nat.le_antisymm h.length_le hle

/-- And no call is to complete the signal of the group, or has completed it and not returned. -/
theorem none_asking (h : Tracked a es cs as) (hsole : Sole a es as) (hall : AllEnded a es) :
    (a.crowd.all Thread.asking).count a.signal = 0 ∧
      (a.crowd.all Thread.delivering).count a.signal = 0 := by
  have hnone : ∀ x ∈ a.crowd.threads, ∀ f ∈ x.frames, ¬Own a.children f := by
    rintro x hx f hf ⟨c, hc, hsignal, hlistener⟩
    obtain ⟨i, hi⟩ := List.mem_iff_getElem?.1 hc
    obtain ⟨l, hl, failed, hended⟩ := hall c hc
    obtain rfl : f.listener = l := Option.some.inj (hlistener.symm.trans hl)
    refine (h.counted_of_ended hi hl hended).2.1
      (mem_all.2 ⟨x, hx, mem_collect.2 (.inr ⟨f, hf, ?_⟩)⟩)
    rw [hsignal]
    exact List.mem_singleton_self _
  have hnested (x) (hx : x ∈ a.crowd.threads) :
      a.signal ∉ x.asking ∧ a.signal ∉ x.delivering := by
    obtain ⟨j, hj⟩ := List.mem_iff_getElem?.1 hx
    exact (hsole.nested j x hj).none (hnone x hx)
  exact ⟨count_all_eq_zero fun x hx => (hnested x hx).1,
    count_all_eq_zero fun x hx => (hnested x hx).2⟩

/-- So the call of the listener that made the count full has completed the signal, and has
returned. -/
theorem completed (h : Tracked a es cs as) (hsole : Sole a es as) (hall : AllEnded a es)
    (hpos : 0 < a.size) :
    ∃ i, cs[a.size - 1]? = some i ∧ as = [i] ∧
      .completed a.signal true ∈ happenings es := by
  have hfull := h.full hall
  have hlast := List.getElem?_eq_getElem (show a.size - 1 < cs.length by omega)
  refine ⟨_, hlast, ?_⟩
  obtain ⟨c, hc, hcase⟩ := h.attempted_of_last hlast
  obtain ⟨l, hl, failed, hended⟩ := hall c (List.mem_of_getElem? hc)
  have hstage := (h.counted_of_ended hc hl hended).1
  obtain ⟨hattempt, -⟩ | ⟨-, rfl⟩ := hcase
  · rw [hstage] at hattempt
    cases hattempt
  · refine ⟨rfl, ?_⟩
    obtain ⟨hasking, hdelivering⟩ := h.none_asking hsole hall
    have hasked := hsole.asked
    rw [hasking, hdelivering, List.length_singleton] at hasked
    -- the one call that there was cannot have found the signal complete, as nobody else
    -- completes it
    by_contra hnot
    have hlost : .completed a.signal false ∈ happenings es := by
      rw [List.count_eq_zero.2 hnot] at hasked
      exact List.count_pos_iff.1 (by omega)
    have hwon := h.crowd.accounted.won a.signal
    rw [hdelivering, List.count_eq_zero.2 hnot, h.crowd.accounted.lost a.signal hlost] at hwon
    cases hwon

end Tracked

/-- The count is the number of the children whose listeners have counted, each of them once, and
does not exceed the number of all children.  As long as it is less, the signal of the group is not
complete.  When it is full, the listener that counted last has begun to complete the signal, or is
about to; nobody else does, and it does so once.  When all listeners have ended, the signal is
complete, and each listener of it that nobody adds any more has been run once. -/
theorem completed_by_last {signal : Nat} {futures : List Nat}
    (h : Reachable signal futures a history) :
    (a.count = (counted history).length ∧ (counted history).Nodup ∧
      (∀ i ∈ counted history, i < futures.length) ∧ a.count ≤ futures.length) ∧
    (a.count < futures.length → (a.crowd.signals signal).done = false) ∧
    ((attempted history).length ≤ 1 ∧
      (∀ i ∈ attempted history, (counted history)[futures.length - 1]? = some i) ∧
      (a.count = futures.length → ∃ i c, (counted history)[futures.length - 1]? = some i ∧
        a.children[i]? = some c ∧ (c.stage = some .attempt ∧ attempted history = [] ∨
          c.stage ≠ some .attempt ∧ attempted history = [i]))) ∧
    (AllEnded a (entries history) → (attempted history).length = 1 ∧
      (a.crowd.signals signal).done = true ∧
      ∀ l, .handed signal l ∈ heard history →
        (∀ x ∈ a.crowd.threads, (signal, l) ∉ x.adding) →
          (heard history).count (.began signal l) = 1 ∧
            (heard history).count (.ended signal l false) +
              (heard history).count (.ended signal l true) = 1) := by
  obtain ⟨rfl, rfl, hne, -⟩ := h.signals
  have htracked := h.tracked
  have hsole := h.sole
  have hsize : (a.children.map Child.signal).length = a.size := List.length_map ..
  have hpos : 0 < a.size := hsize ▸ List.length_pos_iff.2 hne
  rw [hsize, htracked.count]
  refine ⟨⟨rfl, htracked.nodup, ?_, htracked.length_le⟩, htracked.not_done hsole,
    ⟨htracked.length_attempted_le_one, fun i => htracked.last_of_attempted, fun hfull => ?_⟩,
    fun hall => ?_⟩
  · exact fun i hi => htracked.inside i (List.mem_append_left _ hi)
  · have hlast := List.getElem?_eq_getElem (show a.size - 1 < (counted history).length by omega)
    obtain ⟨c, hc, hcase⟩ := htracked.attempted_of_last hlast
    exact ⟨_, c, hlast, hc, hcase⟩
  · obtain ⟨i, -, has, hcompleted⟩ := htracked.completed hsole hall hpos
    have hbooks := htracked.crowd.accounted
    exact ⟨by rw [has]; rfl, hbooks.done_of_completed hcompleted,
      fun l hl hadded => hbooks.ran_once hcompleted hadded hl⟩

/-- A group of three children.  The first and the last have the same signal, which is completed
before the builder begins, so that it runs their listeners itself; that of the second one is
completed while the last listener is on its way, and by two threads.  In between a listener is added
to the signal of the group. -/
def lateRun : List Step :=
  let go (i : Nat) : Step := .crowd (.act i .go)
  let complete (i p : Nat) : Step := .crowd (.act i (.call p .complete))
  let finish (i : Nat) : Step := .crowd (.act i (.finish false))
  [.crowd .fork, .crowd .fork, complete 1 0, go 1, go 1,
    .register, go 0, go 0, .listener 0 0, finish 0, go 0, complete 2 1, .register, go 0,
    .crowd (.act 1 (.call 9 .listen)), go 1, .register, go 0, go 2, go 2, complete 1 1, go 1,
    .listener 1 2, go 0, .listener 2 0, finish 2, go 2, .listener 2 0, go 0, go 0, finish 0, go 0,
    finish 0, go 0, .handOut]

/-- At its end the last child's listener, and nobody else, has completed the signal of the group,
and the listener of this signal has been run once. -/
theorem completed_by_last_late :
    ∃ (a : Aggregation) (history : List Event), Reachable 9 [0, 1, 0] a history ∧
      AllEnded a (entries history) ∧ counted history = [0, 1, 2] ∧ attempted history = [2] ∧
      a.count = 3 ∧ (a.crowd.signals 9).done = true ∧
      (heard history).count (.began 9 2) = 1 := by
  let last := (follow step (.begin 9 [0, 1, 0]) [] lateRun).get (by decide +kernel)
  have hrun : Reachable 9 [0, 1, 0] last.1 last.2 :=
    follow_keeps .step (.begin (by decide) (by decide)) (Option.some_get _).symm
  have hended : AllEnded last.1 (entries last.2) := by
    have hchildren :
        last.1.children = [⟨0, some 0, none⟩, ⟨1, some 1, none⟩, ⟨0, some 3, none⟩] := by
      decide +kernel
    intro c hc
    rw [hchildren] at hc
    obtain rfl | rfl | rfl : c = _ ∨ c = _ ∨ c = _ := by simpa using hc
    · exact ⟨0, rfl, false, by decide +kernel⟩
    · exact ⟨1, rfl, false, by decide +kernel⟩
    · exact ⟨3, rfl, false, by decide +kernel⟩
  have hadding : ∀ x ∈ last.1.crowd.threads, (9, 2) ∉ x.adding := by decide +kernel
  obtain ⟨-, -, -, hdone⟩ := completed_by_last hrun
  obtain ⟨-, hdone, honce⟩ := hdone hended
  exact ⟨last.1, last.2, hrun, hended, by decide +kernel, by decide +kernel, by decide +kernel,
    hdone, (honce 2 (by decide +kernel) hadding).1⟩

end FrameLoop.Group.Aggregation
