import FrameLoop.Proofs.Group.Tracking
import FrameLoop.Proofs.Signal.Asking
import Mathlib.Data.List.Perm.Basic

/-
  How a group counts its children and completes its signal.

  The books of a group (`Tracked`) hold what `Followed` says of the listener of each child, and that
  the count is what the listeners have counted.  Since a listener counts once at most, the count
  is full when all of them have ended, and one of them made it full.  This one alone completes the
  signal of the group (`Sole`), from within its own run.
-/

namespace FrameLoop.Group.Aggregation

open Signal

variable {a b : Aggregation} {history events : List Event} {es : List Entry} {cs as : List Nat}

/-! ## Books -/

/-- The books of a group when its threads have done `es`, the listeners of the children `cs` have
counted, and those of `as` have begun to complete its signal. -/
structure Tracked (a : Aggregation) (es : List Entry) (cs as : List Nat) : Prop where
  crowd : a.crowd.Reachable es
  followed : ∀ i c, a.children[i]? = some c → Followed es cs as a.size i c
  /-- The children are brought listeners one after the other. -/
  registered : ∀ i c, a.children[i]? = some c → (c.listener.isSome = true ↔ i < a.next)
  count : a.count = cs.length
  inside : ∀ i ∈ cs ++ as, i < a.size

theorem size_set (crowd : Crowd) (signal : Nat) (children : List Child) (i : Nat) (c : Child)
    (next : Nat) (built : Bool) (count : Nat) :
    size ⟨crowd, signal, children.set i c, next, built, count⟩ = children.length :=
  List.length_set

namespace Tracked

theorem begin (signal : Nat) (futures : List Nat) : Tracked (.begin signal futures) [] [] [] where
  crowd := .step .fork .begin rfl
  followed i c hc := by
    obtain ⟨p, -, rfl⟩ := List.mem_map.1 (List.mem_of_getElem? hc)
    constructor <;> simp
  registered i c hc := by
    obtain ⟨p, -, rfl⟩ := List.mem_map.1 (List.mem_of_getElem? hc)
    simp [Aggregation.begin]
  count := rfl
  inside i hi := by cases hi

theorem count_counted_le_one (h : Tracked a es cs as) (i : Nat) : cs.count i ≤ 1 := by
  cases hc : a.children[i]? with
  | none =>
    have hout : i ∉ cs := fun hmem =>
      Nat.not_lt.2 (List.getElem?_eq_none_iff.1 hc) (h.inside i (List.mem_append_left _ hmem))
    rw [List.count_eq_zero.2 hout]
    exact Nat.zero_le 1
  | some c =>
    cases hl : c.listener with
    | none =>
      rw [List.count_eq_zero.2 ((h.followed i c hc).idle hl).2]
      exact Nat.zero_le 1
    | some l =>
      have hbegan := (h.followed i c hc).began l hl
      have hone := h.crowd.accounted.count_began_le_one c.signal l
      omega

theorem nodup (h : Tracked a es cs as) : cs.Nodup :=
  List.nodup_iff_count.2 h.count_counted_le_one

/-- The count does not exceed the number of children. -/
theorem length_le (h : Tracked a es cs as) : cs.length ≤ a.size := by
  have hsub : cs ⊆ List.range a.size := fun i hi =>
    List.mem_range.2 (h.inside i (List.mem_append_left _ hi))
  simpa using (List.subperm_of_subset h.nodup hsub).length_le

/-- While a listener is about to count, the count is not full. -/
theorem length_lt (h : Tracked a es cs as) {i : Nat} {c : Child} (hc : a.children[i]? = some c)
    (hstage : c.stage = some .count) : cs.length < a.size := by
  have hnot : i ∉ cs := by
    cases hl : c.listener with
    | none => exact ((h.followed i c hc).idle hl).2
    | some l =>
      have hbegan := (h.followed i c hc).began l hl
      have hone := h.crowd.accounted.count_began_le_one c.signal l
      rw [if_pos hstage] at hbegan
      exact List.count_eq_zero.1 (by omega)
  have hsub : i :: cs ⊆ List.range a.size := by
    intro j hj
    obtain rfl | hj := List.mem_cons.1 hj
    · exact List.mem_range.2 (List.getElem?_eq_some_iff.1 hc).1
    · exact List.mem_range.2 (h.inside j (List.mem_append_left _ hj))
  have hle := (List.subperm_of_subset (List.nodup_cons.2 ⟨hnot, h.nodup⟩) hsub).length_le
  rwa [List.length_cons, List.length_range] at hle

theorem hear (h : Tracked a es cs as) {label : Crowd.Step} {crowd : Crowd} {es' : List Entry}
    (hstep : a.crowd.step label = some (crowd, es'))
    (hallows : ∀ (i : Nat) act x, label = .act i act → a.crowd.threads[i]? = some x →
      a.Allows x act) :
    Tracked { a with crowd, children := told a.children es' } (es ++ es') cs as := by
  have hcrowd := h.crowd.step label hstep
  have hsize : Aggregation.size { a with crowd, children := told a.children es' } = a.size :=
    List.length_map ..
  refine ⟨hcrowd, fun i d hd => ?_, fun i d hd => ?_, h.count, hsize ▸ h.inside⟩
  · obtain ⟨c, hc, rfl⟩ := told_getElem? hd
    rw [hsize]
    refine (h.followed i c hc).crowd hcrowd.accounted hstep fun j failed f fs hlabel hj hhas => ?_
    exact hallows j _ _ hlabel hj f rfl c (List.mem_of_getElem? hc) hhas
  · obtain ⟨c, hc, rfl⟩ := told_getElem? hd
    rw [foldl_hear_listener]
    exact h.registered i c hc

theorem next_listener (h : Tracked a es cs as) {c : Child} (hc : a.children[a.next]? = some c) :
    c.listener = none := by
  cases hl : c.listener with
  | none => rfl
  | some l => exact absurd ((h.registered a.next c hc).1 (by rw [hl]; rfl)) (Nat.lt_irrefl _)

theorem register (h : Tracked a es cs as) {c : Child} {crowd : Crowd}
    (hc : a.children[a.next]? = some c)
    (hstep : a.crowd.step (.act 0 (.call c.signal .listen)) =
      some (crowd, [⟨0, .handed c.signal a.crowd.registered⟩])) :
    Tracked { a with
        crowd
        children := a.children.set a.next { c with listener := some a.crowd.registered }
        next := a.next + 1 }
      (es ++ [⟨0, .handed c.signal a.crowd.registered⟩]) cs as := by
  have hnone := h.next_listener hc
  obtain ⟨hbegan, hended⟩ := h.crowd.accounted.not_begun c.signal
  refine ⟨h.crowd.step _ hstep, fun i d hd => ?_, fun i d hd => ?_, h.count, ?_⟩
  · rw [size_set]
    obtain ⟨rfl, rfl⟩ | ⟨-, hd⟩ := set_cases hd
    · exact (h.followed _ c hc).register hnone hbegan hended
    · exact (h.followed i d hd).unheard (by simp [happenings]) (by simp [happenings])
  · obtain ⟨rfl, rfl⟩ | ⟨hne, hd⟩ := set_cases hd
    · exact ⟨fun _ => Nat.lt_succ_self _, fun _ => rfl⟩
    · rw [h.registered i d hd]
      show i < a.next ↔ i < a.next + 1
      omega
  · rw [size_set]
    exact h.inside

theorem counts (h : Tracked a es cs as) {i : Nat} {c : Child} (hc : a.children[i]? = some c)
    (hstage : c.stage = some .count) :
    Tracked { a with
        count := a.count + 1
        children := a.children.set i
          { c with stage := some (if a.count + 1 = a.size then .attempt else .atEnd) } }
      es (cs ++ [i]) as := by
  have hlt := h.length_lt hc hstage
  have hi := (List.getElem?_eq_some_iff.1 hc).1
  refine ⟨h.crowd, fun j d hd => ?_, fun j d hd => ?_, ?_, fun j hj => ?_⟩
  · rw [size_set]
    obtain ⟨rfl, rfl⟩ | ⟨hne, hd⟩ := set_cases hd
    · rw [h.count]
      exact (h.followed j c hc).counts hstage hlt
    · exact (h.followed j d hd).counts_other hne hlt
  · obtain ⟨rfl, rfl⟩ | ⟨-, hd⟩ := set_cases hd
    · exact h.registered j c hc
    · exact h.registered j d hd
  · rw [List.length_append, List.length_singleton, ← h.count]
  · rw [size_set]
    rw [List.mem_append, List.mem_append, List.mem_singleton] at hj
    obtain (hj | rfl) | hj := hj
    · exact h.inside j (List.mem_append_left _ hj)
    · exact hi
    · exact h.inside j (List.mem_append_right _ hj)

theorem attempts (h : Tracked a es cs as) {i thread : Nat} {c : Child} {crowd : Crowd}
    (hc : a.children[i]? = some c) (hstage : c.stage = some .attempt)
    (hstep : a.crowd.step (.act thread (.call a.signal .complete)) = some (crowd, [])) :
    Tracked { a with crowd, children := a.children.set i { c with stage := some .atEnd } }
      es cs (as ++ [i]) := by
  have hcrowd := h.crowd.step _ hstep
  rw [List.append_nil] at hcrowd
  refine ⟨hcrowd, fun j d hd => ?_, fun j d hd => ?_, h.count, fun j hj => ?_⟩
  · rw [size_set]
    obtain ⟨rfl, rfl⟩ | ⟨hne, hd⟩ := set_cases hd
    · exact (h.followed j c hc).attempts hstage
    · exact (h.followed j d hd).attempts_other hne
  · obtain ⟨rfl, rfl⟩ | ⟨-, hd⟩ := set_cases hd
    · exact h.registered j c hc
    · exact h.registered j d hd
  · rw [size_set]
    rw [List.mem_append, List.mem_append, List.mem_singleton] at hj
    obtain hj | hj | rfl := hj
    · exact h.inside j (List.mem_append_left _ hj)
    · exact h.inside j (List.mem_append_right _ hj)
    · exact (List.getElem?_eq_some_iff.1 hc).1

theorem change (h : Tracked a es cs as) (hc : Change a b events) :
    Tracked b (es ++ entries events) (cs ++ counted events) (as ++ attempted events) := by
  cases hc with
  | crowd label crowd es' hstep hallows => simpa using h.hear hstep hallows
  | register c crowd hc hidle hstep =>
    simpa [entries, counted, attempted, List.filterMap_cons] using h.register hc hstep
  | handOut hnext hidle =>
    have hbooks : Tracked { a with built := true } es cs as :=
      ⟨h.crowd, h.followed, h.registered, h.count, h.inside⟩
    simpa [entries, counted, attempted, List.filterMap_cons] using hbooks
  | count i c hc hstage =>
    simpa [entries, counted, attempted, List.filterMap_cons] using h.counts hc hstage
  | attempt i thread c f fs crowd hc hstage hthread hhas hstep =>
    simpa [entries, counted, attempted, List.filterMap_cons] using h.attempts hc hstage hstep

end Tracked

theorem Reachable.tracked {signal : Nat} {futures : List Nat}
    (h : Reachable signal futures a history) :
    Tracked a (entries history) (counted history) (attempted history) := by
  induction h with
  | begin => exact Tracked.begin signal futures
  | step label _ hstep ih => simpa using ih.change (step_change hstep)

/-! ## The signal of the group -/

/-- Whether a frame runs the listener of one of the children. -/
def Own (children : List Child) (f : Frame) : Prop := ∃ c ∈ children, c.Has f.signal f.listener

theorem Own.told {children : List Child} {f : Frame} (h : Own children f) (es : List Entry) :
    Own (told children es) f := by
  obtain ⟨c, hc, hsignal, hlistener⟩ := h
  refine ⟨_, List.mem_map_of_mem hc, ?_⟩
  exact ⟨(foldl_hear_signal _ c).trans hsignal, (foldl_hear_listener _ c).trans hlistener⟩

theorem Own.set {children : List Child} {f : Frame} (h : Own children f) {i : Nat} {c c' : Child}
    (hc : children[i]? = some c) (hhas : c.Has f.signal f.listener → c'.Has f.signal f.listener) :
    Own (children.set i c') f := by
  obtain ⟨d, hd, hown⟩ := h
  obtain ⟨j, hj⟩ := List.mem_iff_getElem?.1 hd
  by_cases hij : i = j
  · subst hij
    obtain rfl : c = d := Option.some.inj (hc.symm.trans hj)
    exact ⟨c', List.mem_set (List.getElem?_eq_some_iff.1 hc).1 c', hhas hown⟩
  · refine ⟨d, List.mem_of_getElem? (i := j) ?_, hown⟩
    rw [List.getElem?_set_ne hij, hj]

/-- What a thread may do by itself does not begin to complete the signal of the group. -/
theorem Allows.not_asked {x : Thread} {act : Act} (h : a.Allows x act) : a.signal ∉ act.asked := by
  cases act with
  | call p c =>
    cases c with
    | complete => exact fun hmem => h.2 ⟨(List.mem_singleton.1 hmem).symm, rfl⟩
    | _ => exact List.not_mem_nil
  | _ => exact List.not_mem_nil

/-- Nobody but the listeners of the group tries to complete its signal: calls that do so are counted
by those that these have begun, and each of them is found directly above such a listener. -/
structure Sole (a : Aggregation) (es : List Entry) (as : List Nat) : Prop where
  asked : (a.crowd.all Thread.asking).count a.signal +
      (a.crowd.all Thread.delivering).count a.signal +
      (happenings es).count (.completed a.signal true) +
      (happenings es).count (.completed a.signal false) = as.length
  nested : ∀ (j : Nat) x, a.crowd.threads[j]? = some x → Nested (Own a.children) a.signal x

namespace Sole

theorem begin (signal : Nat) (futures : List Nat) : Sole (.begin signal futures) [] [] where
  asked := rfl
  nested j x hx := by
    obtain rfl : x = {} := List.mem_singleton.1 (List.mem_of_getElem? hx)
    exact nested_idle

theorem step (h : Sole a es as) {label : Crowd.Step} {crowd : Crowd} {es' : List Entry}
    {children : List Child} (hstep : a.crowd.step label = some (crowd, es')) (as' : List Nat)
    (hasked : label.asked.count a.signal = as'.length)
    (hwithin : ∀ (i : Nat) act x, label = .act i act → a.crowd.threads[i]? = some x →
      a.signal ∈ act.asked → Within (Own a.children) x.frames)
    (hown : ∀ f, Own a.children f → Own children f) :
    Sole { a with crowd, children } (es ++ es') (as ++ as') where
  asked := by
    have hbefore := h.asked
    have hnow := step_asked hstep a.signal
    simp only [happenings_append, List.count_append, List.length_append]
    omega
  nested j y hy := (nested_step h.nested hstep hwithin j y hy).mono hown

theorem change (h : Sole a es as) (ht : Tracked a es cs as) (hc : Change a b events) :
    Sole b (es ++ entries events) (as ++ attempted events) := by
  cases hc with
  | crowd label crowd es' hstep hallows =>
    have hasked : a.signal ∉ label.asked := by
      obtain ⟨rfl, -, -⟩ | ⟨i, act, x, -, -, -, rfl, hx, -, -, -⟩ := step_cases hstep
      · exact List.not_mem_nil
      · exact (hallows i act x rfl hx).not_asked
    rw [entries_crowd, attempted_crowd]
    refine h.step hstep [] (List.count_eq_zero.2 hasked) ?_ fun f hf => hf.told es'
    rintro i act x rfl hx hmem
    exact absurd hmem hasked
  | register c crowd hc hidle hstep =>
    have hown (f : Frame) (hf : Own a.children f) :
        Own (a.children.set a.next { c with listener := some a.crowd.registered }) f :=
      hf.set hc fun hhas => absurd hhas.2 (by rw [ht.next_listener hc]; nofun)
    have hbooks := h.step hstep [] rfl (fun _ _ _ hlabel _ hmem => by
      cases hlabel; cases hmem) hown
    exact ⟨hbooks.asked, hbooks.nested⟩
  | handOut hnext hidle => exact ⟨by simpa [entries, attempted] using h.asked, h.nested⟩
  | count i c hc hstage =>
    refine ⟨by simpa [entries, attempted, List.filterMap_cons] using h.asked, fun j x hx => ?_⟩
    exact (h.nested j x hx).mono fun f hf => hf.set hc id
  | attempt i thread c f fs crowd hc hstage hthread hhas hstep =>
    refine h.step hstep [i] List.count_singleton_self ?_ fun f hf => hf.set hc id
    rintro j act x hlabel hx -
    cases hlabel
    cases hthread.symm.trans hx
    exact ⟨f, rfl, c, List.mem_of_getElem? hc, hhas⟩

end Sole

theorem Reachable.sole {signal : Nat} {futures : List Nat}
    (h : Reachable signal futures a history) : Sole a (entries history) (attempted history) := by
  induction h with
  | begin => exact Sole.begin signal futures
  | step label hreach hstep ih => simpa using ih.change hreach.tracked (step_change hstep)

theorem signals_set {children : List Child} {i : Nat} {c c' : Child} (hc : children[i]? = some c)
    (hsignal : c'.signal = c.signal) :
    (children.set i c').map Child.signal = children.map Child.signal := by
  obtain ⟨hi, rfl⟩ := List.getElem?_eq_some_iff.1 hc
  have hmap : i < (children.map Child.signal).length := by rwa [List.length_map]
  have hself := List.set_getElem_self hmap
  rw [List.getElem_map] at hself
  rw [List.map_set, hsignal, hself]

/-- The children of a group keep their signals, and the group keeps its own. -/
theorem Reachable.signals {signal : Nat} {futures : List Nat}
    (h : Reachable signal futures a history) :
    a.signal = signal ∧ a.children.map Child.signal = futures ∧ futures ≠ [] ∧
      signal ∉ futures := by
  induction h with
  | begin hne hnew => exact ⟨rfl, by simp [Aggregation.begin, Function.comp_def], hne, hnew⟩
  | @step a b history events label hreach hstep ih =>
    obtain ⟨rfl, rfl, hne, hnew⟩ := ih
    refine ⟨?_, ?_, hne, hnew⟩
    · cases step_change hstep <;> rfl
    · cases step_change hstep with
      | crowd label crowd es hstep hallows => simp [told, Function.comp_def]
      | handOut hnext hidle => rfl
      | register c crowd hc hidle hstep => exact signals_set hc rfl
      | count i c hc hstage => exact signals_set hc rfl
      | attempt i thread c f fs crowd hc hstage hthread hhas hstep => exact signals_set hc rfl

end FrameLoop.Group.Aggregation
