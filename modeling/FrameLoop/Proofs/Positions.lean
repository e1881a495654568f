import Mathlib.Data.List.DropRight

/-
  Members of lists by their position: what is left alone when one of them is changed, replaced or
  erased, and what stands behind the last one of a kind.
-/

namespace FrameLoop

/-- The `i`th member of a list stands between the members before it and those behind it; to
replace or to erase it leaves both alone. -/
theorem exists_around {α : Type} {l : List α} {i : Nat} {x : α} (h : l[i]? = some x) :
    ∃ before behind, l = before ++ ([x] ++ behind) ∧
      (∀ y, l.set i y = before ++ ([y] ++ behind)) ∧ l.eraseIdx i = before ++ ([] ++ behind) := by
  obtain ⟨hlt, hget⟩ := List.getElem?_eq_some_iff.1 h
  refine ⟨l.take i, l.drop (i + 1), ?_, fun y => ?_, List.eraseIdx_eq_take_drop_succ l i⟩
  · rw [← hget, List.singleton_append, ← List.drop_eq_getElem_cons hlt, List.take_append_drop]
  · rw [List.set_eq_take_append_cons_drop, if_pos hlt, List.singleton_append]

theorem mem_set_around {α : Type} {l : List α} {i : Nat} {x y : α} (h : l[i]? = some x)
    (hy : y ∈ l) (hne : y ≠ x) (z : α) : y ∈ l.set i z := by
  obtain ⟨before, behind, hl, hset, -⟩ := exists_around h
  rw [hl] at hy
  rw [hset]
  simp only [List.mem_append, List.mem_singleton, hne, false_or] at hy ⊢
  exact hy.imp id .inr

theorem mem_erase_around {α : Type} {l : List α} {i : Nat} {x y : α} (h : l[i]? = some x)
    (hy : y ∈ l) (hne : y ≠ x) : y ∈ l.eraseIdx i := by
  obtain ⟨before, behind, hl, -, herase⟩ := exists_around h
  rw [hl] at hy
  rw [herase]
  simpa [hne] using hy

theorem countP_one {α : Type} (p : α → Bool) (x : α) : [x].countP p = (p x).toNat := by
  rw [List.countP_singleton]
  cases p x <;> rfl

/-- When a member of a list is replaced, a count changes by that member alone. -/
theorem countP_set_around {α : Type} (p : α → Bool) {l : List α} {i : Nat} {x : α}
    (h : l[i]? = some x) (y : α) :
    (l.set i y).countP p + (p x).toNat = l.countP p + (p y).toNat := by
  obtain ⟨before, behind, hl, hset, -⟩ := exists_around h
  rw [hset, hl]
  simp only [List.countP_append, countP_one]
  omega

theorem countP_erase_around {α : Type} (p : α → Bool) {l : List α} {i : Nat} {x : α}
    (h : l[i]? = some x) : (l.eraseIdx i).countP p + (p x).toNat = l.countP p := by
  obtain ⟨before, behind, hl, -, herase⟩ := exists_around h
  rw [herase, hl]
  simp only [List.countP_append, countP_one, List.countP_nil]
  omega

/-- To change a member of a list and to look at all of them can be done in either order. -/
theorem map_modify_around {α β : Type} {l : List α} {i : Nat} {f : α → α} {g : α → β} {f' : β → β}
    (h : ∀ x, l[i]? = some x → g (f x) = f' (g x)) :
    (l.modify i f).map g = (l.map g).modify i f' := by
  apply List.ext_getElem?
  intro j
  rw [List.getElem?_map, List.getElem?_modify, List.getElem?_modify, List.getElem?_map]
  cases hx : l[j]? with
  | none => rfl
  | some x =>
    by_cases hij : i = j
    · subst hij
      simp [h x hx]
    · simp [hij]

/-- What a change of a member does not touch stays. -/
theorem map_modify_same {α β : Type} {l : List α} {i : Nat} {f : α → α} {g : α → β}
    (h : ∀ x, l[i]? = some x → g (f x) = g x) : (l.modify i f).map g = l.map g :=
  (map_modify_around h).trans (List.modify_id i (l.map g))

/-- What stands at the end of a list that grows there stood at its end before, or is new. -/
theorem rtakeWhile_append_subset {α : Type} (p : α → Bool) (l more : List α) :
    (l ++ more).rtakeWhile p ⊆ l.rtakeWhile p ++ more := by
  unfold List.rtakeWhile
  rw [List.reverse_append, List.takeWhile_append]
  intro x hx
  split at hx
  · simpa [or_comm] using hx
  · have hmem := (List.takeWhile_sublist _).subset (List.mem_reverse.1 hx)
    exact List.mem_append_right _ (List.mem_reverse.1 hmem)

end FrameLoop
