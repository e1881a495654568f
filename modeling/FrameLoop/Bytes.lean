/-
  Byte strings and the search for one byte string inside another.

  Main statements: `indexOf?_eq_some_iff` (the search finds the least offset at which the
  pattern stands in full) and `indexOf?_eq_none_iff` (it fails only when there is none).
-/

namespace FrameLoop

/-- A byte string, first byte first. -/
abbrev Bytes := List UInt8

namespace Bytes

/-- The carriage return byte. -/
def cr : UInt8 := 13

/-- The line feed byte. -/
def lf : UInt8 := 10

/-- The pattern `d` stands in full in `b` at offset `i`. -/
def OccursAt (d b : Bytes) (i : Nat) : Prop := d <+: b.drop i

instance (d b : Bytes) (i : Nat) : Decidable (OccursAt d b i) :=
  inferInstanceAs (Decidable (d <+: b.drop i))

/-- The first offset at which `d` stands in full, the head of the list being at offset `i`. -/
def indexFrom (d : Bytes) : Bytes → Nat → Option Nat
  | [], i => if d = [] then some i else none
  | x :: b, i => if d.isPrefixOf (x :: b) then some i else indexFrom d b (i + 1)

/-- The first offset at which `d` stands in full in `b`. -/
def indexOf? (d b : Bytes) : Option Nat := indexFrom d b 0

theorem indexFrom_add (d b : Bytes) (i j : Nat) :
    indexFrom d b (i + j) = (indexFrom d b i).map (· + j) := by
  induction b generalizing i with
  | nil => simp only [indexFrom]; split <;> rfl
  | cons x b ih =>
    simp only [indexFrom]
    split
    · rfl
    · rw [Nat.add_right_comm, ih]

theorem indexOf?_nil (d : Bytes) : indexOf? d [] = if d = [] then some 0 else none := rfl

theorem indexOf?_cons (d : Bytes) (x : UInt8) (b : Bytes) :
    indexOf? d (x :: b) =
      if d.isPrefixOf (x :: b) then some 0 else (indexOf? d b).map (· + 1) := by
  simp only [indexOf?, indexFrom]
  split
  · rfl
  · exact indexFrom_add d b 0 1

/-- The search answers the least offset of a full occurrence. -/
theorem indexOf?_eq_some_iff (d b : Bytes) (i : Nat) :
    indexOf? d b = some i ↔ i ≤ b.length ∧ OccursAt d b i ∧ ∀ j < i, ¬ OccursAt d b j := by
  induction b generalizing i with
  | nil =>
    simp only [indexOf?_nil, OccursAt, List.drop_nil, List.prefix_nil, List.length_nil]
    split <;> rename_i h
    · simp only [Option.some.injEq, h]
      constructor
      · rintro rfl; exact ⟨Nat.le_refl 0, trivial, fun j hj => absurd hj (Nat.not_lt_zero j)⟩
      · rintro ⟨h0, _, _⟩; omega
    · simp [h]
  | cons x b ih =>
    rw [indexOf?_cons]
    split <;> rename_i h
    · rw [List.isPrefixOf_iff_prefix] at h
      simp only [Option.some.injEq]
      constructor
      · rintro rfl
        exact ⟨Nat.zero_le _, by simpa [OccursAt] using h,
            fun j hj => absurd hj (Nat.not_lt_zero j)⟩
      · rintro ⟨_, _, hmin⟩
        rcases Nat.eq_zero_or_pos i with rfl | hi
        · rfl
        · exact absurd (by simpa [OccursAt] using h) (hmin 0 hi)
    · rw [List.isPrefixOf_iff_prefix] at h
      cases i with
      | zero =>
        constructor
        · intro hm
          simp only [Option.map_eq_some_iff] at hm
          obtain ⟨a, _, ha⟩ := hm
          omega
        · rintro ⟨_, h0, _⟩
          exact absurd (by simpa [OccursAt] using h0) h
      | succ i =>
        rw [Option.map_eq_some_iff]
        constructor
        · rintro ⟨a, ha, hai⟩
          obtain rfl : a = i := by omega
          obtain ⟨hlen, hocc, hmin⟩ := (ih a).1 ha
          refine ⟨by simp only [List.length_cons]; omega, by simpa [OccursAt] using hocc, ?_⟩
          intro j hj
          cases j with
          | zero => simpa [OccursAt] using h
          | succ j => simpa [OccursAt] using hmin j (by omega)
        · rintro ⟨hlen, hocc, hmin⟩
          refine ⟨i, (ih i).2 ⟨by simpa using hlen, by simpa [OccursAt] using hocc, ?_⟩, rfl⟩
          intro j hj
          simpa [OccursAt] using hmin (j + 1) (by omega)

/-- The search fails exactly when the pattern stands in full nowhere. -/
theorem indexOf?_eq_none_iff (d b : Bytes) :
    indexOf? d b = none ↔ ∀ i ≤ b.length, ¬ OccursAt d b i := by
  induction b with
  | nil => simp [indexOf?_nil, OccursAt]
  | cons x b ih =>
    rw [indexOf?_cons]
    split <;> rename_i h
    · rw [List.isPrefixOf_iff_prefix] at h
      simp only [reduceCtorEq, false_iff]
      exact fun hn => hn 0 (Nat.zero_le _) (by simpa [OccursAt] using h)
    · rw [List.isPrefixOf_iff_prefix] at h
      rw [Option.map_eq_none_iff, ih]
      constructor
      · intro hn i hi
        cases i with
        | zero => simpa [OccursAt] using h
        | succ i => simpa [OccursAt] using hn i (by simpa using hi)
      · intro hn i hi
        simpa [OccursAt] using hn (i + 1) (by simpa using hi)

end Bytes

end FrameLoop
