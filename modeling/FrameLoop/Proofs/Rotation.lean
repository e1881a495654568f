import FrameLoop.Rotation
import Mathlib.Data.Int.CardIntervalMod

/-
  Which position the standard rotation hands out.

  Both rotations count in a word of 64 bits, so that a call sees the number of calls before it
  modulo 2^64.  The mask keeps the same of it as the remainder does (`next_skip`).  As long as the
  count has not wrapped, the positions are those of the numbers from 0 on, and no two of them occur
  more than once more often than the other (`count_turns`).  Where the length is a power of two it
  divides 2^64, and nothing is seen of the wrap at all (`masked_and_modulo_agree`).
-/

namespace FrameLoop.Rotation

/-! ## One call -/

theorem skip_succ (k : Nat) (c : Rotation) : c.skip (k + 1) = (c.skip k).next.2 := by
  induction k generalizing c with
  | zero => rfl
  | succ k ih => exact ih c.next.2

theorem skip_masked (mask : UInt64) (k : Nat) :
    (masked 0 mask).skip k = masked (.ofNat k) mask := by
  induction k with
  | zero => rfl
  | succ k ih =>
    rw [skip_succ, ih]
    simp [next]

theorem skip_modulo (length : UInt64) (k : Nat) :
    (modulo 0 length).skip k = modulo (.ofNat k) length := by
  induction k with
  | zero => rfl
  | succ k ih =>
    rw [skip_succ, ih]
    simp [next]

/-- The number is a power of two, and its logarithm says which one. -/
theorem isPowerOfTwo_iff (n : Nat) : isPowerOfTwo n = true ↔ 2 ^ n.log2 = n := beq_iff_eq

/-- A mask of ones keeps the remainder. -/
theorem and_mask {n : Nat} (h : isPowerOfTwo n = true) (k : Nat) : k &&& (n - 1) = k % n := by
  rw [← (isPowerOfTwo_iff n).1 h]
  exact Nat.and_two_pow_sub_one_eq_mod k n.log2

section

variable {n : Nat}

/-- There is a standard rotation for every number of positions. -/
theorem exists_standard? (hpos : 0 < n) (hword : n < 2 ^ 64) :
    ∃ c, standard? (.ofNat n) = some c := by
  have hn : (UInt64.ofNat n).toNat = n := UInt64.toNat_ofNat_of_lt' hword
  unfold standard? masked? modulo?
  split
  · exact ⟨_, rfl⟩
  · refine ⟨_, if_pos ?_⟩
    rw [UInt64.lt_iff_toNat_lt, hn]
    exact hpos

/-- The standard rotation is made for the number asked for. -/
theorem length_standard? (hword : n < 2 ^ 64) {c : Rotation} (h : standard? (.ofNat n) = some c) :
    c.length = n := by
  have hn : (UInt64.ofNat n).toNat = n := UInt64.toNat_ofNat_of_lt' hword
  unfold standard? at h
  split at h
  · exact (length_masked? h).trans hn
  · exact (length_modulo? h).trans hn

/-- Behind `k` calls the masking rotation hands out the remainder of what the counter holds. -/
theorem next_skip_masked (hpow : isPowerOfTwo n = true) (hpos : 0 < n) (hword : n < 2 ^ 64)
    (k : Nat) : ((masked 0 (.ofNat n - 1)).skip k).next.1 = k % 2 ^ 64 % n := by
  have hn : (UInt64.ofNat n).toNat = n := UInt64.toNat_ofNat_of_lt' hword
  have hone : (1 : UInt64) ≤ .ofNat n := by
    rw [UInt64.le_iff_toNat_le, hn]
    exact hpos
  have hmask : (UInt64.ofNat n - 1).toNat = n - 1 := by
    rw [UInt64.toNat_sub_of_le _ _ hone, hn]
    rfl
  rw [skip_masked, next, UInt64.toNat_and, hmask, UInt64.toNat_ofNat', and_mask hpow]

theorem next_skip_modulo (hword : n < 2 ^ 64) (k : Nat) :
    ((modulo 0 (.ofNat n)).skip k).next.1 = k % 2 ^ 64 % n := by
  rw [skip_modulo, next, UInt64.toNat_mod, UInt64.toNat_ofNat_of_lt' hword, UInt64.toNat_ofNat']

/-- The standard rotation is one of the two. -/
theorem next_skip (hpos : 0 < n) (hword : n < 2 ^ 64) {c : Rotation}
    (h : standard? (.ofNat n) = some c) (k : Nat) : (c.skip k).next.1 = k % 2 ^ 64 % n := by
  unfold standard? masked? modulo? at h
  rw [UInt64.toNat_ofNat_of_lt' hword] at h
  split at h
  · next hpow =>
    cases h
    exact next_skip_masked hpow hpos hword k
  · split at h
    · cases h
      exact next_skip_modulo hword k
    · cases h

/-- Every position is one of the array, also when the counter has wrapped. -/
theorem next_skip_lt (hpos : 0 < n) (hword : n < 2 ^ 64) {c : Rotation}
    (h : standard? (.ofNat n) = some c) (k : Nat) : (c.skip k).next.1 < n := by
  rw [next_skip hpos hword h]
  exact Nat.mod_lt _ hpos

/-! ## Many calls -/

/-- Of the first `m` remainders each occurs once for every full round, and those that come first
once more. -/
theorem count_turns (hpos : 0 < n) (m : Nat) {position : Nat} (hposition : position < n) :
    ((List.range m).map (· % n)).count position =
      m / n + if position < m % n then 1 else 0 := by
  have hmod := Nat.count_modEq_card m hpos position
  rw [Nat.mod_eq_of_lt hposition] at hmod
  rw [← hmod, List.count, List.countP_map, Nat.count]
  refine List.countP_congr fun k _ => ?_
  simp [Nat.ModEq, Nat.mod_eq_of_lt hposition]

/-- So each occurs as often as the full rounds, rounded down or up. -/
theorem count_turns_even (hpos : 0 < n) (m : Nat) {position : Nat} (hposition : position < n) :
    ((List.range m).map (· % n)).count position = m / n ∨
      ((List.range m).map (· % n)).count position = (m + n - 1) / n := by
  rw [count_turns hpos m hposition]
  split
  · next hlt =>
    refine .inr ?_
    have hmod := Nat.mod_lt m hpos
    have hsplit : m + n - 1 = m % n - 1 + n * (m / n + 1) := by
      have hdiv := Nat.mod_add_div m n
      rw [Nat.mul_add, Nat.mul_one]
      omega
    have hsmall : m % n - 1 < n := by omega
    rw [hsplit, Nat.add_mul_div_left _ _ hpos, Nat.div_eq_of_lt hsmall, Nat.zero_add]
  · exact .inl (Nat.add_zero _)

end

/-! ## Mask and remainder -/

theorem isPowerOfTwo_two_pow (m : Nat) : isPowerOfTwo (2 ^ m) = true := by
  rw [isPowerOfTwo_iff, Nat.log2_two_pow]

/-- A counter that wraps around at a multiple of the length loses no round. -/
theorem mod_word_mod_two_pow {m : Nat} (hm : m < 64) (k : Nat) :
    k % 2 ^ 64 % 2 ^ m = k % 2 ^ m :=
  Nat.mod_mod_of_dvd k (Nat.pow_dvd_pow 2 (Nat.le_of_lt hm))

/-- Calls in a row hand out what each of them would. -/
theorem take_skip (c : Rotation) (n k : Nat) :
    ((c.skip k).take n).1 = (List.range' k n).map fun i => (c.skip i).next.1 := by
  induction n generalizing k with
  | zero => rfl
  | succ n ih =>
    rw [List.range'_succ, List.map_cons, ← ih (k + 1), skip_succ]
    rfl

/-- A block of as many numbers as there are positions, from a multiple on, has the remainders in
order. -/
theorem map_mod_block (n j : Nat) : (List.range' (j * n) n).map (· % n) = List.range n := by
  rw [List.range'_eq_map_range, List.map_map]
  refine (List.map_congr_left fun i hi => ?_).trans (List.map_id _)
  rw [Function.comp_apply, Nat.mul_comm, Nat.mul_add_mod, Nat.mod_eq_of_lt (List.mem_range.1 hi)]
  rfl

/-- For every power of two that a word can hold there are both rotations, and behind any number of
calls, however often the counters have wrapped, both hand out its remainder.  The standard rotation
for any length does so before its counter wraps, and every block of calls of its length, counted
from the first one, hands out all positions in order. -/
theorem masked_and_modulo_agree :
    (∀ m < 64, ∃ c d, masked? (.ofNat (2 ^ m)) = some c ∧ modulo? (.ofNat (2 ^ m)) = some d ∧
      ∀ k, (c.skip k).next.1 = k % 2 ^ m ∧ (d.skip k).next.1 = k % 2 ^ m) ∧
    ∀ n, 0 < n → n < 2 ^ 64 → ∃ c, standard? (.ofNat n) = some c ∧
      (∀ k < 2 ^ 64, (c.skip k).next.1 = k % n) ∧
      ∀ j, (j + 1) * n ≤ 2 ^ 64 → ((c.skip (j * n)).take n).1 = List.range n := by
  refine ⟨fun m hm => ?_, fun n hpos hword => ?_⟩
  · have hpow := isPowerOfTwo_two_pow m
    have hpos : 0 < 2 ^ m := Nat.two_pow_pos m
    have hword : 2 ^ m < 2 ^ 64 := Nat.pow_lt_pow_right Nat.one_lt_two hm
    have hn : (UInt64.ofNat (2 ^ m)).toNat = 2 ^ m := UInt64.toNat_ofNat_of_lt' hword
    refine ⟨masked 0 (.ofNat (2 ^ m) - 1), modulo 0 (.ofNat (2 ^ m)), ?_, ?_, fun k => ⟨?_, ?_⟩⟩
    · rw [masked?, hn, if_pos hpow]
    · rw [modulo?, if_pos]
      rwa [UInt64.lt_iff_toNat_lt, hn]
    · rw [next_skip_masked hpow hpos hword, mod_word_mod_two_pow hm]
    · rw [next_skip_modulo hword, mod_word_mod_two_pow hm]
  · obtain ⟨c, hc⟩ := exists_standard? hpos hword
    have hnext : ∀ k < 2 ^ 64, (c.skip k).next.1 = k % n := by
      intro k hk
      rw [next_skip hpos hword hc, Nat.mod_eq_of_lt hk]
    refine ⟨c, hc, hnext, fun j hj => ?_⟩
    rw [take_skip, ← map_mod_block n j]
    refine List.map_congr_left fun i hi => hnext i ?_
    rw [Nat.add_mul, Nat.one_mul] at hj
    exact Nat.lt_of_lt_of_le (List.mem_range'_1.1 hi).2 hj

/-- The counters of both rotations for four have wrapped, and they agree.  The last call before the
wrap, and a block of calls, of the rotation for three; the call behind the wrap begins a round
anew, where 2^64 has the remainder 1. -/
theorem masked_and_modulo_agree_wrapped :
    (∃ c d, masked? 4 = some c ∧ modulo? 4 = some d ∧
      (c.skip (2 ^ 64 + 5)).next.1 = 1 ∧ (d.skip (2 ^ 64 + 5)).next.1 = 1) ∧
    ∃ c, standard? 3 = some c ∧ (c.skip (2 ^ 64 - 1)).next.1 = 0 ∧
      ((c.skip 6).take 3).1 = [0, 1, 2] ∧ (c.skip (2 ^ 64)).next.1 = 0 ∧ 2 ^ 64 % 3 = 1 := by
  obtain ⟨hpowers, hall⟩ := masked_and_modulo_agree
  obtain ⟨c, d, hc, hd, hagree⟩ := hpowers 2 (by decide)
  obtain ⟨e, he, hnext, hblock⟩ := hall 3 (by decide) (by decide)
  refine ⟨⟨c, d, hc, hd, (hagree _).1, (hagree _).2⟩, e, he, ?_, hblock 2 (by decide), ?_, rfl⟩
  · exact (hnext _ (by decide)).trans (by decide)
  · exact (next_skip (by decide) (by decide) he _).trans (by decide)

end FrameLoop.Rotation
