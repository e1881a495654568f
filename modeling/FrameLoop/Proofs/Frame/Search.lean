import FrameLoop.Frame.Segments
import FrameLoop.Frame.Splitter
import Mathlib.Data.List.Induction

/-
  The search for the delimiter that ends the frame at the front of a buffer.

  `Hit` says which delimiter that is, without a search: nothing stands in full before it, and it is
  the first one listed of those that stand where it does.  `shortest_eq_some_iff` and
  `shortest_eq_none_iff` are what the scan over the list finds.  `Delimiters.cut` keeps of the hit
  the two lengths that a decoder works with.
-/

namespace FrameLoop

namespace Bytes

variable {d b c : Bytes} {i : Nat}

theorem OccursAt.append (h : OccursAt d b i) (c : Bytes) : OccursAt d (b ++ c) i := by
  rw [OccursAt, List.drop_append]
  exact List.prefix_append_of_prefix h

theorem OccursAt.le_length (h : OccursAt d b i) (hd : d ≠ []) : i + d.length ≤ b.length := by
  have hle : d.length ≤ b.length - i := by simpa using h.length_le
  have hpos : 0 < d.length := List.length_pos_iff.2 hd
  omega

/-- An occurrence that ends inside the buffer does not need the bytes behind it. -/
theorem OccursAt.of_append (h : OccursAt d (b ++ c) i) (hle : i + d.length ≤ b.length) :
    OccursAt d b i := by
  rw [OccursAt, List.drop_append] at h
  refine List.prefix_of_prefix_length_le h (List.prefix_append _ _) ?_
  rw [List.length_drop]
  omega

theorem occursAt_append_add (a b d : Bytes) (i : Nat) :
    OccursAt d (a ++ b) (a.length + i) ↔ OccursAt d b i := by
  rw [OccursAt, OccursAt, List.drop_append, List.drop_eq_nil_of_le (by omega), List.nil_append,
    Nat.add_sub_cancel_left]

theorem occursAt_append_length (a d b : Bytes) : OccursAt d (a ++ d ++ b) a.length := by
  rw [List.append_assoc]
  exact (occursAt_append_add a (d ++ b) d 0).2 (List.prefix_append d b)

/-- Two patterns at one place: the shorter one begins the longer one. -/
theorem OccursAt.occursAt_of_le {e : Bytes} {j : Nat} (hd : OccursAt d b j) (he : OccursAt e b i)
    (hij : i ≤ j) (hle : j + d.length ≤ i + e.length) : OccursAt d e (j - i) := by
  obtain ⟨r, hr⟩ := he
  have hdrop : b.drop j = e.drop (j - i) ++ r := by
    have hj : b.drop j = (b.drop i).drop (j - i) := by
      rw [List.drop_drop]
      congr 1
      omega
    by_cases hlen : j - i ≤ e.length
    · rw [hj, ← hr, List.drop_append_of_le_length hlen]
    · omega
  have hpre : d <+: e.drop (j - i) ++ r := hdrop ▸ hd
  refine List.prefix_of_prefix_length_le hpre (List.prefix_append _ _) ?_
  rw [List.length_drop]
  omega

theorem occursAt_cons (x : UInt8) (d b : Bytes) (i : Nat) :
    OccursAt (x :: d) b i ↔ b[i]? = some x ∧ OccursAt d b (i + 1) := by
  rw [OccursAt, OccursAt, ← List.head?_drop, ← List.drop_drop, List.drop_one]
  cases b.drop i with
  | nil => simp
  | cons y ys => simp [List.cons_prefix_cons, eq_comm]

theorem occursAt_singleton (x : UInt8) (b : Bytes) (i : Nat) :
    OccursAt [x] b i ↔ b[i]? = some x := by
  rw [occursAt_cons, and_iff_left]
  exact List.nil_prefix

end Bytes

open Bytes

theorem undelimited_nil {delimiters : List Bytes} (hd : ∀ d ∈ delimiters, d ≠ []) :
    Undelimited delimiters [] := by
  intro d hmem i hocc
  have hlen := hocc.le_length (hd d hmem)
  have hpos : 0 < d.length := List.length_pos_iff.2 (hd d hmem)
  rw [List.length_nil] at hlen
  omega

/-- `d` ends the frame at the front of the buffer, and the frame has `length` bytes. -/
structure Hit (delimiters : List Bytes) (buffer : Bytes) (length : Nat) (d : Bytes) : Prop where
  /-- No delimiter stands in full before this place. -/
  least : ∀ e ∈ delimiters, ∀ i < length, ¬ OccursAt e buffer i
  /-- Of the delimiters that stand here, `d` is the one listed first. -/
  listed : delimiters.find? (fun e => decide (OccursAt e buffer length)) = some d

namespace Hit

variable {delimiters : List Bytes} {buffer : Bytes} {length : Nat} {d : Bytes}

theorem mem (h : Hit delimiters buffer length d) : d ∈ delimiters :=
  List.mem_of_find?_eq_some h.listed

theorem occursAt (h : Hit delimiters buffer length d) : OccursAt d buffer length := by
  simpa using List.find?_some h.listed

theorem le_length (h : Hit delimiters buffer length d) (hd : ∀ e ∈ delimiters, e ≠ []) :
    length + d.length ≤ buffer.length :=
  h.occursAt.le_length (hd d h.mem)

theorem unique (h : Hit delimiters buffer length d) {length' : Nat} {d' : Bytes}
    (h' : Hit delimiters buffer length' d') : length = length' ∧ d = d' := by
  have hle : ¬ length < length' := fun hlt => h'.least d h.mem length hlt h.occursAt
  have hge : ¬ length' < length := fun hlt => h.least d' h'.mem length' hlt h'.occursAt
  have heq : length = length' := by omega
  subst heq
  exact ⟨rfl, Option.some.inj (h.listed.symm.trans h'.listed)⟩

theorem take_add (h : Hit delimiters buffer length d) :
    buffer.take (length + d.length) = buffer.take length ++ d := by
  rw [List.take_add, ← List.prefix_iff_eq_take.1 h.occursAt]

theorem split (h : Hit delimiters buffer length d) :
    buffer.take length ++ d ++ buffer.drop (length + d.length) = buffer := by
  rw [← h.take_add, List.take_append_drop]

theorem not_undelimited (h : Hit delimiters buffer length d) : ¬ Undelimited delimiters buffer :=
  fun hu => hu d h.mem length h.occursAt

end Hit

namespace Scan

variable {delimiters : List Bytes} {buffer : Bytes}

theorem shortest_concat (delimiters : List Bytes) (d buffer : Bytes) :
    shortest (delimiters ++ [d]) buffer =
      match indexOf? d buffer with
      | none => shortest delimiters buffer
      | some length => earlier (shortest delimiters buffer) (length, d) := by
  rw [shortest, List.foldl_append]
  rfl

theorem indexOf?_eq_none (d buffer : Bytes) (hd : d ≠ []) (h : indexOf? d buffer = none) (i : Nat) :
    ¬ OccursAt d buffer i := by
  intro hocc
  have hlen := hocc.le_length hd
  exact (indexOf?_eq_none_iff d buffer).1 h i (by omega) hocc

/-- A delimiter listed last that does not begin before the hit changes nothing. -/
theorem hit_concat_old {length : Nat} {d e : Bytes} (h : Hit delimiters buffer length e)
    (hd : ∀ i < length, ¬ OccursAt d buffer i) : Hit (delimiters ++ [d]) buffer length e := by
  refine ⟨?_, ?_⟩
  · intro x hx i hi
    rcases List.mem_append.1 hx with hx | hx
    · exact h.least x hx i hi
    · rw [List.mem_singleton.1 hx]
      exact hd i hi
  · rw [List.find?_append, h.listed, Option.some_or]

/-- A delimiter listed last that begins before all others is the hit. -/
theorem hit_concat_new {length : Nat} {d : Bytes}
    (h : ∀ e ∈ delimiters, ∀ i ≤ length, ¬ OccursAt e buffer i) (hocc : OccursAt d buffer length)
    (hmin : ∀ i < length, ¬ OccursAt d buffer i) : Hit (delimiters ++ [d]) buffer length d := by
  refine ⟨?_, ?_⟩
  · intro x hx i hi
    rcases List.mem_append.1 hx with hx | hx
    · exact h x hx i (Nat.le_of_lt hi)
    · rw [List.mem_singleton.1 hx]
      exact hmin i hi
  · have hnone : delimiters.find? (fun e => decide (OccursAt e buffer length)) = none := by
      rw [List.find?_eq_none]
      intro e he
      simpa using h e he length (Nat.le_refl _)
    rw [List.find?_append, hnone, Option.none_or]
    simp [hocc]

/-- What the scan finds: the hit, or that there is none. -/
theorem shortest_spec (hd : ∀ d ∈ delimiters, d ≠ []) (buffer : Bytes) :
    match shortest delimiters buffer with
    | none => Undelimited delimiters buffer
    | some (length, d) => Hit delimiters buffer length d := by
  induction delimiters using List.reverseRecOn with
  | nil => exact fun d hmem => absurd hmem List.not_mem_nil
  | append_singleton delimiters d ih =>
    specialize ih fun e he => hd e (List.mem_append_left _ he)
    rw [shortest_concat]
    cases hidx : indexOf? d buffer with
    | none =>
      have habs : ∀ i, ¬ OccursAt d buffer i :=
        indexOf?_eq_none d buffer (hd d (by simp)) hidx
      cases hs : shortest delimiters buffer with
      | none =>
        rw [hs] at ih
        intro x hx
        rcases List.mem_append.1 hx with hx | hx
        · exact ih x hx
        · exact List.mem_singleton.1 hx ▸ habs
      | some hit =>
        rw [hs] at ih
        exact hit_concat_old ih fun i _ => habs i
    | some n =>
      obtain ⟨-, hocc, hmin⟩ := (indexOf?_eq_some_iff d buffer n).1 hidx
      cases hs : shortest delimiters buffer with
      | none =>
        rw [hs] at ih
        exact hit_concat_new (fun e he i _ => ih e he i) hocc hmin
      | some old =>
        rw [hs] at ih
        by_cases hlt : n < old.1
        · simp only [earlier, if_pos hlt]
          exact hit_concat_new (fun e he i hi => ih.least e he i (by omega)) hocc hmin
        · simp only [earlier, if_neg hlt]
          exact hit_concat_old ih fun i hi => hmin i (by omega)

/-- The scan finds the hit. -/
theorem shortest_eq_some_iff (hd : ∀ d ∈ delimiters, d ≠ []) (length : Nat) (d : Bytes) :
    shortest delimiters buffer = some (length, d) ↔ Hit delimiters buffer length d := by
  have hspec := shortest_spec hd buffer
  cases hs : shortest delimiters buffer with
  | none =>
    rw [hs] at hspec
    exact ⟨fun h => by simp at h, fun h => absurd hspec h.not_undelimited⟩
  | some hit =>
    rw [hs] at hspec
    constructor
    · rintro ⟨⟩
      exact hspec
    · intro h
      obtain ⟨hlen, hdel⟩ := h.unique hspec
      rw [hlen, hdel]

/-- The scan fails where no delimiter stands in full. -/
theorem shortest_eq_none_iff (hd : ∀ d ∈ delimiters, d ≠ []) :
    shortest delimiters buffer = none ↔ Undelimited delimiters buffer := by
  have hspec := shortest_spec hd buffer
  cases hs : shortest delimiters buffer with
  | none =>
    rw [hs] at hspec
    simpa using hspec
  | some hit =>
    rw [hs] at hspec
    simpa using hspec.not_undelimited

end Scan

namespace Delimiters

variable {delimiters : List Bytes} {buffer : Bytes}

/-- The length of the frame at the front of the buffer and that of the delimiter behind it. -/
def cut (delimiters : List Bytes) (buffer : Bytes) : Option (Nat × Nat) :=
  (Scan.shortest delimiters buffer).map fun hit => (hit.1, hit.2.length)

theorem cut_eq_some_iff (hd : ∀ d ∈ delimiters, d ≠ []) (length width : Nat) :
    cut delimiters buffer = some (length, width) ↔
      ∃ d, Hit delimiters buffer length d ∧ d.length = width := by
  rw [cut, Option.map_eq_some_iff]
  constructor
  · rintro ⟨⟨l, d⟩, hs, heq⟩
    simp only [Prod.mk.injEq] at heq
    obtain ⟨rfl, hw⟩ := heq
    exact ⟨d, (Scan.shortest_eq_some_iff hd l d).1 hs, hw⟩
  · rintro ⟨d, hit, rfl⟩
    exact ⟨(length, d), (Scan.shortest_eq_some_iff hd length d).2 hit, rfl⟩

theorem cut_eq_of_hit (hd : ∀ d ∈ delimiters, d ≠ []) {length : Nat} {d : Bytes}
    (h : Hit delimiters buffer length d) : cut delimiters buffer = some (length, d.length) :=
  (cut_eq_some_iff hd _ _).2 ⟨d, h, rfl⟩

theorem cut_eq_none_iff (hd : ∀ d ∈ delimiters, d ≠ []) :
    cut delimiters buffer = none ↔ Undelimited delimiters buffer := by
  rw [cut, Option.map_eq_none_iff, Scan.shortest_eq_none_iff hd]

/-- Where one delimiter stands, no other one does. -/
def PrefixFree (delimiters : List Bytes) : Prop :=
  ∀ d ∈ delimiters, ∀ e ∈ delimiters, d <+: e → d = e

/-- At one place stands one of them at most. -/
theorem PrefixFree.eq_of_occursAt (hp : PrefixFree delimiters) {d e : Bytes} {i : Nat}
    (hd : d ∈ delimiters) (he : e ∈ delimiters) (hdo : OccursAt d buffer i)
    (heo : OccursAt e buffer i) : d = e := by
  rcases List.prefix_or_prefix_of_prefix hdo heo with h | h
  · exact hp d hd e he h
  · exact (hp e he d hd h).symm

/-- Where one delimiter stands at most, the order of the list does not matter, nor does how often
one is listed. -/
theorem hit_congr {delimiters' : List Bytes} (hp : PrefixFree delimiters)
    (hmem : ∀ d, d ∈ delimiters ↔ d ∈ delimiters') {length : Nat} {d : Bytes}
    (h : Hit delimiters buffer length d) : Hit delimiters' buffer length d := by
  refine ⟨fun e he => h.least e ((hmem e).2 he), ?_⟩
  cases hf : delimiters'.find? (fun e => decide (OccursAt e buffer length)) with
  | none =>
    have hno := List.find?_eq_none.1 hf d ((hmem d).1 h.mem)
    exact absurd h.occursAt (by simpa using hno)
  | some e =>
    have he : e ∈ delimiters := (hmem e).2 (List.mem_of_find?_eq_some hf)
    have heo : OccursAt e buffer length := by simpa using List.find?_some hf
    rw [hp.eq_of_occursAt h.mem he h.occursAt heo]

/-- Two such lists with the same members cut every buffer alike. -/
theorem cut_congr {delimiters' : List Bytes} (hp : PrefixFree delimiters)
    (hmem : ∀ d, d ∈ delimiters ↔ d ∈ delimiters') (hd : ∀ d ∈ delimiters, d ≠ []) :
    cut delimiters = cut delimiters' := by
  funext buffer
  have hd' : ∀ d ∈ delimiters', d ≠ [] := fun d h => hd d ((hmem d).2 h)
  cases hc : cut delimiters buffer with
  | none =>
    have hu := (cut_eq_none_iff hd).1 hc
    exact ((cut_eq_none_iff hd').2 fun d h => hu d ((hmem d).2 h)).symm
  | some lengths =>
    obtain ⟨d, hit, hw⟩ := (cut_eq_some_iff hd _ _).1 hc
    rw [cut_eq_of_hit hd' (hit_congr hp hmem hit), hw]

/-! ### The delimiters of lines -/

theorem mem_line {d : Bytes} : d ∈ line ↔ d = [cr, lf] ∨ d = [lf] := by
  simp [line]

theorem line_ne_nil : ∀ d ∈ line, d ≠ [] := by
  decide

theorem prefixFree_line : PrefixFree line := by
  unfold PrefixFree
  decide

end Delimiters

end FrameLoop
