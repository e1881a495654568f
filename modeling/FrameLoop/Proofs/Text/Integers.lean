import FrameLoop.Setting
import FrameLoop.Text.Checked
import Mathlib.Data.List.TakeWhile
import Mathlib.Data.Nat.Digits.Defs
import Mathlib.Tactic.Ring

/-
  Settings that are integers, said without reading them.

  A numeral is an optional sign and one or more ASCII digits (`Numeral.Denotes`), and a setting is
  the UTF-8 form of white space, a numeral and white space (`RawSetting.Denotes`).  The value that
  is read is the number that the setting denotes, and the default where it denotes none
  (`integers_read_exactly`).  Numbers are unbounded here, and compared with the range at the end; a
  reading in words that can overflow comes to the same (`checked?_eq`).
-/

namespace FrameLoop

namespace Numeral

/-! ## Numerals -/

/-- The number that ASCII digits denote. -/
def value (digits : List Char) : Nat :=
  Nat.ofDigits 10 (digits.reverse.map fun c => c.toNat - '0'.toNat)

/-- One or more ASCII digits. -/
def IsDigits (cs : List Char) : Prop := cs ≠ [] ∧ ∀ c ∈ cs, c.isDigit

/-- The text is a numeral for this number, and the range has the number.  A minus sign is for ranges
with negative numbers. -/
inductive Denotes (r : Range) : List Char → Int → Prop
  | plain {digits : List Char} : IsDigits digits → r.has (value digits) →
    Denotes r digits (value digits)
  | plus {digits : List Char} : IsDigits digits → r.has (value digits) →
    Denotes r ('+' :: digits) (value digits)
  | minus {digits : List Char} : IsDigits digits → r.low < 0 → r.has (-value digits) →
    Denotes r ('-' :: digits) (-value digits)

theorem Range.has_iff (r : Range) (n : Int) : r.has n ↔ r.low ≤ n ∧ n ≤ r.high := by
  simp only [Range.has, Bool.and_eq_true, decide_eq_true_eq]

theorem value_cons (c : Char) (cs : List Char) :
    value (c :: cs) = (c.toNat - '0'.toNat) * 10 ^ cs.length + value cs := by
  simp only [value, List.reverse_cons, List.map_append, List.map_cons, List.map_nil,
    Nat.ofDigits_append, Nat.ofDigits_singleton, List.length_map, List.length_reverse]
  ring

theorem digit?_eq_some_iff (c : Char) (d : Nat) :
    digit? c = some d ↔ c.isDigit ∧ c.toNat - '0'.toNat = d := by
  have hdigit : c.isDigit = true ↔ '0' ≤ c ∧ c ≤ '9' := by
    simp only [Char.isDigit, ge_iff_le, Bool.and_eq_true, decide_eq_true_eq, Char.le_def]
  rw [digit?, hdigit]
  split
  · next h => simp [h]
  · next h => simp [h]

/-- Digits are read behind those that were read before. -/
theorem digits?_eq_some_iff (n m : Nat) (cs : List Char) :
    digits? n cs = some m ↔ (∀ c ∈ cs, c.isDigit) ∧ n * 10 ^ cs.length + value cs = m := by
  induction cs generalizing n with
  | nil => simp [digits?, value]
  | cons c cs ih =>
    rw [digits?, value_cons, List.length_cons, List.forall_mem_cons]
    cases hc : digit? c with
    | none =>
      have hnot : ¬ c.isDigit := fun h => by
        have hsome := (digit?_eq_some_iff c _).2 ⟨h, rfl⟩
        rw [hc] at hsome
        cases hsome
      simp [hnot]
    | some d =>
      obtain ⟨hdigit, rfl⟩ := (digit?_eq_some_iff c d).1 hc
      have hsum : (10 * n + (c.toNat - '0'.toNat)) * 10 ^ cs.length + value cs =
          n * 10 ^ (cs.length + 1) + ((c.toNat - '0'.toNat) * 10 ^ cs.length + value cs) := by
        ring
      simp only [ih, hsum, hdigit, true_and]

theorem natural?_eq_some_iff (cs : List Char) (n : Nat) :
    natural? cs = some n ↔ IsDigits cs ∧ value cs = n := by
  cases cs with
  | nil => simp [natural?, IsDigits]
  | cons c cs =>
    rw [natural?, digits?_eq_some_iff, Nat.zero_mul, Nat.zero_add, IsDigits]
    simp

theorem IsDigits.head_isDigit {c : Char} {cs : List Char} (h : IsDigits (c :: cs)) : c.isDigit :=
  h.2 c List.mem_cons_self

/-- Without a sign the digits are all there is. -/
theorem signed?_of_unsigned (r : Range) {cs : List Char} (hplus : ∀ ds, cs ≠ '+' :: ds)
    (hminus : ∀ ds, cs ≠ '-' :: ds) : signed? r cs = (natural? cs).map Int.ofNat := by
  unfold signed?
  split
  · exact absurd rfl (hplus _)
  · exact absurd rfl (hminus _)
  · rfl

/-- What is read is the number that the text denotes in the range. -/
theorem integer?_eq_some_iff (r : Range) (cs : List Char) (n : Int) :
    integer? r cs = some n ↔ Denotes r cs n := by
  rw [integer?, Option.filter_eq_some_iff]
  constructor
  · rintro ⟨hread, hrange⟩
    unfold signed? at hread
    split at hread
    · obtain ⟨m, hm, rfl⟩ := Option.map_eq_some_iff.1 hread
      obtain ⟨hdigits, rfl⟩ := (natural?_eq_some_iff _ m).1 hm
      exact .plus hdigits hrange
    · split at hread
      · next hlow =>
        obtain ⟨m, hm, rfl⟩ := Option.map_eq_some_iff.1 hread
        obtain ⟨hdigits, rfl⟩ := (natural?_eq_some_iff _ m).1 hm
        exact .minus hdigits hlow hrange
      · cases hread
    · obtain ⟨m, hm, rfl⟩ := Option.map_eq_some_iff.1 hread
      obtain ⟨hdigits, rfl⟩ := (natural?_eq_some_iff _ m).1 hm
      exact .plain hdigits hrange
  · intro h
    cases h with
    | plain hdigits hrange =>
      refine ⟨?_, hrange⟩
      have hplus : ∀ ds, cs ≠ '+' :: ds := by
        rintro ds rfl
        exact absurd hdigits.head_isDigit (by decide)
      have hminus : ∀ ds, cs ≠ '-' :: ds := by
        rintro ds rfl
        exact absurd hdigits.head_isDigit (by decide)
      rw [signed?_of_unsigned r hplus hminus, (natural?_eq_some_iff cs _).2 ⟨hdigits, rfl⟩]
      rfl
    | @plus digits hdigits hrange =>
      refine ⟨?_, hrange⟩
      rw [signed?, (natural?_eq_some_iff digits _).2 ⟨hdigits, rfl⟩]
      rfl
    | @minus digits hdigits hlow hrange =>
      refine ⟨?_, hrange⟩
      rw [signed?, if_pos hlow, (natural?_eq_some_iff digits _).2 ⟨hdigits, rfl⟩]
      rfl

theorem Denotes.has {r : Range} {cs : List Char} {n : Int} (h : Denotes r cs n) : r.has n := by
  cases h with
  | plain _ hrange => exact hrange
  | plus _ hrange => exact hrange
  | minus _ _ hrange => exact hrange

theorem not_isBlank_of_isDigit {c : Char} (h : c.isDigit) : ¬ Text.isBlank c := by
  have hcode : 48 ≤ c.toNat ∧ c.toNat ≤ 57 := by
    simpa [Char.isDigit, UInt32.le_iff_toNat_le] using h
  intro hblank
  obtain ⟨run, hmem, hin⟩ := List.any_eq_true.1 hblank
  -- no run of white space reaches into the digits
  have hapart : ∀ run ∈ Text.blankRuns, run.2 < 48 ∨ 57 < run.1 := by decide
  have hrun := hapart run hmem
  simp only [Bool.and_eq_true, decide_eq_true_eq] at hin
  omega

/-- There is no white space in a numeral. -/
theorem Denotes.not_isBlank {r : Range} {cs : List Char} {n : Int} (h : Denotes r cs n) :
    ∀ c ∈ cs, ¬ Text.isBlank c := by
  have hdigits {ds : List Char} (h : IsDigits ds) : ∀ c ∈ ds, ¬ Text.isBlank c :=
    fun c hc => not_isBlank_of_isDigit (h.2 c hc)
  cases h with
  | plain hds _ => exact hdigits hds
  | plus hds _ => exact List.forall_mem_cons.2 ⟨by decide, hdigits hds⟩
  | minus hds _ _ => exact List.forall_mem_cons.2 ⟨by decide, hdigits hds⟩

/-! ## Words that can overflow -/

/-- The integer at this distance from zero. -/
def away (below : Bool) (n : Nat) : Int := if below then -(n : Int) else n

section

variable {r : Range} {below : Bool} {m n : Nat}

/-- A range around zero that has an integer has those between it and zero. -/
theorem Range.has_away (hzero : r.has 0) (hle : n ≤ m) (hm : r.has (away below m)) :
    r.has (away below n) := by
  rw [Range.has_iff] at *
  cases below with
  | false =>
    have hm : r.low ≤ (m : Int) ∧ (m : Int) ≤ r.high := hm
    show r.low ≤ n ∧ (n : Int) ≤ r.high
    omega
  | true =>
    have hm : r.low ≤ -(m : Int) ∧ -(m : Int) ≤ r.high := hm
    show r.low ≤ -(n : Int) ∧ -(n : Int) ≤ r.high
    omega

theorem le_of_digits? {cs : List Char} (h : digits? n cs = some m) : n ≤ m := by
  obtain ⟨-, rfl⟩ := (digits?_eq_some_iff n m cs).1 h
  exact Nat.le_add_right_of_le (Nat.le_mul_of_pos_right n (by positivity))

/-- What leaves the range on the way is out of it at the end. -/
theorem filter_digits?_of_not_has (hzero : r.has 0) (hnot : ¬ r.has (away below n))
    (cs : List Char) : ((digits? n cs).map (away below)).filter r.has = none := by
  rw [Option.filter_eq_none_iff]
  rintro k hk hhas
  obtain ⟨m, hm, rfl⟩ := Option.map_eq_some_iff.1 hk
  exact hnot (r.has_away hzero (le_of_digits? hm) hhas)

/-- Digit by digit within the range, or all digits and then a look at the range. -/
theorem extend?_eq (hzero : r.has 0) (hn : r.has (away below n)) (cs : List Char) :
    extend? r below (away below n) cs = ((digits? n cs).map (away below)).filter r.has := by
  induction cs generalizing n with
  | nil => rw [extend?, digits?, Option.map_some, Option.filter_some, if_pos hn]
  | cons c cs ih =>
    rw [extend?, digits?]
    cases digit? c with
    | none => rfl
    | some d =>
      have htens : away below n * 10 = away below (10 * n) := by
        cases below <;> simp only [away, Bool.false_eq_true, if_true, if_false] <;> omega
      have hsum : (if below then away below (10 * n) - d else away below (10 * n) + d) =
          away below (10 * n + d) := by
        cases below <;> simp only [away, Bool.false_eq_true, if_true, if_false] <;> omega
      simp only [Option.bind_eq_bind, Option.bind_some, htens, Range.fit?]
      by_cases hproduct : r.has (away below (10 * n))
      · rw [if_pos hproduct, Option.bind_some, hsum]
        by_cases hnext : r.has (away below (10 * n + d))
        · rw [if_pos hnext, Option.bind_some, ih hnext]
        · rw [if_neg hnext, Option.bind_none, filter_digits?_of_not_has hzero hnext]
      · have hnext : ¬ r.has (away below (10 * n + d)) := fun h =>
          hproduct (r.has_away hzero (Nat.le_add_right _ _) h)
        rw [if_neg hproduct, Option.bind_none, filter_digits?_of_not_has hzero hnext]

end

/-- A reading that never leaves the range comes to the same. -/
theorem checked?_eq {r : Range} (hzero : r.has 0) (cs : List Char) :
    checked? r cs = integer? r cs := by
  have hread (below : Bool) (cs : List Char) :
      number? r below cs = ((natural? cs).map (away below)).filter r.has := by
    cases cs with
    | nil => rfl
    | cons c cs =>
      have hstart : away below 0 = 0 := by cases below <;> rfl
      rw [number?, natural?, ← extend?_eq hzero (by rwa [hstart]), hstart]
  unfold checked?
  split
  · exact hread false _
  · rw [integer?, signed?]
    split
    · exact hread true _
    · rfl
  · next hplus hminus =>
    rw [integer?, signed?_of_unsigned r hplus hminus]
    exact hread false cs

/-- The lowest number of a word is read below zero; the same digits are too many above. -/
example : checked? (.signed 64) "-9223372036854775808".toList = some (-9223372036854775808) ∧
    checked? (.signed 64) "9223372036854775808".toList = none := by decide

theorem Range.unsigned_has_zero (bits : Nat) : (Range.unsigned bits).has 0 := by
  have hpos : 0 < Nat.pow 2 bits := Nat.pow_pos Nat.two_pos
  rw [Range.has_iff]
  show (0 : Int) ≤ 0 ∧ 0 ≤ (Nat.pow 2 bits : Int) - 1
  omega

theorem Range.signed_has_zero (bits : Nat) : (Range.signed bits).has 0 := by
  have hpos : 0 < Nat.pow 2 (bits - 1) := Nat.pow_pos Nat.two_pos
  rw [Range.has_iff]
  show -(Nat.pow 2 (bits - 1) : Int) ≤ 0 ∧ 0 ≤ (Nat.pow 2 (bits - 1) : Int) - 1
  omega

end Numeral

/-! ## White space around a text -/

namespace Text

theorem trimLeft_append {before cs : List Char} (hbefore : ∀ c ∈ before, isBlank c)
    (hhead : ∀ c ∈ cs.head?, ¬ isBlank c) : trimLeft (before ++ cs) = cs := by
  rw [trimLeft, List.dropWhile_append_of_pos hbefore]
  cases cs with
  | nil => rfl
  | cons c cs => rw [List.dropWhile_cons_of_neg (hhead c rfl)]

theorem exists_trimLeft (cs : List Char) :
    ∃ before, cs = before ++ trimLeft cs ∧ ∀ c ∈ before, isBlank c :=
  ⟨cs.takeWhile isBlank, List.takeWhile_append_dropWhile.symm,
    fun _ hc => List.mem_takeWhile_imp hc⟩

/-- A text is trimmed by taking white space off both ends, until none is left there. -/
theorem trim_append {before cs after : List Char} (hbefore : ∀ c ∈ before, isBlank c)
    (hafter : ∀ c ∈ after, isBlank c) (hhead : ∀ c ∈ cs.head?, ¬ isBlank c)
    (hlast : ∀ c ∈ cs.getLast?, ¬ isBlank c) : trim (before ++ cs ++ after) = cs := by
  have hback : ∀ c ∈ after.reverse, isBlank c := fun c hc => hafter c (List.mem_reverse.1 hc)
  rw [trim, List.append_assoc]
  cases cs with
  | nil =>
    -- there is nothing but white space
    have hall : ∀ c ∈ before ++ after, isBlank c := List.forall_mem_append.2 ⟨hbefore, hafter⟩
    have hnone : trimLeft (before ++ after ++ []) = [] := trimLeft_append hall nofun
    rw [List.append_nil] at hnone
    rw [List.nil_append, hnone]
    rfl
  | cons c cs =>
    have hfront : trimLeft (before ++ (c :: cs ++ after)) = c :: cs ++ after :=
      trimLeft_append hbefore hhead
    rw [hfront, List.reverse_append, trimLeft_append hback (by rwa [List.head?_reverse]),
      List.reverse_reverse]

theorem exists_trim (cs : List Char) :
    ∃ before after, cs = before ++ trim cs ++ after ∧ (∀ c ∈ before, isBlank c) ∧
      ∀ c ∈ after, isBlank c := by
  obtain ⟨before, hfront, hbefore⟩ := exists_trimLeft cs
  obtain ⟨after, hback, hafter⟩ := exists_trimLeft (trimLeft cs).reverse
  refine ⟨before, after.reverse, ?_, hbefore, fun c hc => hafter c (List.mem_reverse.1 hc)⟩
  have hback := congrArg List.reverse hback
  rw [List.reverse_reverse, List.reverse_append] at hback
  rw [trim, List.append_assoc, ← hback]
  exact hfront

end Text

/-! ## Settings -/

namespace RawSetting

theorem fromUTF8?_eq_some_iff (bytes : ByteArray) (text : String) :
    String.fromUTF8? bytes = some text ↔ text.toByteArray = bytes := by
  unfold String.fromUTF8?
  split
  · rw [Option.some.injEq]
    constructor
    · rintro rfl
      rfl
    · rintro rfl
      rfl
  · next hinvalid =>
    simp only [reduceCtorEq, false_iff]
    rintro rfl
    exact hinvalid text.isValidUTF8

/-- The UTF-8 form of a text. -/
def encoded (text : List Char) : Bytes := text.flatMap String.utf8EncodeChar

theorem toByteArray_ofList_eq_iff (text : List Char) (bytes : Bytes) :
    (String.ofList text).toByteArray = ⟨bytes.toArray⟩ ↔ bytes = encoded text := by
  rw [String.toByteArray_ofList, List.utf8Encode, ByteArray.ext_iff, List.data_toByteArray,
    eq_comm (a := bytes)]
  exact ⟨fun h => congrArg Array.toList h, fun h => congrArg List.toArray h⟩

/-- The text of a setting is what its bytes are the UTF-8 form of, trimmed. -/
theorem text?_eq_some_iff (raw : RawSetting) (cs : List Char) :
    raw.text? = some cs ↔ ∃ text, raw = some (encoded text) ∧ Text.trim text = cs := by
  simp only [text?, Option.bind_eq_bind, Option.bind_eq_some_iff, Option.pure_def,
    Option.some.injEq, fromUTF8?_eq_some_iff]
  constructor
  · rintro ⟨bytes, rfl, text, htext, rfl⟩
    rw [← String.ofList_toList (s := text)] at htext
    exact ⟨text.toList, congrArg some ((toByteArray_ofList_eq_iff _ bytes).1 htext), rfl⟩
  · rintro ⟨text, rfl, rfl⟩
    exact ⟨_, rfl, String.ofList text, (toByteArray_ofList_eq_iff text _).2 rfl,
      by rw [String.toList_ofList]⟩

/-- The setting denotes this number: it is the UTF-8 form of a numeral of the range, with white
space around it or without. -/
def Denotes (r : Numeral.Range) (raw : RawSetting) (n : Int) : Prop :=
  ∃ before numeral after, raw = some (encoded (before ++ numeral ++ after)) ∧
    (∀ c ∈ before, Text.isBlank c) ∧ (∀ c ∈ after, Text.isBlank c) ∧
    Numeral.Denotes r numeral n

/-- Without a sign no number below zero is denoted. -/
theorem Denotes.nonneg {bits : Nat} {raw : RawSetting} {n : Int}
    (h : raw.Denotes (.unsigned bits) n) : 0 ≤ n := by
  obtain ⟨_, _, _, -, -, -, hnumeral⟩ := h
  exact ((Numeral.Range.has_iff _ n).1 hnumeral.has).1

/-- What is read from the text of a setting is the number that the setting denotes. -/
theorem bind_integer?_eq_some_iff (r : Numeral.Range) (raw : RawSetting) (n : Int) :
    raw.text?.bind (Numeral.integer? r) = some n ↔ raw.Denotes r n := by
  simp only [Option.bind_eq_some_iff, text?_eq_some_iff, Numeral.integer?_eq_some_iff]
  constructor
  · rintro ⟨_, ⟨text, rfl, rfl⟩, hnumeral⟩
    obtain ⟨before, after, htext, hbefore, hafter⟩ := Text.exists_trim text
    exact ⟨before, _, after, by rw [← htext], hbefore, hafter, hnumeral⟩
  · rintro ⟨before, numeral, after, rfl, hbefore, hafter, hnumeral⟩
    have hends := hnumeral.not_isBlank
    refine ⟨numeral, ⟨_, rfl, Text.trim_append hbefore hafter ?_ ?_⟩, hnumeral⟩
    · exact fun c hc => hends c (List.mem_of_mem_head? hc)
    · exact fun c hc => hends c (List.mem_of_mem_getLast? hc)

theorem bind_toNat_eq_some_iff (bits : Nat) (raw : RawSetting) (n : Nat) :
    (raw.text?.bind fun cs => (Numeral.integer? (.unsigned bits) cs).map Int.toNat) = some n ↔
      raw.Denotes (.unsigned bits) n := by
  have hmap : (raw.text?.bind fun cs => (Numeral.integer? (.unsigned bits) cs).map Int.toNat) =
      (raw.text?.bind (Numeral.integer? (.unsigned bits))).map Int.toNat := by
    cases raw.text? <;> rfl
  rw [hmap, Option.map_eq_some_iff]
  simp only [bind_integer?_eq_some_iff]
  constructor
  · rintro ⟨m, hm, rfl⟩
    rwa [Int.toNat_of_nonneg hm.nonneg]
  · exact fun h => ⟨n, h, Int.toNat_natCast n⟩

/-- The value of a setting is what it denotes, or the default. -/
theorem read_eq_iff {α : Type} {parse : List Char → Option α} {denotes : α → Prop}
    {raw : RawSetting} (h : ∀ x, raw.text?.bind parse = some x ↔ denotes x) (default x : α) :
    raw.read parse default = x ↔ denotes x ∨ (∀ y, ¬ denotes y) ∧ x = default := by
  simp only [read, ← h]
  cases raw.text?.bind parse with
  | none => simp [eq_comm]
  | some y => simp

end RawSetting

/-- An integer setting has the number that it denotes, and where it denotes none the default; and it
is the same in a word that can overflow. -/
theorem integers_read_exactly (raw : RawSetting) :
    (∀ r default n, raw.integer r default = n ↔
      raw.Denotes r n ∨ (∀ m, ¬ raw.Denotes r m) ∧ n = default) ∧
    (∀ bits default n, raw.natural bits default = n ↔
      raw.Denotes (.unsigned bits) n ∨ (∀ m, ¬ raw.Denotes (.unsigned bits) m) ∧ n = default) ∧
    (∀ bits default, raw.integer (.signed bits) default =
      raw.read (Numeral.checked? (.signed bits)) default) ∧
    (∀ bits default, raw.natural bits default =
      raw.read (fun cs => (Numeral.checked? (.unsigned bits) cs).map Int.toNat) default) := by
  refine ⟨fun r default n => ?_, fun bits default n => ?_, fun bits default => ?_,
    fun bits default => ?_⟩
  · exact RawSetting.read_eq_iff (raw.bind_integer?_eq_some_iff r) default n
  · have hall : (∀ m, ¬ raw.Denotes (.unsigned bits) m) ↔
        ∀ k : Nat, ¬ raw.Denotes (.unsigned bits) k := by
      refine ⟨fun h k => h k, fun h m hm => h m.toNat ?_⟩
      rwa [Int.toNat_of_nonneg hm.nonneg]
    rw [hall]
    exact RawSetting.read_eq_iff (raw.bind_toNat_eq_some_iff bits) default n
  · rw [funext (Numeral.checked?_eq (Numeral.Range.signed_has_zero bits))]
    rfl
  · rw [funext (Numeral.checked?_eq (Numeral.Range.unsigned_has_zero bits))]
    rfl

end FrameLoop
