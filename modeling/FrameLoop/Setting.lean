import FrameLoop.Bytes
import FrameLoop.Span
import FrameLoop.Text.Blank
import FrameLoop.Text.Casing
import FrameLoop.Text.Numeral

/-
  Settings from the environment.  A setting is a text with white space around it; one that is
  missing, that is no valid UTF-8, or that does not denote a value of the kind asked for, counts
  for nothing, and the default stands.
-/

namespace FrameLoop

/-- The value of an environment variable, as it is stored. -/
abbrev RawSetting := Option Bytes

namespace RawSetting

/-- The text of a setting, without the white space around it. -/
def text? (raw : RawSetting) : Option (List Char) := do
  let bytes ← raw
  let text ← String.fromUTF8? ⟨bytes.toArray⟩
  return Text.trim text.toList

/-- A setting read by `parse`, or the default. -/
def read {α : Type} (parse : List Char → Option α) (default : α) (raw : RawSetting) : α :=
  (raw.text?.bind parse).getD default

/-- An integer of the range. -/
def integer (range : Numeral.Range) (default : Int) (raw : RawSetting) : Int :=
  raw.read (Numeral.integer? range) default

/-- An integer of so many bits without a sign. -/
def natural (bits : Nat) (default : Nat) (raw : RawSetting) : Nat :=
  raw.read (fun cs => (Numeral.integer? (.unsigned bits) cs).map Int.toNat) default

/-- The words `true` and `false`, as they stand. -/
def truth? (cs : List Char) : Option Bool :=
  if cs = "true".toList then some true
  else if cs = "false".toList then some false
  else none

/-- A single character. -/
def character? : List Char → Option Char
  | [c] => some c
  | _ => none

/-- The words for a flag, in any case. -/
def flag? (cs : List Char) : Option Bool :=
  let word := String.ofList (cs.flatMap Casing.lower)
  if word ∈ ["1", "true", "yes", "on"] then some true
  else if word ∈ ["0", "false", "no", "off"] then some false
  else none

/-- A flag. -/
def flag (default : Bool) (raw : RawSetting) : Bool := raw.read flag? default

/-- A text. -/
def string (default : String) (raw : RawSetting) : String :=
  raw.read (fun cs => some (String.ofList cs)) default

/-- A length of time in milliseconds. -/
def millis (default : Nat) (raw : RawSetting) : Span := .ofMillis (raw.natural 64 default)

end RawSetting

/-- The environment of a program: its variables with their values. -/
abbrev Environment := List (String × Bytes)

namespace Environment

/-- The value of a variable. -/
def raw (env : Environment) (name : String) : RawSetting := env.lookup name

/-- The variable as an integer of so many bits without a sign. -/
def natural (env : Environment) (bits : Nat) (name : String) (default : Nat) : Nat :=
  (env.raw name).natural bits default

/-- The variable as a flag. -/
def flag (env : Environment) (name : String) (default : Bool) : Bool :=
  (env.raw name).flag default

/-- The variable as a text. -/
def string (env : Environment) (name : String) (default : String) : String :=
  (env.raw name).string default

/-- The variable as a length of time in milliseconds. -/
def millis (env : Environment) (name : String) (default : Nat) : Span :=
  (env.raw name).millis default

end Environment

end FrameLoop
