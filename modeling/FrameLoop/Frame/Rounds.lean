import FrameLoop.Frame.Intake

/-
  The loop of a feed, round by round and without a limit on its calls.

  It goes on while bytes are left, and for as long as each call hands out a frame or changes the
  number of bytes.  `Rounds.Ends` says where it ends, if it does; a loop that goes on forever ends
  nowhere.
-/

namespace FrameLoop

variable {σ : Type} [Decoder σ]

/-- A decode call, with the bytes that it was given. -/
structure GivenCall (σ : Type) where
  buffer : Bytes
  turn : Turn σ

/-- The call left as many bytes as there were. -/
def GivenCall.TookNothing (c : GivenCall σ) : Prop := c.turn.rest.length = c.buffer.length

instance (c : GivenCall σ) : Decidable c.TookNothing := inferInstanceAs (Decidable (_ = _))

/-- The loop between two rounds: the decoder, the bytes left, the frames counted so far, what the
consumer has been told, and the calls that were made. -/
structure Rounds (σ : Type) where
  decoder : σ
  buffer : Bytes
  frames : Nat := 0
  events : List FrameEvent := []
  calls : List (GivenCall σ) := []

namespace Rounds

/-- The decode call of a round. -/
def turn (s : Rounds σ) : Turn σ := Decoder.decode s.decoder s.buffer

/-- The call is made, and the consumer is told. -/
def next (s : Rounds σ) : Rounds σ :=
  let told : Rounds σ :=
    { decoder := s.turn.decoder, buffer := s.turn.rest, frames := s.frames, events := s.events
      calls := s.calls ++ [⟨s.buffer, s.turn⟩] }
  match s.turn.outcome with
  | .frame bytes => { told with frames := s.frames + 1, events := s.events ++ [.frame bytes] }
  | .nothing => told
  | .failed error => { told with events := s.events ++ [.failed error] }

/-- Another round follows, if there are bytes. -/
def GoesOn (s : Rounds σ) : Prop :=
  s.turn.outcome.isFrame ∨ s.turn.rest.length ≠ s.buffer.length

instance (s : Rounds σ) : Decidable s.GoesOn := inferInstanceAs (Decidable (_ ∨ _))

/-- The loop goes on from `s`, and ends in `t`. -/
inductive Ends : Rounds σ → Rounds σ → Prop
  /-- There are no bytes. -/
  | empty {s : Rounds σ} : s.buffer = [] → Ends s s
  /-- The call made no progress. -/
  | stuck {s : Rounds σ} : s.buffer ≠ [] → ¬ s.GoesOn → Ends s s.next
  | round {s t : Rounds σ} : s.buffer ≠ [] → s.GoesOn → Ends s.next t → Ends s t

end Rounds

/-- The loop of a feed at its beginning: the chunk has been appended. -/
def Intake.rounds (a : Intake σ) (chunk : Bytes) : Rounds σ :=
  { decoder := a.decoder, buffer := a.buffer ++ chunk }

/-- A feed whose loop ended so. -/
def Rounds.fed (t : Rounds σ) (connection : Nat) : Fed σ :=
  { events := t.events
    frames := t.frames
    intake := { decoder := t.decoder, connection, buffer := t.buffer } }

/-- The decoder that calls can make of a decoder, on whatever buffers. -/
inductive Becomes : σ → σ → Prop
  | refl (s : σ) : Becomes s s
  | call {s t : σ} (buffer : Bytes) :
    Becomes s t → Becomes s (Decoder.decode t buffer).decoder

/-- Neither the decoder nor what becomes of it ever adds bytes to a buffer, and each frame that is
handed out takes one byte at least. -/
def Consumes (s : σ) : Prop :=
  ∀ t, Becomes s t → ∀ buffer,
    (Decoder.decode t buffer).rest.length ≤ buffer.length ∧
      ((Decoder.decode t buffer).outcome.isFrame →
        (Decoder.decode t buffer).rest.length < buffer.length)

end FrameLoop
