import FrameLoop.Frame.Intake

/-
  A feed, call by call.

  `feed` makes a list of decode calls first and reads everything off it afterwards.  `pass` is the
  same loop with its results carried along, so that a property of feeds can be shown by induction
  on the calls; `feed_eq_pass` says that the two agree.  `Mirrors` relates two decoders that answer
  every call alike, and carries over to whole feeds.
-/

namespace FrameLoop

section Pass

variable {σ : Type} [Decoder σ]

/-- What a pass comes to: what the consumer was told, the decoder and the bytes left. -/
structure Passed (σ : Type) where
  events : List FrameEvent
  decoder : σ
  buffer : Bytes

/-- The loop of a feed, at most `calls` rounds of it. -/
def pass : Nat → σ → Bytes → Passed σ
  | 0, decoder, buffer => ⟨[], decoder, buffer⟩
  | calls + 1, decoder, buffer =>
    if buffer.isEmpty then ⟨[], decoder, buffer⟩
    else
      let turn := Decoder.decode decoder buffer
      if turn.outcome.isFrame || turn.rest.length ≠ buffer.length then
        let passed := pass calls turn.decoder turn.rest
        { passed with events := turn.outcome.event?.toList ++ passed.events }
      else ⟨turn.outcome.event?.toList, turn.decoder, turn.rest⟩

@[simp]
theorem pass_nil (calls : Nat) (decoder : σ) : pass calls decoder [] = ⟨[], decoder, []⟩ := by
  cases calls <;> rfl

/-- A call that took bytes is followed by the rest of the pass. -/
theorem pass_of_progress {calls : Nat} {decoder : σ} {buffer : Bytes} {turn : Turn σ}
    (hturn : Decoder.decode decoder buffer = turn) (hlt : turn.rest.length < buffer.length) :
    pass (calls + 1) decoder buffer =
      { pass calls turn.decoder turn.rest with
        events := turn.outcome.event?.toList ++ (pass calls turn.decoder turn.rest).events } := by
  have hne : buffer.isEmpty = false := by
    cases buffer with
    | nil => simp at hlt
    | cons _ _ => rfl
  have hgo : (turn.outcome.isFrame || decide (turn.rest.length ≠ buffer.length)) = true := by
    simp only [Bool.or_eq_true, decide_eq_true_eq]
    exact .inr (by omega)
  simp only [pass, hne, hturn, hgo, if_true, Bool.false_eq_true, if_false]

/-- A call that found nothing and took nothing is the last one. -/
theorem pass_of_nothing {calls : Nat} {decoder : σ} {buffer : Bytes} {turn : Turn σ}
    (hturn : Decoder.decode decoder buffer = turn) (hnothing : turn.outcome = .nothing)
    (hrest : turn.rest = buffer) (hne : buffer ≠ []) :
    pass (calls + 1) decoder buffer = ⟨[], turn.decoder, buffer⟩ := by
  have hempty : buffer.isEmpty = false := by simpa using hne
  simp [pass, hempty, hturn, hnothing, hrest, Outcome.isFrame, Outcome.event?]

/-- The pass is what the list of its calls says. -/
theorem pass_eq_drain (calls : Nat) (decoder : σ) (buffer : Bytes) :
    pass calls decoder buffer =
      { events := (drain calls decoder buffer).filterMap (·.outcome.event?)
        decoder := ((drain calls decoder buffer).getLast?.map Turn.decoder).getD decoder
        buffer := ((drain calls decoder buffer).getLast?.map Turn.rest).getD buffer } := by
  induction calls generalizing decoder buffer with
  | zero => rfl
  | succ calls ih =>
    rw [pass, drain]
    split
    · rfl
    · dsimp only
      split
      · rw [ih, List.getLast?_cons, List.filterMap_cons]
        cases (Decoder.decode decoder buffer).outcome.event? <;> simp [Option.getD_map]
      · cases h : (Decoder.decode decoder buffer).outcome.event? <;> simp [h]

/-- A feed is a pass over what was buffered and the new bytes. -/
theorem feed_eq_pass (a : Intake σ) (chunk : Bytes) (calls : Nat)
    (hcalls : Decoder.calls a.decoder (a.buffer ++ chunk) = calls) :
    let passed := pass calls a.decoder (a.buffer ++ chunk)
    (a.feed chunk).events = passed.events ∧
      (a.feed chunk).intake = { a with decoder := passed.decoder, buffer := passed.buffer } := by
  subst hcalls
  rw [pass_eq_drain]
  refine ⟨rfl, ?_⟩
  rw [Intake.feed, Intake.turns]
  dsimp only
  cases (drain (Decoder.calls a.decoder (a.buffer ++ chunk)) a.decoder (a.buffer ++ chunk)).getLast?
  <;> rfl

end Pass

/-! ## Decoders that answer alike -/

/-- Two decoders, related over the bytes buffered, that answer each call alike and stay related,
also while bytes are added. -/
structure Mirrors {σ τ : Type} [Decoder σ] [Decoder τ] (related : σ → τ → Bytes → Prop) :
    Prop where
  calls {s : σ} {t : τ} {b : Bytes} : related s t b → Decoder.calls s b = Decoder.calls t b
  grow {s : σ} {t : τ} {b : Bytes} : related s t b → ∀ more, related s t (b ++ more)
  outcome {s : σ} {t : τ} {b : Bytes} :
    related s t b → (Decoder.decode s b).outcome = (Decoder.decode t b).outcome
  rest {s : σ} {t : τ} {b : Bytes} :
    related s t b → (Decoder.decode s b).rest = (Decoder.decode t b).rest
  next {s : σ} {t : τ} {b : Bytes} : related s t b →
    related (Decoder.decode s b).decoder (Decoder.decode t b).decoder (Decoder.decode s b).rest

namespace Mirrors

variable {σ τ : Type} [Decoder σ] [Decoder τ] {related : σ → τ → Bytes → Prop}

/-- A pass of the one tells and leaves what a pass of the other does. -/
theorem pass (h : Mirrors related) (calls : Nat) {s : σ} {t : τ} {b : Bytes}
    (hst : related s t b) :
    let p := FrameLoop.pass calls s b
    let q := FrameLoop.pass calls t b
    p.events = q.events ∧ p.buffer = q.buffer ∧ related p.decoder q.decoder p.buffer := by
  induction calls generalizing s t b with
  | zero => exact ⟨rfl, rfl, hst⟩
  | succ calls ih =>
    rw [FrameLoop.pass, FrameLoop.pass]
    split
    · exact ⟨rfl, rfl, hst⟩
    · have hout := h.outcome hst
      have hrest := h.rest hst
      have hnext := h.next hst
      dsimp only
      rw [← hout, ← hrest]
      split
      · obtain ⟨hev, hbuf, hrel⟩ := ih hnext
        exact ⟨by rw [hev], hbuf, hrel⟩
      · exact ⟨rfl, rfl, hnext⟩

theorem feed (h : Mirrors related) (chunk : Bytes) {a : Intake σ} {b : Intake τ}
    (hab : related a.decoder b.decoder a.buffer) (hbuf : a.buffer = b.buffer) :
    (a.feed chunk).events = (b.feed chunk).events ∧
      (a.feed chunk).intake.buffer = (b.feed chunk).intake.buffer ∧
      related (a.feed chunk).intake.decoder (b.feed chunk).intake.decoder
        (a.feed chunk).intake.buffer := by
  have hgrow := h.grow hab chunk
  obtain ⟨haev, haint⟩ := feed_eq_pass a chunk _ rfl
  obtain ⟨hbev, hbint⟩ := feed_eq_pass b chunk _ (hbuf ▸ (h.calls hgrow).symm)
  rw [← hbuf] at hbev hbint
  rw [haev, hbev, haint, hbint]
  exact h.pass (Decoder.calls a.decoder (a.buffer ++ chunk)) hgrow

theorem feedAll (h : Mirrors related) (chunks : List Bytes) {a : Intake σ} {b : Intake τ}
    (hab : related a.decoder b.decoder a.buffer) (hbuf : a.buffer = b.buffer) :
    (a.feedAll chunks).events = (b.feedAll chunks).events ∧
      (a.feedAll chunks).intake.buffer = (b.feedAll chunks).intake.buffer ∧
      related (a.feedAll chunks).intake.decoder (b.feedAll chunks).intake.decoder
        (a.feedAll chunks).intake.buffer := by
  induction chunks generalizing a b with
  | nil => exact ⟨rfl, hbuf, hab⟩
  | cons chunk chunks ih =>
    obtain ⟨hevent, hrest, hrel⟩ := h.feed chunk hab hbuf
    obtain ⟨hevents, hrests, hrels⟩ := ih hrel hrest
    refine ⟨?_, hrests, hrels⟩
    simp only [Intake.feedAll]
    rw [hevent, hevents]

end Mirrors

end FrameLoop
