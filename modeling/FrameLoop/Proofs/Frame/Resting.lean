import FrameLoop.Proofs.Frame.Resuming
import FrameLoop.Proofs.Frame.Telling

/-
  What a feed leaves behind.

  A feed ends when nothing more can be done with the bytes that are there.  So between two feeds the
  buffer is within the limit and holds no delimiter, and it is empty while a frame is dropped
  (`Settled`).  A decoder that is called there once more finds nothing and takes nothing
  (`Settled.decode`).  This is shown of framers, from one feed to the next, and carried over to both
  decoders (`rests_between_feeds`).
-/

namespace FrameLoop

open Bytes

variable {delimiters : List Bytes}

/-! ## Framers -/

namespace Policy

variable {p : Policy} {rest : Bytes}

theorem length_keep_le (p : Policy) (rest : Bytes) : (p.keep rest).length ≤ p.maxLength := by
  unfold keep
  split
  · exact Nat.zero_le _
  · next hshort => exact Nat.le_of_not_lt hshort

theorem undelimited_keep (hd : ∀ d ∈ delimiters, d ≠ []) (hu : Undelimited delimiters rest) :
    Undelimited delimiters (p.keep rest) := by
  unfold keep
  split
  · exact undelimited_nil hd
  · exact hu

end Policy

/-- Nothing is left to be done with the bytes that a framer has. -/
structure Settled (delimiters : List Bytes) (start a : Intake Framer) : Prop
    extends Poised start a where
  within : a.buffer.length ≤ start.decoder.policy.maxLength
  undelimited : Undelimited delimiters a.buffer

namespace Settled

variable {start a : Intake Framer}

theorem fresh (hd : ∀ d ∈ delimiters, d ≠ []) (hbuffer : start.buffer = []) :
    Settled delimiters start start := by
  refine ⟨⟨rfl, fun _ _ => hbuffer⟩, ?_, ?_⟩
  · rw [hbuffer]
    exact Nat.zero_le _
  · rw [hbuffer]
    exact undelimited_nil hd

theorem of_feed (h : Poised start a) (hd : ∀ d ∈ delimiters, d ≠ [])
    (hcut : start.decoder.cut = Delimiters.cut delimiters) (chunk : Bytes) :
    Settled delimiters start (a.feed chunk).intake := by
  have hpolicy := h.policy
  have hcut' := h.cut.trans hcut
  have hkept : (a.feed chunk).intake.buffer.length ≤ start.decoder.policy.maxLength ∧
      Undelimited delimiters (a.feed chunk).intake.buffer := by
    rcases exists_course hd a.decoder.mode a.buffer chunk with
      ⟨hmode, segments, rest, hcuts⟩ | ⟨dropped, hmode, hu⟩ |
      ⟨dropped, length, d, segments, rest, hmode, hit, hcuts⟩
    · rw [(feed_normal hd hcut' hmode hcuts).2, ← hpolicy]
      exact ⟨Policy.length_keep_le _ rest, Policy.undelimited_keep hd hcuts.undelimited_rest⟩
    · have hempty := h.dropping dropped hmode
      rw [(feed_drop hd hcut' hmode hempty hu).2, hempty]
      exact ⟨Nat.zero_le _, undelimited_nil hd⟩
    · rw [(feed_resume hd hcut' hmode (h.dropping dropped hmode) hit hcuts).2, ← hpolicy]
      exact ⟨Policy.length_keep_le _ rest, Policy.undelimited_keep hd hcuts.undelimited_rest⟩
  exact ⟨h.feed hd hcut chunk, hkept.1, hkept.2⟩

theorem feedAll (h : Settled delimiters start a) (hd : ∀ d ∈ delimiters, d ≠ [])
    (hcut : start.decoder.cut = Delimiters.cut delimiters) (chunks : List Bytes) :
    Settled delimiters start (a.feedAll chunks).intake := by
  induction chunks generalizing a with
  | nil => exact h
  | cons chunk chunks ih => exact ih (.of_feed h.toPoised hd hcut chunk)

/-- One more call finds nothing and changes nothing. -/
theorem decode (h : Settled delimiters start a) (hd : ∀ d ∈ delimiters, d ≠ [])
    (hcut : start.decoder.cut = Delimiters.cut delimiters) :
    a.decoder.decode a.buffer = ⟨.nothing, a.decoder, a.buffer⟩ := by
  have hnone : a.decoder.cut a.buffer = none := by
    rw [h.cut, hcut]
    exact (Delimiters.cut_eq_none_iff hd).2 h.undelimited
  cases hmode : a.decoder.mode with
  | normal =>
    exact Framer.decode_wait hnone hmode (h.policy ▸ h.within)
  | discarding dropped =>
    -- the buffer is empty, so no byte is added to those dropped
    rw [Framer.decode_drop hnone hmode, h.dropping dropped hmode, List.length_nil, Nat.add_zero,
      ← hmode]

theorem feed_nil (h : Settled delimiters start a) (hd : ∀ d ∈ delimiters, d ≠ [])
    (hcut : start.decoder.cut = Delimiters.cut delimiters) :
    (a.feed []).events = [] ∧ (a.feed []).intake = a := by
  have hpass : pass (a.buffer.length + 1) a.decoder a.buffer = ⟨[], a.decoder, a.buffer⟩ := by
    by_cases hne : a.buffer = []
    · rw [hne, pass_nil]
    · have hturn : Decoder.decode a.decoder a.buffer = ⟨.nothing, a.decoder, a.buffer⟩ :=
        h.decode hd hcut
      exact pass_of_nothing hturn rfl rfl hne
  have hfeed := feed_eq_pass a [] (a.buffer.length + 1) (by rw [List.append_nil]; rfl)
  rwa [List.append_nil, hpass] at hfeed

end Settled

/-! ## Both decoders -/

/-- Nothing is left to be done with the bytes of a connection: they are few, they hold no delimiter,
none are kept while a frame is dropped, and neither a call nor a feed of no bytes changes
anything. -/
structure AtRest {σ : Type} [Decoder σ] (mode : σ → Mode) (limit : Nat) (delimiters : List Bytes)
    (a : Intake σ) : Prop where
  within : a.buffered ≤ limit
  undelimited : Undelimited delimiters a.buffer
  dropping : (mode a.decoder).isDiscarding → a.buffer = []
  decode :
    let turn := Decoder.decode a.decoder a.buffer
    turn.outcome = .nothing ∧ turn.rest = a.buffer ∧ mode turn.decoder = mode a.decoder
  feed :
    let fed := a.feed []
    fed.events = [] ∧ fed.frames = 0 ∧ fed.intake.buffer = a.buffer ∧
      mode fed.intake.decoder = mode a.decoder

section

variable {σ : Type} [Decoder σ] {mode : σ → Mode}

/-- A decoder that works as a framer with nothing left to be done. -/
theorem Works.atRest {a : Intake σ} {b start : Intake Framer}
    (h : Works mode a.decoder b.decoder a.buffer) (hbuffer : a.buffer = b.buffer)
    (hsettled : Settled delimiters start b) (hd : ∀ d ∈ delimiters, d ≠ [])
    (hcut : start.decoder.cut = Delimiters.cut delimiters) :
    AtRest mode start.decoder.policy.maxLength delimiters a := by
  have hmirrors := Works.mirrors mode
  have hdecode : Decoder.decode b.decoder a.buffer = ⟨.nothing, b.decoder, a.buffer⟩ :=
    hbuffer ▸ hsettled.decode hd hcut
  refine ⟨?_, ?_, ?_, ⟨?_, ?_, ?_⟩, ?_⟩
  · rw [Intake.buffered, hbuffer]
    exact hsettled.within
  · rw [hbuffer]
    exact hsettled.undelimited
  · intro hdropping
    rw [h.mode_eq] at hdropping
    cases hmode : b.decoder.mode with
    | normal =>
      rw [hmode] at hdropping
      cases hdropping
    | discarding dropped => exact hbuffer.trans (hsettled.dropping dropped hmode)
  · rw [hmirrors.outcome h, hdecode]
  · rw [hmirrors.rest h, hdecode]
  · rw [(hmirrors.next h).mode_eq, hdecode, h.mode_eq]
  · obtain ⟨hevents, hkept, hworks⟩ := hmirrors.feed [] h hbuffer
    obtain ⟨hnone, hsame⟩ := hsettled.feed_nil hd hcut
    rw [hnone] at hevents
    rw [hsame] at hkept hworks
    refine ⟨hevents, ?_, hkept.trans hbuffer.symm, ?_⟩
    · rw [feed_frames, hevents]
      rfl
    · rw [hworks.mode_eq, h.mode_eq]

theorem SplitsAt.atRest {policy : Policy} {s : σ} (h : SplitsAt mode policy delimiters s)
    (hd : ∀ d ∈ delimiters, d ≠ []) (connection : Nat) (chunks : List Bytes) :
    AtRest mode policy.maxLength delimiters
      (({ decoder := s, connection } : Intake σ).feedAll chunks).intake := by
  obtain ⟨f, rfl, hcut, -, -, hfed⟩ := h.exists_framer
  obtain ⟨-, hbuffer, hworks⟩ := hfed connection chunks
  have hfresh : Settled delimiters { decoder := f, connection } { decoder := f, connection } :=
    Settled.fresh hd rfl
  exact hworks.atRest hbuffer (hfresh.feedAll hd hcut chunks) hd hcut

end

/-- Whatever is fed to a fresh decoder, and however it is cut into chunks: after each feed the bytes
kept are within the limit and hold no delimiter, and nothing more comes of them. -/
theorem rests_between_feeds {policy : Policy} (hpolicy : policy.check = .ok ())
    (hne : delimiters ≠ []) (hd : ∀ d ∈ delimiters, d ≠ []) (connection : Nat)
    (chunks : List Bytes) :
    (∃ s, Splitter.ofDelimiters policy delimiters = .ok s ∧
      AtRest Splitter.mode policy.maxLength delimiters
        (({ decoder := s, connection } : Intake Splitter).feedAll chunks).intake) ∧
    (∃ l, Line.ofPolicy policy = .ok l ∧
      AtRest Line.mode policy.maxLength Delimiters.line
        (({ decoder := l, connection } : Intake Line).feedAll chunks).intake) := by
  obtain ⟨s, hs, hsplits⟩ := Splitter.exists_splitsAt hpolicy hne hd
  obtain ⟨l, hl, hlines⟩ := Line.exists_splitsAt hpolicy
  exact ⟨⟨s, hs, hsplits.atRest hd connection chunks⟩,
    ⟨l, hl, hlines.atRest Delimiters.line_ne_nil connection chunks⟩⟩

/-- The first chunk begins to drop a frame.  The second one ends the episode and hands out a frame,
another one is reported that is too long, and half a delimiter is kept behind the byte 6. -/
theorem rests_between_feeds_busy :
    let policy : Policy := { maxLength := 2, failFast := false }
    let chunks : List Bytes := [[1, 2, 3], [4, 7, 8, 5, 7, 8, 1, 2, 3, 7, 8, 6, 7]]
    ∃ s, Splitter.ofDelimiters policy [[7, 8]] = .ok s ∧
      let a := (({ decoder := s, connection := 0 } : Intake Splitter).feedAll chunks).intake
      a.buffer = [6, 7] ∧ AtRest Splitter.mode 2 [[7, 8]] a := by
  intro policy chunks
  have hpolicy : policy.check = .ok () := rfl
  have hd : ∀ d ∈ ([[7, 8]] : List Bytes), d ≠ [] := by decide
  obtain ⟨⟨s, hs, hrest⟩, -⟩ := rests_between_feeds hpolicy (by simp) hd 0 chunks
  refine ⟨s, hs, ?_, hrest⟩
  obtain rfl : _ = s := Except.ok.inj hs
  decide +kernel

end FrameLoop
