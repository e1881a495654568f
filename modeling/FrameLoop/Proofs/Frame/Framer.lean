import FrameLoop.Proofs.Frame.Pass
import FrameLoop.Proofs.Frame.Search

/-
  What the line decoder and the scan have in common.

  A `Framer` is a decoder that remembers nothing but its mode.  It is given by the place where it
  cuts a buffer, and by the length that it reports at the end of an episode of dropping.  A scan is
  a framer as it stands.  A line decoder is one as long as what it remembers of its buffer is true,
  `Line.Remembers`: then its search from the remembered place on cuts where a search of the whole
  buffer for CR LF and LF does (`lineEnd_eq_cut`).  So results about feeds are shown of framers,
  and carried over to the decoders by `Mirrors`.
-/

namespace FrameLoop

open Bytes

/-- A decoder without a memory of its buffer. -/
structure Framer where
  policy : Policy
  /-- The length of the frame at the front of a buffer, and that of the delimiter behind it. -/
  cut : Bytes → Option (Nat × Nat)
  /-- The length reported at the end of an episode, from the bytes dropped before the call and those
  before the delimiter. -/
  overrun : Nat → Nat → Nat
  mode : Mode := .normal

namespace Framer

/-- One call. -/
def decode (f : Framer) (buffer : Bytes) : Turn Framer :=
  match f.cut buffer, f.mode with
  | some (length, width), .normal =>
    { outcome :=
        if f.policy.maxLength < length then .failed (f.policy.tooLong length)
        else .frame (buffer.take (if f.policy.strip then length else length + width))
      decoder := f
      rest := buffer.drop (length + width) }
  | some (length, width), .discarding dropped =>
    { outcome :=
        if f.policy.failFast then .nothing
        else .failed (f.policy.tooLong (f.overrun dropped length))
      decoder := { f with mode := .normal }
      rest := buffer.drop (length + width) }
  | none, .normal =>
    if f.policy.maxLength < buffer.length then
      { outcome := if f.policy.failFast then .failed (f.policy.tooLong buffer.length) else .nothing
        decoder := { f with mode := .discarding buffer.length }
        rest := [] }
    else { outcome := .nothing, decoder := f, rest := buffer }
  | none, .discarding dropped =>
    { outcome := .nothing
      decoder := { f with mode := .discarding (dropped + buffer.length) }
      rest := [] }

instance : Decoder Framer where
  decode := decode

/-! ### What one call does -/

variable {f : Framer} {buffer : Bytes} {length width dropped : Nat}

/-- A frame within the limit is handed out. -/
theorem decode_frame (hcut : f.cut buffer = some (length, width)) (hmode : f.mode = .normal)
    (hle : length ≤ f.policy.maxLength) :
    f.decode buffer =
      ⟨.frame (buffer.take (if f.policy.strip then length else length + width)), f,
        buffer.drop (length + width)⟩ := by
  simp only [decode, hcut, hmode, if_neg (Nat.not_lt.2 hle)]

/-- A frame over the limit is reported, and lost. -/
theorem decode_oversized (hcut : f.cut buffer = some (length, width)) (hmode : f.mode = .normal)
    (hlt : f.policy.maxLength < length) :
    f.decode buffer =
      ⟨.failed (f.policy.tooLong length), f, buffer.drop (length + width)⟩ := by
  simp only [decode, hcut, hmode, if_pos hlt]

/-- A delimiter ends the episode of dropping. -/
theorem decode_resume (hcut : f.cut buffer = some (length, width))
    (hmode : f.mode = .discarding dropped) :
    f.decode buffer =
      ⟨if f.policy.failFast then .nothing
        else .failed (f.policy.tooLong (f.overrun dropped length)),
        { f with mode := .normal }, buffer.drop (length + width)⟩ := by
  simp only [decode, hcut, hmode]

theorem decode_wait (hcut : f.cut buffer = none) (hmode : f.mode = .normal)
    (hle : buffer.length ≤ f.policy.maxLength) :
    f.decode buffer = ⟨.nothing, f, buffer⟩ := by
  simp only [decode, hcut, hmode, if_neg (Nat.not_lt.2 hle)]

theorem decode_overflow (hcut : f.cut buffer = none) (hmode : f.mode = .normal)
    (hlt : f.policy.maxLength < buffer.length) :
    f.decode buffer =
      ⟨if f.policy.failFast then .failed (f.policy.tooLong buffer.length) else .nothing,
        { f with mode := .discarding buffer.length }, []⟩ := by
  simp only [decode, hcut, hmode, if_pos hlt]

theorem decode_drop (hcut : f.cut buffer = none) (hmode : f.mode = .discarding dropped) :
    f.decode buffer =
      ⟨.nothing, { f with mode := .discarding (dropped + buffer.length) }, []⟩ := by
  simp only [decode, hcut, hmode]

/-- A call changes the mode only. -/
theorem decode_decoder (f : Framer) (buffer : Bytes) :
    (f.decode buffer).decoder = { f with mode := (f.decode buffer).decoder.mode } := by
  unfold decode
  split
  · rfl
  · rfl
  · split <;> rfl
  · rfl

/-- So whoever knows the mode after a call knows the framer. -/
theorem eq_of_decode {f g : Framer} {buffer : Bytes} (h : g = (f.decode buffer).decoder) :
    g = { f with mode := g.mode } := by
  subst h
  exact decode_decoder f buffer

end Framer

/-! ## Decoders that work as a framer does -/

section Works

variable {σ : Type} [Decoder σ] {mode : σ → Mode}

/-- Over these bytes the decoder does what the framer does, from now on and in the same mode. -/
def Works (mode : σ → Mode) (s : σ) (f : Framer) (buffer : Bytes) : Prop :=
  ∃ related : σ → Framer → Bytes → Prop,
    Mirrors related ∧ (∀ s f b, related s f b → mode s = f.mode) ∧ related s f buffer

theorem Works.mode_eq {s : σ} {f : Framer} {buffer : Bytes} (h : Works mode s f buffer) :
    mode s = f.mode := by
  obtain ⟨_, -, hmode, hrel⟩ := h
  exact hmode s f buffer hrel

/-- Such a decoder answers every call as the framer does. -/
theorem Works.mirrors (mode : σ → Mode) : Mirrors (Works mode) where
  calls := by
    rintro s f b ⟨_, h, -, hrel⟩
    exact h.calls hrel
  grow := by
    rintro s f b ⟨related, h, hmode, hrel⟩ more
    exact ⟨related, h, hmode, h.grow hrel more⟩
  outcome := by
    rintro s f b ⟨_, h, -, hrel⟩
    exact h.outcome hrel
  rest := by
    rintro s f b ⟨_, h, -, hrel⟩
    exact h.rest hrel
  next := by
    rintro s f b ⟨related, h, hmode, hrel⟩
    exact ⟨related, h, hmode, h.next hrel⟩

/-- A fresh decoder that splits at these delimiters.  At the end of an episode it reports what was
dropped before the call, and of the bytes before the delimiter none or some. -/
def SplitsAt (mode : σ → Mode) (policy : Policy) (delimiters : List Bytes) (s : σ) : Prop :=
  ∃ overrun : Nat → Nat → Nat,
    (∀ dropped length,
      dropped ≤ overrun dropped length ∧ overrun dropped length ≤ dropped + length) ∧
    Works mode s { policy, cut := Delimiters.cut delimiters, overrun } []

/-- It may be fed in the place of a framer. -/
theorem SplitsAt.exists_framer {policy : Policy} {delimiters : List Bytes} {s : σ}
    (h : SplitsAt mode policy delimiters s) :
    ∃ f : Framer, f.policy = policy ∧ f.cut = Delimiters.cut delimiters ∧ f.mode = .normal ∧
      (∀ dropped length, dropped ≤ f.overrun dropped length) ∧
      ∀ connection chunks,
        let fed := ({ decoder := s, connection } : Intake σ).feedAll chunks
        let framed := ({ decoder := f, connection } : Intake Framer).feedAll chunks
        fed.events = framed.events ∧ fed.intake.buffer = framed.intake.buffer ∧
          Works mode fed.intake.decoder framed.intake.decoder fed.intake.buffer := by
  obtain ⟨overrun, hover, hworks⟩ := h
  exact ⟨_, rfl, rfl, rfl, fun dropped length => (hover dropped length).1,
    fun _ chunks => (Works.mirrors mode).feedAll chunks hworks rfl⟩

theorem SplitsAt.exists_framer_mode {policy : Policy} {delimiters : List Bytes} {s : σ}
    (h : SplitsAt mode policy delimiters s) :
    ∃ f : Framer, f.policy = policy ∧ f.cut = Delimiters.cut delimiters ∧ f.mode = .normal ∧
      (∀ dropped length, dropped ≤ f.overrun dropped length) ∧
      ∀ connection chunks,
        let fed := ({ decoder := s, connection } : Intake σ).feedAll chunks
        let framed := ({ decoder := f, connection } : Intake Framer).feedAll chunks
        fed.events = framed.events ∧ fed.intake.buffer = framed.intake.buffer ∧
          mode fed.intake.decoder = framed.intake.decoder.mode := by
  obtain ⟨f, hpolicy, hcut, hmode, hover, hfed⟩ := h.exists_framer
  refine ⟨f, hpolicy, hcut, hmode, hover, fun connection chunks => ?_⟩
  obtain ⟨hevents, hbuffer, hworks⟩ := hfed connection chunks
  exact ⟨hevents, hbuffer, hworks.mode_eq⟩

end Works

/-! ## The scan -/

namespace Scan

/-- The scan as a framer. -/
def framer (s : Scan) : Framer where
  policy := s.policy
  cut := Delimiters.cut s.delimiters
  overrun := fun dropped _ => dropped
  mode := s.mode

theorem decode_framer (s : Scan) (buffer : Bytes) :
    (s.decode buffer).outcome = (s.framer.decode buffer).outcome ∧
      (s.decode buffer).rest = (s.framer.decode buffer).rest ∧
      (s.decode buffer).decoder.framer = (s.framer.decode buffer).decoder := by
  unfold decode Framer.decode framer Delimiters.cut
  dsimp only
  cases shortest s.delimiters buffer with
  | none =>
    cases hm : s.mode with
    | normal =>
      dsimp only [Option.map_none]
      split
      · exact ⟨rfl, rfl, rfl⟩
      · exact ⟨rfl, rfl, by rw [hm]⟩
    | discarding dropped => exact ⟨rfl, rfl, rfl⟩
  | some hit =>
    cases hm : s.mode with
    | normal => exact ⟨rfl, rfl, by rw [hm]; rfl⟩
    | discarding dropped => exact ⟨rfl, rfl, rfl⟩

end Scan

/-! ## The line decoder -/

namespace Line

/-- The line decoder as a framer. -/
def framer (l : Line) : Framer where
  policy := l.policy
  cut := Delimiters.cut Delimiters.line
  overrun := fun dropped length => dropped + length
  mode := l.mode

/-- What the decoder remembers of the buffer is true: so many bytes of it hold no LF. -/
structure Remembers (l : Line) (buffer : Bytes) : Prop where
  le_length : l.scanned ≤ buffer.length
  no_lf : ∀ i < l.scanned, buffer[i]? ≠ some lf

namespace Remembers

variable {l : Line} {buffer : Bytes}

theorem of_scanned_eq_zero (h : l.scanned = 0) (buffer : Bytes) : l.Remembers buffer :=
  ⟨by omega, fun i hi => by omega⟩

theorem append (h : l.Remembers buffer) (more : Bytes) : l.Remembers (buffer ++ more) := by
  refine ⟨by rw [List.length_append]; have := h.le_length; omega, ?_⟩
  intro i hi
  rw [List.getElem?_append_left (by have := h.le_length; omega)]
  exact h.no_lf i hi

end Remembers

/-- The first LF behind the bytes remembered is the first one of the buffer. -/
theorem Remembers.first_lf {l : Line} {buffer : Bytes} (h : l.Remembers buffer) :
    match indexOf? [lf] (buffer.drop l.scanned) with
    | none => ∀ i : Nat, buffer[i]? ≠ some lf
    | some behind => buffer[l.scanned + behind]? = some lf ∧
        ∀ j < l.scanned + behind, buffer[j]? ≠ some lf := by
  -- a place of the buffer is remembered, or it is a place behind
  have hbehind (i : Nat) (hi : l.scanned ≤ i) :
      buffer[i]? = some lf ↔ OccursAt [lf] (buffer.drop l.scanned) (i - l.scanned) := by
    rw [occursAt_singleton, List.getElem?_drop, Nat.add_sub_cancel' hi]
  cases hidx : indexOf? [lf] (buffer.drop l.scanned) with
  | none =>
    intro i hi
    by_cases hlt : i < l.scanned
    · exact h.no_lf i hlt hi
    · have hocc := (hbehind i (by omega)).1 hi
      have hin := hocc.le_length (by simp)
      exact (indexOf?_eq_none_iff _ _).1 hidx (i - l.scanned) (by omega) hocc
  | some behind =>
    obtain ⟨-, hocc, hmin⟩ := (indexOf?_eq_some_iff _ _ _).1 hidx
    refine ⟨(hbehind _ (by omega)).2 (by rwa [Nat.add_sub_cancel_left]), ?_⟩
    intro j hj hlf
    by_cases hlt : j < l.scanned
    · exact h.no_lf j hlt hlf
    · exact hmin (j - l.scanned) (by omega) ((hbehind j (by omega)).1 hlf)

theorem occursAt_crlf (buffer : Bytes) (i : Nat) :
    OccursAt [cr, lf] buffer i ↔ buffer[i]? = some cr ∧ buffer[i + 1]? = some lf := by
  rw [occursAt_cons, occursAt_singleton]

/-- Where LF is first, CR LF or LF is the hit. -/
theorem hit_of_first_lf {buffer : Bytes} {i : Nat} (hlf : buffer[i]? = some lf)
    (hmin : ∀ j < i, buffer[j]? ≠ some lf) :
    if 0 < i ∧ buffer[i - 1]? = some cr then Hit Delimiters.line buffer (i - 1) [cr, lf]
    else Hit Delimiters.line buffer i [lf] := by
  split
  · next hcr =>
    obtain ⟨hpos, hcr⟩ := hcr
    have hhere : OccursAt [cr, lf] buffer (i - 1) :=
      (occursAt_crlf buffer (i - 1)).2 ⟨hcr, by rwa [Nat.sub_add_cancel hpos]⟩
    refine ⟨?_, by simp [Delimiters.line, hhere]⟩
    intro e he j hj hocc
    rcases Delimiters.mem_line.1 he with rfl | rfl
    · exact hmin (j + 1) (by omega) ((occursAt_crlf buffer j).1 hocc).2
    · exact hmin j (by omega) ((occursAt_singleton lf buffer j).1 hocc)
  · next hcr =>
    have hhere : OccursAt [lf] buffer i := (occursAt_singleton lf buffer i).2 hlf
    have hnot : ¬ OccursAt [cr, lf] buffer i := by
      intro hocc
      have hcr := ((occursAt_crlf buffer i).1 hocc).1
      rw [hlf] at hcr
      exact absurd hcr (by decide)
    refine ⟨?_, by simp [Delimiters.line, hhere, hnot]⟩
    intro e he j hj hocc
    rcases Delimiters.mem_line.1 he with rfl | rfl
    · obtain ⟨hj1, hj2⟩ := (occursAt_crlf buffer j).1 hocc
      by_cases hlast : j + 1 = i
      · subst hlast
        exact hcr ⟨by omega, hj1⟩
      · exact hmin (j + 1) (by omega) hj2
    · exact hmin j hj ((occursAt_singleton lf buffer j).1 hocc)

/-- The search from the remembered place on cuts where the search for both delimiters does. -/
theorem Remembers.lineEnd_eq_cut {l : Line} {buffer : Bytes} (h : l.Remembers buffer) :
    lineEnd l.scanned buffer = Delimiters.cut Delimiters.line buffer := by
  have hidx := h.first_lf
  cases hi : indexOf? [lf] (buffer.drop l.scanned) with
  | none =>
    rw [hi] at hidx
    have hu : Undelimited Delimiters.line buffer := by
      intro d hd i hocc
      rcases Delimiters.mem_line.1 hd with rfl | rfl
      · exact hidx (i + 1) ((occursAt_crlf buffer i).1 hocc).2
      · exact hidx i ((occursAt_singleton lf buffer i).1 hocc)
    rw [(Delimiters.cut_eq_none_iff Delimiters.line_ne_nil).2 hu, lineEnd, hi]
  | some behind =>
    rw [hi] at hidx
    have hit := hit_of_first_lf hidx.1 hidx.2
    rw [lineEnd, hi]
    dsimp only
    split at hit
    · next hcr =>
      rw [if_pos hcr, Delimiters.cut_eq_of_hit Delimiters.line_ne_nil hit]
      rfl
    · next hcr =>
      rw [if_neg hcr, Delimiters.cut_eq_of_hit Delimiters.line_ne_nil hit]
      rfl

/-- A line decoder that remembers right decodes as its framer does, and goes on to remember
right. -/
theorem Remembers.decode_framer {l : Line} {buffer : Bytes} (h : l.Remembers buffer) :
    (l.decode buffer).outcome = (l.framer.decode buffer).outcome ∧
      (l.decode buffer).rest = (l.framer.decode buffer).rest ∧
      (l.decode buffer).decoder.framer = (l.framer.decode buffer).decoder ∧
      (l.decode buffer).decoder.Remembers (l.decode buffer).rest := by
  unfold decode Framer.decode framer
  rw [h.lineEnd_eq_cut]
  dsimp only
  cases hcut : Delimiters.cut Delimiters.line buffer with
  | none =>
    cases l.mode with
    | normal =>
      dsimp only
      split
      · exact ⟨rfl, rfl, rfl, .of_scanned_eq_zero rfl _⟩
      · refine ⟨rfl, rfl, rfl, Nat.le_refl _, fun i _ hi => ?_⟩
        -- the whole buffer has been searched
        have hu := (Delimiters.cut_eq_none_iff Delimiters.line_ne_nil).1 hcut
        exact hu [lf] (by decide) i ((occursAt_singleton lf buffer i).2 hi)
    | discarding dropped => exact ⟨rfl, rfl, rfl, .of_scanned_eq_zero rfl _⟩
  | some lengths =>
    cases l.mode with
    | normal => exact ⟨rfl, rfl, rfl, .of_scanned_eq_zero rfl _⟩
    | discarding dropped => exact ⟨rfl, rfl, rfl, .of_scanned_eq_zero rfl _⟩

/-- A line decoder answers every call as its framer does. -/
theorem mirrors : Mirrors fun (l : Line) f b => l.framer = f ∧ l.Remembers b where
  calls _ := rfl
  grow h more := ⟨h.1, h.2.append more⟩
  outcome := by
    rintro l _ b ⟨rfl, h⟩
    exact h.decode_framer.1
  rest := by
    rintro l _ b ⟨rfl, h⟩
    exact h.decode_framer.2.1
  next := by
    rintro l _ b ⟨rfl, h⟩
    exact h.decode_framer.2.2

theorem ofPolicy_eq_ok_iff (policy : Policy) (l : Line) :
    ofPolicy policy = .ok l ↔ policy.check = .ok () ∧ l = { policy } := by
  cases hp : policy.check with
  | error e => simp [ofPolicy, hp, bind, Except.bind]
  | ok _ => simp [ofPolicy, hp, bind, Except.bind, pure, Except.pure, eq_comm]

/-- A line decoder splits at CR LF and LF. -/
theorem splitsAt {policy : Policy} {l : Line} (h : ofPolicy policy = .ok l) :
    SplitsAt Line.mode policy Delimiters.line l := by
  obtain ⟨-, rfl⟩ := (ofPolicy_eq_ok_iff policy l).1 h
  refine ⟨fun dropped length => dropped + length,
    fun _ _ => ⟨Nat.le_add_right _ _, Nat.le_refl _⟩, _, mirrors, ?_, rfl,
    .of_scanned_eq_zero rfl []⟩
  rintro l f b ⟨rfl, -⟩
  rfl

theorem exists_splitsAt {policy : Policy} (hpolicy : policy.check = .ok ()) :
    ∃ l, ofPolicy policy = .ok l ∧ SplitsAt Line.mode policy Delimiters.line l := by
  have h := (ofPolicy_eq_ok_iff policy _).2 ⟨hpolicy, rfl⟩
  exact ⟨_, h, splitsAt h⟩

theorem exists_framer {policy : Policy} {l : Line} (h : ofPolicy policy = .ok l) :
    ∃ f : Framer, f.policy = policy ∧ f.cut = Delimiters.cut Delimiters.line ∧ f.mode = .normal ∧
      (∀ dropped length, dropped ≤ f.overrun dropped length) ∧
      ∀ connection chunks,
        let fed := ({ decoder := l, connection } : Intake Line).feedAll chunks
        let framed := ({ decoder := f, connection } : Intake Framer).feedAll chunks
        fed.events = framed.events ∧ fed.intake.buffer = framed.intake.buffer ∧
          fed.intake.decoder.mode = framed.intake.decoder.mode :=
  (splitsAt h).exists_framer_mode

end Line

/-! ## The decoder for a list of delimiters -/

namespace Splitter

/-- The decoder that does the work, as a framer. -/
def framer (s : Splitter) : Framer :=
  match s.engine with
  | .inl scan => scan.framer
  | .inr line => line.framer

/-- What the decoder that does the work remembers of the buffer is true. -/
def Remembers (s : Splitter) (buffer : Bytes) : Prop :=
  ∀ line, s.engine = .inr line → line.Remembers buffer

theorem mode_framer (s : Splitter) : s.framer.mode = s.mode := by
  rw [framer, mode]
  cases s.engine <;> rfl

theorem Remembers.decode_framer {s : Splitter} {buffer : Bytes} (h : s.Remembers buffer) :
    (s.decode buffer).outcome = (s.framer.decode buffer).outcome ∧
      (s.decode buffer).rest = (s.framer.decode buffer).rest ∧
      (s.decode buffer).decoder.framer = (s.framer.decode buffer).decoder ∧
      (s.decode buffer).decoder.Remembers (s.decode buffer).rest := by
  obtain ⟨delimiters, scan | line⟩ := s
  · obtain ⟨hout, hrest, hdec⟩ := scan.decode_framer buffer
    exact ⟨hout, hrest, hdec, nofun⟩
  · obtain ⟨hout, hrest, hdec, hrem⟩ := (h line rfl).decode_framer
    refine ⟨hout, hrest, hdec, ?_⟩
    rintro _ ⟨⟩
    exact hrem

/-- The decoder answers every call as its framer does. -/
theorem mirrors : Mirrors fun (s : Splitter) f b => s.framer = f ∧ s.Remembers b where
  calls _ := rfl
  grow h more := ⟨h.1, fun line hl => (h.2 line hl).append more⟩
  outcome := by
    rintro s _ b ⟨rfl, h⟩
    exact h.decode_framer.1
  rest := by
    rintro s _ b ⟨rfl, h⟩
    exact h.decode_framer.2.1
  next := by
    rintro s _ b ⟨rfl, h⟩
    exact h.decode_framer.2.2

/-- A list passes the check when it has a member, and no empty one. -/
theorem check_eq_ok_iff (delimiters : List Bytes) :
    Delimiters.check delimiters = .ok () ↔ delimiters ≠ [] ∧ ∀ d ∈ delimiters, d ≠ [] := by
  have hany : delimiters.any List.isEmpty = false ↔ ∀ d ∈ delimiters, d ≠ [] := by simp
  rw [Delimiters.check, ← hany]
  cases delimiters.any List.isEmpty <;> cases delimiters <;> simp

theorem ofDelimiters_eq_ok_iff (policy : Policy) (delimiters : List Bytes) (s : Splitter) :
    ofDelimiters policy delimiters = .ok s ↔
      policy.check = .ok () ∧ delimiters ≠ [] ∧ (∀ d ∈ delimiters, d ≠ []) ∧
        s = { delimiters
              engine :=
                if Delimiters.isLine delimiters then .inr { policy }
                else .inl { delimiters, policy } } := by
  rw [← and_assoc (a := delimiters ≠ []), ← check_eq_ok_iff]
  cases hp : policy.check with
  | error e => simp [ofDelimiters, hp, bind, Except.bind]
  | ok _ =>
    cases hc : Delimiters.check delimiters with
    | error e => simp [ofDelimiters, hp, hc, bind, Except.bind]
    | ok _ =>
      simp only [ofDelimiters, hp, hc, bind, Except.bind, pure, Except.pure, Except.ok.injEq,
        true_and]
      exact eq_comm

/-- The delimiters of lines, in either order, cut where the line decoder does. -/
theorem cut_of_isLine {delimiters : List Bytes} (h : Delimiters.isLine delimiters) :
    Delimiters.cut delimiters = Delimiters.cut Delimiters.line := by
  simp only [Delimiters.isLine, Bool.or_eq_true, decide_eq_true_eq] at h
  rcases h with rfl | rfl
  · rfl
  · have hmem (d : Bytes) : d ∈ Delimiters.line ↔ d ∈ Delimiters.line.reverse := by simp
    exact (Delimiters.cut_congr Delimiters.prefixFree_line hmem Delimiters.line_ne_nil).symm

/-- The decoder built for a list splits at its members. -/
theorem splitsAt {policy : Policy} {delimiters : List Bytes} {s : Splitter}
    (h : ofDelimiters policy delimiters = .ok s) :
    SplitsAt Splitter.mode policy delimiters s := by
  obtain ⟨-, -, -, rfl⟩ := (ofDelimiters_eq_ok_iff policy delimiters s).1 h
  have hmode : ∀ (s : Splitter) f b, s.framer = f ∧ s.Remembers b → s.mode = f.mode := by
    rintro s _ b ⟨rfl, -⟩
    exact (mode_framer s).symm
  cases hline : Delimiters.isLine delimiters with
  | true =>
    refine ⟨fun dropped length => dropped + length,
      fun _ _ => ⟨Nat.le_add_right _ _, Nat.le_refl _⟩, _, mirrors, hmode, ?_, ?_⟩
    · simp only [framer, if_true, Line.framer, cut_of_isLine hline]
    · rintro line hl
      simp only [if_true, Sum.inr.injEq] at hl
      exact hl ▸ .of_scanned_eq_zero rfl []
  | false =>
    refine ⟨fun dropped _ => dropped, fun _ _ => ⟨Nat.le_refl _, Nat.le_add_right _ _⟩, _, mirrors,
      hmode, ?_, ?_⟩
    · simp [framer, Scan.framer]
    · rintro line hl
      simp at hl

theorem exists_splitsAt {policy : Policy} {delimiters : List Bytes}
    (hpolicy : policy.check = .ok ()) (hne : delimiters ≠ []) (hd : ∀ d ∈ delimiters, d ≠ []) :
    ∃ s, ofDelimiters policy delimiters = .ok s ∧ SplitsAt Splitter.mode policy delimiters s := by
  have h := (ofDelimiters_eq_ok_iff policy delimiters _).2 ⟨hpolicy, hne, hd, rfl⟩
  exact ⟨_, h, splitsAt h⟩

theorem exists_framer {policy : Policy} {delimiters : List Bytes} {s : Splitter}
    (h : ofDelimiters policy delimiters = .ok s) :
    ∃ f : Framer, f.policy = policy ∧ f.cut = Delimiters.cut delimiters ∧ f.mode = .normal ∧
      (∀ dropped length, dropped ≤ f.overrun dropped length) ∧
      ∀ connection chunks,
        let fed := ({ decoder := s, connection } : Intake Splitter).feedAll chunks
        let framed := ({ decoder := f, connection } : Intake Framer).feedAll chunks
        fed.events = framed.events ∧ fed.intake.buffer = framed.intake.buffer ∧
          fed.intake.decoder.mode = framed.intake.decoder.mode :=
  (splitsAt h).exists_framer_mode

end Splitter

end FrameLoop
