import FrameLoop.Proofs.Frame.LineScan

/-
  What a line decoder remembers of its buffer saves a search, and nothing else.

  As long as bytes only come in at the end of the buffer, the bytes remembered hold no LF
  (`Line.Remembers`), and a decoder that forgets them makes the same call (`decode_forget`).  So a
  line decoder can be compared with one that searches its whole buffer at each call, `Rescanning`,
  over any run (`scanned_changes_nothing`).
-/

namespace FrameLoop

open Bytes

/-! ## Decoders that answer alike, driven by hand -/

namespace Mirrors

variable {σ τ : Type} [Decoder σ] [Decoder τ] {related : σ → τ → Bytes → Prop}

theorem act (h : Mirrors related) {a : Buffered σ} {b : Buffered τ}
    (hab : related a.decoder b.decoder a.buffer) (hbuffer : a.buffer = b.buffer) {x : BufferAct}
    (hx : x.Orderly) :
    (a.act x).1 = (b.act x).1 ∧ (a.act x).2.buffer = (b.act x).2.buffer ∧
      related (a.act x).2.decoder (b.act x).2.decoder (a.act x).2.buffer := by
  obtain ⟨s, buffer⟩ := a
  obtain ⟨t, buffer'⟩ := b
  obtain rfl : buffer = buffer' := hbuffer
  cases x with
  | append bytes => exact ⟨rfl, rfl, h.grow hab bytes⟩
  | replace bytes => exact hx.elim
  | dropFront count => exact hx.elim
  | decode => exact ⟨congrArg some (h.outcome hab), h.rest hab, h.next hab⟩

theorem run (h : Mirrors related) {a : Buffered σ} {b : Buffered τ}
    (hab : related a.decoder b.decoder a.buffer) (hbuffer : a.buffer = b.buffer)
    {acts : List BufferAct} (hacts : ∀ x ∈ acts, x.Orderly) :
    (a.run acts).1 = (b.run acts).1 ∧ (a.run acts).2.buffer = (b.run acts).2.buffer ∧
      related (a.run acts).2.decoder (b.run acts).2.decoder (a.run acts).2.buffer := by
  induction acts generalizing a b with
  | nil => exact ⟨rfl, hbuffer, hab⟩
  | cons x acts ih =>
    obtain ⟨hout, hnext, hrel⟩ := h.act hab hbuffer (hacts x List.mem_cons_self)
    obtain ⟨houts, hlast⟩ := ih hrel hnext fun y hy => hacts y (List.mem_cons_of_mem x hy)
    refine ⟨?_, hlast⟩
    simp only [Buffered.run]
    rw [hout, houts]

end Mirrors

/-! ## A line decoder that forgets -/

namespace Line

/-- The decoder without what it remembers of its buffer. -/
def forget (l : Line) : Line := { l with scanned := 0 }

namespace Remembers

variable {l : Line} {buffer : Bytes}

/-- The search from the remembered place on finds what the search of the whole buffer does. -/
theorem lineEnd_eq (h : l.Remembers buffer) : lineEnd l.scanned buffer = lineEnd 0 buffer := by
  have hforgets : l.forget.Remembers buffer := .of_scanned_eq_zero rfl buffer
  rw [h.lineEnd_eq_cut]
  exact hforgets.lineEnd_eq_cut.symm

theorem decode_forget (h : l.Remembers buffer) : l.forget.decode buffer = l.decode buffer := by
  unfold decode
  rw [h.lineEnd_eq]
  rfl

theorem lf_not_mem (h : l.Remembers buffer) : lf ∉ buffer.take l.scanned := by
  intro hmem
  obtain ⟨i, hi⟩ := List.mem_iff_getElem?.1 hmem
  rw [List.getElem?_take] at hi
  split at hi
  · next hlt => exact h.no_lf i hlt hi
  · cases hi

end Remembers

end Line

/-- A line decoder that searches its whole buffer at each call. -/
structure Rescanning where
  line : Line
  deriving DecidableEq, Repr

namespace Rescanning

/-- One call. -/
def decode (r : Rescanning) (buffer : Bytes) : Turn Rescanning :=
  let turn := r.line.forget.decode buffer
  { turn with decoder := ⟨turn.decoder⟩ }

instance : Decoder Rescanning where
  decode := decode

/-- The decoder that searches anew makes each call of a line decoder that remembers right. -/
theorem mirrors : Mirrors fun (l : Line) (r : Rescanning) b => r.line = l ∧ l.Remembers b where
  calls _ := rfl
  grow h more := ⟨h.1, h.2.append more⟩
  outcome := by
    rintro l ⟨_⟩ b ⟨rfl, h⟩
    exact congrArg Turn.outcome h.decode_forget.symm
  rest := by
    rintro l ⟨_⟩ b ⟨rfl, h⟩
    exact congrArg Turn.rest h.decode_forget.symm
  next := by
    rintro l ⟨_⟩ b ⟨rfl, h⟩
    exact ⟨congrArg Turn.decoder h.decode_forget, h.decode_framer.2.2.2⟩

end Rescanning

/-- Whatever bytes come in at the end of the buffer and whenever the decoder is called: at each call
the bytes remembered lie in the buffer and hold no LF, and the call is the one of a decoder that
remembers nothing.  So the whole run is that of a decoder which always searches everything. -/
theorem scanned_changes_nothing {policy : Policy} {l : Line} (hl : Line.ofPolicy policy = .ok l)
    {acts : List BufferAct} (hacts : ∀ a ∈ acts, a.Orderly) :
    (∀ before, before ++ [.decode] <+: acts →
      let b := (Buffered.run ⟨l, []⟩ before).2
      b.decoder.scanned ≤ b.buffer.length ∧ lf ∉ b.buffer.take b.decoder.scanned ∧
        { b.decoder with scanned := 0 }.decode b.buffer = b.decoder.decode b.buffer) ∧
    let run := Buffered.run ⟨l, []⟩ acts
    let rescanned := Buffered.run ⟨(⟨l⟩ : Rescanning), []⟩ acts
    run.1 = rescanned.1 ∧ run.2.buffer = rescanned.2.buffer ∧
      run.2.decoder = rescanned.2.decoder.line := by
  obtain ⟨-, rfl⟩ := (Line.ofPolicy_eq_ok_iff policy l).1 hl
  have hfresh : Line.Remembers { policy } [] := .of_scanned_eq_zero rfl []
  have hrun {xs : List BufferAct} (hxs : ∀ a ∈ xs, a.Orderly) :=
    Rescanning.mirrors.run (a := ⟨{ policy }, []⟩) (b := ⟨⟨{ policy }⟩, []⟩) ⟨rfl, hfresh⟩ rfl hxs
  constructor
  · rintro before ⟨behind, rfl⟩
    have hbefore : ∀ a ∈ before, a.Orderly := fun a ha =>
      hacts a (List.mem_append_left _ (List.mem_append_left _ ha))
    obtain ⟨-, -, -, hremembers⟩ := hrun hbefore
    exact ⟨hremembers.le_length, hremembers.lf_not_mem, hremembers.decode_forget⟩
  · obtain ⟨hout, hbuffer, hline, -⟩ := hrun hacts
    exact ⟨hout, hbuffer, hline.symm⟩

/-- A line comes in three pieces, the second of which ends between CR and LF; a line that is dropped
follows, and an empty one. -/
theorem scanned_changes_nothing_pieces :
    let policy : Policy := { maxLength := 4 }
    let acts : List BufferAct := [.append [1, 2], .decode, .append [3, cr], .decode,
      .append [lf, 4, 5, 6, 7, 8], .decode, .decode, .append [9, lf, lf], .decode, .decode]
    ∃ l, Line.ofPolicy policy = .ok l ∧
      (Buffered.run ⟨(⟨l⟩ : Rescanning), []⟩ acts).1 =
        [.nothing, .nothing, .frame [1, 2, 3], .failed (.tooLong 4 5), .nothing, .frame []] ∧
      (Buffered.run ⟨l, []⟩ acts).1 = (Buffered.run ⟨(⟨l⟩ : Rescanning), []⟩ acts).1 ∧
      let b := (Buffered.run ⟨l, []⟩ (acts.take 5)).2
      b.decoder.scanned = 4 ∧
        { b.decoder with scanned := 0 }.decode b.buffer = b.decoder.decode b.buffer := by
  intro policy acts
  have hacts : ∀ a ∈ acts, a.Orderly := by simp [acts, BufferAct.Orderly]
  have hl : Line.ofPolicy policy = .ok { policy } := rfl
  obtain ⟨hcalls, hrun, -, -⟩ := scanned_changes_nothing hl hacts
  obtain ⟨-, -, hcall⟩ := hcalls (acts.take 5) ⟨acts.drop 6, rfl⟩
  exact ⟨_, hl, by decide +kernel, hrun, by decide +kernel, hcall⟩

end FrameLoop
