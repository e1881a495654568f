import FrameLoop.Frame.Buffered
import FrameLoop.Proofs.Frame.Framer

/-
  The line decoder against the scan for CR LF and LF.

  Both are driven by hand, by the same appends and calls, from an empty buffer on.  `Paired` is what
  every such act preserves: the same buffer, the same mode, and a line decoder that remembers right.
  So both are framers that cut alike, and they differ in one thing: the length that they report at
  the end of an episode of dropping (`line_agrees_with_scan`).
-/

namespace FrameLoop

open Bytes

/-- Bytes come in at the end of the buffer only, and the decoder sees to what is taken out. -/
def BufferAct.Orderly : BufferAct → Prop
  | append _ => True
  | replace _ => False
  | dropFront _ => False
  | decode => True

/-- A call in this mode on this buffer ends an episode that is reported at its end: `dropped` bytes
are gone, and `length` more come before the delimiter. -/
structure ReportsLate (policy : Policy) (delimiters : List Bytes) (mode : Mode) (buffer : Bytes)
    (dropped length : Nat) : Prop where
  late : policy.failFast = false
  mode : mode = .discarding dropped
  hit : ∃ d, Hit delimiters buffer length d

/-! ## Two framers that cut alike -/

namespace Framer

variable {f g : Framer}

/-- They take the same bytes, change into the same mode, and answer alike but for the report at the
end of an episode. -/
theorem decode_alike (buffer : Bytes) (hp : f.policy = g.policy) (hm : f.mode = g.mode)
    (hc : f.cut buffer = g.cut buffer) :
    (f.decode buffer).rest = (g.decode buffer).rest ∧
      (f.decode buffer).decoder.mode = (g.decode buffer).decoder.mode ∧
      ((∀ dropped lengths, g.mode = .discarding dropped → g.cut buffer = some lengths →
          g.policy.failFast = true) →
        (f.decode buffer).outcome = (g.decode buffer).outcome) := by
  unfold decode
  rw [hp, hm, hc]
  split
  · exact ⟨rfl, hm, fun _ => rfl⟩
  · next length width dropped hcut hmode =>
    refine ⟨rfl, rfl, fun hfast => ?_⟩
    have hff : g.policy.failFast = true := hfast dropped (length, width) hmode hcut
    simp only [hff, if_true]
  · split
    · exact ⟨rfl, rfl, fun _ => rfl⟩
    · exact ⟨rfl, hm, fun _ => rfl⟩
  · exact ⟨rfl, rfl, fun _ => rfl⟩

end Framer

/-! ## The two decoders -/

/-- A line decoder and a scan that were treated alike. -/
structure Paired (policy : Policy) (delimiters : List Bytes) (line : Buffered Line)
    (scan : Buffered Scan) : Prop where
  buffer : line.buffer = scan.buffer
  lineFramer : line.decoder.framer =
    { policy
      cut := Delimiters.cut delimiters
      overrun := fun dropped length => dropped + length
      mode := scan.decoder.mode }
  scanFramer : scan.decoder.framer =
    { policy
      cut := Delimiters.cut delimiters
      overrun := fun dropped _ => dropped
      mode := scan.decoder.mode }
  remembers : line.decoder.Remembers line.buffer

namespace Paired

variable {policy : Policy} {delimiters : List Bytes} {line : Buffered Line} {scan : Buffered Scan}

theorem fresh (policy : Policy) (hmem : ∀ d, d ∈ delimiters ↔ d ∈ Delimiters.line) :
    Paired policy delimiters ⟨{ policy }, []⟩ ⟨{ delimiters, policy }, []⟩ := by
  have hcut := Delimiters.cut_congr Delimiters.prefixFree_line (fun d => (hmem d).symm)
    Delimiters.line_ne_nil
  refine ⟨rfl, ?_, rfl, .of_scanned_eq_zero rfl []⟩
  rw [Line.framer, hcut]

/-- What the next call gives. -/
theorem turn (h : Paired policy delimiters line scan) :
    let l := line.decoder.decode line.buffer
    let s := scan.decoder.decode scan.buffer
    l.rest = s.rest ∧ l.decoder.mode = s.decoder.mode ∧
      ((∀ dropped lengths, scan.decoder.mode = .discarding dropped →
          Delimiters.cut delimiters scan.buffer = some lengths → policy.failFast = true) →
        l.outcome = s.outcome) := by
  obtain ⟨hlout, hlrest, hldec, -⟩ := h.remembers.decode_framer
  obtain ⟨hsout, hsrest, hsdec⟩ := scan.decoder.decode_framer scan.buffer
  obtain ⟨hrest, hmode, hout⟩ :=
    Framer.decode_alike (f := line.decoder.framer) (g := scan.decoder.framer) scan.buffer
      (by rw [h.lineFramer, h.scanFramer])
      (by rw [h.lineFramer, h.scanFramer]) (by rw [h.lineFramer, h.scanFramer])
  rw [h.buffer] at hlout hlrest hldec
  refine ⟨?_, ?_, ?_⟩
  · rw [h.buffer, hlrest, hrest, hsrest]
  · have hl := congrArg Framer.mode hldec
    have hs := congrArg Framer.mode hsdec
    rw [← hmode, ← hl] at hs
    rw [h.buffer]
    exact hs.symm
  · intro hlate
    rw [h.scanFramer] at hout
    rw [h.buffer, hlout, hout hlate, ← h.scanFramer, hsout]

theorem late (h : Paired policy delimiters line scan) {dropped length width : Nat}
    (hmode : scan.decoder.mode = .discarding dropped)
    (hcut : Delimiters.cut delimiters scan.buffer = some (length, width))
    (hlate : policy.failFast = false) :
    (scan.decoder.decode scan.buffer).outcome = .failed (policy.tooLong dropped) ∧
      (line.decoder.decode line.buffer).outcome =
        .failed (policy.tooLong (dropped + length)) := by
  obtain ⟨hlout, -⟩ := h.remembers.decode_framer
  obtain ⟨hsout, -⟩ := scan.decoder.decode_framer scan.buffer
  constructor
  · rw [h.scanFramer, Framer.decode_resume hcut hmode] at hsout
    simpa [hlate] using hsout
  · rw [h.lineFramer, h.buffer, Framer.decode_resume hcut hmode] at hlout
    rw [h.buffer]
    simpa [hlate] using hlout

theorem decode (h : Paired policy delimiters line scan) :
    Paired policy delimiters (line.act .decode).2 (scan.act .decode).2 := by
  obtain ⟨hrest, hmode, -⟩ := h.turn
  obtain ⟨-, -, hldec, hrem⟩ := h.remembers.decode_framer
  obtain ⟨-, -, hsdec⟩ := scan.decoder.decode_framer scan.buffer
  have hline := Framer.eq_of_decode hldec
  have hscan := Framer.eq_of_decode hsdec
  rw [h.lineFramer] at hline
  rw [h.scanFramer] at hscan
  refine ⟨hrest, hline.trans ?_, hscan, hrem⟩
  exact congrArg (Framer.mk policy (Delimiters.cut delimiters) _) hmode

theorem act (h : Paired policy delimiters line scan) {a : BufferAct} (ha : a.Orderly) :
    Paired policy delimiters (line.act a).2 (scan.act a).2 := by
  cases a with
  | append bytes =>
    exact ⟨congrArg (· ++ bytes) h.buffer, h.lineFramer, h.scanFramer, h.remembers.append bytes⟩
  | replace bytes => exact ha.elim
  | dropFront count => exact ha.elim
  | decode => exact h.decode

theorem run (h : Paired policy delimiters line scan) {acts : List BufferAct}
    (hacts : ∀ a ∈ acts, a.Orderly) :
    Paired policy delimiters (line.run acts).2 (scan.run acts).2 := by
  induction acts generalizing line scan with
  | nil => exact h
  | cons a acts ih =>
    simp only [Buffered.run]
    exact ih (h.act (hacts a List.mem_cons_self)) fun b hb => hacts b (List.mem_cons_of_mem a hb)

end Paired

/-- The line decoder and the scan for CR LF and LF, whatever bytes come in and whenever they are
called: they leave the same bytes in the same mode, and answer alike, except that the line decoder
counts the bytes before the delimiter into the length that it reports at the end of an episode. -/
theorem line_agrees_with_scan (policy : Policy) {delimiters : List Bytes}
    (hmem : ∀ d, d ∈ delimiters ↔ d ∈ Delimiters.line) {acts : List BufferAct}
    (hacts : ∀ a ∈ acts, a.Orderly) :
    let line := (Buffered.run ⟨({ policy } : Line), []⟩ acts).2
    let scan := (Buffered.run ⟨({ delimiters, policy } : Scan), []⟩ acts).2
    let lineTurn := line.decoder.decode line.buffer
    let scanTurn := scan.decoder.decode scan.buffer
    line.buffer = scan.buffer ∧ line.decoder.mode = scan.decoder.mode ∧
      lineTurn.rest = scanTurn.rest ∧ lineTurn.decoder.mode = scanTurn.decoder.mode ∧
      (∀ dropped length,
        ReportsLate policy delimiters scan.decoder.mode scan.buffer dropped length →
          scanTurn.outcome = .failed (policy.tooLong dropped) ∧
          lineTurn.outcome = .failed (policy.tooLong (dropped + length))) ∧
      ((∀ dropped length,
        ¬ ReportsLate policy delimiters scan.decoder.mode scan.buffer dropped length) →
          lineTurn.outcome = scanTurn.outcome) := by
  intro line scan lineTurn scanTurn
  have h : Paired policy delimiters line scan := (Paired.fresh policy hmem).run hacts
  have hd : ∀ d ∈ delimiters, d ≠ [] := fun d hd => Delimiters.line_ne_nil d ((hmem d).1 hd)
  obtain ⟨hrest, hmode, hout⟩ := h.turn
  refine ⟨h.buffer, congrArg Framer.mode h.lineFramer, hrest, hmode, ?_, ?_⟩
  · rintro dropped length ⟨hlate, hm, d, hit⟩
    exact h.late hm (Delimiters.cut_eq_of_hit hd hit) hlate
  · intro hnot
    refine hout fun dropped lengths hm hcut => ?_
    by_contra hfast
    obtain ⟨d, hit, -⟩ := (Delimiters.cut_eq_some_iff hd lengths.1 lengths.2).1 hcut
    exact hnot dropped lengths.1 ⟨by simpa using hfast, hm, d, hit⟩

/-- A line that is dropped in two pieces: the list CR LF, LF, LF is scanned for, and the scan
reports one byte less than the line decoder. -/
theorem line_differs_from_scan :
    let policy : Policy := { maxLength := 4, failFast := false }
    let delimiters : List Bytes := [[cr, lf], [lf], [lf]]
    let acts : List BufferAct := [.append [1, 2, 3, 4, 5, cr], .decode, .append [7, cr, lf, 8]]
    let line := (Buffered.run ⟨({ policy } : Line), []⟩ acts).2
    let scan := (Buffered.run ⟨({ delimiters, policy } : Scan), []⟩ acts).2
    Splitter.ofDelimiters policy delimiters =
        .ok { delimiters, engine := .inl { delimiters, policy } } ∧
      (scan.decoder.decode scan.buffer).outcome = .failed (.tooLong 4 6) ∧
      (line.decoder.decode line.buffer).outcome = .failed (.tooLong 4 7) := by
  intro policy delimiters acts line scan
  have hmem : ∀ d, d ∈ delimiters ↔ d ∈ Delimiters.line := by
    simp [delimiters, Delimiters.line]
  have hacts : ∀ a ∈ acts, a.Orderly := by
    simp [acts, BufferAct.Orderly]
  have hit : Hit delimiters scan.buffer 1 [cr, lf] :=
    (Scan.shortest_eq_some_iff (by decide) 1 [cr, lf]).1 (by decide)
  have h := line_agrees_with_scan policy hmem hacts
  exact ⟨by decide, h.2.2.2.2.1 6 1 ⟨rfl, by decide, [cr, lf], hit⟩⟩

end FrameLoop
