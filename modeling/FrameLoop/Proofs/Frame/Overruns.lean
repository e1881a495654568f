import FrameLoop.Proofs.Frame.Lines
import FrameLoop.Proofs.Frame.Longest
import FrameLoop.Proofs.Frame.Resuming

/-
  The length that is reported of an oversized line, where reports are made late.

  It is put together from what was dropped chunk by chunk and what stands in front of the LF in the
  last chunk.  The CR of the end of the line is left out if it stands there too.  If a chunk ends
  between the CR and the LF, the CR has been dropped, and is counted to the line
  (`oversized_line_told`).  So the length depends on where the chunks end (`oversized_line_longer`).
-/

namespace FrameLoop

open Bytes

/-! ## Lines in two pieces -/

theorem Segment.ofLine_append (front : Bytes) {piece : Bytes} (h : piece ≠ []) :
    (ofLine (front ++ piece)).body = front ++ (ofLine piece).body ∧
      (ofLine (front ++ piece)).delimiter = (ofLine piece).delimiter := by
  have hlast : (front ++ piece).getLast? = piece.getLast? := by
    rw [List.getLast?_append, List.getLast?_eq_some_getLast h, Option.some_or]
  unfold ofLine
  rw [hlast]
  split
  · exact ⟨List.dropLast_append_of_ne_nil h, rfl⟩
  · exact ⟨rfl, rfl⟩

theorem Segment.length_ofLine (line : Bytes) :
    (ofLine line).body.length + (ofLine line).delimiter.length = line.length + 1 := by
  rw [← List.length_append]
  exact (congrArg List.length (bytes_ofLine line)).trans List.length_append

theorem Segment.length_body_ofLine_le (line : Bytes) :
    (ofLine line).body.length ≤ line.length := by
  unfold ofLine
  split
  · exact (List.dropLast_prefix line).length_le
  · exact Nat.le_refl _

theorem cuts_line {line : Bytes} (h : lf ∉ line) :
    Cuts Delimiters.line (line ++ [lf]) [.ofLine line] [] := by
  have hcuts := cuts_lines (line ++ [lf])
  rwa [lines_append_cons h, unended_append_cons h, lines_of_not_mem List.not_mem_nil,
    unended_of_not_mem List.not_mem_nil] at hcuts

/-- The chunks of a line and LF: those before the last one that has bytes hold the front of the
line, and this one holds the rest of it and LF. -/
theorem exists_last_piece {line : Bytes} {chunks : List Bytes}
    (h : chunks.flatten = line ++ [lf]) :
    ∃ fed piece after, chunks = fed ++ (piece ++ [lf]) :: after ∧ line = fed.flatten ++ piece ∧
      after.flatten = [] := by
  have hlen : chunks.flatten.length = line.length + 1 := by
    rw [h, List.length_append, List.length_singleton]
  obtain ⟨fed, chunk, after, rfl, hfed, hcross⟩ :=
    exists_crossing (show line.length < chunks.flatten.length by omega)
  rw [List.flatten_append, List.flatten_cons, ← List.append_assoc] at h hlen
  rw [List.length_append] at hlen
  have hafter : after.flatten = [] := List.length_eq_zero_iff.1 (by omega)
  rw [hafter, List.append_nil] at h
  have hfront : fed.flatten <+: line :=
    List.prefix_of_prefix_length_le (h ▸ List.prefix_append _ _) (List.prefix_append _ _) hfed
  obtain ⟨piece, rfl⟩ := hfront
  rw [List.append_assoc] at h
  rw [List.append_cancel_left h]
  exact ⟨fed, piece, after, rfl, rfl, hafter⟩

/-! ## Feeds -/

section Feeds

variable {a : Intake Framer}

/-- A line without its LF, where reports are made late: nothing is told of it, and it is kept or
dropped. -/
theorem feedAll_unended (hcut : a.decoder.cut = Delimiters.cut Delimiters.line)
    (hover : ∀ dropped length, dropped ≤ a.decoder.overrun dropped length)
    (hlate : a.decoder.policy.failFast = false) (hmode : a.decoder.mode = .normal)
    (hbuffer : a.buffer = []) {chunks : List Bytes} (hlf : lf ∉ chunks.flatten) :
    (a.feedAll chunks).events = [] ∧
      (a.feedAll chunks).intake =
        { a with
          decoder := { a.decoder with mode := a.decoder.policy.modeOver chunks.flatten }
          buffer := a.decoder.policy.keep chunks.flatten } := by
  have hsame : a = { decoder := a.decoder, connection := a.connection } := by
    rw [← hbuffer]
  have hfed := Accounted.feedAll Delimiters.line_ne_nil Delimiters.prompt_line hcut hmode
    a.connection (.rest (undelimited_line_iff.2 hlf)) (by
      intro before now later rest rest' chunk events b hsegs hlong hu hnow h
      have hnone : now = [] := by
        have := List.append_eq_nil_iff.1 hsegs.symm
        exact (List.append_eq_nil_iff.1 this.1).2
      subst hnone
      exact h.feed_line hcut hover hlong hu hnow (by simp))
  rw [← hsame] at hfed
  obtain ⟨told, pending, hevents, htold, hpending⟩ := hfed.events
  rw [Policy.TellsOfRest, if_neg (by simp [hlate])] at hpending
  rw [List.forall₂_nil_left_iff.1 htold, hpending] at hevents
  have hpoised :=
    Poised.feedAll (a := a) ⟨rfl, fun _ _ => hbuffer⟩ Delimiters.line_ne_nil hcut chunks
  refine ⟨hevents, hpoised.same.trans ?_⟩
  rw [hfed.decoder, hfed.buffer]

end Feeds

/-- What is told of a line over the limit: one report.  Its length is that of the line without its
end, and one more if a chunk ends inside of the end. -/
structure TellsOfOversized (policy : Policy) (segment : Segment) (chunks : List Bytes)
    (events : List FrameEvent) : Prop where
  whole :
    ¬ EndsBetween chunks segment.body.length (segment.body.length + segment.delimiter.length) →
      events = [.failed (policy.tooLong segment.body.length)]
  inside :
    EndsBetween chunks segment.body.length (segment.body.length + segment.delimiter.length) →
      events = [.failed (policy.tooLong (segment.body.length + 1))]

section Oversized

variable {a : Intake Framer} {line : Bytes}

/-- The last chunk of a line of which everything was kept. -/
theorem feed_kept_line (hcut : a.decoder.cut = Delimiters.cut Delimiters.line)
    (hmode : a.decoder.mode = .normal) {chunk : Bytes} (hline : lf ∉ line)
    (hchunk : a.buffer ++ chunk = line ++ [lf])
    (hlong : a.decoder.policy.maxLength < (Segment.ofLine line).body.length) :
    (a.feed chunk).events =
        [.failed (a.decoder.policy.tooLong (Segment.ofLine line).body.length)] ∧
      (a.feed chunk).intake = { a with buffer := [] } := by
  obtain ⟨hevents, hintake⟩ :=
    feed_normal Delimiters.line_ne_nil hcut hmode (hchunk ▸ cuts_line hline)
  rw [Policy.tellRest_nil, List.append_nil, List.map_singleton, Policy.tell, if_pos hlong] at hevents
  rw [Policy.modeOver_nil, Policy.keep_nil, ← hmode] at hintake
  exact ⟨hevents, hintake⟩

/-- The last chunk of a line of which something was dropped. -/
theorem feed_dropped_line (hcut : a.decoder.cut = Delimiters.cut Delimiters.line)
    (hlate : a.decoder.policy.failFast = false) {dropped : Nat}
    (hmode : a.decoder.mode = .discarding dropped) (hbuffer : a.buffer = []) {piece : Bytes}
    (hpiece : lf ∉ piece) :
    (a.feed (piece ++ [lf])).events =
        [.failed (a.decoder.policy.tooLong
          (a.decoder.overrun dropped (Segment.ofLine piece).body.length))] ∧
      (a.feed (piece ++ [lf])).intake =
        { a with decoder := { a.decoder with mode := .normal }, buffer := [] } := by
  have hnil : Cuts Delimiters.line ([] : Bytes) [] [] :=
    .rest (undelimited_nil Delimiters.line_ne_nil)
  rw [← drop_ofLine piece []] at hnil
  obtain ⟨hevents, hintake⟩ :=
    feed_resume Delimiters.line_ne_nil hcut hmode hbuffer (hit_ofLine hpiece []) hnil
  rw [drop_ofLine, Policy.tellRest_nil, List.append_nil, List.map_nil, List.append_nil, hlate]
    at hevents
  rw [drop_ofLine, Policy.modeOver_nil, Policy.keep_nil] at hintake
  exact ⟨hevents, hintake⟩

/-- What a framer tells of a line that is longer than the limit, where it counts everything in
front of the end of the line.  Nothing of the line is left. -/
theorem framer_oversized_line (hcut : a.decoder.cut = Delimiters.cut Delimiters.line)
    (hover : ∀ dropped length, a.decoder.overrun dropped length = dropped + length)
    (hlate : a.decoder.policy.failFast = false) (hmode : a.decoder.mode = .normal)
    (hbuffer : a.buffer = []) {fed after : List Bytes} {piece : Bytes}
    (hline : lf ∉ fed.flatten ++ piece) (hafter : after.flatten = [])
    (hlong : a.decoder.policy.maxLength < (Segment.ofLine (fed.flatten ++ piece)).body.length) :
    let length :=
      if a.decoder.policy.maxLength < fed.flatten.length then
        fed.flatten.length + (Segment.ofLine piece).body.length
      else (Segment.ofLine (fed.flatten ++ piece)).body.length
    (a.feedAll (fed ++ (piece ++ [lf]) :: after)).events =
        [.failed (a.decoder.policy.tooLong length)] ∧
      (a.feedAll (fed ++ (piece ++ [lf]) :: after)).intake = a := by
  intro length
  obtain ⟨hfront, hpiece⟩ := not_or.1 (mt List.mem_append.2 hline)
  obtain ⟨hnone, hleft⟩ := feedAll_unended hcut
    (fun dropped length => by rw [hover]; omega) hlate hmode hbuffer hfront
  obtain ⟨hevents, hintake⟩ := Intake.feedAll_append a fed ((piece ++ [lf]) :: after)
  rw [hevents, hintake, hnone, List.nil_append]
  have hsame : ({ a with decoder := { a.decoder with mode := .normal }, buffer := [] } :
      Intake Framer) = a := by
    rw [← hmode, ← hbuffer]
  -- the chunk with the LF ends the line, whether it was kept or dropped
  have hend : ((a.feedAll fed).intake.feed (piece ++ [lf])).events =
        [.failed (a.decoder.policy.tooLong length)] ∧
      ((a.feedAll fed).intake.feed (piece ++ [lf])).intake = a := by
    rw [hleft]
    unfold Policy.modeOver Policy.keep length
    split
    · have hfed := feed_dropped_line (a := { a with
        decoder := { a.decoder with mode := .discarding fed.flatten.length }, buffer := [] })
        hcut hlate rfl rfl hpiece
      refine ⟨?_, hfed.2.trans hsame⟩
      rw [← hover]
      exact hfed.1
    · have hchunk : fed.flatten ++ (piece ++ [lf]) = fed.flatten ++ piece ++ [lf] :=
        (List.append_assoc _ _ _).symm
      have hfed := feed_kept_line (a := { a with
        decoder := { a.decoder with mode := .normal }, buffer := fed.flatten })
        hcut rfl hline hchunk hlong
      exact ⟨hfed.1, hfed.2.trans hsame⟩
  obtain ⟨hmore, hrest⟩ := feedAll_cons_empty Delimiters.line_ne_nil
    (by rw [hend.2]; exact hcut) (by rw [hend.2]; exact hmode) (by rw [hend.2]; exact hbuffer) hafter
  rw [hmore, hrest]
  exact hend

end Oversized

/-- The length that is put together from a line in two pieces, the front of which is dropped.  It
is that of the line without its end, unless a chunk ends inside of the end. -/
theorem length_in_pieces (fed : List Bytes) (piece : Bytes) (after : List Bytes) :
    let line := Segment.ofLine (fed.flatten ++ piece)
    let inside := EndsBetween (fed ++ (piece ++ [lf]) :: after) line.body.length
      (line.body.length + line.delimiter.length)
    let length := fed.flatten.length + (Segment.ofLine piece).body.length
    (¬ inside → length = line.body.length) ∧
      (inside → length = line.body.length + 1 ∧ line.body.length < fed.flatten.length) := by
  intro line inside length
  have hends :
      line.body.length + line.delimiter.length = fed.flatten.length + piece.length + 1 := by
    rw [Segment.length_ofLine, List.length_append]
  by_cases hpiece : piece = []
  · -- everything in front of the LF is in the chunks before it
    have hlength : length = fed.flatten.length := by
      simp only [length, hpiece]
      rfl
    rw [hpiece, List.length_nil] at hends
    rcases Segment.ofLine_cases (fed.flatten ++ piece) with ⟨body, -, heq⟩ | ⟨-, heq⟩
    · have hdelimiter : line.delimiter.length = 2 := by
        simp only [line, heq]
        rfl
      have hinside : inside := ⟨fed, List.prefix_append _ _, by omega, by omega⟩
      exact ⟨fun h => absurd hinside h, fun _ => by omega⟩
    · have hdelimiter : line.delimiter.length = 1 := by
        simp only [line, heq]
        rfl
      refine ⟨fun _ => by omega, ?_⟩
      rintro ⟨fed', -, hstart, hstop⟩
      omega
  · -- the whole end of the line is in the last piece
    obtain ⟨hbody, hdelimiter⟩ := Segment.ofLine_append fed.flatten hpiece
    have hlength : line.body.length = length := by
      simp only [line, hbody, List.length_append, length]
    have hlast := Segment.length_body_ofLine_le piece
    have hcross : line.body.length < (fed.flatten ++ (piece ++ [lf])).length := by
      simp only [List.length_append, List.length_singleton]
      omega
    have hnot : ¬ inside := by
      intro hinside
      have hstop := (endsBetween_iff (by omega) hcross).1 hinside
      simp only [List.length_append, List.length_singleton] at hstop
      omega
    exact ⟨fun _ => hlength.symm, fun h => absurd h hnot⟩

/-- A line that is longer than the limit, where reports are made late, however it is cut into chunks
and whatever was fed before.  There is one report on it, with the length of the line without its
end, unless a chunk ends between the CR and the LF: then the CR is counted too.  Nothing of the line
is left. -/
theorem oversized_line_told {policy : Policy} (hpolicy : policy.check = .ok ())
    (hlate : policy.failFast = false) (connection : Nat) (before : List Bytes) {line : Bytes}
    (hline : lf ∉ line) (hlong : policy.maxLength < (Segment.ofLine line).body.length)
    {chunks : List Bytes} (hchunks : chunks.flatten = line ++ [lf]) :
    ∃ l, Line.ofPolicy policy = .ok l ∧
      let start := (({ decoder := l, connection } : Intake Line).feedAll before).intake
      start.buffer = [] → start.decoder.mode = .normal →
        let fed := start.feedAll chunks
        TellsOfOversized policy (.ofLine line) chunks fed.events ∧
          fed.intake.buffer = [] ∧ fed.intake.decoder.mode = .normal := by
  refine ⟨{ policy }, (Line.ofPolicy_eq_ok_iff policy _).2 ⟨hpolicy, rfl⟩, ?_⟩
  intro start hbuffer hmode fed
  let fresh : Intake Framer := { decoder := ({ policy } : Line).framer, connection }
  let framed : Intake Framer := { start with decoder := start.decoder.framer }
  have hcut : fresh.decoder.cut = Delimiters.cut Delimiters.line := rfl
  -- the feeds before leave the policy as it was
  obtain ⟨-, -, hframer, hremembers⟩ := Line.mirrors.feedAll before
    (a := ({ decoder := { policy }, connection } : Intake Line)) (b := fresh)
    ⟨rfl, .of_scanned_eq_zero rfl _⟩ rfl
  have hpoised :=
    Poised.feedAll (a := fresh) ⟨rfl, fun _ _ => rfl⟩ Delimiters.line_ne_nil hcut before
  have hsame : framed.decoder.policy = policy :=
    (congrArg Framer.policy hframer).trans hpoised.policy
  obtain ⟨hevents, hrest, hdecoder, -⟩ := Line.mirrors.feedAll chunks (a := start) (b := framed)
    ⟨rfl, hremembers⟩ rfl
  obtain ⟨earlier, piece, after, rfl, rfl, hafter⟩ := exists_last_piece hchunks
  obtain ⟨htold, hleft⟩ := framer_oversized_line (a := framed) rfl (fun _ _ => rfl)
    (by rw [hsame]; exact hlate) hmode hbuffer hline hafter (by rw [hsame]; exact hlong)
  rw [hsame, ← hevents] at htold
  rw [hleft] at hrest hdecoder
  obtain ⟨hwhole, hinside⟩ := length_in_pieces earlier piece after
  refine ⟨⟨?_, ?_⟩, hrest.trans hbuffer, (congrArg Framer.mode hdecoder).trans hmode⟩
  · intro hnot
    rw [hwhole hnot, ite_self] at htold
    exact htold
  · intro hends
    obtain ⟨hlength, hfront⟩ := hinside hends
    rw [if_pos (Nat.lt_trans hlong hfront), hlength] at htold
    exact htold

/-- A line of six bytes behind a short one: it is dropped in two pieces, and its end comes as a
whole. -/
theorem oversized_line_told_whole :
    let policy : Policy := { maxLength := 4, failFast := false }
    let chunks : List Bytes := [[1, 2], [3, 4, 5], [6, cr, lf]]
    ∃ l, Line.ofPolicy policy = .ok l ∧
      let start := (({ decoder := l, connection := 0 } : Intake Line).feedAll [[7], [lf]]).intake
      let fed := start.feedAll chunks
      fed.events = [.failed (.tooLong 4 6)] ∧ fed.intake.buffer = [] ∧
        fed.intake.decoder.mode = .normal := by
  intro policy chunks
  have hpolicy : policy.check = .ok () := rfl
  have hlate : policy.failFast = false := rfl
  have hline : lf ∉ ([1, 2, 3, 4, 5, 6, cr] : Bytes) := by decide
  obtain ⟨l, hl, htold⟩ := oversized_line_told hpolicy hlate 0 [[7], [lf]] hline
    (by decide) (show chunks.flatten = [1, 2, 3, 4, 5, 6, cr] ++ [lf] from rfl)
  obtain rfl : _ = l := Except.ok.inj hl
  obtain ⟨hevents, hrest, hmode⟩ := htold (by decide +kernel) (by decide +kernel)
  have hwhole : ¬ EndsBetween chunks 6 8 := by
    have hbefore : ([[1, 2], [3, 4, 5]] : List Bytes).flatten.length ≤ 6 := by decide
    have hcross : 6 < (([[1, 2], [3, 4, 5]] : List Bytes).flatten ++ [6, cr, lf]).length := by
      decide
    intro hends
    exact absurd ((endsBetween_iff hbefore hcross).1 hends) (by decide)
  exact ⟨_, hl, hevents.whole hwhole, hrest, hmode⟩

/-- A line of ten bytes whose CR comes in a chunk of its own: the report says eleven. -/
theorem oversized_line_longer :
    let policy : Policy := { maxLength := 4, failFast := false }
    let line : Bytes := [48, 49, 50, 51, 52, 53, 54, 55, 56, 57]
    let chunks : List Bytes := [line, [cr], [lf]]
    Segment.ofLine (line ++ [cr]) = ⟨line, [cr, lf]⟩ ∧
      ∃ l, Line.ofPolicy policy = .ok l ∧
        let fresh : Intake Line := { decoder := l, connection := 1 }
        fresh.buffer = [] ∧ fresh.decoder.mode = .normal ∧
          (fresh.feedAll chunks).events = [.failed (.tooLong 4 11)] ∧
          (fresh.feedAll [line ++ [cr, lf]]).events = [.failed (.tooLong 4 10)] := by
  intro policy line chunks
  exact ⟨by decide, _, rfl, rfl, rfl, by decide +kernel, by decide +kernel⟩

end FrameLoop
