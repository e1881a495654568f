import FrameLoop.Proofs.Frame.Oversized

/-
  Streams of lines, oversized ones included.

  Lines are cut off where CR LF and LF are the delimiters (`cuts_lines`).  A line end may come in two
  pieces, the CR in one chunk and the LF in the next.  While a line is dropped this does no harm:
  the LF alone ends the episode, and behind it there is the same (`Accounted.feed_line`).  In normal
  mode it does, for one length: the CR is counted to the line as long as no LF follows, and a line
  of exactly the limit is then one byte too long.  So `feedAll_lines` is about streams without a
  line of this length that ends in CR LF.
-/

namespace FrameLoop

open Bytes

variable {stream line rest chunk : Bytes}

/-! ## The lines of a stream -/

theorem lines_of_not_mem (h : lf ∉ stream) : lines stream = [] := by
  unfold lines
  rw [List.splitOn_eq_singleton h]
  rfl

theorem unended_of_not_mem (h : lf ∉ stream) : unended stream = stream := by
  unfold unended
  simp only [List.splitOn_eq_singleton h, List.getLast_singleton]

theorem lines_append_cons (h : lf ∉ line) (behind : Bytes) :
    lines (line ++ lf :: behind) = .ofLine line :: lines behind := by
  unfold lines
  rw [List.splitOn_append_cons_self_of_not_mem h,
    List.dropLast_cons_of_ne_nil (List.splitOn_ne_nil _ _), List.map_cons]

theorem unended_append_cons (h : lf ∉ line) (behind : Bytes) :
    unended (line ++ lf :: behind) = unended behind := by
  unfold unended
  simp only [List.splitOn_append_cons_self_of_not_mem h]
  exact List.getLast_cons (List.splitOn_ne_nil _ _)

namespace Segment

/-- A line ends in CR, which belongs to its end then, or it does not. -/
theorem ofLine_cases (line : Bytes) :
    (∃ body, line = body ++ [cr] ∧ ofLine line = ⟨body, [cr, lf]⟩) ∨
    (line.getLast? ≠ some cr ∧ ofLine line = ⟨line, [lf]⟩) := by
  by_cases hcr : line.getLast? = some cr
  · obtain ⟨body, rfl⟩ := List.getLast?_eq_some_iff.1 hcr
    refine .inl ⟨body, rfl, ?_⟩
    unfold ofLine
    rw [if_pos hcr, List.dropLast_concat]
  · exact .inr ⟨hcr, if_neg hcr⟩

theorem bytes_ofLine (line : Bytes) : (ofLine line).bytes = line ++ [lf] := by
  rcases ofLine_cases line with ⟨body, rfl, heq⟩ | ⟨-, heq⟩
  · rw [heq, List.append_assoc]
    rfl
  · rw [heq]
    rfl

end Segment

/-- A stream without LF has no end of a line. -/
theorem undelimited_line_iff : Undelimited Delimiters.line stream ↔ lf ∉ stream := by
  constructor
  · intro hu hmem
    obtain ⟨i, hi⟩ := List.mem_iff_getElem?.1 hmem
    exact hu [lf] (by decide) i ((occursAt_singleton lf stream i).2 hi)
  · intro hmem d hd i hocc
    rcases Delimiters.mem_line.1 hd with rfl | rfl
    · have hlf := ((Line.occursAt_crlf stream i).1 hocc).2
      exact hmem (List.mem_of_getElem? hlf)
    · have hlf := (occursAt_singleton lf stream i).1 hocc
      exact hmem (List.mem_of_getElem? hlf)

/-- The first LF ends the frame at the front, as the end of a line. -/
theorem hit_ofLine (h : lf ∉ line) (behind : Bytes) :
    Hit Delimiters.line (line ++ lf :: behind) (Segment.ofLine line).body.length
      (Segment.ofLine line).delimiter := by
  have hlf : (line ++ lf :: behind)[line.length]? = some lf := by simp
  have hmin : ∀ j < line.length, (line ++ lf :: behind)[j]? ≠ some lf := by
    intro j hj hmem
    rw [List.getElem?_append_left hj] at hmem
    exact h (List.mem_of_getElem? hmem)
  have hlast : (0 < line.length ∧ (line ++ lf :: behind)[line.length - 1]? = some cr) ↔
      line.getLast? = some cr := by
    rw [List.getLast?_eq_getElem?]
    constructor
    · rintro ⟨hpos, hcr⟩
      rwa [List.getElem?_append_left (by omega)] at hcr
    · intro hcr
      have hlt : line.length - 1 < line.length := (List.getElem?_eq_some_iff.1 hcr).1
      exact ⟨by omega, by rwa [List.getElem?_append_left hlt]⟩
  have hit := Line.hit_of_first_lf hlf hmin
  rcases Segment.ofLine_cases line with ⟨body, rfl, heq⟩ | ⟨hcr, heq⟩
  · rw [if_pos (hlast.2 (by simp)), List.length_append, List.length_singleton,
      Nat.add_sub_cancel] at hit
    rwa [heq]
  · rw [if_neg (mt hlast.1 hcr)] at hit
    rwa [heq]

theorem drop_ofLine (line behind : Bytes) :
    (line ++ lf :: behind).drop
      ((Segment.ofLine line).body.length + (Segment.ofLine line).delimiter.length) = behind := by
  have hlen : (Segment.ofLine line).body.length + (Segment.ofLine line).delimiter.length =
      (line ++ [lf]).length := by
    rw [← List.length_append, ← Segment.bytes_ofLine]
    rfl
  rw [hlen, List.append_cons line lf behind, List.drop_left]

theorem take_ofLine (line behind : Bytes) :
    (line ++ lf :: behind).take (Segment.ofLine line).body.length =
      (Segment.ofLine line).body := by
  rcases Segment.ofLine_cases line with ⟨body, rfl, heq⟩ | ⟨-, heq⟩
  · rw [heq, List.append_assoc, List.take_left]
  · rw [heq, List.take_left]

/-- Lines are cut off where CR LF and LF are the delimiters. -/
theorem cuts_lines (stream : Bytes) :
    Cuts Delimiters.line stream (lines stream) (unended stream) := by
  -- on the length: behind the first LF there is less than before it
  induction hn : stream.length using Nat.strongRecOn generalizing stream with
  | ind n ih =>
    by_cases hlf : lf ∈ stream
    · obtain ⟨line, behind, rfl, hline⟩ := List.eq_append_cons_of_mem hlf
      have hshort : behind.length < n := by
        rw [← hn, List.length_append, List.length_cons]
        omega
      have hmore := ih behind.length hshort behind rfl
      rw [← drop_ofLine line behind] at hmore
      have hcuts := (hit_ofLine hline behind).cuts Delimiters.line_ne_nil hmore
      rw [take_ofLine, drop_ofLine] at hcuts
      rwa [lines_append_cons hline, unended_append_cons hline]
    · rw [lines_of_not_mem hlf, unended_of_not_mem hlf]
      exact .rest (undelimited_line_iff.2 hlf)

/-! ## Feeds -/

/-- A line that is in doubt: it ends in CR LF, and its body is exactly as long as a frame may be. -/
def Policy.Borderline (p : Policy) (segment : Segment) : Prop :=
  segment.delimiter = [cr, lf] ∧ segment.body.length = p.maxLength

/-- A line that is over the limit before its LF is there is over the limit with it, unless the byte
that is too much is the CR of its end. -/
theorem Policy.lt_length_ofLine {p : Policy} (hlong : p.maxLength < line.length)
    (hb : ¬ p.Borderline (.ofLine line)) :
    p.maxLength < (Segment.ofLine line).body.length := by
  rcases Segment.ofLine_cases line with ⟨body, rfl, heq⟩ | ⟨-, heq⟩
  · rw [heq] at hb ⊢
    rw [List.length_append, List.length_singleton] at hlong
    have hne : body.length ≠ p.maxLength := fun h => hb ⟨rfl, h⟩
    show p.maxLength < body.length
    omega
  · rw [heq]
    exact hlong

/-- One more chunk, in the middle of a line that is dropped. -/
theorem Accounted.feed_line {f : Framer} {before now : List Segment} {rest' : Bytes}
    {events : List FrameEvent} {a : Intake Framer} (h : Accounted f before rest events a)
    (hcut : f.cut = Delimiters.cut Delimiters.line)
    (hover : ∀ dropped length, dropped ≤ f.overrun dropped length)
    (hlong : f.policy.maxLength < rest.length) (hu : Undelimited Delimiters.line rest)
    (hcuts : Cuts Delimiters.line (rest ++ chunk) now rest')
    (hb : ∀ segment ∈ now, ¬ f.policy.Borderline segment) :
    Accounted f (before ++ now) rest' (events ++ (a.feed chunk).events) (a.feed chunk).intake := by
  have hrest : lf ∉ rest := undelimited_line_iff.1 hu
  refine h.feed_discarding Delimiters.line_ne_nil hcut hover hlong ?_ ?_
  · intro hchunk
    have hlf : lf ∉ rest ++ chunk := by
      rw [List.mem_append]
      exact not_or.2 ⟨hrest, undelimited_line_iff.1 hchunk⟩
    exact hcuts.eq_of_undelimited (undelimited_line_iff.2 hlf)
  · intro length d hit
    have hmem : lf ∈ chunk := by
      by_contra hlf
      exact hit.not_undelimited (undelimited_line_iff.2 hlf)
    obtain ⟨line, behind, rfl, hline⟩ := List.eq_append_cons_of_mem hmem
    obtain ⟨rfl, rfl⟩ := hit.unique (hit_ofLine hline behind)
    -- the line as a whole is what was dropped with what is in front of the LF
    have hwhole : lf ∉ rest ++ line := by
      rw [List.mem_append]
      exact not_or.2 ⟨hrest, hline⟩
    rw [← List.append_assoc] at hcuts
    obtain ⟨later, rfl, hlater⟩ := hcuts.eq_of_hit (hit_ofLine hwhole behind)
    rw [drop_ofLine] at hlater
    rw [take_ofLine] at hb
    refine ⟨_, later, rfl, ?_, by rwa [drop_ofLine]⟩
    rw [take_ofLine]
    have hmore : f.policy.maxLength < (rest ++ line).length := by
      rw [List.length_append]
      omega
    exact Policy.lt_length_ofLine hmore (hb _ List.mem_cons_self)

/-- A stream of lines, in full.  Each line is told of once and in order, the unended one too if it
is already known to be too long and reports are made early, and the unended line is kept or
dropped. -/
theorem feedAll_lines {policy : Policy} (hpolicy : policy.check = .ok ()) (connection : Nat)
    {chunks : List Bytes} (hb : ∀ line ∈ lines chunks.flatten, ¬ policy.Borderline line) :
    ∃ l, Line.ofPolicy policy = .ok l ∧
      let fed := ({ decoder := l, connection } : Intake Line).feedAll chunks
      let tail := unended chunks.flatten
      TellsOfAll policy (lines chunks.flatten) tail fed.events ∧
        if tail.length ≤ policy.maxLength then
          fed.intake.decoder.mode = .normal ∧ fed.intake.buffer = tail
        else
          fed.intake.decoder.mode = .discarding tail.length ∧ fed.intake.buffer = [] := by
  have hl := (Line.ofPolicy_eq_ok_iff policy { policy }).2 ⟨hpolicy, rfl⟩
  refine ⟨_, hl, ?_⟩
  obtain ⟨f, rfl, hcut, hmode, hover, hfed⟩ := Line.exists_framer hl
  obtain ⟨hevents, hbuffer, hmode'⟩ := hfed connection chunks
  have hend := Accounted.feedAll Delimiters.line_ne_nil Delimiters.prompt_line hcut hmode connection
    (cuts_lines chunks.flatten) (by
      intro before now later rest rest' chunk events a hsegs hlong hu hnow h
      have hnowb : ∀ line ∈ now, ¬ f.policy.Borderline line := by
        intro line hmem
        have hline : line ∈ lines chunks.flatten := by
          rw [hsegs]
          exact List.mem_append_left _ (List.mem_append_right _ hmem)
        exact hb line hline
      exact h.feed_line hcut hover hlong hu hnow hnowb)
  dsimp only
  rw [hevents, hbuffer, hmode']
  exact ⟨hend.events, hend.rest_kept_or_dropped⟩

/-- A line end in two pieces behind a line that is dropped, one behind a line that is kept, and a CR
that belongs to a line. -/
theorem feedAll_lines_split_end :
    let policy : Policy := { maxLength := 3, failFast := false, strip := false }
    let chunks : List Bytes := [[1, 2, 3, 4, cr], [lf, 5, 6, cr], [lf, 7, cr, 8], [lf, 9]]
    ∃ l, Line.ofPolicy policy = .ok l ∧
      let fed := ({ decoder := l, connection := 0 } : Intake Line).feedAll chunks
      TellsOfAll policy
          [⟨[1, 2, 3, 4], [cr, lf]⟩, ⟨[5, 6], [cr, lf]⟩, ⟨[7, cr, 8], [lf]⟩] [9] fed.events ∧
        fed.intake.decoder.mode = .normal ∧ fed.intake.buffer = [9] := by
  intro policy chunks
  have hb : ∀ line ∈ lines chunks.flatten, ¬ policy.Borderline line := by
    unfold Policy.Borderline
    decide
  exact feedAll_lines rfl 0 hb

end FrameLoop
