import FrameLoop.Proofs.Frame.Feeds

/-
  Frames of exactly the limit.

  The limit is on a frame without its delimiter.  Such a frame is handed out as long as its
  delimiter comes in one piece, wherever else the chunks end.  If a chunk ends inside of the
  delimiter, the piece that is there is counted to the frame, and the frame is dropped as too long
  (`longest_frame_told`).  So whether it is handed out depends on where the chunks end
  (`longest_line_lost`).
-/

namespace FrameLoop

open Bytes

/-! ## Where the chunks end -/

/-- A chunk ends behind the first `start` bytes of the stream and before the first `stop`. -/
def EndsBetween (chunks : List Bytes) (start stop : Nat) : Prop :=
  ∃ fed, fed <+: chunks ∧ start < fed.flatten.length ∧ fed.flatten.length < stop

theorem length_flatten_le {fed chunks : List Bytes} (h : fed <+: chunks) :
    fed.flatten.length ≤ chunks.flatten.length := by
  obtain ⟨more, rfl⟩ := h
  rw [List.flatten_append, List.length_append]
  exact Nat.le_add_right _ _

theorem exists_crossing {chunks : List Bytes} {start : Nat} (h : start < chunks.flatten.length) :
    ∃ before chunk after, chunks = before ++ chunk :: after ∧ before.flatten.length ≤ start ∧
      start < (before.flatten ++ chunk).length := by
  induction chunks generalizing start with
  | nil => exact absurd h (Nat.not_lt_zero start)
  | cons chunk chunks ih =>
    by_cases hlt : start < chunk.length
    · exact ⟨[], chunk, chunks, rfl, Nat.zero_le start, hlt⟩
    · rw [List.flatten_cons, List.length_append] at h
      have hmore : start - chunk.length < chunks.flatten.length := by omega
      obtain ⟨before, c, after, rfl, hbefore, hcross⟩ := ih hmore
      rw [List.length_append] at hcross
      refine ⟨chunk :: before, c, after, rfl, ?_, ?_⟩
      · rw [List.flatten_cons, List.length_append]
        omega
      · rw [List.flatten_cons, List.length_append, List.length_append]
        omega

/-- No chunk before the one that holds the byte at `start` ends behind it, and none after it ends
earlier. -/
theorem endsBetween_iff {before after : List Bytes} {chunk : Bytes} {start stop : Nat}
    (hbefore : before.flatten.length ≤ start) (hcross : start < (before.flatten ++ chunk).length) :
    EndsBetween (before ++ chunk :: after) start stop ↔
      (before.flatten ++ chunk).length < stop := by
  have hprefix : before ++ [chunk] <+: before ++ chunk :: after := by
    rw [List.append_cons before chunk after]
    exact List.prefix_append _ _
  have hflatten : (before ++ [chunk]).flatten = before.flatten ++ chunk := by
    rw [List.flatten_append, List.flatten_singleton]
  constructor
  · rintro ⟨fed, hfed, hstart, hstop⟩
    rcases Nat.lt_or_ge before.length fed.length with hlong | hshort
    · have hle : before ++ [chunk] <+: fed := by
        refine List.prefix_of_prefix_length_le hprefix hfed ?_
        rw [List.length_append, List.length_singleton]
        exact hlong
      have hbytes := length_flatten_le hle
      rw [hflatten] at hbytes
      omega
    · have hle : fed <+: before :=
        List.prefix_of_prefix_length_le hfed (List.prefix_append _ _) hshort
      have hbytes := length_flatten_le hle
      omega
  · intro hstop
    refine ⟨before ++ [chunk], hprefix, ?_, ?_⟩
    · rw [hflatten]
      exact hcross
    · rw [hflatten]
      exact hstop

/-! ## Feeds -/

section Feeds

variable {delimiters : List Bytes} {a : Intake Framer}

theorem Undelimited.of_append {stream more : Bytes}
    (h : Undelimited delimiters (stream ++ more)) : Undelimited delimiters stream :=
  fun d hd i hocc => h d hd i (hocc.append more)

/-- What has no delimiter and is within the limit waits. -/
theorem feedAll_waits (hd : ∀ d ∈ delimiters, d ≠ [])
    (hcut : a.decoder.cut = Delimiters.cut delimiters) (hmode : a.decoder.mode = .normal)
    {chunks : List Bytes} (hu : Undelimited delimiters (a.buffer ++ chunks.flatten))
    (hle : (a.buffer ++ chunks.flatten).length ≤ a.decoder.policy.maxLength) :
    (a.feedAll chunks).events = [] ∧
      (a.feedAll chunks).intake = { a with buffer := a.buffer ++ chunks.flatten } := by
  induction chunks generalizing a with
  | nil =>
    rw [List.flatten_nil, List.append_nil]
    exact ⟨rfl, rfl⟩
  | cons chunk chunks ih =>
    rw [List.flatten_cons, ← List.append_assoc] at hu hle
    have hfirst : (a.buffer ++ chunk).length ≤ a.decoder.policy.maxLength := by
      rw [List.length_append] at hle
      omega
    obtain ⟨hevents, hintake⟩ := feed_normal hd hcut hmode (.rest hu.of_append)
    rw [Policy.tellRest_of_le hfirst] at hevents
    rw [Policy.modeOver_of_le hfirst, Policy.keep_of_le hfirst, ← hmode] at hintake
    obtain ⟨hmore, hend⟩ := ih (a := (a.feed chunk).intake) (by rw [hintake]; exact hcut)
      (by rw [hintake]; exact hmode) (by rw [hintake]; exact hu) (by rw [hintake]; exact hle)
    refine ⟨?_, ?_⟩
    · show (a.feed chunk).events ++ ((a.feed chunk).intake.feedAll chunks).events = []
      rw [hevents, hmore]
      rfl
    · show ((a.feed chunk).intake.feedAll chunks).intake = _
      rw [hend, hintake, List.flatten_cons, ← List.append_assoc]

theorem feedAll_cons_empty (hd : ∀ d ∈ delimiters, d ≠ [])
    {chunk : Bytes} {after : List Bytes}
    (hcut : (a.feed chunk).intake.decoder.cut = Delimiters.cut delimiters)
    (hmode : (a.feed chunk).intake.decoder.mode = .normal)
    (hbuffer : (a.feed chunk).intake.buffer = []) (hafter : after.flatten = []) :
    (a.feedAll (chunk :: after)).events = (a.feed chunk).events ∧
      (a.feedAll (chunk :: after)).intake = (a.feed chunk).intake := by
  have hempty : (a.feed chunk).intake.buffer ++ after.flatten = [] := by
    rw [hbuffer, hafter]
    rfl
  obtain ⟨hmore, hend⟩ := feedAll_waits (a := (a.feed chunk).intake) hd hcut hmode
    (hempty.symm ▸ undelimited_nil hd) (hempty.symm ▸ Nat.zero_le _)
  refine ⟨?_, ?_⟩
  · show (a.feed chunk).events ++ ((a.feed chunk).intake.feedAll after).events = _
    rw [hmore, List.append_nil]
  · show ((a.feed chunk).intake.feedAll after).intake = _
    rw [hend, hempty, ← hbuffer]

/-- Where reports are made late, a frame that is being dropped is reported before another one is
handed out. -/
theorem head?_feedAll_late (hd : ∀ d ∈ delimiters, d ≠ [])
    (hcut : a.decoder.cut = Delimiters.cut delimiters) (hlate : a.decoder.policy.failFast = false)
    {dropped : Nat} (hmode : a.decoder.mode = .discarding dropped) (hbuffer : a.buffer = [])
    (chunks : List Bytes) (frame : Bytes) :
    (a.feedAll chunks).events.head? ≠ some (.frame frame) := by
  induction chunks generalizing a dropped with
  | nil => nofun
  | cons chunk chunks ih =>
    show ((a.feed chunk).events ++ ((a.feed chunk).intake.feedAll chunks).events).head? ≠ _
    cases hs : Scan.shortest delimiters chunk with
    | none =>
      have hu := (Scan.shortest_eq_none_iff hd).1 hs
      obtain ⟨hevents, hintake⟩ := feed_drop hd hcut hmode hbuffer hu
      have hmode' : (a.feed chunk).intake.decoder.mode = .discarding (dropped + chunk.length) := by
        rw [hintake]
      rw [hevents, List.nil_append]
      exact ih (by rw [hintake]; exact hcut) (by rw [hintake]; exact hlate) hmode'
        (by rw [hintake]; exact hbuffer)
    | some hit =>
      have hit := (Scan.shortest_eq_some_iff hd hit.1 hit.2).1 hs
      obtain ⟨segments, rest, hcuts⟩ := exists_cuts hd (chunk.drop _)
      rw [(feed_resume hd hcut hmode hbuffer hit hcuts).1, hlate]
      simp

/-- A chunk that ends inside of the delimiter of a frame of the limit: no frame comes next. -/
theorem head?_feedAll_inside (hd : ∀ d ∈ delimiters, d ≠ [])
    (hcut : a.decoder.cut = Delimiters.cut delimiters) (hmode : a.decoder.mode = .normal)
    {body d more chunk : Bytes} (hlen : body.length = a.decoder.policy.maxLength)
    (hit : Hit delimiters (body ++ d) body.length d) (hbegins : ∀ e ∈ delimiters, e <+: d → e = d)
    (hstream : a.buffer ++ chunk ++ more = body ++ d)
    (hstart : body.length < (a.buffer ++ chunk).length)
    (hstop : (a.buffer ++ chunk).length < body.length + d.length) (chunks : List Bytes)
    (frame : Bytes) : (a.feedAll (chunk :: chunks)).events.head? ≠ some (.frame frame) := by
  show ((a.feed chunk).events ++ ((a.feed chunk).intake.feedAll chunks).events).head? ≠ _
  cases hs : Scan.shortest delimiters (a.buffer ++ chunk) with
  | none =>
    -- the frame is dropped with the piece of its delimiter
    have hu := (Scan.shortest_eq_none_iff hd).1 hs
    have hlong : a.decoder.policy.maxLength < (a.buffer ++ chunk).length := hlen ▸ hstart
    obtain ⟨hevents, hintake⟩ := feed_normal hd hcut hmode (.rest hu)
    rw [Policy.modeOver, Policy.keep, if_pos hlong, if_pos hlong] at hintake
    cases hfast : a.decoder.policy.failFast with
    | true =>
      rw [hevents, Policy.tellRest, if_pos ⟨hlong, hfast⟩]
      simp
    | false =>
      have hnot : ¬ (a.decoder.policy.maxLength < (a.buffer ++ chunk).length ∧
          a.decoder.policy.failFast = true) := by
        simp [hfast]
      rw [hevents, Policy.tellRest, if_neg hnot, List.map_nil, List.nil_append, List.nil_append]
      have hmode' : (a.feed chunk).intake.decoder.mode =
          .discarding (a.buffer ++ chunk).length := by
        rw [hintake]
      exact head?_feedAll_late hd (by rw [hintake]; exact hcut) (by rw [hintake]; exact hfast)
        hmode' (by rw [hintake]) chunks frame
  | some found =>
    -- a delimiter inside of the piece, and behind its first byte
    obtain ⟨length, e⟩ := found
    have hfound := (Scan.shortest_eq_some_iff hd length e).1 hs
    have hocc : OccursAt e (body ++ d) length := hstream ▸ hfound.occursAt.append more
    have hle := hfound.le_length hd
    have hge : ¬ length < body.length := fun hlt => hit.least e hfound.mem length hlt hocc
    have hne : length ≠ body.length := by
      rintro rfl
      have hbegin : e <+: d := (occursAt_append_add body d e 0).1 hocc
      rw [hbegins e hfound.mem hbegin] at hle
      omega
    have hlong : a.decoder.policy.maxLength < length := by omega
    obtain ⟨segments, rest, hcuts⟩ :=
      exists_cuts hd ((a.buffer ++ chunk).drop (length + e.length))
    have htake : ((a.buffer ++ chunk).take length).length = length :=
      List.length_take_of_le (by omega)
    rw [(feed_normal hd hcut hmode (hfound.cuts hd hcuts)).1, List.map_cons, Policy.tell, htake,
      if_pos hlong]
    simp

end Feeds

/-! ## The frame and its delimiter -/

/-- What is told of a frame of the limit: the frame alone, unless a chunk ends inside of its
delimiter.  Then no frame is told of first, provided that no other delimiter begins this one. -/
structure TellsOfLongest (policy : Policy) (delimiters : List Bytes) (body d : Bytes)
    (chunks : List Bytes) (events : List FrameEvent) : Prop where
  whole : ¬ EndsBetween chunks body.length (body.length + d.length) →
    events = [.frame (policy.frame ⟨body, d⟩)]
  inside : EndsBetween chunks body.length (body.length + d.length) →
    (∀ e ∈ delimiters, e <+: d → e = d) → ∀ frame, events.head? ≠ some (.frame frame)

section

variable {delimiters : List Bytes} {body d : Bytes} {chunks : List Bytes}

theorem Hit.undelimited_front {front more : Bytes} (hit : Hit delimiters (body ++ d) body.length d)
    (hd : ∀ d ∈ delimiters, d ≠ []) (heq : front ++ more = body ++ d)
    (hle : front.length ≤ body.length) : Undelimited delimiters front := by
  intro e he i hocc
  have hin := hocc.le_length (hd e he)
  have hpos := List.length_pos_iff.2 (hd e he)
  exact hit.least e he i (by omega) (heq ▸ hocc.append more)

/-- The chunk that completes it, with nothing behind. -/
theorem feedAll_whole {a : Intake Framer} (hd : ∀ d ∈ delimiters, d ≠ [])
    (hcut : a.decoder.cut = Delimiters.cut delimiters) (hmode : a.decoder.mode = .normal)
    (hlen : body.length = a.decoder.policy.maxLength)
    (hit : Hit delimiters (body ++ d) body.length d) {chunk : Bytes} {after : List Bytes}
    (hstream : a.buffer ++ chunk = body ++ d) (hafter : after.flatten = []) :
    (a.feedAll (chunk :: after)).events = [.frame (a.decoder.policy.frame ⟨body, d⟩)] := by
  have hnil := undelimited_nil hd
  have hrest : (body ++ d).drop (body.length + d.length) = [] := by
    rw [← List.length_append, List.drop_length]
  have hcuts := hit.cuts hd (.rest (hrest.symm ▸ hnil))
  rw [List.take_left, hrest, ← hstream] at hcuts
  obtain ⟨hevents, hintake⟩ := feed_normal hd hcut hmode hcuts
  rw [Policy.tellRest_nil, List.append_nil] at hevents
  rw [Policy.modeOver_nil, Policy.keep_nil] at hintake
  obtain ⟨hmore, -⟩ := feedAll_cons_empty hd (by rw [hintake]; exact hcut) (by rw [hintake])
    (by rw [hintake]) hafter
  rw [hmore, hevents, List.map_singleton, Policy.tell_of_le (Nat.le_of_eq hlen)]

/-- What a framer tells of it. -/
theorem framer_longest {f : Framer} (hd : ∀ d ∈ delimiters, d ≠ [])
    (hcut : f.cut = Delimiters.cut delimiters) (hmode : f.mode = .normal)
    (hlen : body.length = f.policy.maxLength) (hit : Hit delimiters (body ++ d) body.length d)
    (hchunks : chunks.flatten = body ++ d) (connection : Nat) :
    TellsOfLongest f.policy delimiters body d chunks
      (({ decoder := f, connection } : Intake Framer).feedAll chunks).events := by
  let start : Intake Framer := { decoder := f, connection }
  have hpos := List.length_pos_iff.2 (hd d hit.mem)
  have htotal : chunks.flatten.length = body.length + d.length := by
    rw [hchunks, List.length_append]
  obtain ⟨before, chunk, after, rfl, hbefore, hcross⟩ :=
    exists_crossing (show body.length < chunks.flatten.length by omega)
  rw [List.flatten_append, List.flatten_cons, ← List.append_assoc] at hchunks htotal
  rw [List.length_append] at htotal
  -- up to the chunk that holds the first byte of the delimiter all waits
  have hfront : Undelimited delimiters before.flatten :=
    hit.undelimited_front hd (by rw [← hchunks, List.append_assoc]) hbefore
  obtain ⟨hwaited, hleft⟩ := feedAll_waits (a := start) hd hcut hmode hfront (hlen ▸ hbefore)
  obtain ⟨hevents, -⟩ := Intake.feedAll_append start before (chunk :: after)
  rw [hwaited, List.nil_append, hleft] at hevents
  rw [hevents]
  refine ⟨?_, ?_⟩
  · intro hwhole
    rw [endsBetween_iff hbefore hcross] at hwhole
    have hafter : after.flatten = [] := List.length_eq_zero_iff.1 (by omega)
    rw [hafter, List.append_nil] at hchunks
    exact feedAll_whole (a := { start with buffer := before.flatten }) hd hcut hmode hlen hit
      hchunks hafter
  · intro hinside hbegins frame
    rw [endsBetween_iff hbefore hcross] at hinside
    exact head?_feedAll_inside (a := { start with buffer := before.flatten }) hd hcut hmode hlen hit
      hbegins hchunks hcross hinside after frame

/-- A frame of the limit is handed out, alone, when its delimiter comes in one piece, by every
decoder that splits at this delimiter.  When a chunk ends inside of the delimiter, it is not. -/
theorem longest_frame_told {policy : Policy} (hlen : body.length = policy.maxLength)
    (hit : Hit delimiters (body ++ d) body.length d) (hchunks : chunks.flatten = body ++ d)
    (connection : Nat) :
    (∀ s, Splitter.ofDelimiters policy delimiters = .ok s →
      TellsOfLongest policy delimiters body d chunks
        (({ decoder := s, connection } : Intake Splitter).feedAll chunks).events) ∧
    (∀ l, Line.ofPolicy policy = .ok l → delimiters = Delimiters.line →
      TellsOfLongest policy delimiters body d chunks
        (({ decoder := l, connection } : Intake Line).feedAll chunks).events) := by
  refine ⟨?_, ?_⟩
  · intro s hs
    obtain ⟨-, -, hd, -⟩ := (Splitter.ofDelimiters_eq_ok_iff policy delimiters s).1 hs
    obtain ⟨f, rfl, hcut, hmode, -, hfed⟩ := Splitter.exists_framer hs
    rw [(hfed connection chunks).1]
    exact framer_longest hd hcut hmode hlen hit hchunks connection
  · rintro l hl rfl
    obtain ⟨f, rfl, hcut, hmode, -, hfed⟩ := Line.exists_framer hl
    rw [(hfed connection chunks).1]
    exact framer_longest Delimiters.line_ne_nil hcut hmode hlen hit hchunks connection

end

/-- A line of the limit whose end comes in one piece, by the decoder for a list and by the line
decoder. -/
theorem longest_frame_told_line :
    let policy : Policy := { maxLength := 3, strip := false }
    let chunks : List Bytes := [[1], [], [2, 3], [cr, lf], []]
    ∃ s l, Splitter.ofDelimiters policy Delimiters.line = .ok s ∧ Line.ofPolicy policy = .ok l ∧
      (({ decoder := s, connection := 0 } : Intake Splitter).feedAll chunks).events =
        [.frame [1, 2, 3, cr, lf]] ∧
      (({ decoder := l, connection := 0 } : Intake Line).feedAll chunks).events =
        [.frame [1, 2, 3, cr, lf]] := by
  intro policy chunks
  have hlen : ([1, 2, 3] : Bytes).length = policy.maxLength := rfl
  have hit : Hit Delimiters.line ([1, 2, 3] ++ [cr, lf]) 3 [cr, lf] :=
    (Scan.shortest_eq_some_iff Delimiters.line_ne_nil 3 [cr, lf]).1 (by decide)
  have hwhole : ¬ EndsBetween chunks 3 5 := by
    have hbefore : ([[1], [], [2, 3]] : List Bytes).flatten.length ≤ 3 := by decide
    have hcross : 3 < (([[1], [], [2, 3]] : List Bytes).flatten ++ [cr, lf]).length := by decide
    intro hends
    exact absurd ((endsBetween_iff hbefore hcross).1 hends) (by decide)
  have hchunks : chunks.flatten = [1, 2, 3] ++ [cr, lf] := rfl
  obtain ⟨hsplitter, hline⟩ := longest_frame_told hlen hit hchunks 0
  exact ⟨_, _, rfl, rfl, (hsplitter _ rfl).whole hwhole, (hline _ rfl rfl).whole hwhole⟩

/-- The same line, whose end comes in two pieces: it is reported as too long, with its CR counted,
and it is lost. -/
theorem longest_line_lost :
    let policy : Policy := { maxLength := 3 }
    let chunks : List Bytes := [[1, 2, 3, cr], [lf]]
    Hit [[cr, lf]] ([1, 2, 3] ++ [cr, lf]) policy.maxLength [cr, lf] ∧
      (∃ s, Splitter.ofDelimiters policy [[cr, lf]] = .ok s ∧
        (({ decoder := s, connection := 0 } : Intake Splitter).feedAll chunks).events =
          [.failed (.tooLong 3 4)]) ∧
      ∃ l, Line.ofPolicy policy = .ok l ∧
        (({ decoder := l, connection := 0 } : Intake Line).feedAll chunks).events =
          [.failed (.tooLong 3 4)] := by
  intro policy chunks
  have hit : Hit [[cr, lf]] ([1, 2, 3] ++ [cr, lf]) 3 [cr, lf] :=
    (Scan.shortest_eq_some_iff (by decide) 3 [cr, lf]).1 (by decide)
  exact ⟨hit, ⟨_, rfl, by decide +kernel⟩, ⟨_, rfl, by decide +kernel⟩⟩

end FrameLoop
