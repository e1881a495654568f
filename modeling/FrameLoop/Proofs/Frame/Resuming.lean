import FrameLoop.Proofs.Frame.Feeds

/-
  How a decoder finds its way back after an oversized frame.

  While a frame is dropped nothing is kept, so every chunk is searched by itself.  The episode ends
  in the first chunk that holds a delimiter in full, at the first one in it, and what is behind this
  delimiter is decoded as by a fresh decoder (`feed_resume_eq`, `resumes_behind_delimiter`).

  A delimiter that comes in two pieces is not seen.  So the episode ends at the first delimiter of
  all the bytes that came in since it began, if and only if none begins in a chunk that was dropped
  as a whole; otherwise a frame that is within the limit may be lost (`split_delimiter_missed`).
-/

namespace FrameLoop

open Bytes

variable {delimiters : List Bytes}

/-! ## Between two feeds -/

/-- What feeds make of an intake: the mode and the buffer may be others than at the start, and
nothing is kept while a frame is dropped. -/
structure Poised (start a : Intake Framer) : Prop where
  same : a = { start with
    decoder := { start.decoder with mode := a.decoder.mode }
    buffer := a.buffer }
  dropping : ∀ dropped, a.decoder.mode = .discarding dropped → a.buffer = []

namespace Poised

variable {start a : Intake Framer}

theorem policy (h : Poised start a) : a.decoder.policy = start.decoder.policy := by
  rw [h.same]

theorem cut (h : Poised start a) : a.decoder.cut = start.decoder.cut := by
  rw [h.same]

theorem leave (h : Poised start a) (rest : Bytes) :
    Poised start { a with
      decoder := { a.decoder with mode := a.decoder.policy.modeOver rest }
      buffer := a.decoder.policy.keep rest } := by
  refine ⟨?_, fun dropped hmode => Policy.keep_of_modeOver hmode⟩
  rw [h.same]

theorem feed (h : Poised start a) (hd : ∀ d ∈ delimiters, d ≠ [])
    (hcut : start.decoder.cut = Delimiters.cut delimiters) (chunk : Bytes) :
    Poised start (a.feed chunk).intake := by
  have hcut' := h.cut.trans hcut
  rcases exists_course hd a.decoder.mode a.buffer chunk with
    ⟨hmode, segments, rest, hcuts⟩ | ⟨dropped, hmode, hu⟩ |
    ⟨dropped, length, d, segments, rest, hmode, hit, hcuts⟩
  · rw [(feed_normal hd hcut' hmode hcuts).2]
    exact h.leave rest
  · have hbuffer := h.dropping dropped hmode
    rw [(feed_drop hd hcut' hmode hbuffer hu).2]
    refine ⟨?_, fun _ _ => hbuffer⟩
    rw [h.same]
  · rw [(feed_resume hd hcut' hmode (h.dropping dropped hmode) hit hcuts).2]
    exact h.leave rest

theorem feedAll (h : Poised start a) (hd : ∀ d ∈ delimiters, d ≠ [])
    (hcut : start.decoder.cut = Delimiters.cut delimiters) (chunks : List Bytes) :
    Poised start (a.feedAll chunks).intake := by
  induction chunks generalizing a with
  | nil => exact h
  | cons chunk chunks ih => exact ih (h.feed hd hcut chunk)

end Poised

/-! ## While a frame is dropped -/

section Dropping

variable {a : Intake Framer} {dropped : Nat}

/-- Chunks without a delimiter are dropped, one after the other. -/
theorem feedAll_drop (hd : ∀ d ∈ delimiters, d ≠ [])
    (hcut : a.decoder.cut = Delimiters.cut delimiters)
    (hmode : a.decoder.mode = .discarding dropped) (hbuffer : a.buffer = []) {chunks : List Bytes}
    (hu : ∀ chunk ∈ chunks, Undelimited delimiters chunk) :
    (a.feedAll chunks).events = [] ∧
      (a.feedAll chunks).intake =
        { a with
          decoder := { a.decoder with mode := .discarding (dropped + chunks.flatten.length) } } := by
  induction chunks generalizing a dropped with
  | nil =>
    refine ⟨rfl, ?_⟩
    rw [List.flatten_nil, List.length_nil, Nat.add_zero, ← hmode]
    rfl
  | cons chunk chunks ih =>
    obtain ⟨hevents, hintake⟩ := feed_drop hd hcut hmode hbuffer (hu chunk List.mem_cons_self)
    have hmode' : (a.feed chunk).intake.decoder.mode = .discarding (dropped + chunk.length) := by
      rw [hintake]
    obtain ⟨hmore, hend⟩ := ih (by rw [hintake]; exact hcut) hmode' (by rw [hintake]; exact hbuffer)
      fun c hc => hu c (List.mem_cons_of_mem _ hc)
    refine ⟨?_, ?_⟩
    · show (a.feed chunk).events ++ ((a.feed chunk).intake.feedAll chunks).events = []
      rw [hevents, hmore, List.append_nil]
    · show ((a.feed chunk).intake.feedAll chunks).intake = _
      rw [hend, hintake, List.flatten_cons, List.length_append, Nat.add_assoc]

/-- The chunk that ends the episode: behind its first delimiter it is fed as to a decoder in normal
mode. -/
theorem feed_resume_eq (hd : ∀ d ∈ delimiters, d ≠ [])
    (hcut : a.decoder.cut = Delimiters.cut delimiters)
    (hmode : a.decoder.mode = .discarding dropped) (hbuffer : a.buffer = []) {chunk : Bytes}
    {length : Nat} {d : Bytes} (hit : Hit delimiters chunk length d) :
    let behind := ({ a with decoder := { a.decoder with mode := .normal } } : Intake Framer).feed
      (chunk.drop (length + d.length))
    (a.feed chunk).events =
        (if a.decoder.policy.failFast then []
          else [.failed (a.decoder.policy.tooLong (a.decoder.overrun dropped length))]) ++
          behind.events ∧
      (a.feed chunk).intake = behind.intake := by
  intro behind
  obtain ⟨segments, rest, hcuts⟩ := exists_cuts hd (chunk.drop (length + d.length))
  obtain ⟨hevents, hintake⟩ := feed_resume hd hcut hmode hbuffer hit hcuts
  have hcuts' : Cuts delimiters (a.buffer ++ chunk.drop (length + d.length)) segments rest := by
    rwa [hbuffer]
  obtain ⟨hevents', hintake'⟩ :=
    feed_normal (a := { a with decoder := { a.decoder with mode := .normal } }) hd hcut rfl hcuts'
  refine ⟨?_, ?_⟩
  · rw [hevents]
    exact congrArg _ hevents'.symm
  · rw [hintake]
    exact hintake'.symm

/-- From the chunk on that ends the episode, feeds are made as to a decoder in normal mode that is
given what is behind the delimiter. -/
theorem feedAll_resume_eq (hd : ∀ d ∈ delimiters, d ≠ [])
    (hcut : a.decoder.cut = Delimiters.cut delimiters)
    (hmode : a.decoder.mode = .discarding dropped) (hbuffer : a.buffer = []) {chunk : Bytes}
    {length : Nat} {d : Bytes} (hit : Hit delimiters chunk length d) (later : List Bytes) :
    let behind := ({ a with decoder := { a.decoder with mode := .normal } } : Intake Framer).feedAll
      (chunk.drop (length + d.length) :: later)
    (a.feedAll (chunk :: later)).events =
        (if a.decoder.policy.failFast then []
          else [.failed (a.decoder.policy.tooLong (a.decoder.overrun dropped length))]) ++
          behind.events ∧
      (a.feedAll (chunk :: later)).intake = behind.intake := by
  obtain ⟨hevents, hintake⟩ := feed_resume_eq hd hcut hmode hbuffer hit
  unfold Intake.feedAll
  dsimp only
  rw [hevents, hintake, List.append_assoc]
  exact ⟨rfl, rfl⟩

end Dropping

/-! ## The place where an episode ends -/

/-- The first delimiter of a chunk is the first one of what came in before and of the chunk, if and
only if none begins before the chunk. -/
theorem hit_append_iff {idle chunk : Bytes} {length : Nat} {d : Bytes}
    (hit : Hit delimiters chunk length d) :
    Hit delimiters (idle ++ chunk) (idle.length + length) d ↔
      ∀ e ∈ delimiters, ∀ i < idle.length, ¬ OccursAt e (idle ++ chunk) i := by
  constructor
  · intro h e he i hi
    exact h.least e he i (by omega)
  · intro hno
    refine ⟨?_, by simpa only [occursAt_append_add] using hit.listed⟩
    intro e he i hi hocc
    by_cases hlt : i < idle.length
    · exact hno e he i hlt hocc
    · obtain ⟨j, rfl⟩ := Nat.exists_eq_add_of_le (Nat.le_of_not_lt hlt)
      exact hit.least e he j (by omega) ((occursAt_append_add idle chunk e j).1 hocc)

section Framer

variable {start : Intake Framer} {before idle : List Bytes} {dropped : Nat}

/-- After the feeds `before` a frame is being dropped, and chunks without a delimiter go with it. -/
theorem framer_waits (hd : ∀ d ∈ delimiters, d ≠ [])
    (hcut : start.decoder.cut = Delimiters.cut delimiters) (hbuffer : start.buffer = [])
    (hmode : (start.feedAll before).intake.decoder.mode = .discarding dropped)
    (hidle : ∀ c ∈ idle, Undelimited delimiters c) :
    (start.feedAll (before ++ idle)).events = (start.feedAll before).events ∧
      (start.feedAll (before ++ idle)).intake =
        { start with
          decoder := { start.decoder with mode := .discarding (dropped + idle.flatten.length) } } := by
  have hpoised := Poised.feedAll (a := start) ⟨rfl, fun _ _ => hbuffer⟩ hd hcut before
  have hempty := hpoised.dropping dropped hmode
  have hsame := hpoised.same
  rw [hmode, hempty] at hsame
  obtain ⟨hevents, hintake⟩ := Intake.feedAll_append start before idle
  obtain ⟨htold, hleft⟩ :=
    feedAll_drop hd (by rw [hsame]; exact hcut) hmode hempty hidle
  refine ⟨?_, ?_⟩
  · rw [hevents, htold, List.append_nil]
  · rw [hintake, hleft, hsame, hbuffer]

/-- From the chunk on that ends the episode it is as if the feeds began behind the delimiter. -/
theorem framer_resumes (hd : ∀ d ∈ delimiters, d ≠ [])
    (hcut : start.decoder.cut = Delimiters.cut delimiters) (hnormal : start.decoder.mode = .normal)
    (hbuffer : start.buffer = [])
    (hmode : (start.feedAll before).intake.decoder.mode = .discarding dropped)
    (hidle : ∀ c ∈ idle, Undelimited delimiters c) {chunk : Bytes} {length : Nat} {d : Bytes}
    (hit : Hit delimiters chunk length d) (later : List Bytes) :
    let p := start.decoder.policy
    let total := start.decoder.overrun (dropped + idle.flatten.length) length
    let behind := start.feedAll (chunk.drop (length + d.length) :: later)
    (start.feedAll (before ++ idle ++ chunk :: later)).events =
        (start.feedAll before).events ++
          ((if p.failFast then [] else [.failed (p.tooLong total)]) ++ behind.events) ∧
      (start.feedAll (before ++ idle ++ chunk :: later)).intake = behind.intake := by
  intro p total behind
  obtain ⟨htold, hleft⟩ := framer_waits hd hcut hbuffer hmode hidle
  obtain ⟨hevents, hintake⟩ := Intake.feedAll_append start (before ++ idle) (chunk :: later)
  obtain ⟨hmore, hend⟩ :=
    feedAll_resume_eq (a := (start.feedAll (before ++ idle)).intake) hd (by rw [hleft]; exact hcut)
      (by rw [hleft]) (by rw [hleft]; exact hbuffer) hit later
  rw [hleft] at hmore hend
  have hfresh : ({ start with decoder := { start.decoder with mode := .normal } } :
      Intake Framer) = start := by
    rw [← hnormal]
  refine ⟨?_, ?_⟩
  · rw [hevents, htold, hleft, hmore]
    exact congrArg (fun b : Intake Framer => _ ++ (_ ++ (b.feedAll _).events)) hfresh
  · rw [hintake, hleft, hend]
    exact congrArg (fun b : Intake Framer => (b.feedAll _).intake) hfresh

end Framer

/-- After the feeds `before` an oversized frame is being dropped.  Chunks without a delimiter are
dropped with it.  The next chunk ends the episode at its first delimiter, and from there on the
decoder tells and keeps what a fresh one does.  This delimiter is the first one of all the bytes
that came in since the episode began, if and only if none begins in the chunks dropped. -/
theorem resumes_behind_delimiter {policy : Policy} {s : Splitter}
    (hs : Splitter.ofDelimiters policy delimiters = .ok s) (connection : Nat)
    {before idle : List Bytes} {chunk : Bytes} (later : List Bytes) {dropped length : Nat}
    {d : Bytes}
    (hmode : (({ decoder := s, connection } : Intake Splitter).feedAll
      before).intake.decoder.mode = .discarding dropped)
    (hidle : ∀ c ∈ idle, Undelimited delimiters c) (hit : Hit delimiters chunk length d) :
    let fresh : Intake Splitter := { decoder := s, connection }
    let entered := fresh.feedAll before
    let waited := fresh.feedAll (before ++ idle)
    let resumed := fresh.feedAll (before ++ idle ++ chunk :: later)
    let behind := fresh.feedAll (chunk.drop (length + d.length) :: later)
    (waited.events = entered.events ∧ waited.intake.buffer = [] ∧
      waited.intake.decoder.mode = .discarding (dropped + idle.flatten.length)) ∧
    (∃ total ≥ dropped + idle.flatten.length,
      resumed.events = entered.events ++
        ((if policy.failFast then [] else [.failed (policy.tooLong total)]) ++ behind.events)) ∧
    resumed.intake.buffer = behind.intake.buffer ∧
    resumed.intake.decoder.mode = behind.intake.decoder.mode ∧
    (Hit delimiters (idle.flatten ++ chunk) (idle.flatten.length + length) d ↔
      ∀ e ∈ delimiters, ∀ i < idle.flatten.length, ¬ OccursAt e (idle.flatten ++ chunk) i) := by
  intro fresh entered waited resumed behind
  obtain ⟨-, -, hd, -⟩ := (Splitter.ofDelimiters_eq_ok_iff policy delimiters s).1 hs
  obtain ⟨f, rfl, hcut, hnormal, hover, hfed⟩ := Splitter.exists_framer hs
  let start : Intake Framer := { decoder := f, connection }
  have hmode' : (start.feedAll before).intake.decoder.mode = .discarding dropped :=
    (hfed connection before).2.2.symm.trans hmode
  obtain ⟨htold, hleft⟩ := framer_waits hd hcut rfl hmode' hidle
  obtain ⟨hevents, hintake⟩ := framer_resumes hd hcut hnormal rfl hmode' hidle hit later
  obtain ⟨hentered, -, -⟩ := hfed connection before
  obtain ⟨hwaited, hwaitedBuffer, hwaitedMode⟩ := hfed connection (before ++ idle)
  obtain ⟨hresumed, hresumedBuffer, hresumedMode⟩ :=
    hfed connection (before ++ idle ++ chunk :: later)
  obtain ⟨hbehind, hbehindBuffer, hbehindMode⟩ :=
    hfed connection (chunk.drop (length + d.length) :: later)
  refine ⟨⟨?_, ?_, ?_⟩, ⟨_, hover _ length, ?_⟩, ?_, ?_, hit_append_iff hit⟩
  · exact hwaited.trans (htold.trans hentered.symm)
  · exact hwaitedBuffer.trans (congrArg Intake.buffer hleft)
  · exact hwaitedMode.trans (congrArg (fun a : Intake Framer => a.decoder.mode) hleft)
  · show (fresh.feedAll (before ++ idle ++ chunk :: later)).events = _
    rw [hresumed, hevents, hentered, hbehind]
  · exact (hresumedBuffer.trans (congrArg Intake.buffer hintake)).trans hbehindBuffer.symm
  · exact (hresumedMode.trans
      (congrArg (fun a : Intake Framer => a.decoder.mode) hintake)).trans hbehindMode.symm

/-- An episode that is ended in its third chunk: half a delimiter was dropped in the second one, and
two frames come behind the whole one. -/
theorem resumes_behind_delimiter_third :
    let policy : Policy := { maxLength := 2, failFast := false }
    let s : Splitter := ⟨[[7, 8], [9]], .inl { delimiters := [[7, 8], [9]], policy }⟩
    let fresh : Intake Splitter := { decoder := s, connection := 0 }
    let resumed := fresh.feedAll ([[1, 2, 3]] ++ [[4, 7]] ++ [5, 7, 8, 6] :: [[9, 1, 9]])
    Splitter.ofDelimiters policy [[7, 8], [9]] = .ok s ∧
      (fresh.feedAll [[1, 2, 3]]).intake.decoder.mode = .discarding 3 ∧
      ∃ total ≥ 5, resumed.events = [.failed (.tooLong 2 total), .frame [6], .frame [1]] := by
  intro policy s fresh resumed
  have hd : ∀ d ∈ ([[7, 8], [9]] : List Bytes), d ≠ [] := by decide
  have hs : Splitter.ofDelimiters policy [[7, 8], [9]] = .ok s := rfl
  have hentered : (fresh.feedAll [[1, 2, 3]]).events = [] := by decide +kernel
  have hmode : (fresh.feedAll [[1, 2, 3]]).intake.decoder.mode = .discarding 3 := by
    decide +kernel
  have hbehind : (fresh.feedAll [[6], [9, 1, 9]]).events = [.frame [6], .frame [1]] := by
    decide +kernel
  have hidle : ∀ c ∈ [[4, 7]], Undelimited [[7, 8], [9]] c := by
    intro c hc
    rw [List.mem_singleton.1 hc]
    exact (Scan.shortest_eq_none_iff hd).1 (by decide)
  have hit : Hit [[7, 8], [9]] [5, 7, 8, 6] 1 [7, 8] :=
    (Scan.shortest_eq_some_iff hd 1 [7, 8]).1 (by decide)
  obtain ⟨-, ⟨total, htotal, hevents⟩, -⟩ :=
    resumes_behind_delimiter hs 0 [[9, 1, 9]] hmode hidle hit
  have htold : resumed.events = (fresh.feedAll [[1, 2, 3]]).events ++
      ([.failed (.tooLong 2 total)] ++ (fresh.feedAll [[6], [9, 1, 9]]).events) := hevents
  rw [hentered, hbehind] at htold
  exact ⟨hs, hmode, total, htotal, htold⟩

/-- The first delimiter of the bytes that came in since the episode began is at their front, and
behind it comes a frame that is within the limit.  But the delimiter came in two pieces: the episode
ends at the second one only, and the frame is lost. -/
theorem split_delimiter_missed :
    let policy : Policy := { maxLength := 2 }
    let delimiters : List Bytes := [[7, 7]]
    ∃ s, Splitter.ofDelimiters policy delimiters = .ok s ∧
      let fresh : Intake Splitter := { decoder := s, connection := 0 }
      let entered := fresh.feedAll [[1, 2, 3, 4]]
      let resumed := fresh.feedAll [[1, 2, 3, 4], [7], [7, 5, 6, 7, 7]]
      entered.intake.decoder.mode = .discarding 4 ∧
        Hit delimiters [7, 7, 5, 6, 7, 7] 0 [7, 7] ∧
        (fresh.feedAll [[5, 6, 7, 7]]).events = [.frame [5, 6]] ∧
        resumed.events = [.failed (.tooLong 2 4)] ∧ resumed.intake.buffer = [] ∧
        resumed.intake.decoder.mode = .normal := by
  intro policy delimiters
  have hit : Hit delimiters [7, 7, 5, 6, 7, 7] 0 [7, 7] :=
    (Scan.shortest_eq_some_iff (by decide) 0 [7, 7]).1 (by decide)
  exact ⟨_, rfl, by decide +kernel, hit, by decide +kernel⟩

end FrameLoop
