import FrameLoop.Proofs.Frame.Feeds

/-
  Where the chunks of a stream begin and end does not matter.

  This holds as long as nothing is dropped by mistake.  A delimiter may come in two pieces, and the
  piece that is there first counts to the frame before it.  So a frame that leaves room for all but
  the last byte of a delimiter is never over the limit, and what waits in the buffer is always the
  rest of what has been fed (`rest_fits`, `feedAll_eq_segments`).
-/

namespace FrameLoop

open Bytes

namespace Delimiters

/-- The length of the longest delimiter. -/
def longest (delimiters : List Bytes) : Nat :=
  (delimiters.map List.length).foldr max 0

theorem length_le_longest {delimiters : List Bytes} {d : Bytes} (h : d ∈ delimiters) :
    d.length ≤ longest delimiters := by
  induction delimiters with
  | nil => exact absurd h List.not_mem_nil
  | cons e delimiters ih =>
    simp only [longest, List.map_cons, List.foldr_cons]
    rcases List.mem_cons.1 h with rfl | h
    · exact Nat.le_max_left _ _
    · exact Nat.le_trans (ih h) (Nat.le_max_right _ _)

end Delimiters

variable {delimiters : List Bytes}

/-- The stream can be split whatever the chunks are: each segment leaves room for all but one byte
of a delimiter, and the tail is within the limit. -/
structure Fits (policy : Policy) (delimiters : List Bytes) (segments : List Segment)
    (tail : Bytes) : Prop where
  segments : ∀ segment ∈ segments,
    segment.body.length + (Delimiters.longest delimiters - 1) ≤ policy.maxLength
  tail : tail.length ≤ policy.maxLength

theorem Fits.rest_length_le {policy : Policy} {segments : List Segment} {rest more tail : Bytes}
    (h : Fits policy delimiters segments tail) (hd : ∀ d ∈ delimiters, d ≠ [])
    (hu : Undelimited delimiters rest) (hcuts : Cuts delimiters (rest ++ more) segments tail) :
    rest.length ≤ policy.maxLength := by
  rcases hcuts.begins with ⟨-, -, rfl⟩ | ⟨length, d, later, hit, rfl, -⟩
  · have := h.tail
    rw [List.length_append] at this
    omega
  · -- the delimiter does not lie in the rest, so it ends behind it
    have hlt : rest.length < length + d.length := by
      by_contra hle
      exact hu d hit.mem length (hit.occursAt.of_append (by omega))
    have hlong := Delimiters.length_le_longest hit.mem
    have hfit := h.segments _ List.mem_cons_self
    have hle := hit.le_length hd
    rw [List.length_take_of_le (by omega)] at hfit
    omega

/-- After feeds that are cut into the segments `before` and the rest `rest`, the consumer was handed
the segments, and the rest waits. -/
structure Delivered (f : Framer) (before : List Segment) (rest : Bytes) (events : List FrameEvent)
    (a : Intake Framer) : Prop where
  events : events = before.map fun segment => .frame (f.policy.frame segment)
  decoder : a.decoder = f
  buffer : a.buffer = rest

theorem Delivered.feed {f : Framer} {before now : List Segment} {rest rest' chunk : Bytes}
    {events : List FrameEvent} {a : Intake Framer} (h : Delivered f before rest events a)
    (hd : ∀ d ∈ delimiters, d ≠ []) (hcut : f.cut = Delimiters.cut delimiters)
    (hmode : f.mode = .normal) (hcuts : Cuts delimiters (rest ++ chunk) now rest')
    (hnow : ∀ segment ∈ now, segment.body.length ≤ f.policy.maxLength)
    (hrest : rest'.length ≤ f.policy.maxLength) :
    Delivered f (before ++ now) rest' (events ++ (a.feed chunk).events) (a.feed chunk).intake := by
  obtain ⟨rfl, rfl, rfl⟩ := h
  obtain ⟨hevents, hintake⟩ := feed_normal hd hcut hmode hcuts
  refine ⟨?_, ?_, ?_⟩
  · have htell : now.map a.decoder.policy.tell =
        now.map fun segment => .frame (a.decoder.policy.frame segment) :=
      List.map_congr_left fun segment hs => Policy.tell_of_le (hnow segment hs)
    rw [hevents, htell, Policy.tellRest_of_le hrest, List.append_nil, List.map_append]
  · rw [hintake, Policy.modeOver_of_le hrest, ← hmode]
  · rw [hintake, Policy.keep_of_le hrest]

/-- However a stream comes in, the consumer is handed its segments, and the tail waits. -/
theorem feedAll_eq_segments {policy : Policy} {s : Splitter}
    (hs : Splitter.ofDelimiters policy delimiters = .ok s) (hp : Delimiters.Prompt delimiters)
    (connection : Nat) {chunks : List Bytes} {segments : List Segment} {tail : Bytes}
    (hcuts : Cuts delimiters chunks.flatten segments tail)
    (hfits : Fits policy delimiters segments tail) :
    let fed := ({ decoder := s, connection } : Intake Splitter).feedAll chunks
    fed.events = segments.map (fun segment => .frame (policy.frame segment)) ∧
      fed.intake.buffer = tail := by
  obtain ⟨-, -, hd, -⟩ := (Splitter.ofDelimiters_eq_ok_iff policy delimiters s).1 hs
  obtain ⟨f, hpolicy, hcut, hmode, -, hfed⟩ := Splitter.exists_framer hs
  obtain ⟨hevents, hbuffer, -⟩ := hfed connection chunks
  subst hpolicy
  have hstep : Intake.Preserved delimiters segments tail (Delivered f) := by
    rintro before now later rest rest' more chunk events a rfl hnow hlater - h
    have hlaterFits : Fits f.policy delimiters later tail :=
      ⟨fun segment hs => hfits.segments segment (by simp [hs]), hfits.tail⟩
    have hbody : ∀ segment ∈ now, segment.body.length ≤ f.policy.maxLength := by
      intro segment hs
      have hfit := hfits.segments segment (by simp [hs])
      omega
    exact h.feed hd hcut hmode hnow hbody
      (hlaterFits.rest_length_le hd hnow.undelimited_rest hlater)
  have hstart : Delivered f [] [] [] { decoder := f, connection } := ⟨rfl, rfl, rfl⟩
  have hend := Intake.feedAll_cuts hd hp hstep hcuts hstart
  exact ⟨hevents.trans hend.events, hbuffer.trans hend.buffer⟩

/-- A line end in two pieces, an empty chunk, and a frame as long as it may be. -/
theorem feedAll_eq_segments_crlf :
    let policy : Policy := { maxLength := 3, strip := false }
    let chunks : List Bytes := [[1, cr], [lf, 2, 3], [], [lf, 4]]
    ∃ s, Splitter.ofDelimiters policy Delimiters.line = .ok s ∧
      let fed := ({ decoder := s, connection := 0 } : Intake Splitter).feedAll chunks
      fed.events = [.frame [1, cr, lf], .frame [2, 3, lf]] ∧ fed.intake.buffer = [4] := by
  intro policy chunks
  have hd := Delimiters.line_ne_nil
  have hit : Hit Delimiters.line [1, cr, lf, 2, 3, lf, 4] 1 [cr, lf] :=
    (Scan.shortest_eq_some_iff hd 1 [cr, lf]).1 (by decide)
  have hit' : Hit Delimiters.line [2, 3, lf, 4] 2 [lf] :=
    (Scan.shortest_eq_some_iff hd 2 [lf]).1 (by decide)
  have hu : Undelimited Delimiters.line [4] := (Scan.shortest_eq_none_iff hd).1 (by decide)
  have hcuts : Cuts Delimiters.line chunks.flatten
      [⟨[1], [cr, lf]⟩, ⟨[2, 3], [lf]⟩] [4] :=
    hit.cuts hd (hit'.cuts hd (.rest hu))
  have hfits : Fits policy Delimiters.line [⟨[1], [cr, lf]⟩, ⟨[2, 3], [lf]⟩] [4] :=
    ⟨by decide, by decide⟩
  exact ⟨_, rfl, feedAll_eq_segments rfl Delimiters.prompt_line 0 hcuts hfits⟩

end FrameLoop
