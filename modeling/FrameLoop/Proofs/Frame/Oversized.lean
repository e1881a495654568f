import FrameLoop.Proofs.Frame.Feeds
import Mathlib.Data.List.Forall2

/-
  Oversized frames between single bytes.

  A delimiter of one byte never comes in pieces, so a stream can be accounted for in full, oversized
  frames included (`feedAll_single_byte`).  Each segment is told of once: as a frame, or as too long
  with a length that is over the limit, whether it was seen as a whole, or was dropped piece by
  piece and reported early or late.  What is dropped at the end is the tail.
-/

namespace FrameLoop

open Bytes

namespace Policy

/-- The event is what a segment is told of by: the frame, or one report that it is too long. -/
def TellsOf (p : Policy) (segment : Segment) (event : FrameEvent) : Prop :=
  if segment.body.length ≤ p.maxLength then event = .frame (p.frame segment)
  else ∃ length > p.maxLength, event = .failed (p.tooLong length)

/-- The events are what is told of a segment that has not ended: one report if it is too long
already and reports are made early, and otherwise nothing. -/
def TellsOfRest (p : Policy) (rest : Bytes) (events : List FrameEvent) : Prop :=
  if p.failFast ∧ p.maxLength < rest.length then
    ∃ length > p.maxLength, events = [.failed (p.tooLong length)]
  else events = []

variable {p : Policy} {rest : Bytes}

theorem tellsOf_tell (p : Policy) (segment : Segment) : p.TellsOf segment (p.tell segment) := by
  rw [TellsOf]
  split
  · next hle => exact tell_of_le hle
  · next hlong => exact ⟨segment.body.length, by omega, if_pos (by omega)⟩

theorem tellsOfRest_tellRest (p : Policy) (rest : Bytes) :
    p.TellsOfRest rest (p.tellRest rest) := by
  rw [TellsOfRest, tellRest]
  split
  · next h => exact ⟨rest.length, h.2, by rw [if_pos ⟨h.2, h.1⟩]⟩
  · next h => exact if_neg fun h' => h ⟨h'.2, h'.1⟩

end Policy

/-- The events tell of these segments, and of this rest. -/
def TellsOfAll (p : Policy) (segments : List Segment) (rest : Bytes) (events : List FrameEvent) :
    Prop :=
  ∃ told pending, events = told ++ pending ∧ List.Forall₂ p.TellsOf segments told ∧
    p.TellsOfRest rest pending

namespace TellsOfAll

variable {p : Policy} {before now : List Segment} {rest rest' : Bytes} {events : List FrameEvent}

theorem whole (p : Policy) (segments : List Segment) (rest : Bytes) :
    TellsOfAll p segments rest (segments.map p.tell ++ p.tellRest rest) := by
  refine ⟨_, _, rfl, ?_, Policy.tellsOfRest_tellRest p rest⟩
  rw [List.forall₂_map_right_iff, List.forall₂_same]
  exact fun segment _ => Policy.tellsOf_tell p segment

/-- What is told after a rest that is within the limit is told of what follows. -/
theorem append {events' : List FrameEvent} (h : TellsOfAll p before rest events)
    (hle : rest.length ≤ p.maxLength) (h' : TellsOfAll p now rest' events') :
    TellsOfAll p (before ++ now) rest' (events ++ events') := by
  obtain ⟨told, pending, rfl, htold, hpending⟩ := h
  obtain ⟨told', pending', rfl, htold', hpending'⟩ := h'
  rw [Policy.TellsOfRest, if_neg fun hlong => Nat.not_lt.2 hle hlong.2] at hpending
  subst hpending
  exact ⟨told ++ told', pending', by simp, List.rel_append htold htold', hpending'⟩

/-- A rest that is too long is told of once, however much longer it becomes. -/
theorem longer (h : TellsOfAll p before rest events) (hlong : p.maxLength < rest.length)
    (hlong' : p.maxLength < rest'.length) : TellsOfAll p before rest' events := by
  obtain ⟨told, pending, rfl, htold, hpending⟩ := h
  refine ⟨told, pending, rfl, htold, ?_⟩
  simpa only [Policy.TellsOfRest, hlong, hlong'] using hpending

/-- A rest that is too long is told of when it ends, unless it has been told of before. -/
theorem ends {segment : Segment} {events' : List FrameEvent} {length : Nat}
    (h : TellsOfAll p before rest events) (hlong : p.maxLength < rest.length)
    (hbody : p.maxLength < segment.body.length) (hlength : p.maxLength < length)
    (h' : TellsOfAll p now rest' events') :
    TellsOfAll p (before ++ segment :: now) rest'
      (events ++ ((if p.failFast then [] else [.failed (p.tooLong length)]) ++ events')) := by
  have hnot : ¬ segment.body.length ≤ p.maxLength := Nat.not_le.2 hbody
  obtain ⟨told, pending, rfl, htold, hpending⟩ := h
  obtain ⟨told', pending', rfl, htold', hpending'⟩ := h'
  -- the report on the segment was made early or is made now
  have hreport : ∃ report, p.TellsOf segment report ∧
      pending ++ (if p.failFast then [] else [.failed (p.tooLong length)]) = [report] := by
    cases hfast : p.failFast with
    | true =>
      rw [Policy.TellsOfRest, if_pos ⟨hfast, hlong⟩] at hpending
      obtain ⟨length', hlength', rfl⟩ := hpending
      refine ⟨.failed (p.tooLong length'), ?_, by simp⟩
      rw [Policy.TellsOf, if_neg hnot]
      exact ⟨length', hlength', rfl⟩
    | false =>
      rw [Policy.TellsOfRest, if_neg (by simp [hfast])] at hpending
      refine ⟨.failed (p.tooLong length), ?_, by simp [hpending]⟩
      rw [Policy.TellsOf, if_neg hnot]
      exact ⟨length, hlength, rfl⟩
  obtain ⟨report, htells, heq⟩ := hreport
  refine ⟨told ++ report :: told', pending', ?_, ?_, hpending'⟩
  · rw [List.append_assoc, ← List.append_assoc pending, heq]
    simp
  · exact List.rel_append htold (.cons htells htold')

end TellsOfAll

/-! ## Feeds -/

variable {delimiters : List Bytes}

/-- After feeds that are cut into the segments `before` and the rest `rest`, all of it has been told
of, and the rest is kept or dropped. -/
structure Accounted (f : Framer) (before : List Segment) (rest : Bytes)
    (events : List FrameEvent) (a : Intake Framer) : Prop where
  events : TellsOfAll f.policy before rest events
  decoder : a.decoder = { f with mode := f.policy.modeOver rest }
  buffer : a.buffer = f.policy.keep rest

namespace Accounted

variable {f : Framer} {before now : List Segment} {rest rest' chunk : Bytes}
  {events : List FrameEvent} {a : Intake Framer}

theorem feed_kept (h : Accounted f before rest events a) (hd : ∀ d ∈ delimiters, d ≠ [])
    (hcut : f.cut = Delimiters.cut delimiters) (hle : rest.length ≤ f.policy.maxLength)
    (hcuts : Cuts delimiters (rest ++ chunk) now rest') :
    Accounted f (before ++ now) rest' (events ++ (a.feed chunk).events) (a.feed chunk).intake := by
  obtain ⟨htold, hdecoder, hbuffer⟩ := h
  rw [Policy.modeOver_of_le hle] at hdecoder
  rw [Policy.keep_of_le hle] at hbuffer
  rw [← hbuffer] at hcuts
  obtain ⟨hevents, hintake⟩ :=
    feed_normal hd (by rw [hdecoder]; exact hcut) (by rw [hdecoder]) hcuts
  rw [hdecoder] at hevents hintake
  refine ⟨?_, by rw [hintake], by rw [hintake]⟩
  rw [hevents]
  exact htold.append hle (.whole f.policy now rest')

/-- One more chunk, in the middle of a segment that is dropped.  The chunk must be cut by itself
where the stream is cut: without a delimiter it only makes the rest longer, and behind the one that
ends the segment there is the same as in the stream. -/
theorem feed_discarding (h : Accounted f before rest events a) (hd : ∀ d ∈ delimiters, d ≠ [])
    (hcut : f.cut = Delimiters.cut delimiters)
    (hover : ∀ dropped length, dropped ≤ f.overrun dropped length)
    (hlong : f.policy.maxLength < rest.length)
    (hnone : Undelimited delimiters chunk → now = [] ∧ rest' = rest ++ chunk)
    (hsome : ∀ length d, Hit delimiters chunk length d → ∃ segment later,
      now = segment :: later ∧ f.policy.maxLength < segment.body.length ∧
        Cuts delimiters (chunk.drop (length + d.length)) later rest') :
    Accounted f (before ++ now) rest' (events ++ (a.feed chunk).events) (a.feed chunk).intake := by
  obtain ⟨htold, hdecoder, hbuffer⟩ := h
  rw [Policy.modeOver, if_pos hlong] at hdecoder
  rw [Policy.keep, if_pos hlong] at hbuffer
  cases hs : Scan.shortest delimiters chunk with
  | none =>
    have hchunk := (Scan.shortest_eq_none_iff hd).1 hs
    obtain ⟨rfl, rfl⟩ := hnone hchunk
    have hlong' : f.policy.maxLength < (rest ++ chunk).length := by
      rw [List.length_append]
      omega
    obtain ⟨hevents, hintake⟩ :=
      feed_drop hd (by rw [hdecoder]; exact hcut) (by rw [hdecoder]) hbuffer hchunk
    rw [hdecoder] at hintake
    refine ⟨?_, ?_, ?_⟩
    · rw [hevents, List.append_nil, List.append_nil]
      exact htold.longer hlong hlong'
    · rw [hintake, Policy.modeOver, if_pos hlong', List.length_append]
    · rw [hintake, Policy.keep, if_pos hlong', hbuffer]
  | some hit =>
    have hchunk := (Scan.shortest_eq_some_iff hd hit.1 hit.2).1 hs
    obtain ⟨segment, later, rfl, hbody, hlater⟩ := hsome _ _ hchunk
    obtain ⟨hevents, hintake⟩ :=
      feed_resume hd (by rw [hdecoder]; exact hcut) (by rw [hdecoder]) hbuffer hchunk hlater
    rw [hdecoder] at hevents hintake
    refine ⟨?_, by rw [hintake], by rw [hintake]⟩
    have hlength := Nat.lt_of_lt_of_le hlong (hover rest.length hit.1)
    rw [hevents]
    exact htold.ends hlong hbody hlength (.whole f.policy later rest')

/-- With single bytes every chunk is cut by itself where the stream is cut. -/
theorem feed_dropped (h : Accounted f before rest events a) (h1 : ∀ d ∈ delimiters, d.length = 1)
    (hcut : f.cut = Delimiters.cut delimiters)
    (hover : ∀ dropped length, dropped ≤ f.overrun dropped length)
    (hlong : f.policy.maxLength < rest.length) (hu : Undelimited delimiters rest)
    (hcuts : Cuts delimiters (rest ++ chunk) now rest') :
    Accounted f (before ++ now) rest' (events ++ (a.feed chunk).events) (a.feed chunk).intake := by
  have hd : ∀ d ∈ delimiters, d ≠ [] := fun d hmem hnil => by simpa [hnil] using h1 d hmem
  refine h.feed_discarding hd hcut hover hlong ?_ ?_
  · exact fun hchunk => hcuts.eq_of_undelimited (undelimited_append h1 hu hchunk)
  · intro length d hit
    obtain ⟨later, rfl, hlater⟩ := hcuts.eq_of_hit (hit.behind h1 hu)
    rw [Nat.add_assoc, List.drop_append, List.drop_eq_nil_of_le (by omega), List.nil_append,
      Nat.add_sub_cancel_left] at hlater
    refine ⟨_, later, rfl, ?_, hlater⟩
    rw [List.length_take, List.length_append]
    omega

theorem feedAll (hd : ∀ d ∈ delimiters, d ≠ []) (hp : Delimiters.Prompt delimiters)
    (hcut : f.cut = Delimiters.cut delimiters) (hmode : f.mode = .normal) (connection : Nat)
    {chunks : List Bytes} {segments : List Segment} {tail : Bytes}
    (hcuts : Cuts delimiters chunks.flatten segments tail)
    (hdrop : ∀ before now later rest rest' chunk events a, segments = before ++ now ++ later →
      f.policy.maxLength < rest.length → Undelimited delimiters rest →
      Cuts delimiters (rest ++ chunk) now rest' → Accounted f before rest events a →
      Accounted f (before ++ now) rest' (events ++ (a.feed chunk).events)
        (a.feed chunk).intake) :
    let fed := ({ decoder := f, connection } : Intake Framer).feedAll chunks
    Accounted f segments tail fed.events fed.intake := by
  have hstep : Intake.Preserved delimiters segments tail (Accounted f) := by
    intro before now later rest rest' more chunk events a hsegs hnow _ hu h
    by_cases hlong : f.policy.maxLength < rest.length
    · exact hdrop before now later rest rest' chunk events a hsegs hlong hu hnow h
    · exact h.feed_kept hd hcut (Nat.le_of_not_lt hlong) hnow
  have hstart : Accounted f [] [] [] { decoder := f, connection } := by
    refine ⟨.whole f.policy [] [], ?_, (Policy.keep_nil _).symm⟩
    rw [Policy.modeOver_nil, ← hmode]
  exact Intake.feedAll_cuts hd hp hstep hcuts hstart

theorem rest_kept_or_dropped (h : Accounted f before rest events a) :
    if rest.length ≤ f.policy.maxLength then a.decoder.mode = .normal ∧ a.buffer = rest
    else a.decoder.mode = .discarding rest.length ∧ a.buffer = [] := by
  rw [h.decoder, h.buffer]
  split
  · next hle => exact ⟨Policy.modeOver_of_le hle, Policy.keep_of_le hle⟩
  · next hlong =>
    have hlong : f.policy.maxLength < rest.length := Nat.lt_of_not_le hlong
    exact ⟨if_pos hlong, if_pos hlong⟩

end Accounted

/-- A stream between single bytes, in full.  Each segment is told of once and in order, the tail
too if it is already known to be too long and reports are made early, and the tail is kept or
dropped. -/
theorem feedAll_single_byte {policy : Policy} (hpolicy : policy.check = .ok ())
    (hne : delimiters ≠ []) (h1 : ∀ d ∈ delimiters, d.length = 1) (connection : Nat)
    {chunks : List Bytes} {segments : List Segment} {tail : Bytes}
    (hcuts : Cuts delimiters chunks.flatten segments tail) :
    ∃ s, Splitter.ofDelimiters policy delimiters = .ok s ∧
      let fed := ({ decoder := s, connection } : Intake Splitter).feedAll chunks
      TellsOfAll policy segments tail fed.events ∧
        if tail.length ≤ policy.maxLength then
          fed.intake.decoder.mode = .normal ∧ fed.intake.buffer = tail
        else
          fed.intake.decoder.mode = .discarding tail.length ∧ fed.intake.buffer = [] := by
  have hd : ∀ d ∈ delimiters, d ≠ [] := fun d hmem hnil => by simpa [hnil] using h1 d hmem
  have hs := (Splitter.ofDelimiters_eq_ok_iff policy delimiters _).2 ⟨hpolicy, hne, hd, rfl⟩
  refine ⟨_, hs, ?_⟩
  obtain ⟨f, rfl, hcut, hmode, hover, hfed⟩ := Splitter.exists_framer hs
  obtain ⟨hevents, hbuffer, hmode'⟩ := hfed connection chunks
  have hend := Accounted.feedAll hd (Delimiters.prompt_of_single h1) hcut hmode connection hcuts
    fun _ _ _ _ _ _ _ _ _ hlong hu hnow h => h.feed_dropped h1 hcut hover hlong hu hnow
  dsimp only
  rw [hevents, hbuffer, hmode']
  exact ⟨hend.events, hend.rest_kept_or_dropped⟩

/-- An oversized frame that is dropped in two pieces, a good one behind it in the same chunk, and an
oversized tail. -/
theorem feedAll_single_byte_resumes :
    let policy : Policy := { maxLength := 2 }
    let chunks : List Bytes := [[1, 2, 3], [4, 0, 5], [lf, 6, 7, 8]]
    ∃ s, Splitter.ofDelimiters policy [[0], [lf]] = .ok s ∧
      let fed := ({ decoder := s, connection := 0 } : Intake Splitter).feedAll chunks
      TellsOfAll policy [⟨[1, 2, 3, 4], [0]⟩, ⟨[5], [lf]⟩] [6, 7, 8] fed.events ∧
        fed.intake.decoder.mode = .discarding 3 ∧ fed.intake.buffer = [] := by
  intro policy chunks
  have hd : ∀ d ∈ [[0], [lf]], d ≠ [] := by decide
  have hit : Hit [[0], [lf]] [1, 2, 3, 4, 0, 5, lf, 6, 7, 8] 4 [0] :=
    (Scan.shortest_eq_some_iff hd 4 [0]).1 (by decide)
  have hit' : Hit [[0], [lf]] [5, lf, 6, 7, 8] 1 [lf] :=
    (Scan.shortest_eq_some_iff hd 1 [lf]).1 (by decide)
  have hu : Undelimited [[0], [lf]] [6, 7, 8] := (Scan.shortest_eq_none_iff hd).1 (by decide)
  have hcuts : Cuts [[0], [lf]] chunks.flatten
      [⟨[1, 2, 3, 4], [0]⟩, ⟨[5], [lf]⟩] [6, 7, 8] :=
    hit.cuts hd (hit'.cuts hd (.rest hu))
  exact feedAll_single_byte rfl (by simp) (by decide) 0 hcuts

end FrameLoop
