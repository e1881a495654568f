import FrameLoop.Proofs.Frame.Cutting
import FrameLoop.Proofs.Frame.Framer

/-
  A framer that is fed, against the cut of the stream.

  One pass over a buffer tells of each segment of it, and then drops the rest or keeps it
  (`pass_normal`).  In the middle of dropping, the first delimiter ends the episode and the pass
  goes on as usual (`pass_resume`), or there is none and everything is dropped (`pass_drop`).

  `Intake.feedAll_cuts` is the induction over the feeds of a stream.  What has been fed is cut into
  segments and a rest, and a property that one feed preserves holds at the end.
-/

namespace FrameLoop

open Bytes

namespace Policy

/-- The frame that is handed out for a segment. -/
def frame (p : Policy) (segment : Segment) : Bytes :=
  if p.strip then segment.body else segment.bytes

/-- What is told of a segment that is seen as a whole. -/
def tell (p : Policy) (segment : Segment) : FrameEvent :=
  if p.maxLength < segment.body.length then .failed (p.tooLong segment.body.length)
  else .frame (p.frame segment)

theorem tell_of_le {p : Policy} {segment : Segment} (h : segment.body.length ≤ p.maxLength) :
    p.tell segment = .frame (p.frame segment) :=
  if_neg (Nat.not_lt.2 h)

/-- What is told of a rest when it is first seen. -/
def tellRest (p : Policy) (rest : Bytes) : List FrameEvent :=
  if p.maxLength < rest.length ∧ p.failFast then [.failed (p.tooLong rest.length)] else []

/-- What is kept of a rest. -/
def keep (p : Policy) (rest : Bytes) : Bytes :=
  if p.maxLength < rest.length then [] else rest

/-- The mode over a rest. -/
def modeOver (p : Policy) (rest : Bytes) : Mode :=
  if p.maxLength < rest.length then .discarding rest.length else .normal

section

variable {p : Policy} {rest : Bytes}

/-- A rest within the limit is kept, and nothing is told of it. -/
theorem tellRest_of_le (h : rest.length ≤ p.maxLength) : p.tellRest rest = [] :=
  if_neg fun hlong => Nat.not_lt.2 h hlong.1

theorem keep_of_le (h : rest.length ≤ p.maxLength) : p.keep rest = rest :=
  if_neg (Nat.not_lt.2 h)

theorem modeOver_of_le (h : rest.length ≤ p.maxLength) : p.modeOver rest = .normal :=
  if_neg (Nat.not_lt.2 h)

@[simp]
theorem tellRest_nil (p : Policy) : p.tellRest [] = [] :=
  tellRest_of_le (Nat.zero_le _)

@[simp]
theorem keep_nil (p : Policy) : p.keep [] = [] :=
  keep_of_le (Nat.zero_le _)

@[simp]
theorem modeOver_nil (p : Policy) : p.modeOver [] = .normal :=
  modeOver_of_le (Nat.zero_le _)

end

theorem keep_of_modeOver {p : Policy} {rest : Bytes} {dropped : Nat}
    (h : p.modeOver rest = .discarding dropped) : p.keep rest = [] := by
  unfold modeOver at h
  split at h
  · next hlong => exact if_pos hlong
  · cases h

end Policy

/-! ## One pass -/

namespace Framer

variable {delimiters : List Bytes} {buffer rest : Bytes} {segments : List Segment} {f : Framer}
  {calls : Nat}

/-- In normal mode a call tells of a segment, and cuts it off. -/
theorem decode_segment (hd : ∀ d ∈ delimiters, d ≠ []) (hcut : f.cut = Delimiters.cut delimiters)
    (hmode : f.mode = .normal) {length : Nat} {d : Bytes} (hit : Hit delimiters buffer length d) :
    ∃ outcome : Outcome, outcome.event? = some (f.policy.tell ⟨buffer.take length, d⟩) ∧
      f.decode buffer = ⟨outcome, f, buffer.drop (length + d.length)⟩ := by
  have hle := hit.le_length hd
  have hc : f.cut buffer = some (length, d.length) := by
    rw [hcut, Delimiters.cut_eq_of_hit hd hit]
  have htake : (buffer.take length).length = length := List.length_take_of_le (by omega)
  by_cases hlong : f.policy.maxLength < length
  · refine ⟨_, ?_, decode_oversized hc hmode hlong⟩
    rw [Policy.tell, htake, if_pos hlong]
    rfl
  · refine ⟨_, ?_, decode_frame hc hmode (Nat.le_of_not_lt hlong)⟩
    rw [Policy.tell, htake, if_neg hlong, Policy.frame, Segment.bytes, ← hit.take_add]
    cases f.policy.strip <;> rfl

theorem pass_segment (hd : ∀ d ∈ delimiters, d ≠ []) (hcut : f.cut = Delimiters.cut delimiters)
    (hmode : f.mode = .normal) {length : Nat} {d : Bytes} (hit : Hit delimiters buffer length d) :
    pass (calls + 1) f buffer =
      { pass calls f (buffer.drop (length + d.length)) with
        events := f.policy.tell ⟨buffer.take length, d⟩ ::
          (pass calls f (buffer.drop (length + d.length))).events } := by
  have hle := hit.le_length hd
  have hpos : 0 < d.length := List.length_pos_iff.2 (hd d hit.mem)
  obtain ⟨outcome, hevent, hturn⟩ := decode_segment hd hcut hmode hit
  rw [pass_of_progress hturn (by rw [List.length_drop]; omega)]
  dsimp only
  rw [hevent]
  rfl

/-- What is left is kept as it is, or dropped. -/
theorem pass_rest (hd : ∀ d ∈ delimiters, d ≠ []) (hcut : f.cut = Delimiters.cut delimiters)
    (hmode : f.mode = .normal) (hu : Undelimited delimiters rest) :
    pass (calls + 1) f rest =
      ⟨f.policy.tellRest rest, { f with mode := f.policy.modeOver rest }, f.policy.keep rest⟩ := by
  have hc : f.cut rest = none := by rw [hcut, (Delimiters.cut_eq_none_iff hd).2 hu]
  by_cases hlong : f.policy.maxLength < rest.length
  · have hturn := decode_overflow hc hmode hlong
    rw [pass_of_progress hturn (by rw [List.length_nil]; omega), pass_nil]
    simp only [Policy.tellRest, Policy.modeOver, Policy.keep, hlong, if_true, true_and,
      List.append_nil]
    cases f.policy.failFast <;> rfl
  · have hsame : ({ f with mode := .normal } : Framer) = f := by rw [← hmode]
    simp only [Policy.tellRest, Policy.modeOver, Policy.keep, hlong, if_false, false_and, hsame]
    by_cases hne : rest = []
    · rw [hne, pass_nil]
    · have hturn : Decoder.decode f rest = ⟨.nothing, f, rest⟩ :=
        decode_wait hc hmode (Nat.le_of_not_lt hlong)
      exact pass_of_nothing hturn rfl rfl hne

theorem pass_normal (hd : ∀ d ∈ delimiters, d ≠ []) (hcut : f.cut = Delimiters.cut delimiters)
    (hmode : f.mode = .normal) (hcuts : Cuts delimiters buffer segments rest)
    (hcalls : buffer.length < calls) :
    pass calls f buffer =
      ⟨segments.map f.policy.tell ++ f.policy.tellRest rest,
        { f with mode := f.policy.modeOver rest }, f.policy.keep rest⟩ := by
  induction hcuts generalizing calls with
  | rest hu =>
    obtain ⟨calls, rfl⟩ := Nat.exists_eq_succ_of_ne_zero (Nat.ne_of_gt (Nat.zero_lt_of_lt hcalls))
    exact pass_rest hd hcut hmode hu
  | segment hdel hleast hbefore _ ih =>
    obtain ⟨calls, rfl⟩ := Nat.exists_eq_succ_of_ne_zero (Nat.ne_of_gt (Nat.zero_lt_of_lt hcalls))
    have hit := hit_of_segment hdel hleast hbefore
    have hpos := List.length_pos_iff.2 (hd _ hit.mem)
    simp only [List.length_append] at hcalls
    rw [pass_segment hd hcut hmode hit, ← List.length_append, List.drop_left, ih (by omega)]
    simp

theorem pass_drop (hd : ∀ d ∈ delimiters, d ≠ []) (hcut : f.cut = Delimiters.cut delimiters)
    {dropped : Nat} (hmode : f.mode = .discarding dropped) (hu : Undelimited delimiters buffer) :
    pass (calls + 1) f buffer =
      ⟨[], { f with mode := .discarding (dropped + buffer.length) }, []⟩ := by
  have hc : f.cut buffer = none := by rw [hcut, (Delimiters.cut_eq_none_iff hd).2 hu]
  by_cases hne : buffer = []
  · rw [hne, pass_nil, List.length_nil, Nat.add_zero, ← hmode]
  · have hpos : 0 < buffer.length := List.length_pos_iff.2 hne
    rw [pass_of_progress (decode_drop hc hmode) (by simpa using hpos), pass_nil]
    rfl

/-- A pass in the middle of dropping, up to the delimiter that ends it and on from there. -/
theorem pass_resume (hd : ∀ d ∈ delimiters, d ≠ []) (hcut : f.cut = Delimiters.cut delimiters)
    {dropped length : Nat} {d : Bytes} (hmode : f.mode = .discarding dropped)
    (hit : Hit delimiters buffer length d)
    (hcuts : Cuts delimiters (buffer.drop (length + d.length)) segments rest)
    (hcalls : buffer.length < calls) :
    pass calls f buffer =
      ⟨(if f.policy.failFast then []
          else [.failed (f.policy.tooLong (f.overrun dropped length))]) ++
          (segments.map f.policy.tell ++ f.policy.tellRest rest),
        { f with mode := f.policy.modeOver rest }, f.policy.keep rest⟩ := by
  obtain ⟨calls, rfl⟩ := Nat.exists_eq_succ_of_ne_zero (Nat.ne_of_gt (Nat.zero_lt_of_lt hcalls))
  have hc : f.cut buffer = some (length, d.length) := by
    rw [hcut, Delimiters.cut_eq_of_hit hd hit]
  have hle := hit.le_length hd
  have hpos : 0 < d.length := List.length_pos_iff.2 (hd d hit.mem)
  have hless : (buffer.drop (length + d.length)).length < calls := by
    rw [List.length_drop]
    omega
  rw [pass_of_progress (decode_resume hc hmode) (by rw [List.length_drop]; omega)]
  dsimp only
  rw [pass_normal (f := { f with mode := .normal }) hd hcut rfl hcuts hless]
  cases f.policy.failFast <;> rfl

end Framer

/-! ## One feed -/

section Feed

variable {delimiters : List Bytes} {chunk rest : Bytes} {segments : List Segment}
  {a : Intake Framer}

theorem feed_normal (hd : ∀ d ∈ delimiters, d ≠ [])
    (hcut : a.decoder.cut = Delimiters.cut delimiters) (hmode : a.decoder.mode = .normal)
    (hcuts : Cuts delimiters (a.buffer ++ chunk) segments rest) :
    (a.feed chunk).events =
        segments.map a.decoder.policy.tell ++ a.decoder.policy.tellRest rest ∧
      (a.feed chunk).intake =
        { a with
          decoder := { a.decoder with mode := a.decoder.policy.modeOver rest }
          buffer := a.decoder.policy.keep rest } := by
  have hfeed := feed_eq_pass a chunk ((a.buffer ++ chunk).length + 1) rfl
  rwa [Framer.pass_normal hd hcut hmode hcuts (Nat.lt_succ_self _)] at hfeed

theorem feed_drop (hd : ∀ d ∈ delimiters, d ≠ [])
    (hcut : a.decoder.cut = Delimiters.cut delimiters) {dropped : Nat}
    (hmode : a.decoder.mode = .discarding dropped) (hbuffer : a.buffer = [])
    (hu : Undelimited delimiters chunk) :
    (a.feed chunk).events = [] ∧
      (a.feed chunk).intake =
        { a with decoder := { a.decoder with mode := .discarding (dropped + chunk.length) } } := by
  have hfeed := feed_eq_pass a chunk ((a.buffer ++ chunk).length + 1) rfl
  rw [hbuffer, List.nil_append] at hfeed
  rw [Framer.pass_drop hd hcut hmode hu] at hfeed
  rwa [← hbuffer] at hfeed

theorem feed_resume (hd : ∀ d ∈ delimiters, d ≠ [])
    (hcut : a.decoder.cut = Delimiters.cut delimiters) {dropped length : Nat} {d : Bytes}
    (hmode : a.decoder.mode = .discarding dropped) (hbuffer : a.buffer = [])
    (hit : Hit delimiters chunk length d)
    (hcuts : Cuts delimiters (chunk.drop (length + d.length)) segments rest) :
    (a.feed chunk).events =
        (if a.decoder.policy.failFast then []
          else [.failed (a.decoder.policy.tooLong (a.decoder.overrun dropped length))]) ++
          (segments.map a.decoder.policy.tell ++ a.decoder.policy.tellRest rest) ∧
      (a.feed chunk).intake =
        { a with
          decoder := { a.decoder with mode := a.decoder.policy.modeOver rest }
          buffer := a.decoder.policy.keep rest } := by
  have hfeed := feed_eq_pass a chunk ((a.buffer ++ chunk).length + 1) rfl
  rw [hbuffer, List.nil_append] at hfeed
  rwa [Framer.pass_resume hd hcut hmode hit hcuts (Nat.lt_succ_self _)] at hfeed

/-- What a chunk can be to a decoder.  In normal mode it is cut, with what is buffered, to its end.
In the middle of dropping there is no delimiter in it, or it is cut to its end behind the first
one. -/
theorem exists_course (hd : ∀ d ∈ delimiters, d ≠ []) (mode : Mode) (buffer chunk : Bytes) :
    (mode = .normal ∧ ∃ segments rest, Cuts delimiters (buffer ++ chunk) segments rest) ∨
    (∃ dropped, mode = .discarding dropped ∧ Undelimited delimiters chunk) ∨
    (∃ dropped length d segments rest, mode = .discarding dropped ∧
      Hit delimiters chunk length d ∧
      Cuts delimiters (chunk.drop (length + d.length)) segments rest) := by
  cases mode with
  | normal => exact .inl ⟨rfl, exists_cuts hd (buffer ++ chunk)⟩
  | discarding dropped =>
    cases hs : Scan.shortest delimiters chunk with
    | none => exact .inr (.inl ⟨dropped, rfl, (Scan.shortest_eq_none_iff hd).1 hs⟩)
    | some hit =>
      obtain ⟨segments, rest, hcuts⟩ := exists_cuts hd (chunk.drop (hit.1 + hit.2.length))
      exact .inr (.inr ⟨dropped, hit.1, hit.2, segments, rest, rfl,
        (Scan.shortest_eq_some_iff hd hit.1 hit.2).1 hs, hcuts⟩)

end Feed

/-! ## Any number of feeds -/

namespace Intake

variable {σ : Type} [Decoder σ] {delimiters : List Bytes}

/-- Feeds are made one after the other. -/
theorem feedAll_append (a : Intake σ) (chunks more : List Bytes) :
    (a.feedAll (chunks ++ more)).events =
        (a.feedAll chunks).events ++ ((a.feedAll chunks).intake.feedAll more).events ∧
      (a.feedAll (chunks ++ more)).intake = ((a.feedAll chunks).intake.feedAll more).intake := by
  induction chunks generalizing a with
  | nil => exact ⟨rfl, rfl⟩
  | cons chunk chunks ih =>
    obtain ⟨hevents, hintake⟩ := ih (a.feed chunk).intake
    refine ⟨?_, hintake⟩
    show (a.feed chunk).events ++ ((a.feed chunk).intake.feedAll (chunks ++ more)).events = _
    rw [hevents, ← List.append_assoc]
    rfl

/-- A property of intakes after feeds: the bytes fed are cut into these segments and this rest, and
the consumer has been told these events. -/
abbrev Account (σ : Type) : Type := List Segment → Bytes → List FrameEvent → Intake σ → Prop

/-- One feed preserves the property, in a stream that is cut into `segments` and `tail` in the end.
The chunk completes the segments `now`, and `later` are still to come. -/
def Preserved (delimiters : List Bytes) (segments : List Segment) (tail : Bytes)
    (holds : Account σ) : Prop :=
  ∀ before now later rest rest' more chunk events a,
    segments = before ++ now ++ later → Cuts delimiters (rest ++ chunk) now rest' →
    Cuts delimiters (rest' ++ more) later tail → Undelimited delimiters rest →
    holds before rest events a →
    holds (before ++ now) rest' (events ++ (a.feed chunk).events) (a.feed chunk).intake

/-- What is preserved from some feed on holds at the end. -/
theorem feedAll_cuts_from (hd : ∀ d ∈ delimiters, d ≠ []) (hp : Delimiters.Prompt delimiters)
    {segments : List Segment} {tail : Bytes} {holds : Account σ}
    (step : Preserved delimiters segments tail holds) (chunks : List Bytes)
    {before later : List Segment} {rest : Bytes} {events : List FrameEvent} {a : Intake σ}
    (hsegs : segments = before ++ later)
    (hcuts : Cuts delimiters (rest ++ chunks.flatten) later tail)
    (hu : Undelimited delimiters rest) (h : holds before rest events a) :
    holds segments tail (events ++ (a.feedAll chunks).events) (a.feedAll chunks).intake := by
  induction chunks generalizing before later rest events a with
  | nil =>
    rw [List.flatten_nil, List.append_nil] at hcuts
    obtain ⟨rfl, rfl⟩ := hcuts.eq_of_undelimited hu
    rw [List.append_nil] at hsegs
    subst hsegs
    simpa [feedAll] using h
  | cons chunk chunks ih =>
    obtain ⟨now, rest', hnow⟩ := exists_cuts hd (rest ++ chunk)
    obtain ⟨later', tail', hlater⟩ := exists_cuts hd (rest' ++ chunks.flatten)
    have hall := hnow.append hd hp hlater
    rw [List.append_assoc] at hall
    obtain ⟨rfl, rfl⟩ := hcuts.unique hall
    rw [← List.append_assoc] at hsegs
    have hfeed := step before now later' rest rest' _ chunk events a hsegs hnow hlater hu h
    have hrest := ih hsegs hlater hnow.undelimited_rest hfeed
    simpa [feedAll] using hrest

theorem feedAll_cuts (hd : ∀ d ∈ delimiters, d ≠ []) (hp : Delimiters.Prompt delimiters)
    {segments : List Segment} {tail : Bytes} {holds : Account σ}
    (step : Preserved delimiters segments tail holds) {chunks : List Bytes}
    (hcuts : Cuts delimiters chunks.flatten segments tail) {a : Intake σ}
    (h : holds [] [] [] a) :
    holds segments tail (a.feedAll chunks).events (a.feedAll chunks).intake :=
  feedAll_cuts_from hd hp step chunks rfl hcuts (undelimited_nil hd) h

end Intake

end FrameLoop
