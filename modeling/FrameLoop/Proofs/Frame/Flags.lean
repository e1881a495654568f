import FrameLoop.Proofs.Frame.Resuming
import FrameLoop.Proofs.Frame.Telling
import Mathlib.Data.List.Forall2

/-
  What the flags of a policy leave alone.

  Where a stream is cut, which bytes are dropped and which are kept follows from the delimiters, the
  limit and the chunks.  A `Yield` is this of a run of feeds: the segments that were handed out, how
  many oversized frames were met, the mode and the buffer.  Whether delimiters are stripped and when
  a report is made is not in it.  Decoders with the same limit come to one yield, and each of them
  shows it in the way of its policy (`exists_yield`).

  So decoders whose policies differ in the flags agree but for these (`alike_but_for_flags`).  And
  as a yield accounts for every byte fed, nothing is lost where delimiters are kept
  (`kept_delimiters_lose_nothing`).
-/

namespace FrameLoop

open Bytes

variable {delimiters : List Bytes}

/-! ## What a policy tells -/

namespace Policy

/-- How many reports are still to come: one, while a frame is dropped that is reported at its
end. -/
def owed (p : Policy) : Mode → Nat
  | .normal => 0
  | .discarding _ => if p.failFast then 0 else 1

/-- The segments within the limit are handed out. -/
theorem handed_map_tell (p : Policy) (segments : List Segment) :
    handed (segments.map p.tell) =
      (segments.filter (·.body.length ≤ p.maxLength)).map p.frame := by
  induction segments with
  | nil => rfl
  | cons segment segments ih =>
    by_cases hlong : p.maxLength < segment.body.length
    · rw [List.map_cons, tell, if_pos hlong, handed_failed, ih,
        List.filter_cons_of_neg (by simpa using hlong)]
    · rw [List.map_cons, tell, if_neg hlong, handed_frame, ih,
        List.filter_cons_of_pos (by simpa using hlong), List.map_cons]

theorem length_reported_map_tell (p : Policy) (segments : List Segment) :
    (reported (segments.map p.tell)).length =
      segments.countP (p.maxLength < ·.body.length) := by
  induction segments with
  | nil => rfl
  | cons segment segments ih =>
    by_cases hlong : p.maxLength < segment.body.length
    · rw [List.map_cons, tell, if_pos hlong, reported_failed, List.length_cons, ih,
        List.countP_cons_of_pos (by simpa using hlong)]
    · rw [List.map_cons, tell, if_neg hlong, reported_frame, ih,
        List.countP_cons_of_neg (by simpa using hlong)]

theorem handed_tellRest (p : Policy) (rest : Bytes) : handed (p.tellRest rest) = [] := by
  unfold tellRest
  split <;> rfl

/-- A rest over the limit is reported at once, or it is still to be reported. -/
theorem length_reported_tellRest (p : Policy) (rest : Bytes) :
    (reported (p.tellRest rest)).length + p.owed (p.modeOver rest) =
      if p.maxLength < rest.length then 1 else 0 := by
  unfold tellRest modeOver
  by_cases hlong : p.maxLength < rest.length
  · cases hfast : p.failFast <;> simp [hlong, hfast, owed]
  · simp [hlong, owed]

end Policy

/-! ## What feeds come to -/

/-- What a run of feeds comes to, whatever the flags are. -/
structure Yield where
  /-- The segments that were handed out. -/
  frames : List Segment
  /-- How many oversized frames were met. -/
  oversized : Nat
  mode : Mode
  buffer : Bytes

/-- What the consumer was told, and the connection now, are what this policy makes of the yield. -/
structure Yield.Shows {σ : Type} (mode : σ → Mode) (p : Policy) (y : Yield)
    (events : List FrameEvent) (a : Intake σ) : Prop where
  mode : mode a.decoder = y.mode
  buffer : a.buffer = y.buffer
  frames : handed events = y.frames.map p.frame
  errors : (reported events).length + p.owed y.mode = y.oversized

/-- The yield accounts for these bytes. -/
structure Yield.Sound (delimiters : List Bytes) (fed : Bytes) (y : Yield) : Prop where
  delimiter : ∀ segment ∈ y.frames, segment.delimiter ∈ delimiters
  lossless : y.oversized = 0 →
    y.mode = .normal ∧ (y.frames.map Segment.bytes).flatten ++ y.buffer = fed

namespace Yield

/-- Before anything is fed. -/
def blank : Yield := ⟨[], 0, .normal, []⟩

/-- Segments are cut off, and the rest behind them is kept or dropped. -/
def cut (limit : Nat) (y : Yield) (segments : List Segment) (rest : Bytes) : Yield where
  frames := y.frames ++ segments.filter (·.body.length ≤ limit)
  oversized := y.oversized + segments.countP (limit < ·.body.length) +
    if limit < rest.length then 1 else 0
  mode := if limit < rest.length then .discarding rest.length else .normal
  buffer := if limit < rest.length then [] else rest

variable {y : Yield} {fed more rest : Bytes} {segments : List Segment} {limit : Nat}

/-! ### Every byte is accounted for -/

theorem sound_blank (delimiters : List Bytes) : blank.Sound delimiters [] :=
  ⟨nofun, fun _ => ⟨rfl, rfl⟩⟩

/-- Cutting keeps the account.  The bytes matter in normal mode only: otherwise an oversized frame
was met before. -/
theorem Sound.cut (h : y.Sound delimiters fed)
    (hmem : ∀ segment ∈ segments, segment.delimiter ∈ delimiters)
    (hmore : y.mode = .normal → (segments.map Segment.bytes).flatten ++ rest = y.buffer ++ more) :
    (y.cut limit segments rest).Sound delimiters (fed ++ more) := by
  refine ⟨?_, fun hnone => ?_⟩
  · intro segment hs
    rcases List.mem_append.1 hs with hs | hs
    · exact h.delimiter segment hs
    · exact hmem segment (List.mem_filter.1 hs).1
  · -- nothing was over the limit, so every segment was handed out and the rest is kept
    obtain ⟨hbefore, hsegments⟩ :
        y.oversized = 0 ∧ segments.countP (limit < ·.body.length) = 0 := by
      simp only [Yield.cut] at hnone
      omega
    have hrest : ¬ limit < rest.length := by
      intro hlong
      simp [Yield.cut, hlong] at hnone
    obtain ⟨hmode, hall⟩ := h.lossless hbefore
    have hfilter : segments.filter (·.body.length ≤ limit) = segments := by
      rw [List.filter_eq_self]
      intro segment hs
      simpa using List.countP_eq_zero.1 hsegments segment hs
    refine ⟨if_neg hrest, ?_⟩
    calc ((y.cut limit segments rest).frames.map Segment.bytes).flatten ++
          (y.cut limit segments rest).buffer
        = (y.frames.map Segment.bytes).flatten ++
            ((segments.map Segment.bytes).flatten ++ rest) := by
          simp [Yield.cut, hfilter, hrest]
      _ = (y.frames.map Segment.bytes).flatten ++ y.buffer ++ more := by
          rw [hmore hmode, List.append_assoc]
      _ = fed ++ more := by rw [hall]

/-- While a frame is dropped no byte needs to be accounted for. -/
theorem Sound.drop (h : y.Sound delimiters fed) {dropped : Nat}
    (hmode : y.mode = .discarding dropped) (now : Nat) (more : Bytes) :
    ({ y with mode := .discarding now } : Yield).Sound delimiters (fed ++ more) := by
  refine ⟨h.delimiter, fun hnone => ?_⟩
  have hnormal := (h.lossless hnone).1
  rw [hmode] at hnormal
  cases hnormal

/-! ### One feed of a framer -/

variable {events : List FrameEvent} {a : Intake Framer}

/-- Behind what is told about an earlier frame come the segments that are cut off, and the rest. -/
theorem Shows.cut {p : Policy} (h : y.Shows Framer.mode p events a) {first : List FrameEvent}
    (hhanded : handed first = []) (hreported : (reported first).length = p.owed y.mode)
    {b : Intake Framer} (hmode : b.decoder.mode = p.modeOver rest)
    (hbuffer : b.buffer = p.keep rest) :
    (y.cut p.maxLength segments rest).Shows Framer.mode p
      (events ++ (first ++ (segments.map p.tell ++ p.tellRest rest))) b := by
  refine ⟨hmode, hbuffer, ?_, ?_⟩
  · simp only [handed_append, hhanded, h.frames, p.handed_map_tell, p.handed_tellRest,
      List.nil_append, List.append_nil, Yield.cut, List.map_append]
  · have hbefore := h.errors
    have hrest := p.length_reported_tellRest rest
    have hnow : (y.cut p.maxLength segments rest).mode = p.modeOver rest := rfl
    simp only [reported_append, List.length_append, hreported, p.length_reported_map_tell, hnow]
    simp only [Yield.cut]
    omega

variable {start : Intake Framer} {chunk : Bytes} {dropped : Nat}

/-- In normal mode the chunk is cut, with what is buffered, to its end. -/
theorem Shows.feed_normal (h : y.Shows Framer.mode start.decoder.policy events a)
    (hpoised : Poised start a) (hd : ∀ d ∈ delimiters, d ≠ [])
    (hcut : start.decoder.cut = Delimiters.cut delimiters) (hmode : y.mode = .normal)
    (hcuts : Cuts delimiters (y.buffer ++ chunk) segments rest) :
    (y.cut start.decoder.policy.maxLength segments rest).Shows Framer.mode start.decoder.policy
      (events ++ (a.feed chunk).events) (a.feed chunk).intake := by
  obtain ⟨hevents, hintake⟩ :=
    FrameLoop.feed_normal hd (hpoised.cut.trans hcut) (h.mode.trans hmode) (h.buffer ▸ hcuts)
  have howed : ([] : List FrameError).length = start.decoder.policy.owed y.mode := by
    rw [hmode]
    rfl
  rw [hevents, hintake, hpoised.policy]
  exact h.cut handed_nil howed rfl rfl

/-- While a frame is dropped a chunk without a delimiter is dropped with it. -/
theorem Shows.feed_drop (h : y.Shows Framer.mode start.decoder.policy events a)
    (hpoised : Poised start a) (hd : ∀ d ∈ delimiters, d ≠ [])
    (hcut : start.decoder.cut = Delimiters.cut delimiters) (hmode : y.mode = .discarding dropped)
    (hu : Undelimited delimiters chunk) :
    ({ y with mode := .discarding (dropped + chunk.length) } : Yield).Shows Framer.mode
      start.decoder.policy (events ++ (a.feed chunk).events) (a.feed chunk).intake := by
  have hdropping := h.mode.trans hmode
  have hbuffer := hpoised.dropping dropped hdropping
  obtain ⟨hevents, hintake⟩ :=
    FrameLoop.feed_drop hd (hpoised.cut.trans hcut) hdropping hbuffer hu
  have herrors := h.errors
  rw [hmode] at herrors
  rw [hevents, hintake, List.append_nil]
  exact ⟨rfl, h.buffer, h.frames, herrors⟩

/-- The delimiter that ends the dropping brings the report that is owed, and the chunk is cut to its
end behind it. -/
theorem Shows.feed_resume (h : y.Shows Framer.mode start.decoder.policy events a)
    (hpoised : Poised start a) (hd : ∀ d ∈ delimiters, d ≠ [])
    (hcut : start.decoder.cut = Delimiters.cut delimiters) (hmode : y.mode = .discarding dropped)
    {length : Nat} {d : Bytes} (hit : Hit delimiters chunk length d)
    (hcuts : Cuts delimiters (chunk.drop (length + d.length)) segments rest) :
    (y.cut start.decoder.policy.maxLength segments rest).Shows Framer.mode start.decoder.policy
      (events ++ (a.feed chunk).events) (a.feed chunk).intake := by
  have hdropping := h.mode.trans hmode
  have hbuffer := hpoised.dropping dropped hdropping
  obtain ⟨hevents, hintake⟩ :=
    FrameLoop.feed_resume hd (hpoised.cut.trans hcut) hdropping hbuffer hit hcuts
  rw [hevents, hintake, hpoised.policy]
  refine h.cut ?_ ?_ rfl rfl
  · split <;> rfl
  · rw [hmode]
    cases hfast : start.decoder.policy.failFast <;> simp [Policy.owed, hfast]

/-- One chunk leads from a yield to the next, with every framer that has this limit. -/
theorem Sound.exists_feed (h : y.Sound delimiters fed) (hd : ∀ d ∈ delimiters, d ≠ [])
    (limit : Nat) (chunk : Bytes) :
    ∃ z : Yield, z.Sound delimiters (fed ++ chunk) ∧
      ∀ (start a : Intake Framer) (events : List FrameEvent),
        start.decoder.policy.maxLength = limit → start.decoder.cut = Delimiters.cut delimiters →
        Poised start a → y.Shows Framer.mode start.decoder.policy events a →
        z.Shows Framer.mode start.decoder.policy (events ++ (a.feed chunk).events)
          (a.feed chunk).intake := by
  rcases exists_course hd y.mode y.buffer chunk with
    ⟨hmode, segments, rest, hcuts⟩ | ⟨dropped, hmode, hu⟩ |
    ⟨dropped, length, d, segments, rest, hmode, hit, hcuts⟩
  · refine ⟨y.cut limit segments rest,
      h.cut hcuts.delimiter_mem fun _ => hcuts.flatten_append_rest, ?_⟩
    rintro start a events rfl hcut hpoised hshows
    exact hshows.feed_normal hpoised hd hcut hmode hcuts
  · refine ⟨{ y with mode := .discarding (dropped + chunk.length) }, h.drop hmode _ chunk, ?_⟩
    rintro start a events - hcut hpoised hshows
    exact hshows.feed_drop hpoised hd hcut hmode hu
  · refine ⟨y.cut limit segments rest, h.cut hcuts.delimiter_mem fun hnormal => ?_, ?_⟩
    · rw [hmode] at hnormal
      cases hnormal
    · rintro start a events rfl hcut hpoised hshows
      exact hshows.feed_resume hpoised hd hcut hmode hit hcuts

/-! ### Any number of feeds -/

/-- All fresh framers with this limit come to one yield. -/
theorem exists_feedAll (hd : ∀ d ∈ delimiters, d ≠ []) (limit : Nat) (chunks : List Bytes) :
    ∃ y : Yield, y.Sound delimiters chunks.flatten ∧
      ∀ start : Intake Framer,
        start.decoder.policy.maxLength = limit → start.decoder.cut = Delimiters.cut delimiters →
        start.decoder.mode = .normal → start.buffer = [] →
        y.Shows Framer.mode start.decoder.policy (start.feedAll chunks).events
          (start.feedAll chunks).intake := by
  -- on what has been fed so far
  induction chunks using List.reverseRecOn with
  | nil =>
    refine ⟨blank, sound_blank delimiters, ?_⟩
    exact fun _ _ _ hmode hbuffer => ⟨hmode, hbuffer, rfl, rfl⟩
  | append_singleton chunks chunk ih =>
    obtain ⟨y, hsound, hshows⟩ := ih
    obtain ⟨z, hsound', hnext⟩ := hsound.exists_feed hd limit chunk
    refine ⟨z, by simpa using hsound', fun start hlimit hcut hmode hbuffer => ?_⟩
    have hpoised : Poised start (start.feedAll chunks).intake :=
      Poised.feedAll ⟨rfl, fun _ _ => hbuffer⟩ hd hcut chunks
    obtain ⟨hevents, hintake⟩ := Intake.feedAll_append start chunks [chunk]
    have hone := hnext start _ _ hlimit hcut hpoised (hshows start hlimit hcut hmode hbuffer)
    rw [hevents, hintake]
    simpa [Intake.feedAll] using hone

end Yield

/-- All fresh decoders that split at these delimiters and have this limit come to one yield. -/
theorem exists_yield {σ : Type} [Decoder σ] (mode : σ → Mode) (hd : ∀ d ∈ delimiters, d ≠ [])
    (limit : Nat) (chunks : List Bytes) :
    ∃ y : Yield, y.Sound delimiters chunks.flatten ∧
      ∀ {p : Policy} {s : σ} (connection : Nat), SplitsAt mode p delimiters s →
        p.maxLength = limit →
        let fed := ({ decoder := s, connection } : Intake σ).feedAll chunks
        y.Shows mode p fed.events fed.intake := by
  obtain ⟨y, hsound, hshows⟩ := Yield.exists_feedAll hd limit chunks
  refine ⟨y, hsound, ?_⟩
  rintro _ s connection hsplits hlimit
  obtain ⟨f, rfl, hcut, hmode, -, hfed⟩ := hsplits.exists_framer
  obtain ⟨hevents, hbuffer, hworks⟩ := hfed connection chunks
  have h := hshows { decoder := f, connection } hlimit hcut hmode rfl
  refine ⟨hworks.mode_eq.trans h.mode, hbuffer.trans h.buffer, ?_, ?_⟩
  · rw [hevents]
    exact h.frames
  · rw [hevents]
    exact h.errors

/-! ## Policies that differ in the flags -/

/-- The frames that two policies make of one segment.  They are the same, or the one that is kept
whole is the one that is stripped, with a delimiter behind it. -/
def SameFrame (p q : Policy) (delimiters : List Bytes) (x y : Bytes) : Prop :=
  match p.strip, q.strip with
  | true, false => ∃ d ∈ delimiters, y = x ++ d
  | false, true => ∃ d ∈ delimiters, x = y ++ d
  | _, _ => x = y

/-- What two connections show that were fed the same, but under policies that may differ in the
flags. -/
structure Alike {σ : Type} (mode : σ → Mode) (p q : Policy) (delimiters : List Bytes)
    (a b : Fed σ) : Prop where
  buffers : a.intake.buffer = b.intake.buffer
  /-- With the mode goes the count of the bytes dropped. -/
  modes : mode a.intake.decoder = mode b.intake.decoder
  counts : a.frames = b.frames
  frames : List.Forall₂ (SameFrame p q delimiters) (handed a.events) (handed b.events)
  errors : p.failFast = q.failFast → (reported a.events).length = (reported b.events).length
  /-- Early reports are ahead of late ones by the frame that is being dropped. -/
  ahead : p.failFast = true → q.failFast = false →
    (reported a.events).length =
      (reported b.events).length + if (mode b.intake.decoder).isDiscarding then 1 else 0

theorem sameFrame_frame (p q : Policy) {segment : Segment} (h : segment.delimiter ∈ delimiters) :
    SameFrame p q delimiters (p.frame segment) (q.frame segment) := by
  unfold SameFrame Policy.frame
  cases p.strip <;> cases q.strip
  · rfl
  · exact ⟨segment.delimiter, h, rfl⟩
  · exact ⟨segment.delimiter, h, rfl⟩
  · rfl

section

variable {σ : Type} [Decoder σ] {mode : σ → Mode} {p q : Policy}

/-- Two connections that show one yield. -/
theorem Yield.Sound.alike {y : Yield} {fed : Bytes} (h : y.Sound delimiters fed)
    {a b : Intake σ} {chunks : List Bytes}
    (ha : y.Shows mode p (a.feedAll chunks).events (a.feedAll chunks).intake)
    (hb : y.Shows mode q (b.feedAll chunks).events (b.feedAll chunks).intake) :
    Alike mode p q delimiters (a.feedAll chunks) (b.feedAll chunks) where
  buffers := ha.buffer.trans hb.buffer.symm
  modes := ha.mode.trans hb.mode.symm
  counts := by
    rw [feedAll_frames, feedAll_frames, ha.frames, hb.frames, List.length_map, List.length_map]
  frames := by
    rw [ha.frames, hb.frames, List.forall₂_map_left_iff, List.forall₂_map_right_iff,
      List.forall₂_same]
    exact fun segment hs => sameFrame_frame p q (h.delimiter segment hs)
  errors := by
    intro hfast
    have howed : p.owed y.mode = q.owed y.mode := by
      cases y.mode <;> simp [Policy.owed, hfast]
    have herrors := ha.errors.trans hb.errors.symm
    omega
  ahead := by
    intro hearly hlate
    rw [hb.mode]
    have herrors := ha.errors.trans hb.errors.symm
    cases hmode : y.mode with
    | normal => simpa [hmode, Policy.owed, Mode.isDiscarding] using herrors
    | discarding dropped =>
      simpa [hmode, Policy.owed, hearly, hlate, Mode.isDiscarding] using herrors

theorem SplitsAt.alike {s t : σ} (hs : SplitsAt mode p delimiters s)
    (ht : SplitsAt mode q delimiters t) (hlimit : p.maxLength = q.maxLength)
    (hd : ∀ d ∈ delimiters, d ≠ []) (connection other : Nat) (chunks : List Bytes) :
    Alike mode p q delimiters
      (({ decoder := s, connection } : Intake σ).feedAll chunks)
      (({ decoder := t, connection := other } : Intake σ).feedAll chunks) := by
  obtain ⟨y, hsound, hshows⟩ := exists_yield mode hd q.maxLength chunks
  exact hsound.alike (hshows connection hs hlimit) (hshows other ht rfl)

end

/-- Decoders whose policies differ in the flags only, fed the same chunks: they drop and keep the
same bytes and hand out the same frames, but for the delimiters behind them.  They report the same
oversized frames, but for the one that is being dropped. -/
theorem alike_but_for_flags {p q : Policy} (hpolicy : p.check = .ok ())
    (hlimit : p.maxLength = q.maxLength) (hne : delimiters ≠ []) (hd : ∀ d ∈ delimiters, d ≠ [])
    (connection other : Nat) (chunks : List Bytes) :
    (∃ s t, Splitter.ofDelimiters p delimiters = .ok s ∧
      Splitter.ofDelimiters q delimiters = .ok t ∧
      Alike Splitter.mode p q delimiters
        (({ decoder := s, connection } : Intake Splitter).feedAll chunks)
        (({ decoder := t, connection := other } : Intake Splitter).feedAll chunks)) ∧
    (∃ l m, Line.ofPolicy p = .ok l ∧ Line.ofPolicy q = .ok m ∧
      Alike Line.mode p q Delimiters.line
        (({ decoder := l, connection } : Intake Line).feedAll chunks)
        (({ decoder := m, connection := other } : Intake Line).feedAll chunks)) := by
  have hpolicy' : q.check = .ok () := by
    rw [Policy.check, ← hlimit]
    exact hpolicy
  obtain ⟨s, hs, hs'⟩ := Splitter.exists_splitsAt hpolicy hne hd
  obtain ⟨t, ht, ht'⟩ := Splitter.exists_splitsAt hpolicy' hne hd
  obtain ⟨l, hl, hl'⟩ := Line.exists_splitsAt hpolicy
  obtain ⟨m, hm, hm'⟩ := Line.exists_splitsAt hpolicy'
  exact ⟨⟨s, t, hs, ht, hs'.alike ht' hlimit hd connection other chunks⟩,
    ⟨l, m, hl, hm, hl'.alike hm' hlimit Delimiters.line_ne_nil connection other chunks⟩⟩

/-- Two frames, an oversized one that is seen as a whole, and one that is being dropped: only the
late report on this one is still to come. -/
theorem alike_but_for_flags_dropping :
    let p : Policy := { maxLength := 2 }
    let q : Policy := { maxLength := 2, strip := false, failFast := false }
    let chunks : List Bytes := [[1, 7, 8, 2, 9, 1, 2, 3, 9, 5], [6, 7, 7]]
    ∃ s t, Splitter.ofDelimiters p [[7, 8], [9]] = .ok s ∧
      Splitter.ofDelimiters q [[7, 8], [9]] = .ok t ∧
      let a := ({ decoder := s, connection := 0 } : Intake Splitter).feedAll chunks
      let b := ({ decoder := t, connection := 1 } : Intake Splitter).feedAll chunks
      a.events =
        [.frame [1], .frame [2], .failed (.tooLong 2 3), .failed (.tooLong 2 4)] ∧
      b.events = [.frame [1, 7, 8], .frame [2, 9], .failed (.tooLong 2 3)] ∧
      b.intake.decoder.mode = .discarding 4 ∧ Alike Splitter.mode p q [[7, 8], [9]] a b := by
  intro p q chunks
  have hpolicy : p.check = .ok () := rfl
  have hlimit : p.maxLength = q.maxLength := rfl
  have hd : ∀ d ∈ ([[7, 8], [9]] : List Bytes), d ≠ [] := by decide
  obtain ⟨⟨s, t, hs, ht, halike⟩, -⟩ :=
    alike_but_for_flags hpolicy hlimit (by simp) hd 0 1 chunks
  refine ⟨s, t, hs, ht, ?_, ?_, ?_, halike⟩
  all_goals
    obtain rfl : _ = s := Except.ok.inj hs
    obtain rfl : _ = t := Except.ok.inj ht
    decide +kernel

/-! ## Where delimiters are kept -/

/-- As long as no oversized frame was met, every byte fed was handed out or is kept. -/
structure Lossless {σ : Type} (mode : σ → Mode) (chunks : List Bytes) (fed : Fed σ) : Prop where
  bytes : reported fed.events = [] → mode fed.intake.decoder = .normal →
    (handed fed.events).flatten ++ fed.intake.buffer = chunks.flatten
  frames : fed.frames = (handed fed.events).length

theorem SplitsAt.lossless {σ : Type} [Decoder σ] {mode : σ → Mode} {p : Policy} {s : σ}
    (h : SplitsAt mode p delimiters s) (hstrip : p.strip = false) (hd : ∀ d ∈ delimiters, d ≠ [])
    (connection : Nat) (chunks : List Bytes) :
    Lossless mode chunks (({ decoder := s, connection } : Intake σ).feedAll chunks) := by
  obtain ⟨y, hsound, hshows⟩ := exists_yield mode hd p.maxLength chunks
  have hy := hshows connection h rfl
  refine ⟨fun hnone hnormal => ?_, feedAll_frames _ chunks⟩
  have hfew : y.oversized = 0 := by
    have herrors := hy.errors
    rw [hnone, ← hy.mode, hnormal] at herrors
    exact herrors.symm
  have hframe : p.frame = Segment.bytes := by
    funext segment
    simp [Policy.frame, hstrip]
  rw [hy.frames, hy.buffer, hframe]
  exact (hsound.lossless hfew).2

/-- Where delimiters are kept nothing is lost: if no frame was reported and none is being dropped,
the frames handed out and the bytes kept make up the bytes fed, in order. -/
theorem kept_delimiters_lose_nothing {policy : Policy} (hpolicy : policy.check = .ok ())
    (hstrip : policy.strip = false) (hne : delimiters ≠ []) (hd : ∀ d ∈ delimiters, d ≠ [])
    (connection : Nat) (chunks : List Bytes) :
    (∃ s, Splitter.ofDelimiters policy delimiters = .ok s ∧
      Lossless Splitter.mode chunks
        (({ decoder := s, connection } : Intake Splitter).feedAll chunks)) ∧
    (∃ l, Line.ofPolicy policy = .ok l ∧
      Lossless Line.mode chunks (({ decoder := l, connection } : Intake Line).feedAll chunks)) := by
  obtain ⟨s, hs, hsplits⟩ := Splitter.exists_splitsAt hpolicy hne hd
  obtain ⟨l, hl, hlines⟩ := Line.exists_splitsAt hpolicy
  exact ⟨⟨s, hs, hsplits.lossless hstrip hd connection chunks⟩,
    ⟨l, hl, hlines.lossless hstrip Delimiters.line_ne_nil connection chunks⟩⟩

/-- One delimiter begins with another one.  Where a chunk ends behind the shorter one it is the
delimiter, and the byte behind it begins the next frame. -/
theorem kept_delimiters_lose_nothing_nested :
    let policy : Policy := { maxLength := 4, strip := false }
    let chunks : List Bytes := [[1, 7], [8, 2, 7, 8], [3]]
    ∃ s, Splitter.ofDelimiters policy [[7, 8], [7]] = .ok s ∧
      let fed := ({ decoder := s, connection := 0 } : Intake Splitter).feedAll chunks
      fed.events = [.frame [1, 7], .frame [8, 2, 7, 8]] ∧
        fed.intake.decoder.mode = .normal ∧ fed.frames = 2 ∧
        (handed fed.events).flatten ++ fed.intake.buffer = [1, 7, 8, 2, 7, 8, 3] := by
  intro policy chunks
  have hpolicy : policy.check = .ok () := rfl
  have hd : ∀ d ∈ ([[7, 8], [7]] : List Bytes), d ≠ [] := by decide
  obtain ⟨⟨s, hs, hlossless⟩, -⟩ :=
    kept_delimiters_lose_nothing hpolicy rfl (by simp) hd 0 chunks
  obtain rfl : _ = s := Except.ok.inj hs
  exact ⟨_, hs, by decide +kernel, by decide +kernel, by decide +kernel,
    hlossless.bytes (by decide +kernel) (by decide +kernel)⟩

end FrameLoop
