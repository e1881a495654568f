import FrameLoop.Proofs.Frame.LineScan
import Mathlib.Data.List.Chain
import Mathlib.Data.List.DropRight

/-
  Episodes of dropping, call by call.

  A decoder is driven by hand, by appends and calls from an empty buffer on.  Each call is seen from
  outside: the mode before and after it, its answer, and how many bytes it took out of the buffer
  (`DecodeCall`).  There are four kinds of calls, outside of an episode, at its beginning, in the
  middle of it and at its end, and `DecodeCall.Lawful` says what a call of each kind does.
  `Framer.Faithful.lawful` is the case analysis of one call, and `History` is what a run makes of
  it.  From the history of a run the account of its episodes is read off, for both decoders
  (`oversized_told_once`).
-/

namespace FrameLoop

open Bytes

/-! ## Calls -/

/-- One decode call, as it is seen from outside. -/
structure DecodeCall where
  before : Mode
  after : Mode
  outcome : Outcome
  /-- How many bytes it took out of the buffer. -/
  removed : Nat
  deriving DecidableEq, Repr

namespace DecodeCall

/-- The call begins to drop a frame. -/
def Enters (c : DecodeCall) : Prop := c.before = .normal ∧ c.after.isDiscarding

/-- The call goes on dropping. -/
def Stays (c : DecodeCall) : Prop := c.before.isDiscarding ∧ c.after.isDiscarding

/-- The call is the last one that drops. -/
def Leaves (c : DecodeCall) : Prop := c.before.isDiscarding ∧ c.after = .normal

end DecodeCall

/-- How many bytes some calls took out of the buffer, together. -/
def removed : List DecodeCall → Nat
  | [] => 0
  | c :: calls => c.removed + removed calls

/-- The calls of the episode that is not over yet: those behind the last call that left the decoder
in normal mode. -/
def underway (calls : List DecodeCall) : List DecodeCall :=
  calls.rtakeWhile (·.after.isDiscarding)

namespace Policy

/-- The answer of the call that begins to drop a frame. -/
def early (p : Policy) (length : Nat) : Outcome :=
  if p.failFast then .failed (p.tooLong length) else .nothing

/-- The answer of the call that is the last to drop bytes of a frame. -/
def late (p : Policy) (length : Nat) : Outcome :=
  if p.failFast then .nothing else .failed (p.tooLong length)

end Policy

/-- What a call does, by the modes before and after it. -/
inductive DecodeCall.Lawful (p : Policy) : DecodeCall → Prop
  /-- Outside of an episode: a frame that is reported was seen as a whole. -/
  | outside {outcome : Outcome} {removed : Nat} :
    (∀ error, outcome = .failed error →
      ∃ length, error = p.tooLong length ∧ p.maxLength < length ∧ length ≤ removed) →
    Lawful p ⟨.normal, .normal, outcome, removed⟩
  /-- The bytes that begin an episode are over the limit. -/
  | enters {removed : Nat} : p.maxLength < removed →
    Lawful p ⟨.normal, .discarding removed, p.early removed, removed⟩
  /-- The bytes dropped are counted. -/
  | stays {dropped removed : Nat} :
    Lawful p ⟨.discarding dropped, .discarding (dropped + removed), .nothing, removed⟩
  /-- The count is reported, with some of the bytes of this call. -/
  | leaves {dropped length removed : Nat} : dropped ≤ length → length ≤ dropped + removed →
    Lawful p ⟨.discarding dropped, .normal, p.late length, removed⟩

/-- The calls of a run so far, and the mode after them.  The run begins in normal mode. -/
inductive History (p : Policy) : List DecodeCall → Mode → Prop
  | nil : History p [] .normal
  | concat {calls : List DecodeCall} {c : DecodeCall} :
    History p calls c.before → c.Lawful p → History p (calls ++ [c]) c.after

/-! ## What a history tells -/

/-- These are the calls of an episode that is not over.  The first one has reported it, if reports
are made early, the others have answered nothing, and the bytes that they all took out are
counted. -/
structure Unfinished (p : Policy) (calls : List DecodeCall) (dropped : Nat) : Prop where
  count : dropped = removed calls
  long : p.maxLength < dropped
  calls : ∃ enter during, calls = enter :: during ∧
    enter.Enters ∧ enter.outcome = p.early enter.removed ∧
    ∀ c ∈ during, c.Stays ∧ c.outcome = .nothing

/-- What the calls of a run tell of oversized frames, with the mode after the run. -/
structure ToldOnce (p : Policy) (calls : List DecodeCall) (mode : Mode) : Prop where
  /-- Each call begins in the mode in which the one before it ended. -/
  linked : calls.IsChain fun c next => next.before = c.after
  /-- The first one begins in normal mode. -/
  first : ∀ c ∈ calls.head?, c.before = .normal
  /-- A frame is handed out outside of episodes only. -/
  frame : ∀ c ∈ calls, ∀ bytes, c.outcome = .frame bytes → c.before = .normal ∧ c.after = .normal
  /-- An episode that is over has been reported once, by its first call or by its last one. -/
  episode : ∀ earlier enter during leave later,
    calls = earlier ++ enter :: (during ++ leave :: later) →
    enter.Enters → (∀ c ∈ during, c.Stays) → leave.Leaves →
    ∃ length, enter.outcome = p.early length ∧ (∀ c ∈ during, c.outcome = .nothing) ∧
      leave.outcome = p.late length
  /-- In the middle of dropping there is an episode that is not over. -/
  unfinished : ∀ dropped, mode = .discarding dropped → Unfinished p (underway calls) dropped
  /-- A report gives the limit, and a length over it that is made of bytes of the frame: those that
  this call took out, and those that the calls of the episode before it did. -/
  report : ∀ earlier c later error, calls = earlier ++ c :: later → c.outcome = .failed error →
    ∃ length, error = p.tooLong length ∧ p.maxLength < length ∧
      length ≤ removed (underway earlier ++ [c])

theorem removed_concat (calls : List DecodeCall) (c : DecodeCall) :
    removed (calls ++ [c]) = removed calls + c.removed := by
  induction calls with
  | nil => simp [removed]
  | cons first calls ih => rw [List.cons_append, removed, removed, ih, Nat.add_assoc]

theorem underway_concat_normal {c : DecodeCall} (h : c.after = .normal)
    (calls : List DecodeCall) : underway (calls ++ [c]) = [] :=
  List.rtakeWhile_concat_neg _ _ c (by simp [h, Mode.isDiscarding])

theorem underway_concat_discarding {c : DecodeCall} {dropped : Nat}
    (h : c.after = .discarding dropped) (calls : List DecodeCall) :
    underway (calls ++ [c]) = underway calls ++ [c] :=
  List.rtakeWhile_concat_pos _ _ c (by simp [h, Mode.isDiscarding])

namespace DecodeCall.Lawful

variable {p : Policy} {c : DecodeCall}

theorem of_enters (h : c.Lawful p) (henters : c.Enters) :
    c.after = .discarding c.removed ∧ p.maxLength < c.removed ∧ c.outcome = p.early c.removed := by
  obtain ⟨hbefore, hafter⟩ := henters
  cases h with
  | outside _ => cases hafter
  | enters hlong => exact ⟨rfl, hlong, rfl⟩
  | stays => cases hbefore
  | leaves _ _ => cases hbefore

theorem of_stays (h : c.Lawful p) (hstays : c.Stays) :
    c.after = .discarding (c.before.dropped + c.removed) ∧ c.outcome = .nothing := by
  obtain ⟨hbefore, hafter⟩ := hstays
  cases h with
  | outside _ => cases hbefore
  | enters _ => cases hbefore
  | stays => exact ⟨rfl, rfl⟩
  | leaves _ _ => cases hafter

theorem of_leaves (h : c.Lawful p) (hleaves : c.Leaves) : ∃ length, c.outcome = p.late length := by
  obtain ⟨hbefore, hafter⟩ := hleaves
  cases h with
  | outside _ => cases hbefore
  | enters _ => cases hbefore
  | stays => cases hafter
  | leaves _ _ => exact ⟨_, rfl⟩

theorem of_frame (h : c.Lawful p) {bytes : Bytes} (hframe : c.outcome = .frame bytes) :
    c.before = .normal ∧ c.after = .normal := by
  cases h with
  | outside _ => exact ⟨rfl, rfl⟩
  | enters _ =>
    unfold Policy.early at hframe
    split at hframe <;> cases hframe
  | stays => cases hframe
  | leaves _ _ =>
    unfold Policy.late at hframe
    split at hframe <;> cases hframe

end DecodeCall.Lawful

namespace History

variable {p : Policy} {calls earlier later : List DecodeCall} {c : DecodeCall} {mode : Mode}

theorem mode_nil (h : History p [] mode) : mode = .normal := by
  generalize hcalls : ([] : List DecodeCall) = calls at h
  cases h with
  | nil => rfl
  | concat _ _ => simp at hcalls

theorem of_concat (h : History p (calls ++ [c]) mode) : History p calls c.before ∧ c.Lawful p := by
  generalize hcalls : calls ++ [c] = all at h
  cases h with
  | nil => simp at hcalls
  | concat hbefore hlawful =>
    obtain ⟨rfl, heq⟩ := List.append_inj' hcalls rfl
    obtain rfl := List.singleton_inj.1 heq
    exact ⟨hbefore, hlawful⟩

theorem split (h : History p (earlier ++ c :: later) mode) :
    History p earlier c.before ∧ c.Lawful p := by
  induction later using List.reverseRecOn generalizing mode with
  | nil => exact h.of_concat
  | append_singleton later last ih =>
    rw [← List.cons_append, ← List.append_assoc] at h
    exact ih h.of_concat.1

theorem lawful (h : History p calls mode) (hmem : c ∈ calls) : c.Lawful p := by
  obtain ⟨earlier, later, rfl⟩ := List.append_of_mem hmem
  exact h.split.2

theorem first (h : History p calls mode) (hfirst : c ∈ calls.head?) : c.before = .normal := by
  obtain ⟨later, rfl⟩ := List.head?_eq_some_iff.1 hfirst
  rw [← List.nil_append (c :: later)] at h
  exact h.split.1.mode_nil

/-- The mode is the one that the last call left. -/
theorem linked (h : History p calls mode) :
    (calls.IsChain fun c next => next.before = c.after) ∧ ∀ c ∈ calls.getLast?, c.after = mode := by
  induction h with
  | nil => exact ⟨.nil, nofun⟩
  | @concat calls c _ _ ih =>
    refine ⟨List.IsChain.append ih.1 (.singleton c) ?_, by simp⟩
    intro last hlast next hnext
    obtain rfl := Option.some.inj hnext
    exact (ih.2 last hlast).symm

theorem underway_normal (h : History p calls .normal) : underway calls = [] := by
  induction calls using List.reverseRecOn with
  | nil => rfl
  | append_singleton calls c => exact underway_concat_normal (h.linked.2 c (by simp)) calls

/-- In the middle of dropping one is. -/
theorem unfinished {dropped : Nat} (h : History p calls (.discarding dropped)) :
    Unfinished p (underway calls) dropped := by
  induction calls using List.reverseRecOn generalizing dropped with
  | nil => exact absurd h.mode_nil (by simp)
  | append_singleton calls c ih =>
    obtain ⟨hbefore, hlawful⟩ := h.of_concat
    have hafter : c.after = .discarding dropped := h.linked.2 c (by simp)
    have hdropping : c.after.isDiscarding := by
      rw [hafter]
      rfl
    rw [underway_concat_discarding hafter]
    cases hmode : c.before with
    | normal =>
      have henters : c.Enters := ⟨hmode, hdropping⟩
      obtain ⟨hcount, hlong, hreport⟩ := hlawful.of_enters henters
      obtain rfl : dropped = c.removed := by simpa [hafter] using hcount
      rw [hmode] at hbefore
      rw [hbefore.underway_normal]
      exact ⟨by simp [removed], hlong, c, [], rfl, henters, hreport, nofun⟩
    | discarding before =>
      have hstays : c.Stays := ⟨by rw [hmode]; rfl, hdropping⟩
      obtain ⟨hcount, hnothing⟩ := hlawful.of_stays hstays
      obtain rfl : dropped = before + c.removed := by
        simpa [hafter, hmode, Mode.dropped] using hcount
      rw [hmode] at hbefore
      obtain ⟨hbytes, hlong, enter, during, hcalls, henters, hreport, hduring⟩ := ih hbefore
      refine ⟨?_, by omega, enter, during ++ [c], ?_, henters, hreport, ?_⟩
      · rw [removed_concat, ← hbytes]
      · rw [hcalls, List.cons_append]
      · intro call hc
        rcases List.mem_append.1 hc with hc | hc
        · exact hduring call hc
        · rw [List.mem_singleton.1 hc]
          exact ⟨hstays, hnothing⟩

/-- A report is about bytes of the frame. -/
theorem report (h : History p (earlier ++ c :: later) mode) {error : FrameError}
    (hfailed : c.outcome = .failed error) :
    ∃ length, error = p.tooLong length ∧ p.maxLength < length ∧
      length ≤ removed (underway earlier ++ [c]) := by
  obtain ⟨hearlier, hlawful⟩ := h.split
  rw [removed_concat]
  cases hlawful with
  | outside hreport =>
    obtain ⟨length, herror, hlong, hlength⟩ := hreport error hfailed
    exact ⟨length, herror, hlong, Nat.le_add_left_of_le hlength⟩
  | @enters removed hlong =>
    unfold Policy.early at hfailed
    split at hfailed
    · cases hfailed
      exact ⟨removed, rfl, hlong, Nat.le_add_left _ _⟩
    · cases hfailed
  | stays => cases hfailed
  | @leaves dropped length removed hle hlength =>
    -- what the episode had dropped before is over the limit already
    obtain ⟨hdropped, hlong, -⟩ := hearlier.unfinished
    unfold Policy.late at hfailed
    split at hfailed
    · cases hfailed
    · cases hfailed
      exact ⟨length, rfl, Nat.lt_of_lt_of_le hlong hle, hdropped ▸ hlength⟩

theorem episode {enter leave : DecodeCall} {during : List DecodeCall}
    (h : History p (earlier ++ enter :: (during ++ leave :: later)) mode)
    (henters : enter.Enters) (hstays : ∀ c ∈ during, c.Stays) (hleaves : leave.Leaves) :
    ∃ length, enter.outcome = p.early length ∧ (∀ c ∈ during, c.outcome = .nothing) ∧
      leave.outcome = p.late length := by
  have henter := ((h.lawful (c := enter) (by simp)).of_enters henters).2.2
  obtain ⟨length, hleave⟩ := (h.lawful (c := leave) (by simp)).of_leaves hleaves
  have hduring : ∀ c ∈ during, c.outcome = .nothing := fun c hc =>
    ((h.lawful (by simp [hc])).of_stays (hstays c hc)).2
  -- one of the two answers says nothing, and with it any length agrees
  cases hfast : p.failFast with
  | true =>
    refine ⟨enter.removed, henter, hduring, ?_⟩
    simpa [Policy.late, hfast] using hleave
  | false =>
    refine ⟨length, ?_, hduring, hleave⟩
    simpa [Policy.early, hfast] using henter

theorem toldOnce (h : History p calls mode) : ToldOnce p calls mode where
  linked := h.linked.1
  first := fun _ hc => h.first hc
  frame := fun _ hc _ hframe => (h.lawful hc).of_frame hframe
  episode := by
    rintro earlier enter during leave later rfl henters hstays hleaves
    exact h.episode henters hstays hleaves
  unfinished := by
    rintro dropped rfl
    exact h.unfinished
  report := by
    rintro earlier c later error rfl hfailed
    exact h.report hfailed

end History

/-! ## Runs -/

namespace Buffered

variable {σ : Type} [Decoder σ]

/-- The call that an act is, if it is one. -/
def call? (mode : σ → Mode) (b : Buffered σ) : BufferAct → Option DecodeCall
  | .decode =>
    let turn := Decoder.decode b.decoder b.buffer
    some
      { before := mode b.decoder
        after := mode turn.decoder
        outcome := turn.outcome
        removed := b.buffer.length - turn.rest.length }
  | _ => none

/-- The calls of a run, in order. -/
def calls (mode : σ → Mode) (b : Buffered σ) : List BufferAct → List DecodeCall
  | [] => []
  | a :: acts => (b.call? mode a).toList ++ calls mode (b.act a).2 acts

theorem map_outcome_calls (mode : σ → Mode) (b : Buffered σ) (acts : List BufferAct) :
    (b.calls mode acts).map (·.outcome) = (b.run acts).1 := by
  induction acts generalizing b with
  | nil => rfl
  | cons a acts ih =>
    rw [calls, List.map_append, ih]
    cases a <;> rfl

end Buffered

section

variable {σ : Type} [Decoder σ] {mode : σ → Mode}

theorem Works.act {b : Buffered σ} {g : Buffered Framer}
    (h : Works mode b.decoder g.decoder b.buffer) (hbuffer : b.buffer = g.buffer) {a : BufferAct}
    (ha : a.Orderly) :
    b.call? mode a = g.call? Framer.mode a ∧ (b.act a).2.buffer = (g.act a).2.buffer ∧
      Works mode (b.act a).2.decoder (g.act a).2.decoder (b.act a).2.buffer := by
  have hmirrors := Works.mirrors mode
  cases a with
  | append bytes => exact ⟨rfl, congrArg (· ++ bytes) hbuffer, hmirrors.grow h bytes⟩
  | replace bytes => exact ha.elim
  | dropFront count => exact ha.elim
  | decode =>
    have hout := hmirrors.outcome h
    have hrest := hmirrors.rest h
    have hnext := hmirrors.next h
    have hdecoder : (g.act .decode).2.decoder = (Decoder.decode g.decoder b.buffer).decoder := by
      rw [hbuffer]
      rfl
    refine ⟨?_, ?_, hdecoder ▸ hnext⟩
    · simp only [Buffered.call?]
      rw [h.mode_eq, hnext.mode_eq, hout, hrest, hbuffer]
    · exact hrest.trans (by rw [hbuffer]; rfl)

theorem Works.run {b : Buffered σ} {g : Buffered Framer}
    (h : Works mode b.decoder g.decoder b.buffer) (hbuffer : b.buffer = g.buffer)
    {acts : List BufferAct} (hacts : ∀ a ∈ acts, a.Orderly) :
    b.calls mode acts = g.calls Framer.mode acts ∧
      mode (b.run acts).2.decoder = (g.run acts).2.decoder.mode := by
  induction acts generalizing b g with
  | nil => exact ⟨rfl, h.mode_eq⟩
  | cons a acts ih =>
    obtain ⟨hcall, hbuffer', hworks⟩ := h.act hbuffer (hacts a List.mem_cons_self)
    obtain ⟨hcalls, hmode⟩ := ih hworks hbuffer' fun c hc => hacts c (List.mem_cons_of_mem a hc)
    refine ⟨?_, hmode⟩
    rw [Buffered.calls, Buffered.calls, hcall, hcalls]

end

/-! ## Framers -/

/-- A framer that cuts at these delimiters, and reports bytes that it has taken out. -/
structure Framer.Faithful (delimiters : List Bytes) (f : Framer) : Prop where
  cut : f.cut = Delimiters.cut delimiters
  overrun : ∀ dropped length,
    dropped ≤ f.overrun dropped length ∧ f.overrun dropped length ≤ dropped + length

namespace Framer

variable {delimiters : List Bytes} {f : Framer}

/-- What one call does. -/
theorem Faithful.lawful (h : f.Faithful delimiters) (hd : ∀ d ∈ delimiters, d ≠ [])
    (buffer : Bytes) :
    DecodeCall.Lawful f.policy
      ⟨f.mode, (f.decode buffer).decoder.mode, (f.decode buffer).outcome,
        buffer.length - (f.decode buffer).rest.length⟩ := by
  cases hcut : f.cut buffer with
  | none =>
    cases hmode : f.mode with
    | normal =>
      by_cases hlong : f.policy.maxLength < buffer.length
      · rw [decode_overflow hcut hmode hlong]
        exact .enters hlong
      · rw [decode_wait hcut hmode (Nat.le_of_not_lt hlong), hmode]
        exact .outside nofun
    | discarding dropped =>
      rw [decode_drop hcut hmode]
      exact .stays
  | some lengths =>
    obtain ⟨length, width⟩ := lengths
    -- the frame and its delimiter are in the buffer, so the call takes them out
    obtain ⟨d, hit, rfl⟩ := (Delimiters.cut_eq_some_iff hd length width).1 (h.cut ▸ hcut)
    have hin := hit.le_length hd
    have htaken : buffer.length - (buffer.drop (length + d.length)).length = length + d.length := by
      rw [List.length_drop]
      omega
    cases hmode : f.mode with
    | normal =>
      by_cases hlong : f.policy.maxLength < length
      · rw [decode_oversized hcut hmode hlong, hmode, htaken]
        refine .outside ?_
        rintro error ⟨⟩
        exact ⟨length, rfl, hlong, Nat.le_add_right _ _⟩
      · rw [decode_frame hcut hmode (Nat.le_of_not_lt hlong), hmode]
        exact .outside nofun
    | discarding dropped =>
      rw [decode_resume hcut hmode, htaken]
      obtain ⟨hmost, hleast⟩ := h.overrun dropped length
      exact .leaves hmost (by omega)

theorem Faithful.decode (h : f.Faithful delimiters) (buffer : Bytes) :
    (f.decode buffer).decoder.Faithful delimiters := by
  rw [decode_decoder]
  exact ⟨h.cut, h.overrun⟩

/-- A run makes history. -/
theorem Faithful.history {b : Buffered Framer} {p : Policy} (h : b.decoder.Faithful delimiters)
    (hd : ∀ d ∈ delimiters, d ≠ []) (hpolicy : b.decoder.policy = p) {earlier : List DecodeCall}
    (hearlier : History p earlier b.decoder.mode) (acts : List BufferAct) :
    History p (earlier ++ b.calls Framer.mode acts) (b.run acts).2.decoder.mode := by
  induction acts generalizing b earlier with
  | nil => simpa [Buffered.calls, Buffered.run] using hearlier
  | cons a acts ih =>
    cases a with
    | decode =>
      have hlawful := h.lawful hd b.buffer
      rw [hpolicy] at hlawful
      have hpolicy' : (b.decoder.decode b.buffer).decoder.policy = p := by
        rw [decode_decoder]
        exact hpolicy
      have hmore := ih (b := (b.act .decode).2) (h.decode b.buffer) hpolicy'
        (History.concat hearlier hlawful)
      rwa [List.append_assoc] at hmore
    | append bytes => exact ih (b := (b.act (.append bytes)).2) h hpolicy hearlier
    | replace bytes => exact ih (b := (b.act (.replace bytes)).2) h hpolicy hearlier
    | dropFront count => exact ih (b := (b.act (.dropFront count)).2) h hpolicy hearlier

end Framer

/-! ## Both decoders -/

theorem SplitsAt.history {σ : Type} [Decoder σ] {mode : σ → Mode} {policy : Policy}
    {delimiters : List Bytes} {s : σ} (h : SplitsAt mode policy delimiters s)
    (hd : ∀ d ∈ delimiters, d ≠ []) {acts : List BufferAct} (hacts : ∀ a ∈ acts, a.Orderly) :
    History policy (Buffered.calls mode ⟨s, []⟩ acts)
      (mode (Buffered.run ⟨s, []⟩ acts).2.decoder) := by
  obtain ⟨overrun, hover, hworks⟩ := h
  let f : Framer := { policy, cut := Delimiters.cut delimiters, overrun }
  have hfaithful : f.Faithful delimiters := ⟨rfl, hover⟩
  obtain ⟨hcalls, hmode⟩ := Works.run (b := ⟨s, []⟩) (g := ⟨f, []⟩) hworks rfl hacts
  rw [hcalls, hmode]
  exact hfaithful.history (b := ⟨f, []⟩) hd rfl .nil acts

/-- Oversized frames, whatever bytes come in and whenever the decoder is called: each is reported
once and told of in no other way, by both decoders. -/
theorem oversized_told_once {policy : Policy} (hpolicy : policy.check = .ok ())
    {delimiters : List Bytes} (hne : delimiters ≠ []) (hd : ∀ d ∈ delimiters, d ≠ [])
    {acts : List BufferAct} (hacts : ∀ a ∈ acts, a.Orderly) :
    (∃ s, Splitter.ofDelimiters policy delimiters = .ok s ∧
      let calls := Buffered.calls Splitter.mode ⟨s, []⟩ acts
      let ran := Buffered.run ⟨s, []⟩ acts
      calls.map (·.outcome) = ran.1 ∧ ToldOnce policy calls ran.2.decoder.mode) ∧
    (∃ l, Line.ofPolicy policy = .ok l ∧
      let calls := Buffered.calls Line.mode ⟨l, []⟩ acts
      let ran := Buffered.run ⟨l, []⟩ acts
      calls.map (·.outcome) = ran.1 ∧ ToldOnce policy calls ran.2.decoder.mode) := by
  obtain ⟨s, hs, hsplits⟩ := Splitter.exists_splitsAt hpolicy hne hd
  obtain ⟨l, hl, hlines⟩ := Line.exists_splitsAt hpolicy
  refine ⟨⟨s, hs, Buffered.map_outcome_calls _ _ _, ?_⟩,
    ⟨l, hl, Buffered.map_outcome_calls _ _ _, ?_⟩⟩
  · exact (hsplits.history hd hacts).toldOnce
  · exact (hlines.history Delimiters.line_ne_nil hacts).toldOnce

/-- Two episodes, with a frame between them.  The first one takes three calls and is reported by the
last of them; the second one is not over. -/
theorem oversized_told_once_late :
    let policy : Policy := { maxLength := 2, failFast := false }
    let acts : List BufferAct :=
      [.append [1, 2, 3], .decode, .append [4], .append [5], .decode, .append [6, 7, 8, 1, 7, 8],
        .decode, .decode, .append [1, 2, 3, 4], .decode]
    ∃ s, Splitter.ofDelimiters policy [[7, 8]] = .ok s ∧
      let calls := Buffered.calls Splitter.mode ⟨s, []⟩ acts
      let ran := Buffered.run ⟨s, []⟩ acts
      calls =
        [⟨.normal, .discarding 3, .nothing, 3⟩, ⟨.discarding 3, .discarding 5, .nothing, 2⟩,
          ⟨.discarding 5, .normal, .failed (.tooLong 2 5), 3⟩, ⟨.normal, .normal, .frame [1], 3⟩,
          ⟨.normal, .discarding 4, .nothing, 4⟩] ∧
      ran.2.decoder.mode = .discarding 4 ∧ ToldOnce policy calls ran.2.decoder.mode := by
  intro policy acts
  have hpolicy : policy.check = .ok () := rfl
  have hd : ∀ d ∈ ([[7, 8]] : List Bytes), d ≠ [] := by decide
  have hacts : ∀ a ∈ acts, a.Orderly := by
    simp [acts, BufferAct.Orderly]
  obtain ⟨⟨s, hs, -, htold⟩, -⟩ := oversized_told_once hpolicy (by simp) hd hacts
  obtain rfl : _ = s := Except.ok.inj hs
  exact ⟨_, hs, by decide +kernel, by decide +kernel, htold⟩

end FrameLoop
