import FrameLoop.Frame.Buffered
import FrameLoop.Proofs.Frame.Resting

/-
  A caller that goes on until the decoder answers that there is nothing.

  It is compared with the intake, which goes on as long as bytes are taken.  Both make the same
  calls, up to one.  Where a report has been made early, the call that ends the episode of dropping
  answers that there is nothing, and leaves what is behind the delimiter (`Serves.early`).  The
  caller stops there, and the intake does not.  In all other cases nothing is left to be done when
  the caller stops, and it was told what the consumer of the intake is (`Serves.same`).
-/

namespace FrameLoop

open Bytes

/-! ## Calls up to the first one that finds nothing -/

namespace Buffered

section

variable {σ : Type} [Decoder σ]

/-- The calls end, and come to this: what was told of, and what is left. -/
structure Exhausts (calls : Nat) (b : Buffered σ) (events : List FrameEvent) (left : Buffered σ) :
    Prop where
  told : (b.exhaust calls).1.filterMap (·.event?) = events
  stops : (b.exhaust calls).1.getLast? = some .nothing
  left : (b.exhaust calls).2 = left

theorem serveAll_concat (b : Buffered σ) (chunks : List Bytes) (chunk : Bytes) :
    (b.serveAll (chunks ++ [chunk])).2 = ((b.serveAll chunks).2.serve chunk).2 := by
  induction chunks generalizing b with
  | nil => rfl
  | cons first chunks ih => exact ih (b.serve first).2

theorem exhaust_of_nothing {n : Nat} {b : Buffered σ} {s : σ} {rest : Bytes}
    (hturn : Decoder.decode b.decoder b.buffer = ⟨.nothing, s, rest⟩) :
    b.exhaust (n + 1) = ([.nothing], ⟨s, rest⟩) := by
  rw [exhaust, hturn]

namespace Exhausts

variable {calls : Nat} {b left : Buffered σ} {outcome : Outcome} {s : σ} {rest : Bytes}
  {events : List FrameEvent}

theorem of_nothing (hturn : Decoder.decode b.decoder b.buffer = ⟨.nothing, s, rest⟩) :
    Exhausts (calls + 1) b [] ⟨s, rest⟩ := by
  have hrun := exhaust_of_nothing (n := calls) hturn
  exact ⟨by rw [hrun]; rfl, by rw [hrun]; rfl, by rw [hrun]⟩

/-- A call that finds something is told of, and the others follow. -/
theorem of_event {event : FrameEvent}
    (hturn : Decoder.decode b.decoder b.buffer = ⟨outcome, s, rest⟩)
    (hevent : outcome.event? = some event) (h : Exhausts calls ⟨s, rest⟩ events left) :
    Exhausts (calls + 1) b (event :: events) left := by
  have hrun : b.exhaust (calls + 1) =
      (outcome :: (exhaust calls ⟨s, rest⟩).1, (exhaust calls ⟨s, rest⟩).2) := by
    rw [exhaust, hturn]
    cases outcome with
    | nothing => cases hevent
    | frame bytes => rfl
    | failed error => rfl
  refine ⟨?_, ?_, ?_⟩
  · rw [hrun, List.filterMap_cons_some hevent, h.told]
  · rw [hrun, List.getLast?_cons, h.stops]
    rfl
  · rw [hrun, h.left]

end Exhausts

end

/-! ### Framers -/

variable {delimiters : List Bytes} {f : Framer} {buffer rest : Bytes} {segments : List Segment}
  {calls : Nat}

/-- What has no delimiter is kept or dropped. -/
theorem exhausts_rest (hd : ∀ d ∈ delimiters, d ≠ []) (hcut : f.cut = Delimiters.cut delimiters)
    (hmode : f.mode = .normal) (hu : Undelimited delimiters rest) (hcalls : rest.length < calls) :
    Exhausts calls ⟨f, rest⟩ (f.policy.tellRest rest)
      ⟨{ f with mode := f.policy.modeOver rest }, f.policy.keep rest⟩ := by
  obtain ⟨calls, rfl⟩ := Nat.exists_eq_succ_of_ne_zero (Nat.ne_of_gt (Nat.zero_lt_of_lt hcalls))
  have hnone (bytes : Bytes) (h : Undelimited delimiters bytes) : f.cut bytes = none := by
    rw [hcut, (Delimiters.cut_eq_none_iff hd).2 h]
  unfold Policy.tellRest Policy.modeOver Policy.keep
  by_cases hlong : f.policy.maxLength < rest.length
  · have hturn := Framer.decode_overflow (hnone rest hu) hmode hlong
    simp only [hlong, if_true, true_and]
    cases hfast : f.policy.failFast with
    | false =>
      rw [hfast] at hturn
      exact .of_nothing hturn
    | true =>
      rw [hfast] at hturn
      obtain ⟨calls, rfl⟩ := Nat.exists_eq_succ_of_ne_zero (show calls ≠ 0 by omega)
      -- one more call, which finds that there are no bytes
      have hempty := Framer.decode_drop (f := { f with mode := .discarding rest.length })
        (hnone [] (undelimited_nil hd)) rfl
      exact .of_event hturn rfl (.of_nothing hempty)
  · have hturn := Framer.decode_wait (hnone rest hu) hmode (Nat.le_of_not_lt hlong)
    simp only [hlong, if_false, false_and]
    rw [← hmode]
    exact .of_nothing hturn

/-- In normal mode the calls tell of the segments, and of the rest. -/
theorem exhausts_normal (hd : ∀ d ∈ delimiters, d ≠ []) (hcut : f.cut = Delimiters.cut delimiters)
    (hmode : f.mode = .normal) (hcuts : Cuts delimiters buffer segments rest)
    (hcalls : buffer.length < calls) :
    Exhausts calls ⟨f, buffer⟩ (segments.map f.policy.tell ++ f.policy.tellRest rest)
      ⟨{ f with mode := f.policy.modeOver rest }, f.policy.keep rest⟩ := by
  induction hcuts generalizing calls with
  | rest hu => exact exhausts_rest hd hcut hmode hu hcalls
  | @segment body stream rest before after segments d hdel hleast hbefore _ ih =>
    obtain ⟨calls, rfl⟩ := Nat.exists_eq_succ_of_ne_zero (Nat.ne_of_gt (Nat.zero_lt_of_lt hcalls))
    have hit := hit_of_segment hdel hleast hbefore
    have hpos := List.length_pos_iff.2 (hd d hit.mem)
    simp only [List.length_append] at hcalls
    obtain ⟨outcome, hevent, hturn⟩ := Framer.decode_segment hd hcut hmode hit
    rw [← List.length_append, List.drop_left] at hturn
    rw [List.append_assoc, List.take_left] at hevent
    exact .of_event hturn hevent (ih (by omega))

/-- In the middle of dropping, with nothing to end it, one call is made. -/
theorem exhausts_drop (hd : ∀ d ∈ delimiters, d ≠ []) (hcut : f.cut = Delimiters.cut delimiters)
    {dropped : Nat} (hmode : f.mode = .discarding dropped) (hu : Undelimited delimiters buffer) :
    Exhausts (calls + 1) ⟨f, buffer⟩ []
      ⟨{ f with mode := .discarding (dropped + buffer.length) }, []⟩ := by
  have hc : f.cut buffer = none := by rw [hcut, (Delimiters.cut_eq_none_iff hd).2 hu]
  exact .of_nothing (Framer.decode_drop hc hmode)

/-- An episode of dropping that is reported at its end: the calls go on behind the delimiter. -/
theorem exhausts_resume (hd : ∀ d ∈ delimiters, d ≠ [])
    (hcut : f.cut = Delimiters.cut delimiters) (hlate : f.policy.failFast = false)
    {dropped length : Nat} {d : Bytes} (hmode : f.mode = .discarding dropped)
    (hit : Hit delimiters buffer length d)
    (hcuts : Cuts delimiters (buffer.drop (length + d.length)) segments rest)
    (hcalls : buffer.length < calls) :
    Exhausts calls ⟨f, buffer⟩
      (.failed (f.policy.tooLong (f.overrun dropped length)) ::
        (segments.map f.policy.tell ++ f.policy.tellRest rest))
      ⟨{ f with mode := f.policy.modeOver rest }, f.policy.keep rest⟩ := by
  obtain ⟨calls, rfl⟩ := Nat.exists_eq_succ_of_ne_zero (Nat.ne_of_gt (Nat.zero_lt_of_lt hcalls))
  have hc : f.cut buffer = some (length, d.length) := by
    rw [hcut, Delimiters.cut_eq_of_hit hd hit]
  have hle := hit.le_length hd
  have hpos : 0 < d.length := List.length_pos_iff.2 (hd d hit.mem)
  have hless : (buffer.drop (length + d.length)).length < calls := by
    rw [List.length_drop]
    omega
  have hturn := Framer.decode_resume hc hmode
  rw [hlate] at hturn
  exact .of_event hturn rfl
    (exhausts_normal (f := { f with mode := .normal }) hd hcut rfl hcuts hless)

end Buffered

/-! ## A chunk that is served, and fed -/

/-- The bytes of one connection with their decoder, as an intake. -/
def Buffered.intake {σ : Type} (b : Buffered σ) (connection : Nat) : Intake σ :=
  { decoder := b.decoder, connection, buffer := b.buffer }

/-- What comes of a chunk that is served. -/
inductive Serves (delimiters : List Bytes) (connection : Nat) (b : Buffered Framer) (chunk : Bytes)
    (served : List Outcome × Buffered Framer) : Prop
  /-- The same as of a feed.  Where reports are made early, this does not end an episode. -/
  | same :
    served.1.filterMap (·.event?) = ((b.intake connection).feed chunk).events →
    served.2.intake connection = ((b.intake connection).feed chunk).intake →
    (b.decoder.policy.failFast = true → b.decoder.mode.isDiscarding →
      served.2.decoder.mode.isDiscarding) →
    Serves delimiters connection b chunk served
  /-- The first call ends an episode of dropping that was reported early. -/
  | early {dropped length : Nat} {d : Bytes} :
    b.decoder.policy.failFast = true → b.decoder.mode = .discarding dropped →
    Hit delimiters chunk length d →
    served =
      ([.nothing], ⟨{ b.decoder with mode := .normal }, chunk.drop (length + d.length)⟩) →
    Serves delimiters connection b chunk served

/-- Nothing is left to be done: the buffer holds no delimiter, and one more call finds nothing and
changes nothing. -/
structure Finished {σ : Type} [Decoder σ] (mode : σ → Mode) (delimiters : List Bytes)
    (b : Buffered σ) : Prop where
  undelimited : Undelimited delimiters b.buffer
  outcome : (Decoder.decode b.decoder b.buffer).outcome = .nothing
  rest : (Decoder.decode b.decoder b.buffer).rest = b.buffer
  mode : mode (Decoder.decode b.decoder b.buffer).decoder = mode b.decoder

section Framer

variable {delimiters : List Bytes} {start : Intake Framer} {b : Buffered Framer}
  {connection : Nat}

theorem Serves.of_exhausts {calls : Nat} {buffer chunk : Bytes} {events : List FrameEvent}
    {left : Buffered Framer}
    (h : Buffered.Exhausts calls ⟨b.decoder, buffer⟩ events left)
    (hevents : ((b.intake connection).feed chunk).events = events)
    (hintake : ((b.intake connection).feed chunk).intake = left.intake connection)
    (hlasts : b.decoder.policy.failFast = true → b.decoder.mode.isDiscarding →
      left.decoder.mode.isDiscarding) :
    (Buffered.exhaust calls ⟨b.decoder, buffer⟩).1.getLast? = some .nothing ∧
      Serves delimiters connection b chunk (Buffered.exhaust calls ⟨b.decoder, buffer⟩) := by
  refine ⟨h.stops, .same ?_ ?_ ?_⟩
  · rw [h.told, hevents]
  · rw [h.left, hintake]
  · rw [h.left]
    exact hlasts

theorem Poised.serve (h : Poised start (b.intake connection)) (hd : ∀ d ∈ delimiters, d ≠ [])
    (hcut : start.decoder.cut = Delimiters.cut delimiters) (chunk : Bytes) :
    (b.serve chunk).1.getLast? = some .nothing ∧
      Serves delimiters connection b chunk (b.serve chunk) := by
  have hcut' : b.decoder.cut = Delimiters.cut delimiters := h.cut.trans hcut
  unfold Buffered.serve
  rcases exists_course hd b.decoder.mode b.buffer chunk with
    ⟨hmode, segments, rest, hcuts⟩ | ⟨dropped, hmode, hu⟩ |
    ⟨dropped, length, d, segments, rest, hmode, hit, hcuts⟩
  · obtain ⟨hevents, hintake⟩ := feed_normal (a := b.intake connection) hd hcut' hmode hcuts
    refine Serves.of_exhausts
      (Buffered.exhausts_normal hd hcut' hmode hcuts (Nat.lt_succ_self _)) hevents hintake ?_
    intro _ hdiscarding
    rw [hmode] at hdiscarding
    cases hdiscarding
  · have hempty : b.buffer = [] := h.dropping dropped hmode
    obtain ⟨hevents, hintake⟩ := feed_drop (a := b.intake connection) hd hcut' hmode hempty hu
    rw [hempty, List.nil_append]
    refine Serves.of_exhausts (Buffered.exhausts_drop hd hcut' hmode hu) hevents (hintake.trans ?_)
      fun _ _ => rfl
    unfold Buffered.intake
    rw [hempty]
  · have hempty : b.buffer = [] := h.dropping dropped hmode
    rw [hempty, List.nil_append]
    cases hfast : b.decoder.policy.failFast with
    | false =>
      obtain ⟨hevents, hintake⟩ :=
        feed_resume (a := b.intake connection) hd hcut' hmode hempty hit hcuts
      have hlate : (b.intake connection).decoder.policy.failFast = false := hfast
      rw [hlate] at hevents
      refine Serves.of_exhausts
        (Buffered.exhausts_resume hd hcut' hfast hmode hit hcuts (Nat.lt_succ_self _)) hevents
        hintake ?_
      intro hearly
      rw [hfast] at hearly
      cases hearly
    | true =>
      have hturn := Framer.decode_resume (f := b.decoder)
        (by rw [hcut', Delimiters.cut_eq_of_hit hd hit]) hmode
      rw [hfast] at hturn
      have hserved :=
        Buffered.exhaust_of_nothing (n := chunk.length) (b := ⟨b.decoder, chunk⟩) hturn
      exact ⟨congrArg (·.1.getLast?) hserved, .early hfast hmode hit hserved⟩

/-- A chunk that is served leaves the framer as a feed may leave it. -/
theorem Poised.of_serves (h : Poised start (b.intake connection)) (hd : ∀ d ∈ delimiters, d ≠ [])
    (hcut : start.decoder.cut = Delimiters.cut delimiters) {chunk : Bytes}
    {served : List Outcome × Buffered Framer}
    (hserved : Serves delimiters connection b chunk served) :
    Poised start (served.2.intake connection) := by
  cases hserved with
  | same _ hintake _ =>
    rw [hintake]
    exact h.feed hd hcut chunk
  | early _ _ _ heq =>
    have hsame := h.same
    subst heq
    unfold Buffered.intake at hsame ⊢
    refine ⟨?_, fun _ hmode => by cases hmode⟩
    rw [Intake.mk.injEq] at hsame
    dsimp only
    rw [hsame.1, hsame.2.1]

theorem Settled.finished (h : Settled delimiters start (b.intake connection))
    (hd : ∀ d ∈ delimiters, d ≠ []) (hcut : start.decoder.cut = Delimiters.cut delimiters) :
    Finished Framer.mode delimiters b := by
  have hturn : Decoder.decode b.decoder b.buffer = ⟨.nothing, b.decoder, b.buffer⟩ :=
    h.decode hd hcut
  exact ⟨h.undelimited, by rw [hturn], by rw [hturn], by rw [hturn]⟩

theorem Finished.within (h : Finished Framer.mode delimiters b) (hd : ∀ d ∈ delimiters, d ≠ [])
    (hcut : b.decoder.cut = Delimiters.cut delimiters) (hmode : b.decoder.mode = .normal) :
    b.buffer.length ≤ b.decoder.policy.maxLength := by
  by_contra hlong
  have hnone : b.decoder.cut b.buffer = none := by
    rw [hcut]
    exact (Delimiters.cut_eq_none_iff hd).2 h.undelimited
  have hturn : Decoder.decode b.decoder b.buffer = _ :=
    Framer.decode_overflow hnone hmode (Nat.lt_of_not_le hlong)
  have hempty := h.rest
  rw [hturn] at hempty
  rw [← hempty] at hlong
  exact hlong (Nat.zero_le _)

/-- Where nothing is left to be done after a chunk, the caller was told what the consumer of a feed
is told. -/
theorem Serves.same_of_finished {chunk : Bytes} {served : List Outcome × Buffered Framer}
    (hserved : Serves delimiters connection b chunk served)
    (h : Poised start (b.intake connection)) (hd : ∀ d ∈ delimiters, d ≠ [])
    (hcut : start.decoder.cut = Delimiters.cut delimiters)
    (hfinished : Finished Framer.mode delimiters served.2) :
    served.1.filterMap (·.event?) = ((b.intake connection).feed chunk).events ∧
      served.2.intake connection = ((b.intake connection).feed chunk).intake := by
  cases hserved with
  | same hevents hintake _ => exact ⟨hevents, hintake⟩
  | @early dropped length d hearly hmode hit heq =>
    subst heq
    have hcut' : b.decoder.cut = Delimiters.cut delimiters := h.cut.trans hcut
    have hwithin : (chunk.drop (length + d.length)).length ≤
        (b.intake connection).decoder.policy.maxLength := hfinished.within hd hcut' rfl
    have hrest : Cuts delimiters (chunk.drop (length + d.length)) [] _ :=
      .rest hfinished.undelimited
    obtain ⟨hevents, hintake⟩ := feed_resume (a := b.intake connection) hd hcut' hmode
      (h.dropping dropped hmode) hit hrest
    have hpolicy : (b.intake connection).decoder.policy.failFast = true := hearly
    rw [hpolicy, Policy.tellRest_of_le hwithin] at hevents
    rw [Policy.modeOver_of_le hwithin, Policy.keep_of_le hwithin] at hintake
    exact ⟨hevents.symm, hintake.symm⟩

theorem Poised.serveAll (h : Poised start (b.intake connection)) (hd : ∀ d ∈ delimiters, d ≠ [])
    (hcut : start.decoder.cut = Delimiters.cut delimiters) (chunks : List Bytes) :
    Poised start ((b.serveAll chunks).2.intake connection) := by
  induction chunks generalizing b with
  | nil => exact h
  | cons chunk chunks ih => exact ih (h.of_serves hd hcut (h.serve hd hcut chunk).2)

/-- As long as nothing is left to be done whenever the caller stops, it is told what the consumer
of feeds is told. -/
theorem serveAll_eq_feedAll (h : Poised start (b.intake connection))
    (hd : ∀ d ∈ delimiters, d ≠ []) (hcut : start.decoder.cut = Delimiters.cut delimiters)
    {chunks : List Bytes}
    (hfinished : ∀ served, served <+: chunks →
      Finished Framer.mode delimiters (b.serveAll served).2) :
    (b.serveAll chunks).1.filterMap (·.event?) = ((b.intake connection).feedAll chunks).events ∧
      (b.serveAll chunks).2.intake connection =
        ((b.intake connection).feedAll chunks).intake := by
  induction chunks generalizing b with
  | nil => exact ⟨rfl, rfl⟩
  | cons chunk chunks ih =>
    have hserves := (h.serve hd hcut chunk).2
    have hfirst : Finished Framer.mode delimiters (b.serve chunk).2 :=
      hfinished [chunk] (List.prefix_append [chunk] chunks)
    obtain ⟨hevents, hintake⟩ := hserves.same_of_finished h hd hcut hfirst
    obtain ⟨hmore, hend⟩ := ih (h.of_serves hd hcut hserves) fun served hserved =>
      hfinished (chunk :: served) (List.cons_prefix_cons.2 ⟨rfl, hserved⟩)
    rw [hintake] at hmore hend
    unfold Buffered.serveAll Intake.feedAll
    dsimp only
    rw [List.filterMap_append, hevents, hmore]
    exact ⟨rfl, hend⟩

end Framer

/-! ## Decoders that answer alike -/

section Mirrors

variable {σ τ : Type} [Decoder σ] [Decoder τ] {related : σ → τ → Bytes → Prop}

/-- They are asked equally often, and leave the same bytes. -/
theorem Mirrors.exhaust (h : Mirrors related) (calls : Nat) {s : σ} {t : τ} {bytes : Bytes}
    (hst : related s t bytes) :
    let p := Buffered.exhaust calls ⟨s, bytes⟩
    let q := Buffered.exhaust calls ⟨t, bytes⟩
    p.1 = q.1 ∧ p.2.buffer = q.2.buffer ∧ related p.2.decoder q.2.decoder p.2.buffer := by
  induction calls generalizing s t bytes with
  | zero => exact ⟨rfl, rfl, hst⟩
  | succ calls ih =>
    have hout := h.outcome hst
    have hrest := h.rest hst
    have hnext := h.next hst
    unfold Buffered.exhaust
    dsimp only
    rw [← hout, ← hrest]
    split
    · exact ⟨rfl, rfl, hnext⟩
    · obtain ⟨hanswers, hbuffer, hrelated⟩ := ih hnext
      exact ⟨congrArg _ hanswers, hbuffer, hrelated⟩

theorem Mirrors.serve (h : Mirrors related) (chunk : Bytes) {a : Buffered σ} {b : Buffered τ}
    (hab : related a.decoder b.decoder a.buffer) (hbuffer : a.buffer = b.buffer) :
    (a.serve chunk).1 = (b.serve chunk).1 ∧ (a.serve chunk).2.buffer = (b.serve chunk).2.buffer ∧
      related (a.serve chunk).2.decoder (b.serve chunk).2.decoder (a.serve chunk).2.buffer := by
  have hgrow := h.grow hab chunk
  unfold Buffered.serve
  dsimp only
  rw [← hbuffer, ← h.calls hgrow]
  exact h.exhaust _ hgrow

theorem Mirrors.serveAll (h : Mirrors related) (chunks : List Bytes) {a : Buffered σ}
    {b : Buffered τ} (hab : related a.decoder b.decoder a.buffer) (hbuffer : a.buffer = b.buffer) :
    (a.serveAll chunks).1 = (b.serveAll chunks).1 ∧
      (a.serveAll chunks).2.buffer = (b.serveAll chunks).2.buffer ∧
      related (a.serveAll chunks).2.decoder (b.serveAll chunks).2.decoder
        (a.serveAll chunks).2.buffer := by
  induction chunks generalizing a b with
  | nil => exact ⟨rfl, hbuffer, hab⟩
  | cons chunk chunks ih =>
    obtain ⟨hanswers, hrest, hrelated⟩ := h.serve chunk hab hbuffer
    obtain ⟨hmore, hend, hlast⟩ := ih hrelated hrest
    refine ⟨?_, hend, hlast⟩
    unfold Buffered.serveAll
    dsimp only
    rw [hanswers, hmore]

/-- Nothing is left to be done for the one where nothing is for the other. -/
theorem Works.finished_iff {mode : σ → Mode} {delimiters : List Bytes} {b : Buffered σ}
    {g : Buffered Framer} (h : Works mode b.decoder g.decoder b.buffer)
    (hbuffer : b.buffer = g.buffer) :
    Finished mode delimiters b ↔ Finished Framer.mode delimiters g := by
  obtain ⟨s, bytes⟩ := b
  obtain ⟨f, _⟩ := g
  cases hbuffer
  have hmirrors := Works.mirrors mode
  have hout := hmirrors.outcome h
  have hrest := hmirrors.rest h
  have hnext := (hmirrors.next h).mode_eq
  have hsame := h.mode_eq
  constructor
  · rintro ⟨hu, hnone, hleft, hmode⟩
    exact ⟨hu, hout.symm.trans hnone, hrest.symm.trans hleft, (hnext.symm.trans hmode).trans hsame⟩
  · rintro ⟨hu, hnone, hleft, hmode⟩
    exact ⟨hu, hout.trans hnone, hrest.trans hleft, (hnext.trans hmode).trans hsame.symm⟩

end Mirrors

/-! ## Both decoders -/

section

variable {σ : Type} [Decoder σ] {mode : σ → Mode} {policy : Policy} {delimiters : List Bytes}

/-- The caller is told what the consumer of feeds is told, and both are left with the same. -/
def ServedAsFed (mode : σ → Mode) (s : σ) (connection : Nat) (chunks : List Bytes) : Prop :=
  let served := Buffered.serveAll ⟨s, []⟩ chunks
  let fed := ({ decoder := s, connection } : Intake σ).feedAll chunks
  served.1.filterMap (·.event?) = fed.events ∧ served.2.buffer = fed.intake.buffer ∧
    mode served.2.decoder = mode fed.intake.decoder

/-- With this chunk an episode of dropping ends that was reported early. -/
def EndsEarly (mode : σ → Mode) (policy : Policy) (b : Buffered σ) (chunk : Bytes) : Prop :=
  policy.failFast = true ∧ (mode b.decoder).isDiscarding ∧
    mode (b.serve chunk).2.decoder = .normal

/-- A fresh decoder serves a caller that goes on until there is nothing. -/
structure ServesCaller (mode : σ → Mode) (policy : Policy) (delimiters : List Bytes) (s : σ) :
    Prop where
  /-- Each chunk is worked off in finitely many calls. -/
  stops : ∀ chunks chunk,
    ((Buffered.serveAll ⟨s, []⟩ chunks).2.serve chunk).1.getLast? = some .nothing
  /-- When the caller stops nothing is left to be done. -/
  finished : ∀ chunks chunk,
    let b := (Buffered.serveAll ⟨s, []⟩ chunks).2
    ¬ EndsEarly mode policy b chunk → Finished mode delimiters (b.serve chunk).2
  /-- The exception: the caller stops at the first call, and all that is behind the delimiter is
  left. -/
  early : ∀ chunks chunk,
    let b := (Buffered.serveAll ⟨s, []⟩ chunks).2
    EndsEarly mode policy b chunk →
      (b.serve chunk).1 = [.nothing] ∧
        ∃ length d, Hit delimiters chunk length d ∧
          (b.serve chunk).2.buffer = chunk.drop (length + d.length)
  /-- As long as nothing is left to be done whenever the caller stops, it is told what the consumer
  of feeds is told. -/
  same : ∀ connection chunks,
    (∀ served, served <+: chunks → Finished mode delimiters (Buffered.serveAll ⟨s, []⟩ served).2) →
      ServedAsFed mode s connection chunks
  /-- Where reports are made late, this is so always. -/
  late : policy.failFast = false → ∀ connection chunks, ServedAsFed mode s connection chunks

/-- A framer in the place of the decoder, between two chunks. -/
structure StandsFor (mode : σ → Mode) (f : Framer) (g : Buffered Framer) (b : Buffered σ) :
    Prop where
  works : Works mode b.decoder g.decoder b.buffer
  buffer : b.buffer = g.buffer
  poised : Poised (Buffered.intake ⟨f, []⟩ 0) (g.intake 0)

namespace StandsFor

variable {f : Framer} {g : Buffered Framer} {b : Buffered σ}

theorem fresh {s : σ} (h : Works mode s f []) : StandsFor mode f ⟨f, []⟩ ⟨s, []⟩ :=
  ⟨h, rfl, rfl, fun _ _ => rfl⟩

theorem serveAll (h : StandsFor mode f g b) (hd : ∀ d ∈ delimiters, d ≠ [])
    (hcut : f.cut = Delimiters.cut delimiters) (chunks : List Bytes) :
    StandsFor mode f (g.serveAll chunks).2 (b.serveAll chunks).2 := by
  obtain ⟨-, hbuffer, hnext⟩ := (Works.mirrors mode).serveAll chunks h.works h.buffer
  exact ⟨hnext, hbuffer, h.poised.serveAll hd hcut chunks⟩

theorem endsEarly_iff (h : StandsFor mode f g b) (chunk : Bytes) :
    EndsEarly mode f.policy b chunk ↔ EndsEarly Framer.mode f.policy g chunk := by
  obtain ⟨-, -, hnext⟩ := (Works.mirrors mode).serve chunk h.works h.buffer
  unfold EndsEarly
  rw [h.works.mode_eq, hnext.mode_eq]

theorem stops (h : StandsFor mode f g b) (hd : ∀ d ∈ delimiters, d ≠ [])
    (hcut : f.cut = Delimiters.cut delimiters) (chunk : Bytes) :
    (b.serve chunk).1.getLast? = some .nothing := by
  rw [((Works.mirrors mode).serve chunk h.works h.buffer).1]
  exact (h.poised.serve hd hcut chunk).1

theorem finished (h : StandsFor mode f g b) (hd : ∀ d ∈ delimiters, d ≠ [])
    (hcut : f.cut = Delimiters.cut delimiters) {chunk : Bytes}
    (hnot : ¬ EndsEarly mode f.policy b chunk) : Finished mode delimiters (b.serve chunk).2 := by
  obtain ⟨-, hrest, hnext⟩ := (Works.mirrors mode).serve chunk h.works h.buffer
  rw [Works.finished_iff hnext hrest]
  rw [h.endsEarly_iff] at hnot
  cases (h.poised.serve hd hcut chunk).2 with
  | same _ hintake _ =>
    have hsettled := Settled.of_feed h.poised hd hcut chunk
    rw [← hintake] at hsettled
    exact hsettled.finished hd hcut
  | early hearly hmode _ heq =>
    refine absurd ⟨?_, ?_, ?_⟩ hnot
    · exact (congrArg Policy.failFast h.poised.policy).symm.trans hearly
    · rw [hmode]
      rfl
    · rw [heq]

theorem early (h : StandsFor mode f g b) (hd : ∀ d ∈ delimiters, d ≠ [])
    (hcut : f.cut = Delimiters.cut delimiters) {chunk : Bytes}
    (hearly : EndsEarly mode f.policy b chunk) :
    (b.serve chunk).1 = [.nothing] ∧
      ∃ length d, Hit delimiters chunk length d ∧
        (b.serve chunk).2.buffer = chunk.drop (length + d.length) := by
  obtain ⟨hanswers, hrest, -⟩ := (Works.mirrors mode).serve chunk h.works h.buffer
  obtain ⟨hfast, hbefore, hafter⟩ := (h.endsEarly_iff chunk).1 hearly
  cases (h.poised.serve hd hcut chunk).2 with
  | same _ _ hlasts =>
    have hpolicy := congrArg Policy.failFast h.poised.policy
    have hstill := hlasts (hpolicy.trans hfast) hbefore
    rw [hafter] at hstill
    cases hstill
  | early _ _ hit heq =>
    refine ⟨?_, _, _, hit, ?_⟩
    · rw [hanswers, heq]
    · rw [hrest, heq]

end StandsFor

/-- The caller of a decoder that works as a framer does, as long as nothing is left to be done. -/
theorem Works.servedAsFed {s : σ} {f : Framer} (h : Works mode s f [])
    (hd : ∀ d ∈ delimiters, d ≠ []) (hcut : f.cut = Delimiters.cut delimiters) (connection : Nat)
    {chunks : List Bytes}
    (hfinished : ∀ served, served <+: chunks →
      Finished mode delimiters (Buffered.serveAll ⟨s, []⟩ served).2) :
    ServedAsFed mode s connection chunks := by
  have hmirrors := Works.mirrors mode
  have hfresh := StandsFor.fresh h
  have hframed (served : List Bytes) (hserved : served <+: chunks) :
      Finished Framer.mode delimiters (Buffered.serveAll ⟨f, []⟩ served).2 := by
    have hstands := hfresh.serveAll hd hcut served
    exact (Works.finished_iff hstands.works hstands.buffer).1 (hfinished served hserved)
  have hpoised : Poised (Buffered.intake ⟨f, []⟩ connection) (Buffered.intake ⟨f, []⟩ connection) :=
    ⟨rfl, fun _ _ => rfl⟩
  obtain ⟨htold, hleft⟩ := serveAll_eq_feedAll hpoised hd hcut hframed
  obtain ⟨hanswers, hbuffer, hnext⟩ :=
    hmirrors.serveAll chunks (a := ⟨s, []⟩) (b := ⟨f, []⟩) h rfl
  obtain ⟨hevents, hkept, hlast⟩ := hmirrors.feedAll chunks
    (a := { decoder := s, connection }) (b := { decoder := f, connection }) h rfl
  refine ⟨?_, ?_, ?_⟩
  · rw [hanswers, hevents]
    exact htold
  · rw [hbuffer, hkept]
    exact congrArg Intake.buffer hleft
  · rw [hnext.mode_eq, hlast.mode_eq]
    exact congrArg (fun a : Intake Framer => a.decoder.mode) hleft

/-- Where reports are made late, nothing is ever left to be done. -/
theorem Works.finished_late {s : σ} {f : Framer} (h : Works mode s f [])
    (hd : ∀ d ∈ delimiters, d ≠ []) (hcut : f.cut = Delimiters.cut delimiters)
    (hlate : f.policy.failFast = false) (chunks : List Bytes) :
    Finished mode delimiters (Buffered.serveAll ⟨s, []⟩ chunks).2 := by
  have hfresh := StandsFor.fresh h
  cases chunks using List.reverseRecOn with
  | nil =>
    have hsettled : Settled delimiters (Buffered.intake ⟨f, []⟩ 0) _ := Settled.fresh hd rfl
    exact (Works.finished_iff hfresh.works hfresh.buffer).2 (hsettled.finished hd hcut)
  | append_singleton before chunk =>
    rw [Buffered.serveAll_concat]
    refine (hfresh.serveAll hd hcut before).finished hd hcut fun hearly => ?_
    rw [hearly.1] at hlate
    cases hlate

theorem SplitsAt.servesCaller {s : σ} (h : SplitsAt mode policy delimiters s)
    (hd : ∀ d ∈ delimiters, d ≠ []) : ServesCaller mode policy delimiters s := by
  obtain ⟨overrun, -, hworks⟩ := h
  let f : Framer := { policy, cut := Delimiters.cut delimiters, overrun }
  have hcut : f.cut = Delimiters.cut delimiters := rfl
  have hstands (chunks : List Bytes) := (StandsFor.fresh hworks).serveAll hd hcut chunks
  refine ⟨?_, ?_, ?_, ?_, ?_⟩
  · intro chunks chunk
    exact (hstands chunks).stops hd hcut chunk
  · intro chunks chunk b hnot
    exact (hstands chunks).finished hd hcut hnot
  · intro chunks chunk b hearly
    exact (hstands chunks).early hd hcut hearly
  · intro connection chunks hfinished
    exact hworks.servedAsFed hd hcut connection hfinished
  · intro hlate connection chunks
    exact hworks.servedAsFed hd hcut connection fun served _ =>
      hworks.finished_late hd hcut hlate served

/-- The calling protocol of both decoders, whatever bytes come in and however they are cut into
chunks.  A caller that appends a chunk and calls until there is nothing leaves nothing to be done,
and is told what the consumer of feeds is told.  The exception is an episode of dropping that was
reported early: the call that ends it answers that there is nothing, and the caller stops in front
of what is behind the delimiter. -/
theorem caller_served {policy : Policy} (hpolicy : policy.check = .ok ()) (hne : delimiters ≠ [])
    (hd : ∀ d ∈ delimiters, d ≠ []) :
    (∃ s, Splitter.ofDelimiters policy delimiters = .ok s ∧
      ServesCaller Splitter.mode policy delimiters s) ∧
    (∃ l, Line.ofPolicy policy = .ok l ∧ ServesCaller Line.mode policy Delimiters.line l) := by
  obtain ⟨s, hs, hsplits⟩ := Splitter.exists_splitsAt hpolicy hne hd
  obtain ⟨l, hl, hlines⟩ := Line.exists_splitsAt hpolicy
  exact ⟨⟨s, hs, hsplits.servesCaller hd⟩, ⟨l, hl, hlines.servesCaller Delimiters.line_ne_nil⟩⟩

end

/-- The second chunk ends an episode that is reported late.  The caller goes on, hands out a frame,
and stops with half a delimiter behind the byte 6. -/
theorem caller_served_late :
    let policy : Policy := { maxLength := 2, failFast := false }
    let chunks : List Bytes := [[1, 2, 3], [4, 7, 8, 5, 7, 8, 6, 7]]
    ∃ s, Splitter.ofDelimiters policy [[7, 8]] = .ok s ∧
      let served := Buffered.serveAll ⟨s, []⟩ chunks
      served.1 = [.nothing, .failed (.tooLong 2 3), .frame [5], .nothing] ∧
        served.2.buffer = [6, 7] ∧ ServedAsFed Splitter.mode s 0 chunks := by
  intro policy chunks
  have hpolicy : policy.check = .ok () := rfl
  have hd : ∀ d ∈ ([[7, 8]] : List Bytes), d ≠ [] := by decide
  obtain ⟨⟨s, hs, hserves⟩, -⟩ := caller_served hpolicy (by simp) hd
  refine ⟨s, hs, ?_, ?_, hserves.late rfl 0 chunks⟩
  · obtain rfl : _ = s := Except.ok.inj hs
    decide +kernel
  · obtain rfl : _ = s := Except.ok.inj hs
    decide +kernel

/-- An episode that was reported early ends in front of a whole line.  The caller stops there, and
the line is left to the call that it does not make; the consumer of feeds has the line. -/
theorem caller_stops_early :
    let policy : Policy := { maxLength := 4 }
    let chunks : List Bytes := [[48, 49, 50, 51, 52, 53], [120, lf, 121, 101, 115, lf]]
    ∃ l, Line.ofPolicy policy = .ok l ∧
      let served := Buffered.serveAll ⟨l, []⟩ chunks
      let again := Decoder.decode served.2.decoder served.2.buffer
      let fed := ({ decoder := l, connection := 0 } : Intake Line).feedAll chunks
      served.1 = [.failed (.tooLong 4 6), .nothing, .nothing] ∧
        served.2.buffer = [121, 101, 115, lf] ∧
        again.outcome = .frame [121, 101, 115] ∧ again.rest = [] ∧
        fed.events = [.failed (.tooLong 4 6), .frame [121, 101, 115]] := by
  intro policy chunks
  exact ⟨_, rfl, by decide +kernel⟩

end FrameLoop
