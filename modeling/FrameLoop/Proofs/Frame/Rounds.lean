import FrameLoop.Frame.Rounds
import FrameLoop.Proofs.Frame.Bounds
import FrameLoop.Proofs.Frame.Telling

/-
  The loop of a feed ends.

  A round that is not the last one takes a byte, if the decoder takes one with each frame
  (`Consumes`).  So there are no more calls than bytes, and a last one (`exists_ends`).  What the
  loop has counted and told is what its calls say (`Kept`), and a feed with a limit on its calls
  comes to the same if the limit is not below their number (`drain_of_ends`).  Both decoders take a
  byte with each frame, whatever has become of them and whatever their buffer is (`feeds_end`).
-/

namespace FrameLoop

section

variable {σ : Type} [Decoder σ]

/-! ## Where the loop ends -/

namespace Rounds

variable {s t u : Rounds σ}

@[simp]
theorem next_decoder (s : Rounds σ) : s.next.decoder = s.turn.decoder := by
  unfold next
  split <;> rfl

@[simp]
theorem next_buffer (s : Rounds σ) : s.next.buffer = s.turn.rest := by
  unfold next
  split <;> rfl

@[simp]
theorem next_calls (s : Rounds σ) : s.next.calls = s.calls ++ [⟨s.buffer, s.turn⟩] := by
  unfold next
  split <;> rfl

theorem next_events (s : Rounds σ) : s.next.events = s.events ++ s.turn.outcome.event?.toList := by
  unfold next
  split
  · next h => rw [h]; rfl
  · next h => rw [h]; exact (List.append_nil _).symm
  · next h => rw [h]; rfl

theorem next_frames (s : Rounds σ) :
    s.next.frames = s.frames + (handed s.turn.outcome.event?.toList).length := by
  unfold next
  split
  · next h => rw [h]; rfl
  · next h => rw [h]; rfl
  · next h => rw [h]; rfl

/-- The loop ends in one way only. -/
theorem Ends.unique (h : Ends s t) (h' : Ends s u) : u = t := by
  induction h with
  | empty hempty =>
    cases h' with
    | empty _ => rfl
    | stuck hne _ => exact absurd hempty hne
    | round hne _ _ => exact absurd hempty hne
  | stuck hne hstuck =>
    cases h' with
    | empty hempty => exact absurd hempty hne
    | stuck _ _ => rfl
    | round _ hgoes _ => exact absurd hgoes hstuck
  | round hne hgoes _ ih =>
    cases h' with
    | empty hempty => exact absurd hempty hne
    | stuck _ hstuck => exact absurd hgoes hstuck
    | round _ _ hrest => exact ih hrest

/-- At the end no bytes are left, or the last call took nothing. -/
theorem Ends.idle (h : Ends s t) :
    t.buffer = [] ∨ ∃ c, t.calls.getLast? = some c ∧ c.TookNothing := by
  induction h with
  | empty hempty => exact .inl hempty
  | @stuck s _ hstuck =>
    refine .inr ⟨⟨s.buffer, s.turn⟩, by rw [next_calls, List.getLast?_concat], ?_⟩
    exact Decidable.byContradiction fun hne => hstuck (.inr hne)
  | round _ _ _ ih => exact ih

/-- What the loop has is what its calls have made of the decoder and the bytes at its beginning, and
what it has counted and told is what they have answered. -/
structure Kept (decoder : σ) (buffer : Bytes) (s : Rounds σ) : Prop where
  told : s.events = s.calls.filterMap (·.turn.outcome.event?)
  counted : s.frames = (handed s.events).length
  decoder : s.decoder = (s.calls.getLast?.map (·.turn.decoder)).getD decoder
  buffer : s.buffer = (s.calls.getLast?.map (·.turn.rest)).getD buffer

theorem Kept.next {decoder : σ} {buffer : Bytes} (h : Kept decoder buffer s) :
    Kept decoder buffer s.next := by
  refine ⟨?_, ?_, by simp, by simp⟩
  · rw [next_events, next_calls, List.filterMap_append, ← h.told]
    cases htold : s.turn.outcome.event? <;> simp [htold]
  · rw [next_frames, next_events, handed_append, List.length_append, h.counted]

theorem Ends.kept {decoder : σ} {buffer : Bytes} (h : Ends s t) (hs : Kept decoder buffer s) :
    Kept decoder buffer t := by
  induction h with
  | empty _ => exact hs
  | stuck _ _ => exact hs.next
  | round _ _ _ ih => exact ih hs.next

theorem Ends.calls_le (h : Ends s t) : s.calls.length ≤ t.calls.length := by
  induction h with
  | empty _ => exact Nat.le_refl _
  | stuck _ _ => simp
  | round _ _ _ ih => exact Nat.le_trans (by simp) ih

end Rounds

/-! ## Decoders that take a byte with each frame -/

theorem Becomes.trans {s t u : σ} (h : Becomes s t) (h' : Becomes t u) : Becomes s u := by
  induction h' with
  | refl => exact h
  | call buffer _ ih => exact .call buffer ih

theorem Consumes.becomes {s t : σ} (h : Consumes s) (ht : Becomes s t) : Consumes t :=
  fun u hu => h u (ht.trans hu)

/-- A decoder in a state that calls preserve, and in which they take bytes. -/
theorem Consumes.of_invariant (proper : σ → Prop)
    (hnext : ∀ s buffer, proper s → proper (Decoder.decode s buffer).decoder)
    (hsuffix : ∀ s buffer, proper s → (Decoder.decode s buffer).rest <:+ buffer)
    (hframe : ∀ s buffer, proper s → (Decoder.decode s buffer).outcome.isFrame →
      (Decoder.decode s buffer).rest.length < buffer.length)
    {s : σ} (hs : proper s) : Consumes s := by
  intro t ht buffer
  have hproper : proper t := by
    induction ht with
    | refl => exact hs
    | call buffer _ ih => exact hnext _ buffer ih
  exact ⟨(hsuffix t buffer hproper).length_le, hframe t buffer hproper⟩

namespace Rounds

variable {s t : Rounds σ}

/-- A round that another one follows takes a byte. -/
theorem GoesOn.shorter (h : s.GoesOn) (hs : Consumes s.decoder) :
    s.turn.rest.length < s.buffer.length := by
  obtain ⟨hle, hframe⟩ := hs s.decoder (.refl _) s.buffer
  rcases h with h | h
  · exact hframe h
  · exact Nat.lt_of_le_of_ne hle h

/-- So the loop ends, after as many calls as there are bytes and one more at most. -/
theorem exists_ends (s : Rounds σ) (hs : Consumes s.decoder) :
    ∃ t, Ends s t ∧ t.calls.length ≤ s.calls.length + s.buffer.length + 1 := by
  induction hlength : s.buffer.length using Nat.strongRecOn generalizing s with
  | ind n ih =>
    by_cases hempty : s.buffer = []
    · exact ⟨s, .empty hempty, by omega⟩
    · have hone : s.next.calls.length = s.calls.length + 1 := by simp
      by_cases hgoes : s.GoesOn
      · have hshorter := hgoes.shorter hs
        have hnext : Consumes s.next.decoder := by
          rw [next_decoder]
          exact hs.becomes (.call s.buffer (.refl _))
        obtain ⟨t, hends, hcalls⟩ :=
          ih s.turn.rest.length (hlength ▸ hshorter) s.next hnext (by rw [next_buffer])
        exact ⟨t, .round hempty hgoes hends, by omega⟩
      · exact ⟨_, .stuck hempty hgoes, by omega⟩

/-! ## Feeds with a limit on their calls -/

theorem drain_succ (calls : Nat) (hne : s.buffer ≠ []) :
    drain (calls + 1) s.decoder s.buffer =
      s.turn :: if s.GoesOn then drain calls s.turn.decoder s.turn.rest else [] := by
  have hempty : s.buffer.isEmpty = false := by simpa using hne
  have hgoes : (s.turn.outcome.isFrame || decide (s.turn.rest.length ≠ s.buffer.length)) = true ↔
      s.GoesOn := by
    rw [Bool.or_eq_true, decide_eq_true_eq, GoesOn]
  rw [drain, hempty, if_neg Bool.false_ne_true]
  show (if (s.turn.outcome.isFrame || decide (s.turn.rest.length ≠ s.buffer.length)) = true
    then _ else _) = _
  by_cases h : s.GoesOn
  · rw [if_pos (hgoes.2 h), if_pos h]
    rfl
  · rw [if_neg fun h' => h (hgoes.1 h'), if_neg h]
    rfl

/-- With enough calls a feed makes those of the loop. -/
theorem Ends.drain_eq {calls : Nat} (h : Ends s t)
    (hcalls : t.calls.length ≤ s.calls.length + calls) :
    t.calls.map GivenCall.turn =
      s.calls.map GivenCall.turn ++ drain calls s.decoder s.buffer := by
  induction h generalizing calls with
  | @empty s hempty =>
    have hdrain : drain calls s.decoder s.buffer = [] := by
      rw [hempty]
      cases calls <;> rfl
    rw [hdrain, List.append_nil]
  | @stuck s hne hstuck =>
    rw [next_calls, List.length_append, List.length_singleton] at hcalls
    obtain ⟨calls, rfl⟩ := Nat.exists_eq_succ_of_ne_zero (show calls ≠ 0 by omega)
    rw [Nat.succ_eq_add_one, drain_succ calls hne, if_neg hstuck, next_calls, List.map_append]
    rfl
  | @round s t hne hgoes hends ih =>
    have hmore := hends.calls_le
    have hone : s.next.calls.length = s.calls.length + 1 := by simp
    obtain ⟨calls, rfl⟩ := Nat.exists_eq_succ_of_ne_zero (show calls ≠ 0 by omega)
    have hrest := ih (show t.calls.length ≤ s.next.calls.length + calls by omega)
    rw [next_calls, next_decoder, next_buffer, List.map_append, List.append_assoc] at hrest
    rw [Nat.succ_eq_add_one, drain_succ calls hne, if_pos hgoes]
    exact hrest

end Rounds

/-- The loop of a feed ends so, and no other way: after few calls, of each of which the consumer was
told what it answered, and with nothing left to be done.  A feed comes to the same if it may make so
many calls. -/
structure EndsIn (a : Intake σ) (chunk : Bytes) (t : Rounds σ) : Prop where
  ends : (a.rounds chunk).Ends t
  only : ∀ u, (a.rounds chunk).Ends u → u = t
  few : t.calls.length ≤ a.buffered + chunk.length + 1
  told : t.events = t.calls.filterMap (·.turn.outcome.event?)
  counted : t.frames = (handed t.events).length
  idle : t.buffer = [] ∨ ∃ c, t.calls.getLast? = some c ∧ c.TookNothing
  fed : t.calls.length ≤ Decoder.calls a.decoder (a.buffer ++ chunk) →
    a.feed chunk = t.fed a.connection

/-- The loop of a feed ends if the decoder takes a byte with each frame. -/
theorem Consumes.exists_endsIn {a : Intake σ} (h : Consumes a.decoder) (chunk : Bytes) :
    ∃ t, EndsIn a chunk t := by
  obtain ⟨t, hends, hfew⟩ := (a.rounds chunk).exists_ends h
  have hkept : Rounds.Kept a.decoder (a.buffer ++ chunk) t := hends.kept ⟨rfl, rfl, rfl, rfl⟩
  refine ⟨t, hends, fun u hu => hends.unique hu, ?_, hkept.told, hkept.counted, hends.idle, ?_⟩
  · have hlength : (a.rounds chunk).buffer.length = a.buffered + chunk.length :=
      List.length_append
    rw [hlength] at hfew
    simpa [Intake.rounds] using hfew
  · intro hcalls
    have hturns : t.calls.map GivenCall.turn = a.turns chunk :=
      hends.drain_eq (by simpa [Intake.rounds] using hcalls)
    have hevents : (a.feed chunk).events = t.events := by
      rw [hkept.told, Intake.feed, ← hturns, List.filterMap_map]
      rfl
    have hframes : (a.feed chunk).frames = t.frames := by
      rw [feed_frames, hevents, hkept.counted]
    have hintake : (a.feed chunk).intake =
        { decoder := t.decoder, connection := a.connection, buffer := t.buffer } := by
      rw [Intake.feed, ← hturns, List.getLast?_map, hkept.decoder, hkept.buffer]
      cases t.calls.getLast? <;> rfl
    rw [Rounds.fed, ← hevents, ← hframes, ← hintake]

/-- A feed that may make one call more than there are bytes is what its loop comes to. -/
theorem EndsIn.feed_eq {a : Intake σ} {chunk : Bytes} {t : Rounds σ} (h : EndsIn a chunk t)
    (hcalls : Decoder.calls a.decoder (a.buffer ++ chunk) = (a.buffer ++ chunk).length + 1) :
    a.feed chunk = t.fed a.connection := by
  refine h.fed ?_
  rw [hcalls, List.length_append]
  exact h.few

/-- The feeds of a decoder end, and they are what their loops come to. -/
def FeedsEnd (s : σ) : Prop :=
  ∀ connection buffer chunk, ∃ t, EndsIn ⟨s, connection, buffer⟩ chunk t ∧
    Intake.feed ⟨s, connection, buffer⟩ chunk = t.fed connection

theorem Consumes.feedsEnd {s : σ} (h : Consumes s)
    (hcalls : ∀ buffer, Decoder.calls s buffer = buffer.length + 1) : FeedsEnd s := by
  intro connection buffer chunk
  have hs : Consumes (Intake.mk s connection buffer).decoder := h
  obtain ⟨t, ht⟩ := hs.exists_endsIn chunk
  exact ⟨t, ht, ht.feed_eq (hcalls _)⟩

end

/-! ## Both decoders -/

theorem StandsAt.drop_shorter {delimiters : List Bytes} {buffer : Bytes} {length width : Nat}
    (h : StandsAt delimiters buffer length width) (hd : ∀ d ∈ delimiters, d ≠ []) :
    (buffer.drop (length + width)).length < buffer.length := by
  have hle := h.le_length hd
  obtain ⟨d, hmem, -, rfl⟩ := h
  have hpos := List.length_pos_iff.2 (hd d hmem)
  rw [List.length_drop]
  omega

theorem not_isFrame_early (early : Bool) (error : FrameError) :
    ¬ (if early then Outcome.failed error else .nothing).isFrame := by
  cases early <;> exact Bool.false_ne_true

theorem Line.decode_shorter (l : Line) (buffer : Bytes)
    (hframe : (l.decode buffer).outcome.isFrame) :
    (l.decode buffer).rest.length < buffer.length := by
  unfold Line.decode at hframe ⊢
  split at hframe
  · next hend _ => exact (Line.standsAt_of_lineEnd hend).drop_shorter Delimiters.line_ne_nil
  · next hend _ => exact (Line.standsAt_of_lineEnd hend).drop_shorter Delimiters.line_ne_nil
  · split at hframe
    · exact absurd hframe (not_isFrame_early _ _)
    · cases hframe
  · cases hframe

theorem Scan.decode_shorter (s : Scan) (hd : ∀ d ∈ s.delimiters, d ≠ []) (buffer : Bytes)
    (hframe : (s.decode buffer).outcome.isFrame) :
    (s.decode buffer).rest.length < buffer.length := by
  unfold Scan.decode at hframe ⊢
  split at hframe
  · next hfound _ => exact (Scan.standsAt_of_shortest hd hfound).drop_shorter hd
  · next hfound _ => exact (Scan.standsAt_of_shortest hd hfound).drop_shorter hd
  · cases hframe
  · split at hframe
    · exact absurd hframe (not_isFrame_early _ _)
    · cases hframe

/-- A line decoder takes a byte with each line, whatever it remembers. -/
theorem Line.consumes (l : Line) : Consumes l :=
  .of_invariant (fun _ => True) (fun _ _ _ => trivial)
    (fun l buffer _ => (l.decode_takesFront buffer).rest)
    (fun l buffer _ => l.decode_shorter buffer) trivial

theorem Splitter.consumes {policy : Policy} {delimiters : List Bytes} {s : Splitter}
    (h : Splitter.ofDelimiters policy delimiters = .ok s) : Consumes s := by
  obtain ⟨-, -, hd, -⟩ := (Splitter.ofDelimiters_eq_ok_iff policy delimiters s).1 h
  have hbounds := Splitter.inBounds policy hd
  refine .of_invariant _ hbounds.next (fun s buffer hs => (hbounds.takes s buffer hs).rest) ?_
    (Splitter.proper_of_ofDelimiters h)
  rintro ⟨_, scan | line⟩ buffer hproper hframe
  · obtain ⟨-, rfl⟩ := hproper
    exact scan.decode_shorter hd buffer hframe
  · exact line.decode_shorter buffer hframe

/-- The loop of a feed ends, whatever is buffered and whatever comes in, for every decoder that
takes a byte with each frame and never adds any.  Both decoders do, whatever calls have made of
them, and their feeds are what the loop comes to. -/
theorem feeds_end :
    (∀ (σ : Type) [Decoder σ] (a : Intake σ), Consumes a.decoder →
      ∀ chunk, ∃ t, EndsIn a chunk t) ∧
    (∀ policy delimiters s t, Splitter.ofDelimiters policy delimiters = .ok s → Becomes s t →
      Consumes t ∧ FeedsEnd t) ∧
    ∀ l : Line, Consumes l ∧ FeedsEnd l := by
  refine ⟨fun σ _ a h chunk => h.exists_endsIn chunk, ?_, ?_⟩
  · intro policy delimiters s t hs ht
    have hconsumes : Consumes t := (Splitter.consumes hs).becomes ht
    exact ⟨hconsumes, hconsumes.feedsEnd fun _ => rfl⟩
  · intro l
    exact ⟨l.consumes, l.consumes.feedsEnd fun _ => rfl⟩

/-- Two bytes are buffered.  The chunk brings the rest of a frame, one that is too long, an empty
one and half a delimiter: four calls are made, the last of which takes nothing. -/
theorem feeds_end_busy :
    let policy : Policy := { maxLength := 2 }
    let chunk : Bytes := [7, 8, 1, 2, 3, 7, 8, 7, 8, 7]
    ∃ s t, Splitter.ofDelimiters policy [[7, 8]] = .ok s ∧
      EndsIn ⟨s, 5, [1, 2]⟩ chunk t ∧ t.frames = 2 ∧ t.calls.length ≤ 13 ∧
      t.events = [.frame [1, 2], .failed (.tooLong 2 3), .frame []] ∧ t.buffer = [7] := by
  intro policy chunk
  obtain ⟨hloop, hscans, -⟩ := feeds_end
  have hs : Splitter.ofDelimiters policy [[7, 8]] =
      .ok ⟨[[7, 8]], .inl { delimiters := [[7, 8]], policy }⟩ := rfl
  obtain ⟨hconsumes, -⟩ := hscans policy [[7, 8]] _ _ hs (.refl _)
  obtain ⟨t, ht⟩ := hloop Splitter ⟨_, 5, [1, 2]⟩ hconsumes chunk
  have hfed := ht.feed_eq rfl
  have hframes := congrArg Fed.frames hfed
  have hevents := congrArg Fed.events hfed
  have hbuffer := congrArg (·.intake.buffer) hfed
  refine ⟨_, t, hs, ht, hframes.symm.trans ?_, ht.few, hevents.symm.trans ?_,
    hbuffer.symm.trans ?_⟩ <;> decide +kernel

end FrameLoop
