import FrameLoop.Proofs.Frame.Search

/-
  How delimiters cut a whole stream: every stream is cut in one way, and what is cut off stays cut
  off when the stream goes on.

  The second half needs a condition on the delimiters, `Delimiters.Prompt`: none of them stands
  inside another one and ends before the last byte of it.  Then a delimiter that stands in full is
  the hit whatever comes behind it (`Hit.append`), and a stream may be cut piece by piece
  (`Cuts.append`).  Single bytes are prompt, and CR LF with LF is.
-/

namespace FrameLoop

open Bytes

variable {delimiters : List Bytes} {stream rest : Bytes} {segments : List Segment}

/-! ## One way to cut -/

/-- A stream with a hit is cut there, and what is behind is cut on. -/
theorem Hit.cuts {length : Nat} {d : Bytes} (h : Hit delimiters stream length d)
    (hd : ∀ e ∈ delimiters, e ≠ [])
    (hc : Cuts delimiters (stream.drop (length + d.length)) segments rest) :
    Cuts delimiters stream (⟨stream.take length, d⟩ :: segments) rest := by
  have hlen : (stream.take length).length = length :=
    List.length_take_of_le (by have := h.le_length hd; omega)
  obtain ⟨-, before, after, heq, hbefore⟩ := List.find?_eq_some_iff_append.1 h.listed
  have hsplit := h.split
  have hcut : Cuts delimiters
      (stream.take length ++ d ++ stream.drop (length + d.length))
      (⟨stream.take length, d⟩ :: segments) rest := .segment heq
    (by rw [hsplit, hlen]; exact h.least)
    (by rw [hsplit, hlen]; exact fun e he => by simpa using hbefore e he) hc
  rwa [hsplit] at hcut

theorem hit_of_segment {before after : List Bytes} {body d : Bytes}
    (hdel : delimiters = before ++ d :: after)
    (hleast : ∀ e ∈ delimiters, ∀ i < body.length, ¬ OccursAt e (body ++ d ++ stream) i)
    (hbefore : ∀ e ∈ before, ¬ OccursAt e (body ++ d ++ stream) body.length) :
    Hit delimiters (body ++ d ++ stream) body.length d := by
  refine ⟨hleast, ?_⟩
  rw [List.find?_eq_some_iff_append]
  refine ⟨?_, before, after, hdel, ?_⟩
  · simpa using occursAt_append_length body d stream
  · intro e he
    simpa using hbefore e he

/-- What a cut begins with: nothing to cut at, or the hit and the cut behind it. -/
theorem Cuts.begins (h : Cuts delimiters stream segments rest) :
    (Undelimited delimiters stream ∧ segments = [] ∧ rest = stream) ∨
    (∃ length d more, Hit delimiters stream length d ∧
      segments = ⟨stream.take length, d⟩ :: more ∧
      Cuts delimiters (stream.drop (length + d.length)) more rest) := by
  cases h with
  | rest hu => exact .inl ⟨hu, rfl, rfl⟩
  | @segment body stream _ _ _ more d hdel hleast hbefore hmore =>
    refine .inr ⟨body.length, d, more, hit_of_segment hdel hleast hbefore, ?_, ?_⟩
    · simp
    · rwa [← List.length_append, List.drop_left]

/-- Every stream is cut. -/
theorem exists_cuts (hd : ∀ d ∈ delimiters, d ≠ []) (stream : Bytes) :
    ∃ segments rest, Cuts delimiters stream segments rest := by
  -- on the length: behind a delimiter there is less than before it
  induction hn : stream.length using Nat.strongRecOn generalizing stream with
  | ind n ih =>
    cases hs : Scan.shortest delimiters stream with
    | none => exact ⟨[], stream, .rest ((Scan.shortest_eq_none_iff hd).1 hs)⟩
    | some hit =>
      have h := (Scan.shortest_eq_some_iff hd hit.1 hit.2).1 hs
      have hpos : 0 < hit.2.length := List.length_pos_iff.2 (hd _ h.mem)
      have hle := h.le_length hd
      obtain ⟨segments, rest, hc⟩ :=
        ih _ (by rw [List.length_drop]; omega) (stream.drop (hit.1 + hit.2.length)) rfl
      exact ⟨_, rest, h.cuts hd hc⟩

theorem Cuts.eq_of_undelimited (h : Cuts delimiters stream segments rest)
    (hu : Undelimited delimiters stream) : segments = [] ∧ rest = stream := by
  rcases h.begins with ⟨-, hs, hr⟩ | ⟨_, _, _, hit, -, -⟩
  · exact ⟨hs, hr⟩
  · exact absurd hu hit.not_undelimited

theorem Cuts.eq_of_hit (h : Cuts delimiters stream segments rest) {length : Nat} {d : Bytes}
    (hit : Hit delimiters stream length d) :
    ∃ more, segments = ⟨stream.take length, d⟩ :: more ∧
      Cuts delimiters (stream.drop (length + d.length)) more rest := by
  rcases h.begins with ⟨hu, -, -⟩ | ⟨length', d', more, hit', hs, hmore⟩
  · exact absurd hu hit.not_undelimited
  · obtain ⟨rfl, rfl⟩ := hit.unique hit'
    exact ⟨more, hs, hmore⟩

/-- A stream is cut in one way. -/
theorem Cuts.unique (h : Cuts delimiters stream segments rest) {segments' : List Segment}
    {rest' : Bytes} (h' : Cuts delimiters stream segments' rest') :
    segments = segments' ∧ rest = rest' := by
  induction h generalizing segments' rest' with
  | rest hu =>
    obtain ⟨rfl, rfl⟩ := h'.eq_of_undelimited hu
    exact ⟨rfl, rfl⟩
  | segment hdel hleast hbefore _ ih =>
    obtain ⟨more, rfl, hmore⟩ := h'.eq_of_hit (hit_of_segment hdel hleast hbefore)
    rw [← List.length_append, List.drop_left] at hmore
    obtain ⟨rfl, rfl⟩ := ih hmore
    simp

theorem Cuts.undelimited_rest (h : Cuts delimiters stream segments rest) :
    Undelimited delimiters rest := by
  induction h with
  | rest hu => exact hu
  | segment _ _ _ _ ih => exact ih

theorem Cuts.delimiter_mem (h : Cuts delimiters stream segments rest) :
    ∀ segment ∈ segments, segment.delimiter ∈ delimiters := by
  induction h with
  | rest _ => exact nofun
  | segment hdel _ _ _ ih =>
    rw [List.forall_mem_cons]
    exact ⟨by simp [hdel], ih⟩

/-- The segments and the rest make up the stream. -/
theorem Cuts.flatten_append_rest (h : Cuts delimiters stream segments rest) :
    (segments.map Segment.bytes).flatten ++ rest = stream := by
  induction h with
  | rest _ => rfl
  | segment _ _ _ _ ih =>
    rw [List.map_cons, List.flatten_cons, List.append_assoc, ih, Segment.bytes]

/-! ## Cutting piece by piece -/

/-- No delimiter stands inside a different one and ends before the last byte of it. -/
def Delimiters.Prompt (delimiters : List Bytes) : Prop :=
  ∀ d ∈ delimiters, ∀ e ∈ delimiters, d ≠ e → ∀ i, i + d.length < e.length → ¬ OccursAt d e i

/-- With prompt delimiters, one that needs the bytes behind a full one does not begin at it or
before it. -/
theorem Hit.not_occursAt_append {length i : Nat} {d e : Bytes}
    (h : Hit delimiters stream length d) (hd : ∀ e ∈ delimiters, e ≠ [])
    (hp : Delimiters.Prompt delimiters) (he : e ∈ delimiters) (hi : i ≤ length)
    (hno : ¬ OccursAt e stream i) (more : Bytes) : ¬ OccursAt e (stream ++ more) i := by
  intro hocc
  have hlong : stream.length < i + e.length := by
    by_contra hle
    exact hno (hocc.of_append (by omega))
  have hle := h.le_length hd
  have hin : OccursAt d e (length - i) :=
    (h.occursAt.append more).occursAt_of_le hocc hi (by omega)
  have hne : d ≠ e := by
    rintro rfl
    omega
  exact hp d h.mem e he hne (length - i) (by omega) hin

/-- With prompt delimiters the hit stays the hit when the stream goes on. -/
theorem Hit.append {length : Nat} {d : Bytes} (h : Hit delimiters stream length d)
    (hd : ∀ e ∈ delimiters, e ≠ []) (hp : Delimiters.Prompt delimiters) (more : Bytes) :
    Hit delimiters (stream ++ more) length d := by
  refine ⟨?_, ?_⟩
  · intro e he i hi
    exact h.not_occursAt_append hd hp he (Nat.le_of_lt hi) (h.least e he i hi) more
  · obtain ⟨-, before, after, heq, hbefore⟩ := List.find?_eq_some_iff_append.1 h.listed
    rw [List.find?_eq_some_iff_append]
    refine ⟨by simpa using h.occursAt.append more, before, after, heq, ?_⟩
    intro e he
    have hmem : e ∈ delimiters := heq ▸ List.mem_append_left _ he
    have hno : ¬ OccursAt e stream length := by simpa using hbefore e he
    simpa using h.not_occursAt_append hd hp hmem (Nat.le_refl _) hno more

/-- A stream that goes on is cut as before, and then its rest with what is new. -/
theorem Cuts.append (h : Cuts delimiters stream segments rest) (hd : ∀ e ∈ delimiters, e ≠ [])
    (hp : Delimiters.Prompt delimiters) {more rest' : Bytes} {segments' : List Segment}
    (h' : Cuts delimiters (rest ++ more) segments' rest') :
    Cuts delimiters (stream ++ more) (segments ++ segments') rest' := by
  induction h with
  | rest _ => exact h'
  | @segment body stream _ _ _ segments d hdel hleast hbefore _ ih =>
    have hit := (hit_of_segment hdel hleast hbefore).append hd hp more
    have hdrop : (body ++ d ++ stream ++ more).drop (body.length + d.length) = stream ++ more := by
      rw [List.append_assoc, ← List.length_append, List.drop_left]
    have htake : (body ++ d ++ stream ++ more).take body.length = body := by
      simp
    have hcut := hit.cuts hd (hdrop ▸ ih h')
    rwa [htake] at hcut

theorem Delimiters.prompt_line : Delimiters.Prompt Delimiters.line := by
  intro d hd e he hne i hi hocc
  rcases mem_line.1 hd with rfl | rfl <;> rcases mem_line.1 he with rfl | rfl
  · exact hne rfl
  · simp at hi
  · simp only [List.length_cons, List.length_nil] at hi
    obtain rfl : i = 0 := by omega
    exact absurd hocc (by decide)
  · exact hne rfl

/-! ## Single bytes -/

theorem Delimiters.prompt_of_single (h1 : ∀ d ∈ delimiters, d.length = 1) :
    Delimiters.Prompt delimiters := by
  intro d hd e he _ i hi _
  have hdlen := h1 d hd
  have helen := h1 e he
  omega

theorem occursAt_append_single {d a b : Bytes} {i : Nat} (h1 : d.length = 1)
    (h : OccursAt d (a ++ b) i) : OccursAt d a i ∨ ∃ j, i = a.length + j ∧ OccursAt d b j := by
  by_cases hlt : i < a.length
  · exact .inl (h.of_append (by omega))
  · obtain ⟨j, rfl⟩ := Nat.exists_eq_add_of_le (Nat.le_of_not_lt hlt)
    exact .inr ⟨j, rfl, (occursAt_append_add a b d j).1 h⟩

/-- Two parts without a delimiter do not make one where they meet. -/
theorem undelimited_append (h1 : ∀ d ∈ delimiters, d.length = 1)
    (hu : Undelimited delimiters rest) (hu' : Undelimited delimiters stream) :
    Undelimited delimiters (rest ++ stream) := by
  intro d hd i hocc
  rcases occursAt_append_single (h1 d hd) hocc with h | ⟨j, -, h⟩
  · exact hu d hd i h
  · exact hu' d hd j h

/-- The hit of a stream is the hit also behind bytes without a delimiter. -/
theorem Hit.behind (h1 : ∀ d ∈ delimiters, d.length = 1) {length : Nat} {d : Bytes}
    (h : Hit delimiters stream length d) (hu : Undelimited delimiters rest) :
    Hit delimiters (rest ++ stream) (rest.length + length) d := by
  refine ⟨?_, ?_⟩
  · intro e he i hi hocc
    rcases occursAt_append_single (h1 e he) hocc with hin | ⟨j, rfl, hin⟩
    · exact hu e he i hin
    · exact h.least e he j (by omega) hin
  · simpa only [occursAt_append_add] using h.listed

end FrameLoop
