import FrameLoop.Proofs.Frame.Flags

/-
  Bodies that are joined by a delimiter and split again.

  It is not enough that the delimiter does not stand in a body: one that overlaps itself can begin
  in the body and end in the delimiter behind it, and the frame is cut short there.  What matters is
  the body with all but the last byte of the delimiter.  If the delimiter stands nowhere in this, it
  is found behind the body, whatever follows (`hit_body_iff`); otherwise it is found before.  So the
  bodies come back exactly when this is true of each of them (`joined_bodies_come_back`).
-/

namespace FrameLoop

open Bytes

/-- The stream of these bodies, each with the delimiter behind it. -/
def joined (d : Bytes) (bodies : List Bytes) : Bytes := (bodies.map (· ++ d)).flatten

variable {d : Bytes} {bodies : List Bytes}

theorem joined_cons (d body : Bytes) (bodies : List Bytes) :
    joined d (body :: bodies) = body ++ d ++ joined d bodies := rfl

/-- The delimiter behind a body is the first one exactly when none stands in the body and all but
the last byte of the delimiter. -/
theorem hit_body_iff (hd : d ≠ []) (body more : Bytes) :
    Hit [d] (body ++ d ++ more) body.length d ↔ Undelimited [d] (body ++ d.dropLast) := by
  have hpos : 0 < d.length := List.length_pos_iff.2 hd
  have hshort : (body ++ d.dropLast).length + 1 = body.length + d.length := by
    rw [List.length_append, List.length_dropLast]
    omega
  have hsplit : body ++ d ++ more = body ++ d.dropLast ++ (d.getLast hd :: more) := by
    conv_lhs => rw [← List.dropLast_append_getLast hd]
    simp
  constructor
  · intro hit e he i hocc
    obtain rfl := List.mem_singleton.1 he
    have hle := hocc.le_length hd
    exact hit.least e he i (by omega) (hsplit ▸ hocc.append _)
  · intro hu
    refine ⟨?_, ?_⟩
    · intro e he i hi hocc
      obtain rfl := List.mem_singleton.1 he
      rw [hsplit] at hocc
      exact hu e he i (hocc.of_append (by omega))
    · have hocc := occursAt_append_length body d more
      rw [List.find?_cons_of_pos (by simpa using hocc)]

/-- Such bodies are the segments of their stream. -/
theorem cuts_joined (hd : d ≠ []) (hclear : ∀ body ∈ bodies, Undelimited [d] (body ++ d.dropLast)) :
    Cuts [d] (joined d bodies) (bodies.map fun body => ⟨body, d⟩) [] := by
  have hds : ∀ e ∈ [d], e ≠ [] := by simpa using hd
  induction bodies with
  | nil => exact .rest (undelimited_nil hds)
  | cons body bodies ih =>
    obtain ⟨hbody, hbodies⟩ := List.forall_mem_cons.1 hclear
    have hit := (hit_body_iff hd body (joined d bodies)).2 hbody
    have hcuts := hit.cuts hds (by rw [← List.length_append, List.drop_left]; exact ih hbodies)
    rwa [List.append_assoc, List.take_left, ← List.append_assoc] at hcuts

/-- Bodies within the limit that are handed out as they are, are such bodies. -/
theorem undelimited_of_handed {p : Policy} (hstrip : p.strip = true) (hd : d ≠ [])
    (hle : ∀ body ∈ bodies, body.length ≤ p.maxLength) {segments : List Segment} {rest : Bytes}
    (hcuts : Cuts [d] (joined d bodies) segments rest)
    (hhanded : handed (segments.map p.tell) = bodies) :
    ∀ body ∈ bodies, Undelimited [d] (body ++ d.dropLast) := by
  induction bodies generalizing segments with
  | nil => simp
  | cons body bodies ih =>
    obtain ⟨hbody, hbodies⟩ := List.forall_mem_cons.1 hle
    have hhere : OccursAt d (joined d (body :: bodies)) body.length :=
      occursAt_append_length body d (joined d bodies)
    rcases hcuts.begins with ⟨hu, -, -⟩ | ⟨length, e, more, hit, rfl, hmore⟩
    · exact absurd hhere (hu d List.mem_cons_self body.length)
    · obtain rfl := List.mem_singleton.1 hit.mem
      -- the first delimiter is not behind the one at the end of the body, so a frame comes first
      have hfirst : length ≤ body.length := by
        by_contra hlt
        exact hit.least e List.mem_cons_self body.length (by omega) hhere
      have htake : ((joined e (body :: bodies)).take length).length = length :=
        List.length_take_of_le (by have := hit.le_length (by simpa using hd); omega)
      have hframe : p.frame ⟨(joined e (body :: bodies)).take length, e⟩ =
          (joined e (body :: bodies)).take length := by
        rw [Policy.frame, hstrip, if_pos rfl]
      rw [List.map_cons, Policy.tell_of_le (by rw [htake]; omega), hframe, handed_frame,
        List.cons.injEq] at hhanded
      obtain ⟨hsame, hrest⟩ := hhanded
      -- and it is the body, so the delimiter is the one at its end
      obtain rfl : length = body.length := by rw [← htake, hsame]
      rw [joined_cons, ← List.length_append, List.drop_left] at hmore
      rw [joined_cons, hit_body_iff hd] at hit
      exact List.forall_mem_cons.2 ⟨hit, ih hbodies hmore hrest⟩

theorem feed_joined {p : Policy} {s : Splitter} (hs : Splitter.ofDelimiter p d = .ok s)
    (connection : Nat) {segments : List Segment} {rest : Bytes}
    (hcuts : Cuts [d] (joined d bodies) segments rest) :
    let fed := ({ decoder := s, connection } : Intake Splitter).feed (joined d bodies)
    fed.events = segments.map p.tell ++ p.tellRest rest ∧ fed.intake.buffer = p.keep rest := by
  obtain ⟨-, -, hd, -⟩ := (Splitter.ofDelimiters_eq_ok_iff p [d] s).1 hs
  obtain ⟨overrun, -, hworks⟩ := Splitter.splitsAt hs
  let f : Framer := { policy := p, cut := Delimiters.cut [d], overrun }
  let a : Intake Splitter := { decoder := s, connection }
  let b : Intake Framer := { decoder := f, connection }
  obtain ⟨hevents, hbuffer, -⟩ :=
    (Works.mirrors Splitter.mode).feed (a := a) (b := b) (joined d bodies) hworks rfl
  have hcuts : Cuts [d] (b.buffer ++ joined d bodies) segments rest := hcuts
  obtain ⟨htold, hintake⟩ := feed_normal (a := b) hd rfl rfl hcuts
  exact ⟨hevents.trans htold, by rw [hbuffer, hintake]⟩

theorem tell_bodies {p : Policy} (hstrip : p.strip = true)
    (hle : ∀ body ∈ bodies, body.length ≤ p.maxLength) (d : Bytes) :
    (bodies.map fun body => ⟨body, d⟩).map p.tell = bodies.map .frame := by
  rw [List.map_map]
  refine List.map_congr_left fun body hmem => ?_
  have htell : p.tell ⟨body, d⟩ = .frame (p.frame ⟨body, d⟩) := Policy.tell_of_le (hle body hmem)
  rw [Function.comp_apply, htell, Policy.frame, hstrip, if_pos rfl]

/-- Bodies within the limit, each followed by the delimiter and fed at once, are handed out as they
were, with no report and nothing left, exactly when the delimiter stands in none of them with all
but its last byte behind.  Otherwise other frames are handed out. -/
theorem joined_bodies_come_back {p : Policy} (hpolicy : p.check = .ok ()) (hstrip : p.strip = true)
    (hd : d ≠ []) (hle : ∀ body ∈ bodies, body.length ≤ p.maxLength) (connection : Nat) :
    ∃ s, Splitter.ofDelimiter p d = .ok s ∧
      let fed := ({ decoder := s, connection } : Intake Splitter).feed (joined d bodies)
      ((fed.events = bodies.map .frame ∧ fed.intake.buffer = []) ↔
        ∀ body ∈ bodies, Undelimited [d] (body ++ d.dropLast)) ∧
      ((∃ body ∈ bodies, ¬ Undelimited [d] (body ++ d.dropLast)) → handed fed.events ≠ bodies) := by
  have hds : ∀ e ∈ [d], e ≠ [] := by simpa using hd
  have hs := (Splitter.ofDelimiters_eq_ok_iff p [d] _).2 ⟨hpolicy, by simp, hds, rfl⟩
  obtain ⟨segments, rest, hcuts⟩ := exists_cuts hds (joined d bodies)
  obtain ⟨hevents, hbuffer⟩ := feed_joined hs connection hcuts
  have hclear : handed (segments.map p.tell ++ p.tellRest rest) = bodies →
      ∀ body ∈ bodies, Undelimited [d] (body ++ d.dropLast) := by
    intro hhanded
    rw [handed_append, Policy.handed_tellRest, List.append_nil] at hhanded
    exact undelimited_of_handed hstrip hd hle hcuts hhanded
  refine ⟨_, hs, ?_⟩
  dsimp only
  rw [hevents, hbuffer]
  refine ⟨⟨fun h => hclear (by rw [h.1, handed_map_frame]), fun h => ?_⟩, ?_⟩
  · obtain ⟨rfl, rfl⟩ := hcuts.unique (cuts_joined hd h)
    rw [tell_bodies hstrip hle, Policy.tellRest_nil, Policy.keep_nil, List.append_nil]
    exact ⟨rfl, rfl⟩
  · rintro ⟨body, hmem, hnot⟩ hhanded
    exact hnot (hclear hhanded body hmem)

/-- A delimiter that begins as it ends, and stands in no body.  Bodies that begin or end with a part
of it come back, but not one that ends with its first bytes. -/
theorem joined_bodies_come_back_overlapping :
    let p : Policy := { maxLength := 2 }
    let d : Bytes := [7, 8, 7]
    ∃ s, Splitter.ofDelimiter p d = .ok s ∧
      let a : Intake Splitter := { decoder := s, connection := 0 }
      ((a.feed (joined d [[8, 7], [7]])).events = [.frame [8, 7], .frame [7]] ∧
        (a.feed (joined d [[8, 7], [7]])).intake.buffer = []) ∧
      handed (a.feed (joined d [[8, 7], [7, 8]])).events ≠ [[8, 7], [7, 8]] := by
  intro p d
  have hd : ∀ e ∈ [d], e ≠ [] := by decide
  have hclear : ∀ body ∈ [[8, 7], [7]], Undelimited [d] (body ++ d.dropLast) := by
    intro body hmem
    refine (Scan.shortest_eq_none_iff hd).1 ?_
    revert body
    decide
  have hit : Hit [d] ([7, 8] ++ d.dropLast) 0 d := (Scan.shortest_eq_some_iff hd 0 d).1 (by decide)
  obtain ⟨s, hs, hback, -⟩ := joined_bodies_come_back (p := p) rfl rfl (hd d List.mem_cons_self)
    (show ∀ body ∈ [[8, 7], [7]], body.length ≤ p.maxLength by decide) 0
  obtain ⟨s', hs', -, hother⟩ := joined_bodies_come_back (p := p) rfl rfl (hd d List.mem_cons_self)
    (show ∀ body ∈ [[8, 7], [7, 8]], body.length ≤ p.maxLength by decide) 0
  obtain rfl : s = s' := Except.ok.inj (hs.symm.trans hs')
  exact ⟨s, hs, hback.2 hclear, hother ⟨[7, 8], by simp, hit.not_undelimited⟩⟩

end FrameLoop
