import FrameLoop.Frame.Buffered
import FrameLoop.Proofs.Frame.Feeds
import Mathlib.Data.List.Permutation

/-
  Which delimiter ends a frame, and what the order of the list has to do with it.

  One call of a scan in normal mode is decided by the hit (`Scan.decode_hit`), or by the length of
  the buffer where there is none (`Scan.decode_undelimited`).  A decoder that scans goes on scanning
  for the same delimiters, whatever is done with its buffer (`Splitter.Scans`), so that this holds
  of every call in normal mode (`shortest_frame_first`).

  The hit depends on the order of the list in one place, which is where two delimiters stand
  together.  Then one of them begins the other.  Without such a pair decoders for the same list in
  different orders cannot be told apart, and with one they can (`reordered_alike`).
-/

namespace FrameLoop

open Bytes

/-! ## One call -/

namespace Scan

variable {s : Scan} {buffer : Bytes} {length : Nat} {d : Bytes}

/-- Either a delimiter stands in the buffer, or none does. -/
theorem undelimited_iff {delimiters : List Bytes} (hd : ∀ d ∈ delimiters, d ≠ [])
    (buffer : Bytes) :
    Undelimited delimiters buffer ↔ ¬ ∃ length d, Hit delimiters buffer length d := by
  constructor
  · rintro hu ⟨length, d, hit⟩
    exact hit.not_undelimited hu
  · intro hnone
    have hspec := shortest_spec hd buffer
    cases hs : shortest delimiters buffer with
    | none => rwa [hs] at hspec
    | some hit =>
      rw [hs] at hspec
      exact absurd ⟨hit.1, hit.2, hspec⟩ hnone

theorem decode_hit (hd : ∀ d ∈ s.delimiters, d ≠ []) (hmode : s.mode = .normal)
    (hit : Hit s.delimiters buffer length d) :
    s.decode buffer =
      { outcome :=
          if length ≤ s.policy.maxLength then .frame (s.policy.frame ⟨buffer.take length, d⟩)
          else .failed (s.policy.tooLong length)
        decoder := s
        rest := buffer.drop (length + d.length) } := by
  have hframe : buffer.take (if s.policy.strip then length else length + d.length) =
      s.policy.frame ⟨buffer.take length, d⟩ := by
    cases hstrip : s.policy.strip <;> simp [Policy.frame, Segment.bytes, hstrip, hit.take_add]
  simp only [decode, (shortest_eq_some_iff hd length d).2 hit, hmode, hframe, ← Nat.not_le,
    ite_not]

/-- Without a hit the buffer is left as it is, or dropped as a whole. -/
theorem decode_undelimited (hd : ∀ d ∈ s.delimiters, d ≠ []) (hmode : s.mode = .normal)
    (hu : Undelimited s.delimiters buffer) :
    s.decode buffer =
      if buffer.length ≤ s.policy.maxLength then ⟨.nothing, s, buffer⟩
      else
        { outcome :=
            if s.policy.failFast then .failed (s.policy.tooLong buffer.length) else .nothing
          decoder := { s with mode := .discarding buffer.length }
          rest := [] } := by
  simp only [decode, (shortest_eq_none_iff hd).2 hu, hmode, ← Nat.not_le, ite_not]

/-- A call changes the mode only. -/
theorem decode_decoder (s : Scan) (buffer : Bytes) :
    (s.decode buffer).decoder = { s with mode := (s.decode buffer).decoder.mode } := by
  unfold decode
  split
  · rfl
  · rfl
  · rfl
  · split <;> rfl

end Scan

namespace Splitter

/-- The decoder scans for these delimiters. -/
def Scans (policy : Policy) (delimiters : List Bytes) (s : Splitter) : Prop :=
  ∃ mode, s.engine = .inl { delimiters, policy, mode }

namespace Scans

variable {policy : Policy} {delimiters : List Bytes}

/-- A decoder that is not left to the line decoder scans. -/
theorem of_ofDelimiters {s : Splitter} (h : ofDelimiters policy delimiters = .ok s)
    (hscan : s.isLine = false) : Scans policy delimiters s := by
  obtain ⟨-, -, -, rfl⟩ := (ofDelimiters_eq_ok_iff policy delimiters s).1 h
  refine ⟨.normal, ?_⟩
  cases hline : Delimiters.isLine delimiters with
  | true => simp [isLine, hline] at hscan
  | false => simp

theorem decode_eq {s : Splitter} {mode : Mode} (h : s.engine = .inl { delimiters, policy, mode })
    (buffer : Bytes) :
    let turn := ({ delimiters, policy, mode } : Scan).decode buffer
    s.decode buffer = ⟨turn.outcome, { s with engine := .inl turn.decoder }, turn.rest⟩ := by
  unfold decode
  rw [h]

theorem act {b : Buffered Splitter} (h : Scans policy delimiters b.decoder) (a : BufferAct) :
    Scans policy delimiters (b.act a).2.decoder := by
  obtain ⟨mode, hmode⟩ := h
  cases a with
  | append bytes => exact ⟨mode, hmode⟩
  | replace bytes => exact ⟨mode, hmode⟩
  | dropFront count => exact ⟨mode, hmode⟩
  | decode =>
    have hcall := congrArg (·.decoder.engine) (decode_eq hmode b.buffer)
    rw [Scan.decode_decoder] at hcall
    exact ⟨_, hcall⟩

theorem run {b : Buffered Splitter} (h : Scans policy delimiters b.decoder)
    (acts : List BufferAct) : Scans policy delimiters (b.run acts).2.decoder := by
  induction acts generalizing b with
  | nil => exact h
  | cons a acts ih => exact ih (h.act a)

end Scans

end Splitter

/-- A call in normal mode of a decoder that scans.  The frame ends at the least place where a
delimiter stands in full, with the delimiter listed first of those that stand there.  It is handed
out if it is within the limit and reported if not, and it is taken from the buffer with its
delimiter, no more and no less.  Where no delimiter stands, the buffer is left as it is up to the
limit; over the limit it is dropped, and with it what follows up to the next delimiter. -/
theorem shortest_frame_first {policy : Policy} {delimiters : List Bytes} {s : Splitter}
    (h : Splitter.ofDelimiters policy delimiters = .ok s) (hscan : s.isLine = false)
    (acts : List BufferAct) :
    let decoder := (Buffered.run ⟨s, []⟩ acts).2.decoder
    decoder.mode = .normal → ∀ buffer,
      let turn := decoder.decode buffer
      (∀ length d, Hit delimiters buffer length d →
        length + d.length ≤ buffer.length ∧
          turn =
            { outcome :=
                if length ≤ policy.maxLength then
                  .frame (buffer.take length ++ if policy.strip then [] else d)
                else .failed (.tooLong policy.maxLength length)
              decoder
              rest := buffer.drop (length + d.length) }) ∧
      (Undelimited delimiters buffer → buffer.length ≤ policy.maxLength →
        turn = ⟨.nothing, decoder, buffer⟩) ∧
      (Undelimited delimiters buffer → policy.maxLength < buffer.length →
        turn.rest = [] ∧ turn.decoder.mode = .discarding buffer.length ∧
          turn.outcome =
            if policy.failFast then .failed (.tooLong policy.maxLength buffer.length)
            else .nothing) ∧
      (Undelimited delimiters buffer ↔ ¬ ∃ length d, Hit delimiters buffer length d) := by
  intro decoder hmode buffer turn
  obtain ⟨-, -, hd, -⟩ := (Splitter.ofDelimiters_eq_ok_iff policy delimiters s).1 h
  obtain ⟨mode, hengine⟩ : decoder.Scans policy delimiters :=
    (Splitter.Scans.of_ofDelimiters h hscan).run acts
  obtain rfl : mode = .normal := by rwa [Splitter.mode, hengine] at hmode
  have hturn : turn = _ := Splitter.Scans.decode_eq hengine buffer
  have hsame : ({ decoder with engine := .inl { delimiters, policy } } : Splitter) = decoder := by
    rw [← hengine]
  refine ⟨fun length d hit => ?_, fun hu hle => ?_, fun hu hlt => ?_,
    Scan.undelimited_iff hd buffer⟩
  · refine ⟨hit.le_length hd, ?_⟩
    rw [hturn, Scan.decode_hit (s := { delimiters, policy }) hd rfl hit, hsame]
    cases hstrip : policy.strip <;> simp [Policy.frame, Segment.bytes, Policy.tooLong, hstrip]
  · rw [hturn, Scan.decode_undelimited (s := { delimiters, policy }) hd rfl hu, if_pos hle]
    exact congrArg (Turn.mk .nothing · buffer) hsame
  · rw [hturn, Scan.decode_undelimited (s := { delimiters, policy }) hd rfl hu,
      if_neg (Nat.not_le.2 hlt)]
    exact ⟨rfl, rfl, rfl⟩

/-- Two delimiters that stand together, the longer one listed first, after an episode of dropping; a
buffer that ends with the first byte of a delimiter; and one that is too long. -/
theorem shortest_frame_first_tie :
    let delimiters : List Bytes := [[7, 8], [7, 9, 9], [7]]
    let policy : Policy := { maxLength := 2, strip := false }
    let s : Splitter := { delimiters, engine := .inl { delimiters, policy } }
    let acts : List BufferAct := [.append [1, 2, 3], .decode, .append [4, 7], .decode]
    let decoder := (Buffered.run ⟨s, []⟩ acts).2.decoder
    Splitter.ofDelimiters policy delimiters = .ok s ∧
      (Buffered.run ⟨s, []⟩ acts).1 = [.failed (.tooLong 2 3), .nothing] ∧
      decoder.decode [1, 7, 8, 7] = ⟨.frame [1, 7, 8], decoder, [7]⟩ ∧
      decoder.decode [1, 9] = ⟨.nothing, decoder, [1, 9]⟩ ∧
      (decoder.decode [1, 9, 9]).outcome = .failed (.tooLong 2 3) := by
  intro delimiters policy s acts decoder
  have hs : Splitter.ofDelimiters policy delimiters = .ok s := rfl
  have hd : ∀ d ∈ delimiters, d ≠ [] := by decide
  have hmode : decoder.mode = .normal := by decide
  have hit : Hit delimiters [1, 7, 8, 7] 1 [7, 8] :=
    (Scan.shortest_eq_some_iff hd 1 [7, 8]).1 (by decide)
  have hshort : Undelimited delimiters [1, 9] := (Scan.shortest_eq_none_iff hd).1 (by decide)
  have hlong : Undelimited delimiters [1, 9, 9] := (Scan.shortest_eq_none_iff hd).1 (by decide)
  have h := shortest_frame_first hs rfl acts hmode
  exact ⟨hs, by decide, ((h [1, 7, 8, 7]).1 1 [7, 8] hit).2, (h [1, 9]).2.1 hshort (by decide),
    ((h [1, 9, 9]).2.2.1 hlong (by decide)).2.2⟩

/-! ## The order of the list -/

namespace Delimiters

/-- Whether one delimiter begins another does not depend on the order. -/
theorem PrefixFree.perm {delimiters delimiters' : List Bytes} (hp : PrefixFree delimiters)
    (h : delimiters.Perm delimiters') : PrefixFree delimiters' :=
  fun d hd e he => hp d (h.mem_iff.2 hd) e (h.mem_iff.2 he)

/-- The lists that are left to the line decoder are those of CR LF and LF. -/
theorem isLine_iff_perm (delimiters : List Bytes) : isLine delimiters ↔ delimiters.Perm line := by
  rw [isLine, Bool.or_eq_true, decide_eq_true_eq, decide_eq_true_eq]
  exact List.perm_pair.symm

theorem isLine_congr {delimiters delimiters' : List Bytes} (h : delimiters.Perm delimiters') :
    isLine delimiters = isLine delimiters' := by
  rw [Bool.eq_iff_iff, isLine_iff_perm, isLine_iff_perm]
  exact ⟨h.symm.trans, h.trans⟩

theorem check_congr {delimiters delimiters' : List Bytes} (h : delimiters.Perm delimiters') :
    check delimiters = check delimiters' := by
  have hany : delimiters.any List.isEmpty = delimiters'.any List.isEmpty := by
    rw [Bool.eq_iff_iff, List.any_eq_true, List.any_eq_true]
    exact exists_congr fun d => and_congr_left fun _ => h.mem_iff
  have hempty : delimiters.isEmpty = delimiters'.isEmpty := by
    rw [Bool.eq_iff_iff, List.isEmpty_iff, List.isEmpty_iff]
    exact ⟨fun hnil => (hnil ▸ h).symm.eq_nil, fun hnil => (hnil ▸ h).eq_nil⟩
  rw [check, check, hany, hempty]

end Delimiters

namespace Splitter

/-- Two decoders that do the same work: with lines, or with scans that cut alike. -/
def Twins (s t : Splitter) : Prop :=
  s.engine = t.engine ∨
    ∃ a b, s.engine = .inl a ∧ t.engine = .inl b ∧ a.framer = b.framer

/-- Whatever is done with both, they answer alike and come to the same. -/
def Alike (s t : Splitter) : Prop :=
  ∀ acts,
    let a := Buffered.run ⟨s, []⟩ acts
    let b := Buffered.run ⟨t, []⟩ acts
    a.1 = b.1 ∧ a.2.buffer = b.2.buffer ∧ a.2.decoder.mode = b.2.decoder.mode

namespace Twins

variable {s t : Splitter}

theorem mode_eq (h : Twins s t) : s.mode = t.mode := by
  rcases h with h | ⟨a, b, ha, hb, hab⟩
  · rw [mode, mode, h]
  · rw [mode, mode, ha, hb]
    exact congrArg Framer.mode hab

theorem decode (h : Twins s t) (buffer : Bytes) :
    (s.decode buffer).outcome = (t.decode buffer).outcome ∧
      (s.decode buffer).rest = (t.decode buffer).rest ∧
      Twins (s.decode buffer).decoder (t.decode buffer).decoder := by
  unfold Splitter.decode
  rcases h with h | ⟨a, b, ha, hb, hab⟩
  · rw [h]
    cases t.engine with
    | inl scan => exact ⟨rfl, rfl, .inl rfl⟩
    | inr line => exact ⟨rfl, rfl, .inl rfl⟩
  · obtain ⟨haout, harest, hadec⟩ := a.decode_framer buffer
    obtain ⟨hbout, hbrest, hbdec⟩ := b.decode_framer buffer
    rw [ha, hb]
    rw [hab] at haout harest hadec
    exact ⟨haout.trans hbout.symm, harest.trans hbrest.symm,
      .inr ⟨_, _, rfl, rfl, hadec.trans hbdec.symm⟩⟩

theorem act {a b : Buffered Splitter} (h : Twins a.decoder b.decoder)
    (hbuffer : a.buffer = b.buffer) (x : BufferAct) :
    (a.act x).1 = (b.act x).1 ∧ (a.act x).2.buffer = (b.act x).2.buffer ∧
      Twins (a.act x).2.decoder (b.act x).2.decoder := by
  obtain ⟨s, buffer⟩ := a
  obtain ⟨t, buffer'⟩ := b
  obtain rfl : buffer = buffer' := hbuffer
  cases x with
  | append bytes => exact ⟨rfl, rfl, h⟩
  | replace bytes => exact ⟨rfl, rfl, h⟩
  | dropFront count => exact ⟨rfl, rfl, h⟩
  | decode =>
    obtain ⟨hout, hrest, hnext⟩ := h.decode buffer
    exact ⟨congrArg some hout, hrest, hnext⟩

theorem run {a b : Buffered Splitter} (h : Twins a.decoder b.decoder)
    (hbuffer : a.buffer = b.buffer) (acts : List BufferAct) :
    (a.run acts).1 = (b.run acts).1 ∧ (a.run acts).2.buffer = (b.run acts).2.buffer ∧
      Twins (a.run acts).2.decoder (b.run acts).2.decoder := by
  induction acts generalizing a b with
  | nil => exact ⟨rfl, hbuffer, h⟩
  | cons x acts ih =>
    obtain ⟨hout, hnext, htwins⟩ := h.act hbuffer x
    obtain ⟨houts, hlast⟩ := ih htwins hnext
    refine ⟨?_, hlast⟩
    simp only [Buffered.run]
    rw [hout, houts]

theorem alike (h : Twins s t) : Alike s t := by
  intro acts
  obtain ⟨houts, hbuffer, hlast⟩ := run (a := ⟨s, []⟩) (b := ⟨t, []⟩) h rfl acts
  exact ⟨houts, hbuffer, hlast.mode_eq⟩

end Twins

/-- Both were refused for the same reason, or there are two decoders that cannot be told apart. -/
def SameBuilt : Except FrameError Splitter → Except FrameError Splitter → Prop
  | .ok s, .ok t => Alike s t
  | .error e, .error f => e = f
  | _, _ => False

/-- Where one delimiter stands at most, the order decides nothing. -/
theorem sameBuilt_of_perm {delimiters delimiters' : List Bytes}
    (hp : Delimiters.PrefixFree delimiters) (h : delimiters.Perm delimiters') (policy : Policy) :
    SameBuilt (ofDelimiters policy delimiters) (ofDelimiters policy delimiters') := by
  unfold ofDelimiters
  rw [Delimiters.check_congr h, Delimiters.isLine_congr h]
  cases policy.check with
  | error e => exact rfl
  | ok _ =>
    cases hcheck : Delimiters.check delimiters' with
    | error e => exact rfl
    | ok _ =>
      have hd := ((check_eq_ok_iff delimiters').1 hcheck).2
      refine Twins.alike ?_
      cases Delimiters.isLine delimiters' with
      | true => exact .inl rfl
      | false =>
        have hcut := Delimiters.cut_congr hp (fun _ => h.mem_iff) fun d hmem =>
          hd d (h.mem_iff.1 hmem)
        refine .inr ⟨_, _, rfl, rfl, ?_⟩
        rw [Scan.framer, Scan.framer, hcut]

/-- The delimiter listed first is the one that ends a frame without bytes. -/
theorem rest_of_first {policy : Policy} {d : Bytes} {delimiters : List Bytes}
    (hpolicy : policy.check = .ok ()) (hd : ∀ e ∈ d :: delimiters, e ≠ [])
    (hline : Delimiters.isLine (d :: delimiters) = false) {buffer : Bytes} (h : d <+: buffer) :
    ∃ s, ofDelimiters policy (d :: delimiters) = .ok s ∧
      (Buffered.run ⟨s, []⟩ [.append buffer, .decode]).2.buffer = buffer.drop d.length := by
  refine ⟨_, (ofDelimiters_eq_ok_iff policy _ _).2 ⟨hpolicy, by simp, hd, rfl⟩, ?_⟩
  have hit : Hit (d :: delimiters) buffer 0 d := ⟨fun _ _ i hi => absurd hi (Nat.not_lt_zero i),
    by simp [OccursAt, h]⟩
  have hturn := Scan.decode_hit (s := { delimiters := d :: delimiters, policy }) hd rfl hit
  simp only [hline, Bool.false_eq_true, if_false]
  have hrest := congrArg Turn.rest hturn
  rw [Nat.zero_add] at hrest
  exact hrest

end Splitter

/-- The order of a list of delimiters matters exactly if one of them begins another.  If none does,
two orders of the list are refused for the same reason, or give decoders that cannot be told apart
by their answers, their buffers and their modes.  If one does, there are two orders whose decoders
can. -/
theorem reordered_alike (delimiters : List Bytes) (policy : Policy) :
    (Delimiters.PrefixFree delimiters →
      ∀ first second, first.Perm delimiters → second.Perm delimiters →
        Splitter.SameBuilt (Splitter.ofDelimiters policy first)
          (Splitter.ofDelimiters policy second)) ∧
    (¬ Delimiters.PrefixFree delimiters → policy.check = .ok () → (∀ d ∈ delimiters, d ≠ []) →
      ∃ first second s t, first.Perm delimiters ∧ second.Perm delimiters ∧
        Splitter.ofDelimiters policy first = .ok s ∧
        Splitter.ofDelimiters policy second = .ok t ∧ ¬ s.Alike t) := by
  refine ⟨fun hp first second hfirst hsecond => ?_, fun hnot hpolicy hd => ?_⟩
  · exact Splitter.sameBuilt_of_perm (hp.perm hfirst.symm) (hfirst.trans hsecond.symm) policy
  · obtain ⟨d, hdmem, e, hemem, hde, hne⟩ :
        ∃ d ∈ delimiters, ∃ e ∈ delimiters, d <+: e ∧ d ≠ e := by
      simpa [Delimiters.PrefixFree] using hnot
    -- the delimiters of lines do not begin each other, so no order is left to the line decoder
    have hscan {l : List Bytes} (h : l.Perm delimiters) : Delimiters.isLine l = false := by
      refine Bool.eq_false_iff.2 fun hline => hnot ?_
      have hperm := (Delimiters.isLine_iff_perm l).1 hline
      exact (Delimiters.prefixFree_line.perm hperm.symm).perm h
    have hfirst := (List.perm_cons_erase hdmem).symm
    have hsecond := (List.perm_cons_erase hemem).symm
    obtain ⟨s, hs, hsrest⟩ := Splitter.rest_of_first hpolicy
      (fun x hx => hd x (hfirst.mem_iff.1 hx)) (hscan hfirst) hde
    obtain ⟨t, ht, htrest⟩ := Splitter.rest_of_first hpolicy
      (fun x hx => hd x (hsecond.mem_iff.1 hx)) (hscan hsecond) (List.prefix_refl e)
    refine ⟨_, _, s, t, hfirst, hsecond, hs, ht, fun halike => ?_⟩
    -- the shorter one leaves the end of the longer one in the buffer
    obtain ⟨-, hsame, -⟩ := halike [.append e, .decode]
    rw [hsrest, htrest, List.drop_length, List.drop_eq_nil_iff] at hsame
    exact hne (hde.eq_of_length_le hsame)

/-- Two delimiters that do not begin each other, though one ends the other: the decoder scans for
them, and in either order it is the same.  So are the two orders of the delimiters of lines, whose
decoder leaves its work to another one.  With a delimiter that begins another, some order gives
another decoder. -/
theorem reordered_alike_engines :
    let policy : Policy := { maxLength := 3 }
    Delimiters.isLine [[7, 8], [8]] = false ∧
      (∃ s t, Splitter.ofDelimiters policy [[7, 8], [8]] = .ok s ∧
        Splitter.ofDelimiters policy [[8], [7, 8]] = .ok t ∧ s.Alike t) ∧
      Splitter.SameBuilt (Splitter.ofDelimiters policy [[cr, lf], [lf]])
        (Splitter.ofDelimiters policy [[lf], [cr, lf]]) ∧
      ∃ first second s t, first.Perm [[7, 8], [7]] ∧ second.Perm [[7, 8], [7]] ∧
        Splitter.ofDelimiters policy first = .ok s ∧
        Splitter.ofDelimiters policy second = .ok t ∧ ¬ s.Alike t := by
  intro policy
  have hfree : Delimiters.PrefixFree [[7, 8], [8]] := by
    unfold Delimiters.PrefixFree
    decide
  have hnot : ¬ Delimiters.PrefixFree [[7, 8], [7]] := by
    unfold Delimiters.PrefixFree
    decide
  exact ⟨rfl,
    ⟨_, _, rfl, rfl, (reordered_alike [[7, 8], [8]] policy).1 hfree _ _ (.refl _) (.swap _ _ _)⟩,
    (reordered_alike Delimiters.line policy).1 Delimiters.prefixFree_line _ _ (.refl _)
      (.swap _ _ _),
    (reordered_alike [[7, 8], [7]] policy).2 hnot rfl (by decide)⟩

end FrameLoop
