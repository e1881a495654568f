import FrameLoop.Frame.Buffered
import FrameLoop.Frame.Checked
import FrameLoop.Proofs.Frame.Framer
import FrameLoop.Proofs.Frame.Matching

/-
  Decode calls stay in bounds.

  The place where a frame ends lies in the buffer, whatever the line decoder remembers of it, and
  so no operation of a call fails as long as the counts fit into words (`Line.decode?_eq`,
  `Scan.decode?_eq`).  They do: what has been dropped and what is buffered came in before, and no
  act on the buffer adds more than comes in with it (`InBounds.run`).  So this holds of every call,
  whatever is done with the buffer between two of them (`calls_in_bounds`).
-/

namespace FrameLoop

open Bytes Checked

/-! ## Operations that do not fail -/

namespace Checked

variable {buffer : Bytes} {count length width m n : Nat}

theorem add?_of_lt (h : m + n < wordLimit) : add? m n = some (m + n) :=
  if_pos h

theorem sub?_of_le (h : n ≤ m) : sub? m n = some (m - n) :=
  if_pos h

theorem from?_of_le (h : n ≤ buffer.length) : from? buffer n = some (buffer.drop n) :=
  if_pos h

theorem splitTo?_of_le (h : count ≤ buffer.length) :
    splitTo? buffer count = some (buffer.take count, buffer.drop count) :=
  if_pos h

theorem advance?_of_le (h : count ≤ buffer.length) :
    advance? buffer count = some (buffer.drop count) :=
  if_pos h

theorem find?_of_ne_nil {d : Bytes} (h : d ≠ []) :
    Checked.find? d buffer = some (indexOf? d buffer) :=
  if_neg (by simpa using h)

theorem skip?_of_le (hle : length + width ≤ buffer.length) (hword : buffer.length < wordLimit) :
    skip? buffer length width = some (buffer.drop (length + width)) := by
  unfold skip?
  rw [add?_of_lt (Nat.lt_of_le_of_lt hle hword)]
  exact advance?_of_le hle

end Checked

theorem Policy.cutOff?_eq (p : Policy) {buffer : Bytes} {length width : Nat}
    (hle : length + width ≤ buffer.length) (hword : buffer.length < wordLimit) :
    p.cutOff? buffer length width =
      some
        (if p.maxLength < length then .failed (p.tooLong length)
          else .frame (buffer.take (if p.strip then length else length + width)),
        buffer.drop (length + width)) := by
  unfold cutOff?
  split
  · rw [skip?_of_le hle hword]
    rfl
  · cases p.strip with
    | true =>
      rw [if_pos rfl, splitTo?_of_le (by omega), if_pos rfl]
      show (do let rest ← advance? (buffer.drop length) width; _) = _
      rw [advance?_of_le (by rw [List.length_drop]; omega), List.drop_drop]
      rfl
    | false =>
      rw [if_neg Bool.false_ne_true, add?_of_lt (Nat.lt_of_le_of_lt hle hword),
        if_neg Bool.false_ne_true]
      simp only [Option.bind_eq_bind, Option.bind_some]
      rw [splitTo?_of_le hle]
      rfl

/-! ## The place where a frame ends -/

/-- A delimiter of `width` bytes stands in full behind the first `length` bytes. -/
def StandsAt (delimiters : List Bytes) (buffer : Bytes) (length width : Nat) : Prop :=
  ∃ d ∈ delimiters, OccursAt d buffer length ∧ d.length = width

theorem StandsAt.le_length {delimiters : List Bytes} {buffer : Bytes} {length width : Nat}
    (h : StandsAt delimiters buffer length width) (hd : ∀ d ∈ delimiters, d ≠ []) :
    length + width ≤ buffer.length := by
  obtain ⟨d, hmem, hocc, rfl⟩ := h
  exact hocc.le_length (hd d hmem)

/-! ## Lines -/

namespace Line

variable {buffer : Bytes} {scanned length width : Nat}

theorem lf_of_indexOf? {behind : Nat} (h : indexOf? [lf] (buffer.drop scanned) = some behind) :
    buffer[scanned + behind]? = some lf := by
  obtain ⟨-, hocc, -⟩ := (indexOf?_eq_some_iff _ _ _).1 h
  rwa [occursAt_singleton, List.getElem?_drop] at hocc

/-- The search for the end of a line does not fail, wherever it begins. -/
theorem lineEnd?_eq (scanned : Nat) (hword : buffer.length < wordLimit) :
    lineEnd? scanned buffer = some (lineEnd scanned buffer) := by
  have hstart : buffer.drop (min scanned buffer.length) = buffer.drop scanned := by
    rcases Nat.le_total scanned buffer.length with hle | hge
    · rw [Nat.min_eq_left hle]
    · rw [Nat.min_eq_right hge, List.drop_length, List.drop_eq_nil_of_le hge]
  unfold lineEnd? lineEnd
  dsimp only
  rw [from?_of_le (Nat.min_le_right _ _), hstart]
  dsimp only [Option.bind_eq_bind, Option.bind_some]
  cases hfound : indexOf? [lf] (buffer.drop scanned) with
  | none => rfl
  | some behind =>
    have hlt : scanned + behind < buffer.length :=
      (List.getElem?_eq_some_iff.1 (lf_of_indexOf? hfound)).1
    rw [Nat.min_eq_left (by omega)]
    dsimp only
    rw [add?_of_lt (Nat.lt_trans hlt hword)]
    dsimp only [Option.bind_some]
    by_cases hpos : 0 < scanned + behind
    · -- the byte before it is looked at
      have hbefore : scanned + behind - 1 < buffer.length := by omega
      simp only [hpos, if_true, true_and, sub?_of_le hpos, Option.bind_some,
        List.getElem?_eq_getElem hbefore, Option.some.injEq]
      split <;> rfl
    · simp only [hpos, if_false, false_and]
      rfl

theorem standsAt_of_lineEnd (h : lineEnd scanned buffer = some (length, width)) :
    StandsAt Delimiters.line buffer length width := by
  unfold lineEnd at h
  cases hfound : indexOf? [lf] (buffer.drop scanned) with
  | none =>
    rw [hfound] at h
    cases h
  | some behind =>
    have hlf := lf_of_indexOf? hfound
    rw [hfound] at h
    dsimp only at h
    split at h
    · next hcr =>
      obtain ⟨rfl, rfl⟩ : scanned + behind - 1 = length ∧ 2 = width := by simpa using h
      refine ⟨[cr, lf], by decide, ?_, rfl⟩
      rw [occursAt_crlf, Nat.sub_add_cancel hcr.1]
      exact ⟨hcr.2, hlf⟩
    · obtain ⟨rfl, rfl⟩ : scanned + behind = length ∧ 1 = width := by simpa using h
      exact ⟨[lf], by decide, (occursAt_singleton lf buffer _).2 hlf, rfl⟩

/-- No operation of a call fails. -/
theorem decode?_eq (l : Line) (hword : l.mode.dropped + buffer.length < wordLimit) :
    l.decode? buffer = some (l.decode buffer) := by
  have hbuffer : buffer.length < wordLimit := by omega
  unfold decode? decode
  rw [lineEnd?_eq l.scanned hbuffer]
  dsimp only [Option.bind_eq_bind, Option.bind_some]
  cases hend : lineEnd l.scanned buffer with
  | none =>
    cases hmode : l.mode with
    | normal =>
      dsimp only
      split
      · rw [advance?_of_le (Nat.le_refl _), List.drop_length]
        rfl
      · rfl
    | discarding dropped =>
      have htotal : dropped + buffer.length < wordLimit := by
        rwa [hmode] at hword
      dsimp only
      rw [add?_of_lt htotal]
      rfl
  | some found =>
    obtain ⟨length, width⟩ := found
    have hle := (standsAt_of_lineEnd hend).le_length Delimiters.line_ne_nil
    cases hmode : l.mode with
    | normal =>
      dsimp only
      rw [l.policy.cutOff?_eq hle hbuffer]
      rfl
    | discarding dropped =>
      have htotal : dropped + buffer.length < wordLimit := by
        rwa [hmode] at hword
      have htotal : dropped + length < wordLimit := by omega
      dsimp only
      rw [add?_of_lt htotal, skip?_of_le hle hbuffer]
      rfl

end Line

/-! ## The scan -/

namespace Scan

variable {delimiters : List Bytes} {buffer : Bytes} {length : Nat} {d : Bytes}

/-- The search for the delimiters does not fail. -/
theorem shortest?_eq (hd : ∀ d ∈ delimiters, d ≠ []) (buffer : Bytes) :
    shortest? delimiters buffer = some (shortest delimiters buffer) := by
  unfold shortest? shortest
  generalize none = best
  induction delimiters generalizing best with
  | nil => rfl
  | cons d delimiters ih =>
    rw [List.foldlM_cons, List.foldl_cons, find?_of_ne_nil (hd d List.mem_cons_self)]
    dsimp only [Option.bind_eq_bind, Option.bind_some]
    cases indexOf? d buffer <;> exact ih (fun e he => hd e (List.mem_cons_of_mem d he)) _

theorem standsAt_of_shortest (hd : ∀ d ∈ delimiters, d ≠ [])
    (h : shortest delimiters buffer = some (length, d)) :
    StandsAt delimiters buffer length d.length := by
  have hit := (shortest_eq_some_iff hd length d).1 h
  exact ⟨d, hit.mem, hit.occursAt, rfl⟩

/-- No operation of a call fails. -/
theorem decode?_eq (s : Scan) (hd : ∀ d ∈ s.delimiters, d ≠ [])
    (hword : s.mode.dropped + buffer.length < wordLimit) :
    s.decode? buffer = some (s.decode buffer) := by
  have hbuffer : buffer.length < wordLimit := by omega
  unfold decode? decode
  rw [shortest?_eq hd]
  dsimp only [Option.bind_eq_bind, Option.bind_some]
  cases hfound : shortest s.delimiters buffer with
  | none =>
    cases hmode : s.mode with
    | normal =>
      dsimp only
      split <;> rfl
    | discarding dropped =>
      have htotal : dropped + buffer.length < wordLimit := by
        rwa [hmode] at hword
      dsimp only
      rw [add?_of_lt htotal]
      rfl
  | some found =>
    obtain ⟨length, d⟩ := found
    have hle := (standsAt_of_shortest hd hfound).le_length hd
    cases hmode : s.mode with
    | normal =>
      dsimp only
      rw [s.policy.cutOff?_eq hle hbuffer]
      rfl
    | discarding dropped =>
      dsimp only
      rw [skip?_of_le hle hbuffer]
      rfl

end Scan

/-! ## What a call takes -/

/-- A call takes bytes from the front of the buffer only.  A frame that it hands out begins the
buffer, a delimiter stands behind its body, and the body is within the limit. -/
structure TakesFront (policy : Policy) (delimiters : List Bytes) (buffer : Bytes)
    (outcome : Outcome) (rest : Bytes) : Prop where
  rest : rest <:+ buffer
  frame : ∀ frame, outcome = .frame frame →
    frame <+: buffer ∧ ∃ body, ∃ d ∈ delimiters, body ++ d <+: buffer ∧
      frame = (if policy.strip then body else body ++ d) ∧ body.length ≤ policy.maxLength

namespace TakesFront

variable {policy : Policy} {delimiters : List Bytes} {buffer rest : Bytes} {outcome : Outcome}

theorem of_no_frame (hrest : rest <:+ buffer) (hno : ∀ frame, outcome ≠ .frame frame) :
    TakesFront policy delimiters buffer outcome rest :=
  ⟨hrest, fun frame h => absurd h (hno frame)⟩

theorem of_standsAt {length width : Nat} (h : StandsAt delimiters buffer length width) :
    TakesFront policy delimiters buffer
      (if policy.maxLength < length then .failed (policy.tooLong length)
        else .frame (buffer.take (if policy.strip then length else length + width)))
      (buffer.drop (length + width)) := by
  obtain ⟨d, hmem, hocc, rfl⟩ := h
  split
  · exact of_no_frame (List.drop_suffix _ _) (by simp)
  · next hshort =>
    refine ⟨List.drop_suffix _ _, ?_⟩
    rintro _ ⟨⟩
    have hbehind : buffer.take (length + d.length) = buffer.take length ++ d := by
      rw [List.take_add, ← List.prefix_iff_eq_take.1 hocc]
    refine ⟨List.take_prefix _ _, buffer.take length, d, hmem, ?_, ?_, ?_⟩
    · rw [← hbehind]
      exact List.take_prefix _ _
    · rw [← hbehind]
      cases policy.strip <;> rfl
    · rw [List.length_take]
      omega

theorem mono {delimiters' : List Bytes} (h : TakesFront policy delimiters buffer outcome rest)
    (hmem : ∀ d ∈ delimiters, d ∈ delimiters') :
    TakesFront policy delimiters' buffer outcome rest := by
  refine ⟨h.rest, fun frame hframe => ?_⟩
  obtain ⟨hfront, body, d, hd, hbody⟩ := h.frame frame hframe
  exact ⟨hfront, body, d, hmem d hd, hbody⟩

end TakesFront

/-! ## Whatever is done with the buffer -/

/-- The bytes that come in with an act. -/
def BufferAct.brought : BufferAct → Nat
  | append bytes => bytes.length
  | replace bytes => bytes.length
  | dropFront _ => 0
  | decode => 0

/-- The bytes that come in with several acts. -/
def brought : List BufferAct → Nat
  | [] => 0
  | a :: as => a.brought + brought as

theorem brought_append (acts more : List BufferAct) :
    brought (acts ++ more) = brought acts + brought more := by
  induction acts with
  | nil => exact (Nat.zero_add _).symm
  | cons a acts ih =>
    show a.brought + brought (acts ++ more) = a.brought + brought acts + brought more
    rw [ih, Nat.add_assoc]

/-- The calls of a decoder in a proper state are in bounds, as long as the bytes dropped and those
in the buffer fit into a word; and they leave it in a proper state, with no more bytes. -/
structure InBounds {σ : Type} [Decoder σ] (mode : σ → Mode) (decode? : σ → Bytes → Option (Turn σ))
    (policy : Policy) (delimiters : List Bytes) (proper : σ → Prop) : Prop where
  next : ∀ s buffer, proper s → proper (Decoder.decode s buffer).decoder
  weight : ∀ s buffer, proper s →
    (mode (Decoder.decode s buffer).decoder).dropped + (Decoder.decode s buffer).rest.length ≤
      (mode s).dropped + buffer.length
  checked : ∀ s buffer, proper s → (mode s).dropped + buffer.length < wordLimit →
    decode? s buffer = some (Decoder.decode s buffer)
  takes : ∀ s buffer, proper s →
    TakesFront policy delimiters buffer (Decoder.decode s buffer).outcome
      (Decoder.decode s buffer).rest

namespace InBounds

variable {σ : Type} [Decoder σ] {mode : σ → Mode} {decode? : σ → Bytes → Option (Turn σ)}
  {policy : Policy} {delimiters : List Bytes} {proper : σ → Prop} {b : Buffered σ}

theorem act (h : InBounds mode decode? policy delimiters proper) (hb : proper b.decoder)
    (a : BufferAct) :
    proper (b.act a).2.decoder ∧
      (mode (b.act a).2.decoder).dropped + (b.act a).2.buffer.length ≤
        (mode b.decoder).dropped + b.buffer.length + a.brought := by
  cases a with
  | append bytes =>
    refine ⟨hb, ?_⟩
    show _ + (b.buffer ++ bytes).length ≤ _ + bytes.length
    rw [List.length_append, Nat.add_assoc]
    exact Nat.le_refl _
  | replace bytes =>
    refine ⟨hb, ?_⟩
    show (mode b.decoder).dropped + bytes.length ≤ _ + bytes.length
    omega
  | dropFront count =>
    refine ⟨hb, ?_⟩
    show (mode b.decoder).dropped + (b.buffer.drop count).length ≤
      (mode b.decoder).dropped + b.buffer.length
    rw [List.length_drop]
    omega
  | decode => exact ⟨h.next _ _ hb, h.weight _ _ hb⟩

theorem run (h : InBounds mode decode? policy delimiters proper) (hb : proper b.decoder)
    (acts : List BufferAct) :
    proper (b.run acts).2.decoder ∧
      (mode (b.run acts).2.decoder).dropped + (b.run acts).2.buffer.length ≤
        (mode b.decoder).dropped + b.buffer.length + brought acts := by
  induction acts generalizing b with
  | nil => exact ⟨hb, Nat.le_refl _⟩
  | cons a acts ih =>
    obtain ⟨hnext, hweight⟩ := h.act hb a
    obtain ⟨hlast, hall⟩ := ih hnext
    refine ⟨hlast, Nat.le_trans hall ?_⟩
    show _ ≤ _ + (a.brought + brought acts)
    omega

end InBounds

/-- Every call among these acts is in bounds: no operation of it fails, and it takes bytes from the
front of the buffer only. -/
def CallsInBounds {σ : Type} [Decoder σ] (decode? : σ → Bytes → Option (Turn σ)) (policy : Policy)
    (delimiters : List Bytes) (s : σ) (acts : List BufferAct) : Prop :=
  ∀ before, before ++ [.decode] <+: acts →
    let b := (Buffered.run ⟨s, []⟩ before).2
    let turn := Decoder.decode b.decoder b.buffer
    decode? b.decoder b.buffer = some turn ∧
      TakesFront policy delimiters b.buffer turn.outcome turn.rest

theorem InBounds.calls {σ : Type} [Decoder σ] {mode : σ → Mode}
    {decode? : σ → Bytes → Option (Turn σ)} {policy : Policy} {delimiters : List Bytes}
    {proper : σ → Prop} (h : InBounds mode decode? policy delimiters proper) {s : σ}
    (hs : proper s) (hmode : mode s = .normal) {acts : List BufferAct}
    (htotal : brought acts < wordLimit) : CallsInBounds decode? policy delimiters s acts := by
  rintro before ⟨behind, rfl⟩
  obtain ⟨hproper, hweight⟩ := h.run (b := ⟨s, []⟩) hs before
  rw [hmode] at hweight
  rw [brought_append, brought_append] at htotal
  have hfresh : Mode.normal.dropped + ([] : Bytes).length = 0 := rfl
  have hword : (mode (Buffered.run ⟨s, []⟩ before).2.decoder).dropped +
      (Buffered.run ⟨s, []⟩ before).2.buffer.length < wordLimit := by
    rw [hfresh] at hweight
    omega
  exact ⟨h.checked _ _ hproper hword, h.takes _ _ hproper⟩

/-! ## Both decoders -/

namespace Line

theorem decode_policy (l : Line) (buffer : Bytes) :
    (l.decode buffer).decoder.policy = l.policy := by
  unfold decode
  split
  · rfl
  · rfl
  · split <;> rfl
  · rfl

/-- A call counts no byte twice. -/
theorem decode_weight (l : Line) (buffer : Bytes) :
    (l.decode buffer).decoder.mode.dropped + (l.decode buffer).rest.length ≤
      l.mode.dropped + buffer.length := by
  unfold decode
  split
  · next length width _ hmode =>
    show l.mode.dropped + (buffer.drop (length + width)).length ≤ _
    rw [List.length_drop]
    omega
  · next length width dropped _ hmode =>
    show 0 + (buffer.drop (length + width)).length ≤ _
    rw [List.length_drop]
    omega
  · next hmode =>
    split
    · show buffer.length + 0 ≤ _
      omega
    · exact Nat.le_refl _
  · next dropped _ hmode =>
    rw [hmode]
    exact Nat.le_refl _

theorem decode_takesFront (l : Line) (buffer : Bytes) :
    TakesFront l.policy Delimiters.line buffer (l.decode buffer).outcome
      (l.decode buffer).rest := by
  unfold decode
  split
  · next length width hend _ => exact .of_standsAt (standsAt_of_lineEnd hend)
  · exact .of_no_frame (List.drop_suffix _ _) (by dsimp only; split <;> simp)
  · split
    · exact .of_no_frame (List.nil_suffix) (by dsimp only; split <;> simp)
    · exact .of_no_frame (List.suffix_refl _) (by simp)
  · exact .of_no_frame (List.nil_suffix) (by simp)

theorem inBounds (policy : Policy) :
    InBounds Line.mode decode? policy Delimiters.line (fun l => l.policy = policy) where
  next l buffer h := (l.decode_policy buffer).trans h
  weight l buffer _ := l.decode_weight buffer
  checked l _ _ hword := l.decode?_eq hword
  takes l buffer h := h ▸ l.decode_takesFront buffer

end Line

namespace Scan

theorem decode_weight (s : Scan) (buffer : Bytes) :
    (s.decode buffer).decoder.mode.dropped + (s.decode buffer).rest.length ≤
      s.mode.dropped + buffer.length := by
  unfold decode
  split
  · next length d dropped _ hmode =>
    show 0 + (buffer.drop (length + d.length)).length ≤ _
    rw [List.length_drop]
    omega
  · next length d _ hmode =>
    show s.mode.dropped + (buffer.drop (length + d.length)).length ≤ _
    rw [List.length_drop]
    omega
  · next dropped _ hmode =>
    rw [hmode]
    exact Nat.le_refl _
  · next hmode =>
    split
    · show buffer.length + 0 ≤ _
      omega
    · exact Nat.le_refl _

theorem decode_takesFront (s : Scan) (hd : ∀ d ∈ s.delimiters, d ≠ []) (buffer : Bytes) :
    TakesFront s.policy s.delimiters buffer (s.decode buffer).outcome (s.decode buffer).rest := by
  unfold decode
  split
  · exact .of_no_frame (List.drop_suffix _ _) (by dsimp only; split <;> simp)
  · next length d hfound _ => exact .of_standsAt (standsAt_of_shortest hd hfound)
  · exact .of_no_frame (List.nil_suffix) (by simp)
  · split
    · exact .of_no_frame (List.nil_suffix) (by dsimp only; split <;> simp)
    · exact .of_no_frame (List.suffix_refl _) (by simp)

theorem inBounds (policy : Policy) {delimiters : List Bytes} (hd : ∀ d ∈ delimiters, d ≠ []) :
    InBounds Scan.mode decode? policy delimiters
      (fun s => s.policy = policy ∧ s.delimiters = delimiters) where
  next := by
    rintro s buffer ⟨rfl, rfl⟩
    show (s.decode buffer).decoder.policy = _ ∧ (s.decode buffer).decoder.delimiters = _
    rw [decode_decoder]
    exact ⟨rfl, rfl⟩
  weight s buffer _ := s.decode_weight buffer
  checked := by
    rintro s buffer ⟨-, rfl⟩ hword
    exact s.decode?_eq hd hword
  takes := by
    rintro s buffer ⟨rfl, rfl⟩
    exact s.decode_takesFront hd buffer

end Scan

namespace Splitter

/-- The decoder that does the work is one for this policy and these delimiters. -/
def Proper (policy : Policy) (delimiters : List Bytes) (s : Splitter) : Prop :=
  match s.engine with
  | .inl scan => scan.policy = policy ∧ scan.delimiters = delimiters
  | .inr line => line.policy = policy ∧ ∀ d ∈ Delimiters.line, d ∈ delimiters

theorem proper_of_ofDelimiters {policy : Policy} {delimiters : List Bytes} {s : Splitter}
    (h : ofDelimiters policy delimiters = .ok s) : Proper policy delimiters s := by
  obtain ⟨-, -, -, rfl⟩ := (ofDelimiters_eq_ok_iff policy delimiters s).1 h
  unfold Proper
  cases hline : Delimiters.isLine delimiters with
  | true =>
    have hperm := (Delimiters.isLine_iff_perm delimiters).1 hline
    exact ⟨rfl, fun d hd => hperm.mem_iff.2 hd⟩
  | false => exact ⟨rfl, rfl⟩

theorem inBounds (policy : Policy) {delimiters : List Bytes} (hd : ∀ d ∈ delimiters, d ≠ []) :
    InBounds Splitter.mode decode? policy delimiters (Proper policy delimiters) := by
  have hscan := Scan.inBounds policy hd
  have hline := Line.inBounds policy
  refine ⟨?_, ?_, ?_, ?_⟩
  · rintro ⟨_, scan | line⟩ buffer h
    · exact hscan.next scan buffer h
    · exact ⟨hline.next line buffer h.1, h.2⟩
  · rintro ⟨_, scan | line⟩ buffer h
    · exact hscan.weight scan buffer h
    · exact hline.weight line buffer h.1
  · rintro ⟨_, scan | line⟩ buffer h hword
    · have hcall : scan.decode? buffer = some (scan.decode buffer) :=
        hscan.checked scan buffer h hword
      unfold decode?
      dsimp only
      rw [hcall]
      rfl
    · have hcall : line.decode? buffer = some (line.decode buffer) :=
        hline.checked line buffer h.1 hword
      unfold decode?
      dsimp only
      rw [hcall]
      rfl
  · rintro ⟨_, scan | line⟩ buffer h
    · exact hscan.takes scan buffer h
    · exact (hline.takes line buffer h.1).mono h.2

end Splitter

/-- Decode calls are in bounds, whatever is done with the buffer between them, and without the
decoder being told: no operation of a call fails, it takes bytes from the front of the buffer only,
and what it hands out is a frame within the limit. -/
theorem calls_in_bounds {policy : Policy} (hpolicy : policy.check = .ok ())
    {delimiters : List Bytes} (hne : delimiters ≠ []) (hd : ∀ d ∈ delimiters, d ≠ [])
    {acts : List BufferAct} (htotal : brought acts < Checked.wordLimit) :
    (∃ s, Splitter.ofDelimiters policy delimiters = .ok s ∧
      CallsInBounds Splitter.decode? policy delimiters s acts) ∧
    (∃ l, Line.ofPolicy policy = .ok l ∧
      CallsInBounds Line.decode? policy Delimiters.line l acts) := by
  obtain ⟨s, hs, hsplits⟩ := Splitter.exists_splitsAt hpolicy hne hd
  have hl := (Line.ofPolicy_eq_ok_iff policy _).2 ⟨hpolicy, rfl⟩
  have hmode : s.mode = .normal := by
    obtain ⟨_, -, hworks⟩ := hsplits
    exact hworks.mode_eq
  have hproper := Splitter.proper_of_ofDelimiters hs
  exact ⟨⟨s, hs, (Splitter.inBounds policy hd).calls hproper hmode htotal⟩,
    ⟨_, hl, (Line.inBounds policy).calls rfl rfl htotal⟩⟩

/-- A line decoder that remembers more bytes than its buffer has, most of which were dropped: the LF
that comes in then is not seen.  Later its buffer is replaced while it drops a line. -/
theorem calls_in_bounds_untold :
    let policy : Policy := { maxLength := 6, failFast := false }
    let acts : List BufferAct := [.append [1, 2, 3, 4, 5], .decode, .dropFront 4, .append [cr, lf],
      .decode, .append [1, 2, 3, 4, 5, 6, 7], .decode, .replace [cr, lf, 8, lf], .decode, .decode]
    ∃ l, Line.ofPolicy policy = .ok l ∧
      (Buffered.run ⟨l, []⟩ acts).1 =
        [.nothing, .nothing, .nothing, .failed (.tooLong 6 10), .frame [8]] ∧
      CallsInBounds Line.decode? policy Delimiters.line l acts := by
  intro policy acts
  have hpolicy : policy.check = .ok () := rfl
  have htotal : brought acts < Checked.wordLimit := by decide
  obtain ⟨-, l, hl, hcalls⟩ := calls_in_bounds hpolicy (by decide) Delimiters.line_ne_nil htotal
  refine ⟨l, hl, ?_, hcalls⟩
  obtain rfl : _ = l := Except.ok.inj hl
  decide +kernel

end FrameLoop
