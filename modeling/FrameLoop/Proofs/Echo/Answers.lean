import FrameLoop.Echo.Connection
import FrameLoop.Proofs.Frame.Framer
import FrameLoop.Proofs.Frame.Pass

/-
  What a connection of the echo server answers, told from its chunks alone.

  The peer is to read the lines that were found, each with a LF behind it, and for an error the word
  `ERR`, a space, the text of the error and a LF (`reply`).  The server writes just these bytes
  (`render_eq_reply`).

  The decoder of a connection is the one for the delimiters of lines, which leaves its work to a
  line decoder (`Splitter.mirrors_engine`).  So what a connection sends when it has answered some
  chunks is what one line decoder makes of them (`answers`), and to close it sends nothing more
  (`perform_errands`).
-/

namespace FrameLoop

/-- A decoder that leaves its work to a line decoder answers as that one does. -/
theorem Splitter.mirrors_engine : Mirrors fun (s : Splitter) (l : Line) _ => s.engine = .inr l where
  calls _ := rfl
  grow h _ := h
  outcome := by
    intro s l b h
    simp only [Decoder.decode, Splitter.decode, h]
  rest := by
    intro s l b h
    simp only [Decoder.decode, Splitter.decode, h]
  next := by
    intro s l b h
    simp only [Decoder.decode, Splitter.decode, h]

namespace Echo

/-- What the peer is to read for what a decoder found, byte by byte: 10 is a LF, 32 is a space, and
69, 82, 82 are the letters of `ERR`. -/
def reply : FrameEvent → Bytes
  | .frame bytes => bytes ++ [10]
  | .failed error =>
    [69, 82, 82, 32] ++ error.message.toList.flatMap String.utf8EncodeChar ++ [10]

theorem encode_eq (text : String) : encode text = text.toList.flatMap String.utf8EncodeChar := by
  have hbytes := congrArg (fun b => b.data.toList) (String.toByteArray_ofList (l := text.toList))
  rw [String.ofList_toList] at hbytes
  rw [encode, String.toUTF8_eq_toByteArray, hbytes, List.utf8Encode, List.data_toByteArray]

theorem render_eq_reply (event : FrameEvent) : render event = reply event := by
  cases event with
  | frame bytes => rfl
  | failed error =>
    have hword : "ERR ".toList.flatMap String.utf8EncodeChar = [69, 82, 82, 32] := by decide
    rw [render, reply, encode_eq, String.toList_append, List.flatMap_append, hword]
    rfl

/-- The answers to chunks, as a line decoder finds the frames in them. -/
def answers (line : Line) (chunks : List Bytes) : Bytes :=
  (({ decoder := line, connection := 0 } : Intake Line).feedAll chunks).events.flatMap reply

/-- What is to be done with a connection that has sent some chunks, and perhaps come to an end. -/
def errands (chunks : List Bytes) (ended : Bool) : List Errand :=
  chunks.map .answer ++ if ended then [.close] else []

@[simp]
theorem errands_concat (chunks : List Bytes) (chunk : Bytes) :
    errands (chunks ++ [chunk]) false = errands chunks false ++ [.answer chunk] := by
  simp [errands]

theorem errands_ended (chunks : List Bytes) :
    errands chunks true = errands chunks false ++ [.close] := by
  simp [errands]

/-- Who has done a part of the errands has answered a part of the chunks, and not closed the
connection before all of them were answered. -/
theorem exists_answered {chunks : List Bytes} {ended : Bool} {performed rest : List Errand}
    (h : errands chunks ended = performed ++ rest) :
    ∃ answered waiting closed, chunks = answered ++ waiting ∧ performed = errands answered closed ∧
      (closed = true → ended = true ∧ waiting = [] ∧ rest = []) := by
  unfold errands at h
  rcases List.append_eq_append_iff.1 h with ⟨more, hperformed, hmore⟩ | ⟨more, hchunks, -⟩
  · cases ended with
    | false =>
      obtain ⟨rfl, rfl⟩ := List.append_eq_nil_iff.1 hmore.symm
      refine ⟨chunks, [], false, (List.append_nil _).symm, ?_, nofun⟩
      rw [hperformed]
      simp [errands]
    | true =>
      rcases List.append_eq_singleton_iff.1 hmore.symm with ⟨rfl, rfl⟩ | ⟨rfl, rfl⟩
      · refine ⟨chunks, [], false, (List.append_nil _).symm, ?_, nofun⟩
        rw [hperformed]
        simp [errands]
      · exact ⟨chunks, [], true, (List.append_nil _).symm, hperformed, fun _ => ⟨rfl, rfl, rfl⟩⟩
  · obtain ⟨answered, waiting, hsplit, hanswered, -⟩ := List.map_eq_append_iff.1 hchunks
    refine ⟨answered, waiting, false, hsplit, ?_, nofun⟩
    rw [← hanswered]
    simp [errands]

namespace Connection

variable {policy : Policy} {number : Nat} {fresh : Connection}

/-- When a connection is taken, and which one. -/
theorem accept_eq_ok_iff : accept policy number = .ok fresh ↔
    policy.check = .ok () ∧
      fresh = { intake := ⟨⟨Delimiters.line, .inr { policy }⟩, number, []⟩ } := by
  unfold accept
  cases h : policy.check with
  | error e => simp [Splitter.ofDelimiters, h, bind, Except.bind]
  | ok _ =>
    have hline : Splitter.ofDelimiters policy Delimiters.line =
        .ok ⟨Delimiters.line, .inr { policy }⟩ :=
      (Splitter.ofDelimiters_eq_ok_iff policy Delimiters.line _).2
        ⟨h, by decide, Delimiters.line_ne_nil, rfl⟩
    rw [hline]
    simp [bind, Except.bind, pure, Except.pure, eq_comm]

theorem foldl_answer {c : Connection} (h : c.closed = false) (chunks : List Bytes) :
    (chunks.map Errand.answer).foldl perform c =
      { c with
        intake := (c.intake.feedAll chunks).intake
        sent := c.sent ++ (c.intake.feedAll chunks).events.flatMap render } := by
  induction chunks generalizing c with
  | nil => simp [Intake.feedAll]
  | cons chunk chunks ih =>
    have hreceive : (c.receive chunk).closed = false := h
    refine (ih hreceive).trans ?_
    simp [receive, h, Intake.feedAll]

/-- A fresh connection that has done its errands has sent the answers of a line decoder to the
chunks, and is closed if it was to be. -/
theorem perform_errands {line : Line} (hfresh : accept policy number = .ok fresh)
    (hline : Line.ofPolicy policy = .ok line) (chunks : List Bytes) (ended : Bool) :
    let c := (errands chunks ended).foldl perform fresh
    c.sent = answers line chunks ∧ c.closed = ended := by
  obtain ⟨-, rfl⟩ := accept_eq_ok_iff.1 hfresh
  obtain ⟨-, rfl⟩ := (Line.ofPolicy_eq_ok_iff policy line).1 hline
  obtain ⟨hevents, -⟩ := Splitter.mirrors_engine.feedAll chunks
    (a := ⟨⟨Delimiters.line, .inr { policy }⟩, number, []⟩) (b := ⟨{ policy }, 0, []⟩) rfl rfl
  dsimp only
  rw [errands, List.foldl_append, foldl_answer rfl, hevents, funext render_eq_reply]
  cases ended with
  | false => exact ⟨rfl, rfl⟩
  | true => exact ⟨rfl, rfl⟩

end Connection

end Echo

end FrameLoop
