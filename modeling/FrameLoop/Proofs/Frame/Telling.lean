import FrameLoop.Frame.Intake

/-
  What the consumer of a connection has been told, taken apart: the frames that were handed out to
  it and the errors that were reported, each in order.

  `feedAll_frames` says that feeds return the number of frames that they have handed out, whatever
  the decoder is.
-/

namespace FrameLoop

/-- The frame, if the event is one. -/
def FrameEvent.frame? : FrameEvent → Option Bytes
  | frame bytes => some bytes
  | failed _ => none

/-- The error, if the event is one. -/
def FrameEvent.error? : FrameEvent → Option FrameError
  | frame _ => none
  | failed error => some error

/-- The frames that were handed out. -/
def handed (events : List FrameEvent) : List Bytes := events.filterMap FrameEvent.frame?

/-- The errors that were reported. -/
def reported (events : List FrameEvent) : List FrameError := events.filterMap FrameEvent.error?

@[simp]
theorem handed_nil : handed [] = [] := rfl

@[simp]
theorem reported_nil : reported [] = [] := rfl

@[simp]
theorem handed_append (events more : List FrameEvent) :
    handed (events ++ more) = handed events ++ handed more :=
  List.filterMap_append

@[simp]
theorem reported_append (events more : List FrameEvent) :
    reported (events ++ more) = reported events ++ reported more :=
  List.filterMap_append

@[simp]
theorem handed_frame (bytes : Bytes) (events : List FrameEvent) :
    handed (.frame bytes :: events) = bytes :: handed events := rfl

@[simp]
theorem handed_failed (error : FrameError) (events : List FrameEvent) :
    handed (.failed error :: events) = handed events := rfl

@[simp]
theorem reported_frame (bytes : Bytes) (events : List FrameEvent) :
    reported (.frame bytes :: events) = reported events := rfl

@[simp]
theorem reported_failed (error : FrameError) (events : List FrameEvent) :
    reported (.failed error :: events) = error :: reported events := rfl

theorem handed_map_frame (frames : List Bytes) : handed (frames.map .frame) = frames := by
  rw [handed, List.filterMap_map]
  exact List.filterMap_some

section Counts

variable {σ : Type}

/-- Each call that hands out a frame tells of one. -/
theorem countP_isFrame (turns : List (Turn σ)) :
    turns.countP (·.outcome.isFrame) =
      (handed (turns.filterMap (·.outcome.event?))).length := by
  induction turns with
  | nil => rfl
  | cons turn turns ih =>
    rw [List.countP_cons, List.filterMap_cons, ih]
    cases turn.outcome <;> simp [Outcome.isFrame, Outcome.event?]

variable [Decoder σ]

/-- A feed returns the number of frames that it has handed out. -/
theorem feed_frames (a : Intake σ) (chunk : Bytes) :
    (a.feed chunk).frames = (handed (a.feed chunk).events).length :=
  countP_isFrame (a.turns chunk)

theorem feedAll_frames (a : Intake σ) (chunks : List Bytes) :
    (a.feedAll chunks).frames = (handed (a.feedAll chunks).events).length := by
  induction chunks generalizing a with
  | nil => rfl
  | cons chunk chunks ih =>
    simp only [Intake.feedAll, handed_append, List.length_append]
    rw [feed_frames, ih]

end Counts

end FrameLoop
