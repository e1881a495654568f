import FrameLoop.Parker.Basic
import FrameLoop.Span

/-
  A parker on one word of memory, which holds whether a wake-up is pending.  The system puts the
  thread to sleep only while the word says that none is, so that a wake-up between the look at the
  word and the sleep is not missed.
-/

namespace FrameLoop

/-- Where the resting thread is. -/
inductive WordStage
  /-- It does not rest. -/
  | idle
  /-- It is about to take a pending wake-up. -/
  | take
  /-- It is about to ask the system for sleep. -/
  | wait
  | asleep
  /-- It is awake again, and about to take whatever has come. -/
  | retake
  | returned (woken : Bool)
  deriving DecidableEq, Repr

/-- The resting thread is woken, if it is asleep. -/
def WordStage.woken : WordStage → WordStage
  | asleep => retake
  | stage => stage

/-- The word with the waking threads, and the resting thread. -/
structure WordParker extends Bell where
  stage : WordStage := .idle
  deriving DecidableEq, Repr

namespace WordParker

/-- Write that no wake-up is pending, and answer whether one was. -/
def swap (s : WordParker) : WordParker :=
  { s with pending := false, stage := .returned s.pending }

/-- How long the system is told to let the thread sleep, in seconds and nanoseconds.  It takes the
seconds in a signed word; a longer rest is cut down to the longest that it can be told. -/
def sleepLimit (limit : Span) : Nat × Nat :=
  (min limit.seconds Instant.maxSeconds, limit.subNanos)

/-- One step. -/
def step (s : WordParker) : ParkerStep → Option WordParker
  | .park =>
    match s.stage with
    | .idle | .returned _ => some { s with stage := .take }
    | _ => none
  | .proceed =>
    match s.stage with
    | .take => some (if s.pending then s.swap else { s with stage := .wait })
    | .wait => some { s with stage := if s.pending then .retake else .asleep }
    | .retake => some s.swap
    | _ => none
  | .rouse _ =>
    match s.stage with
    | .asleep => some { s with stage := .retake }
    | _ => none
  | .unpark => some { s with toBell := s.call }
  | .waker i =>
    -- a waking thread reads and writes the word at once, then calls the system
    (s.ring i).map fun (bell, wakes) =>
      { toBell := bell, stage := if wakes then s.stage.woken else s.stage }

instance : Parker WordParker where
  fresh := {}
  step := step
  answer? s :=
    match s.stage with
    | .returned woken => some woken
    | _ => none
  isAsleep s := s.stage = .asleep

end WordParker

end FrameLoop
