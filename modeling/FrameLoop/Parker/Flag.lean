import FrameLoop.Parker.Basic

/-
  A parker on a flag, a lock and a condition variable.  Whatever is done under the lock is one
  step; going to sleep gives the lock back in the same step.
-/

namespace FrameLoop

/-- Where the resting thread is. -/
inductive FlagStage
  /-- It does not rest. -/
  | idle
  /-- It is about to take the lock. -/
  | enter
  | asleep
  /-- It is awake again, and about to look at the flag; if its time is up it will not sleep
  again. -/
  | awake (timedOut : Bool)
  | returned (woken : Bool)
  deriving DecidableEq, Repr

/-- The resting thread is notified, if it is asleep. -/
def FlagStage.woken : FlagStage → FlagStage
  | asleep => awake false
  | stage => stage

/-- The flag with the waking threads, and the resting thread. -/
structure FlagParker extends Bell where
  stage : FlagStage := .idle
  deriving DecidableEq, Repr

namespace FlagParker

/-- What the resting thread does under the lock: it takes a pending wake-up; without one it
returns if its time is up, and sleeps otherwise. -/
def look (s : FlagParker) (timedOut : Bool) : FlagParker :=
  if s.pending then { s with pending := false, stage := .returned true }
  else { s with stage := if timedOut then .returned false else .asleep }

/-- One step. -/
def step (s : FlagParker) : ParkerStep → Option FlagParker
  | .park =>
    match s.stage with
    | .idle | .returned _ => some { s with stage := .enter }
    | _ => none
  | .proceed =>
    match s.stage with
    | .enter => some (s.look false)
    | .awake timedOut => some (s.look timedOut)
    | _ => none
  | .rouse timedOut =>
    match s.stage with
    | .asleep => some { s with stage := .awake timedOut }
    | _ => none
  | .unpark => some { s with toBell := s.call }
  | .waker i =>
    -- a waking thread looks at the flag and sets it under the lock, then notifies
    (s.ring i).map fun (bell, wakes) =>
      { toBell := bell, stage := if wakes then s.stage.woken else s.stage }

instance : Parker FlagParker where
  fresh := {}
  step := step
  answer? s :=
    match s.stage with
    | .returned woken => some woken
    | _ => none
  isAsleep s := s.stage = .asleep

end FlagParker

end FrameLoop
