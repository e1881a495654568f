/-
  Parkers: one thread rests until another one wakes it, or until its time is up.  A wake-up that
  comes while the thread is not resting is kept for its next rest; several of them count as one.

  A parker is an automaton over the steps of the resting thread and of the threads that wake it.
  `Parker.park` and `Parker.unpark` run it for callers that come one after the other.
-/

namespace FrameLoop

/-- The steps of a parker. -/
inductive ParkerStep
  /-- The resting thread calls. -/
  | park
  /-- The resting thread does its next step. -/
  | proceed
  /-- The resting thread wakes up without having been woken; its time is up, or there is no reason
  at all. -/
  | rouse (timedOut : Bool)
  /-- Another thread calls to wake it. -/
  | unpark
  /-- The thread that was the `i`th to call, of those still at it, does its next step. -/
  | waker (i : Nat)
  deriving DecidableEq, Repr

/-- Where a waking thread is. -/
inductive Waker
  /-- It is about to say that a wake-up is pending. -/
  | mark
  /-- It was the first to say so, and is about to wake the sleeper. -/
  | wake
  deriving DecidableEq, Repr

/-- What waking threads share with the one that rests: whether a wake-up is pending, and which of
them are at it. -/
structure Bell where
  pending : Bool := false
  wakers : List Waker := []
  deriving DecidableEq, Repr

namespace Bell

/-- Another thread calls. -/
def call (b : Bell) : Bell := { b with wakers := b.wakers ++ [.mark] }

/-- The `i`th waking thread does its next step, and wakes the sleeper or not.  One that finds a
wake-up pending leaves it to the thread that said so. -/
def ring (b : Bell) (i : Nat) : Option (Bell × Bool) :=
  match b.wakers[i]? with
  | some .mark =>
    if b.pending then some ({ b with wakers := b.wakers.eraseIdx i }, false)
    else some ({ pending := true, wakers := b.wakers.set i .wake }, false)
  | some .wake => some ({ b with wakers := b.wakers.eraseIdx i }, true)
  | none => none

end Bell

/-- Parkers with state `σ`. -/
class Parker (σ : Type) where
  /-- A parker that nobody has used. -/
  fresh : σ
  /-- One step, if it can be made. -/
  step : σ → ParkerStep → Option σ
  /-- What the last call of the resting thread answered: whether it took a wake-up. -/
  answer? : σ → Option Bool
  /-- The resting thread is asleep. -/
  isAsleep : σ → Bool

namespace Parker

variable {σ : Type} [Parker σ]

/-- The state after a step; the same where the step cannot be made. -/
def after (s : σ) (label : ParkerStep) : σ := (step s label).getD s

/-- The resting thread goes on until it sleeps or has returned, `fuel` steps at most. -/
def goOn : Nat → σ → σ
  | 0, s => s
  | fuel + 1, s =>
    match step s .proceed with
    | some t => goOn fuel t
    | none => s

/-- The steps that a call of either kind can take. -/
def longestCall : Nat := 4

/-- A call of the resting thread with nobody else about: it sleeps until its time is up. -/
def park (s : σ) : Bool × σ :=
  let s := goOn longestCall (after s .park)
  let s := if isAsleep s then goOn longestCall (after s (.rouse true)) else s
  ((answer? s).getD false, s)

/-- The steps of a waking thread that has nobody before it, to the end of its call. -/
def finishWaker : Nat → σ → σ
  | 0, s => s
  | fuel + 1, s =>
    match step s (.waker 0) with
    | some t => finishWaker fuel t
    | none => s

/-- A call of a waking thread with nobody else about. -/
def unpark (s : σ) : σ := finishWaker longestCall (after s .unpark)

/-- As many calls, one after the other. -/
def unparkTimes : Nat → σ → σ
  | 0, s => s
  | k + 1, s => unparkTimes k (unpark s)

/-- A call of the resting thread that another thread wakes while it sleeps; if it does not sleep,
the wake-up is kept. -/
def parkWoken (s : σ) : Bool × σ :=
  let s := goOn longestCall (after s .park)
  let answer := answer? s
  let s := goOn longestCall (unpark s)
  ((answer.or (answer? s)).getD false, s)

end Parker

end FrameLoop
