import FrameLoop.Signal.Basic

/-
  Signals that many threads use at once.  Each access to a signal, which is made under its lock, is
  one step, and the steps of the threads can come in any order.

  Signals and listeners are known by numbers.  What a running listener does is left open: it may
  call any signal like anybody else, it may end, and it may panic.  A call that has completed a
  signal catches the panic of a listener and goes on with the next one.  A call that has brought a
  late listener ends with the panic of it, and whoever made this call goes on or panics in turn.
-/

namespace FrameLoop.Signal

/-- What a thread can ask of a signal. -/
inductive Call
  /-- Try to complete it. -/
  | complete
  /-- Add a new listener. -/
  | listen
  /-- Whether it has been completed. -/
  | isDone
  /-- Wait until it is settled. -/
  | wait
  /-- Wait for a time at most. -/
  | waitTimeout
  deriving DecidableEq, Repr

/-- How far a call on a signal is. -/
inductive Stage
  /-- About to try to complete the signal. -/
  | complete (signal : Nat)
  /-- The call has completed the signal, and these listeners are left to run. -/
  | deliver (signal : Nat) (left : List Nat)
  /-- About to hand a listener to the signal. -/
  | listen (signal listener : Nat)
  /-- The signal was complete; about to run the listener. -/
  | late (signal listener : Nat)
  /-- The listener was run at once; about to return. -/
  | listened (signal listener : Nat)
  | wait (signal : Nat)
  | waitTimeout (signal : Nat)
  deriving DecidableEq, Repr

/-- A listener that runs, in the call that runs it. -/
inductive Frame
  /-- The call has completed the signal, and these listeners are to run behind this one. -/
  | delivered (signal listener : Nat) (left : List Nat)
  /-- The call has brought the listener to a signal that was complete. -/
  | late (signal listener : Nat)
  deriving DecidableEq, Repr

namespace Frame

def signal : Frame → Nat
  | delivered p _ _ => p
  | late p _ => p

def listener : Frame → Nat
  | delivered _ l _ => l
  | late _ l => l

/-- How the call goes on when the listener has ended; a late listener that fails ends the call. -/
def after (failed : Bool) : Frame → Option Stage
  | delivered p _ left => some (.deliver p left)
  | late p l => if failed then none else some (.listened p l)

end Frame

/-- A thread.  Without a call under way its innermost listener does as it likes, or the thread
itself if no listener runs. -/
structure Thread where
  /-- The innermost call, unless it runs a listener. -/
  call : Option Stage := none
  /-- The listeners that run, the innermost first. -/
  frames : List Frame := []
  deriving DecidableEq, Repr

/-- All signals, and the threads that use them. -/
structure Crowd where
  signals : Nat → Signal Nat := fun _ => {}
  threads : List Thread := []
  /-- How many listeners there have been. -/
  registered : Nat := 0

/-- What happens in a run. -/
inductive Happening
  /-- A call that is to add a listener began. -/
  | handed (signal listener : Nat)
  /-- The signal kept a listener for later. -/
  | kept (signal listener : Nat)
  /-- The call that added a listener returned. -/
  | listened (signal listener : Nat)
  /-- A listener began. -/
  | began (signal listener : Nat)
  /-- A listener ended; `failed` if it panicked. -/
  | ended (signal listener : Nat) (failed : Bool)
  /-- A completion returned; `first` if it was the one to complete the signal. -/
  | completed (signal : Nat) (first : Bool)
  | isDone (signal : Nat) (answer : Bool)
  | waited (signal : Nat)
  | waitedTimeout (signal : Nat) (answer : Bool)
  deriving DecidableEq, Repr

/-- Something that happened, and the thread on which it did. -/
structure Entry where
  thread : Nat
  what : Happening
  deriving DecidableEq, Repr

/-- What a thread does. -/
inductive Act
  /-- It calls a signal; no call is under way. -/
  | call (signal : Nat) (c : Call)
  /-- The call does its next step. -/
  | go
  /-- The innermost listener ends; `failed` if it panics. -/
  | finish (failed : Bool)
  /-- The time of the call is up. -/
  | timeUp
  deriving DecidableEq, Repr

namespace Crowd

/-- Put a signal in its place. -/
def change (s : Crowd) (p : Nat) (signal : Signal Nat) : Crowd :=
  { s with signals := fun q => if q = p then signal else s.signals q }

/-- A call begins on a thread with these frames. -/
def begin (s : Crowd) (frames : List Frame) (p : Nat) : Call → Crowd × Thread × List Happening
  | .complete => (s, ⟨some (.complete p), frames⟩, [])
  | .listen =>
    ({ s with registered := s.registered + 1 }, ⟨some (.listen p s.registered), frames⟩,
      [.handed p s.registered])
  | .isDone => (s, ⟨none, frames⟩, [.isDone p (s.signals p).done])
  | .wait => (s, ⟨some (.wait p), frames⟩, [])
  | .waitTimeout => (s, ⟨some (.waitTimeout p), frames⟩, [])

/-- The next step of a call, if it can go on. -/
def go (s : Crowd) (frames : List Frame) : Stage → Option (Crowd × Thread × List Happening)
  | .complete p =>
    match (s.signals p).complete? with
    | none => some (s, ⟨none, frames⟩, [.completed p false])
    | some (ls, signal) => some (s.change p signal, ⟨some (.deliver p ls), frames⟩, [])
  | .deliver p (l :: ls) => some (s, ⟨none, .delivered p l ls :: frames⟩, [.began p l])
  | .deliver p [] =>
    some (s.change p (s.signals p).settle, ⟨none, frames⟩, [.completed p true])
  | .listen p l =>
    match (s.signals p).listen? l with
    | some signal => some (s.change p signal, ⟨none, frames⟩, [.kept p l, .listened p l])
    | none => some (s, ⟨some (.late p l), frames⟩, [])
  | .late p l => some (s, ⟨none, .late p l :: frames⟩, [.began p l])
  | .listened p l => some (s, ⟨none, frames⟩, [.listened p l])
  | .wait p => if (s.signals p).settled then some (s, ⟨none, frames⟩, [.waited p]) else none
  | .waitTimeout p =>
    if (s.signals p).settled then some (s, ⟨none, frames⟩, [.waitedTimeout p true]) else none

/-- An act of a thread, if it is possible: the signals, the thread, and what happens. -/
def act (s : Crowd) : Thread → Act → Option (Crowd × Thread × List Happening)
  | ⟨none, frames⟩, .call p c => some (s.begin frames p c)
  | ⟨some stage, frames⟩, .go => s.go frames stage
  | ⟨none, f :: frames⟩, .finish failed =>
    some (s, ⟨f.after failed, frames⟩, [.ended f.signal f.listener failed])
  | ⟨some (.waitTimeout p), frames⟩, .timeUp =>
    some (s, ⟨none, frames⟩, [.waitedTimeout p (s.signals p).settled])
  | _, _ => none

/-- The steps of a crowd. -/
inductive Step
  /-- A new thread begins. -/
  | fork
  /-- A thread does something. -/
  | act (thread : Nat) (a : Act)
  deriving DecidableEq, Repr

/-- One step, if it can be made. -/
def step (s : Crowd) : Step → Option (Crowd × List Entry)
  | .fork => some ({ s with threads := s.threads ++ [{}] }, [])
  | .act i a =>
    match s.threads[i]? with
    | none => none
    | some x =>
      match s.act x a with
      | none => none
      | some (t, y, events) =>
        some ({ t with threads := t.threads.set i y }, events.map (Entry.mk i))

/-- The states that can be reached, each with all that has happened on the way. -/
inductive Reachable : Crowd → List Entry → Prop
  | begin : Reachable {} []
  | step {s t : Crowd} {history events : List Entry} (label : Step) :
    Reachable s history → s.step label = some (t, events) → Reachable t (history ++ events)

end Crowd

end FrameLoop.Signal
