import FrameLoop.Signal.Basic
import FrameLoop.Span

/-
  Programs over completion signals.  A program is a list of steps; the body of a listener is again
  such a list, so that a completion can set off further completions, to any depth.  A panic ends
  the listener in which it happens, or the step at the top that led to it; it goes no further than
  the nearest completion that is running listeners.

  `perform` runs one step.  Its fuel is the weight of what is left to run: each step, and each
  listener that is registered, is paid for once.
-/

namespace FrameLoop.Signal

/-- A step of a program over signals, which are known by the numbers of their handles.  Labels and
logged values are of type `α`. -/
inductive Step (α : Type)
  /-- A fresh signal. -/
  | new
  /-- A fresh signal, asked for as the default of its type. -/
  | default
  /-- A second handle. -/
  | clone (handle : Nat)
  /-- Try to complete the signal. -/
  | complete (handle : Nat)
  /-- Whether the signal has been completed. -/
  | isDone (handle : Nat)
  /-- Wait until the signal is settled. -/
  | wait (handle : Nat)
  /-- Wait that long at most. -/
  | waitTimeout (handle : Nat) (limit : Span)
  /-- Whether two handles stand for the same signal. -/
  | same (handle other : Nat)
  /-- The signal as it is shown to people. -/
  | describe (handle : Nat)
  /-- Log a value. -/
  | log (value : α)
  /-- Fail. -/
  | panic
  /-- So many threads complete the signal; how many of them were the ones to complete it. -/
  | race (handle threads : Nat)
  /-- Another thread completes the signal while this one waits for it. -/
  | waitFor (handle : Nat)
  /-- Add a listener. -/
  | listen (handle : Nat) (label : α) (body : List (Step α))

/-- What a step answers. -/
inductive Answer (α : Type)
  | unit
  | number (n : Nat)
  | truth (b : Bool)
  | text (s : String)
  | value (x : α)
  | waited
  deriving DecidableEq, Repr

/-- How a piece of a program ends. -/
inductive Exit
  /-- It ran to its end. -/
  | finished
  /-- It failed. -/
  | panicked
  /-- It waits for something that nobody else will do. -/
  | blocked
  deriving DecidableEq, Repr

/-- A listener with its number, in the order of registration. -/
structure Listener (α : Type) where
  number : Nat
  label : α
  body : List (Step α)

/-- What happens in a run. -/
inductive Moment (α : Type)
  /-- A listener was handed to a signal; `late` if the signal was complete already. -/
  | registered (listener signal : Nat) (late : Bool)
  /-- A listener begins. -/
  | started (listener : Nat) (label : α)
  /-- A step of the listener with this label was answered. -/
  | answered (label : α) (step : Step α) (answer : Answer α)
  /-- A listener ends. -/
  | ended (listener : Nat) (exit : Exit)
  /-- Somebody tried to complete a signal; `first` if it was the one to complete it. -/
  | completed (signal : Nat) (first : Bool)

/-- The signals, the handles on them, and what has happened so far. -/
structure Store (α : Type) where
  signals : List (Signal (Listener α)) := []
  handles : List Nat := []
  registered : Nat := 0
  history : List (Moment α) := []

mutual

/-- What it takes at most to run a step, with the listener that it may register. -/
def Step.weight {α : Type} : Step α → Nat
  | .listen _ _ body => 4 + weights body
  | _ => 3

/-- What it takes at most to run several steps. -/
def weights {α : Type} : List (Step α) → Nat
  | [] => 0
  | step :: steps => step.weight + weights steps

end

namespace Store

variable {α : Type}

/-- The store with one more moment behind it. -/
def note (st : Store α) (m : Moment α) : Store α := { st with history := st.history ++ [m] }

/-- The signal behind a handle, with its position. -/
def at? (st : Store α) (handle : Nat) : Option (Nat × Signal (Listener α)) := do
  let i ← st.handles[handle]?
  let s ← st.signals[i]?
  return (i, s)

/-- Put a signal in its place. -/
def put (st : Store α) (i : Nat) (s : Signal (Listener α)) : Store α :=
  { st with signals := st.signals.set i s }

/-- A fresh signal, and its handle. -/
def create (st : Store α) : Nat × Store α :=
  (st.handles.length,
    { st with signals := st.signals ++ [{}], handles := st.handles ++ [st.signals.length] })

/-- What it takes at most to run these listeners. -/
def weightOf (ls : List (Listener α)) : Nat := ls.foldr (fun l n => 2 + weights l.body + n) 0

/-- What it takes at most to run the listeners that wait. -/
def weight (st : Store α) : Nat := st.signals.foldr (fun s n => weightOf s.listeners + n) 0

end Store

/-- The answer of a step, or the exit that it led to. -/
abbrev Reply (α : Type) := Except Exit (Answer α)

mutual

/-- Run one step. -/
def perform {α : Type} : Nat → Step α → Store α → Reply α × Store α
  | 0, _, st => (.error .blocked, st)
  | fuel + 1, step, st =>
    match step with
    | .new | .default =>
      let (h, st) := st.create
      (.ok (.number h), st)
    | .clone h =>
      match st.handles[h]? with
      | none => (.error .panicked, st)
      | some i => (.ok (.number st.handles.length), { st with handles := st.handles ++ [i] })
    | .complete h => completeAt fuel h st
    | .isDone h =>
      match st.at? h with
      | none => (.error .panicked, st)
      | some (_, s) => (.ok (.truth s.done), st)
    | .wait h =>
      match st.at? h with
      | none => (.error .panicked, st)
      | some (_, s) => (if s.settled then .ok .waited else .error .blocked, st)
    | .waitTimeout h _ =>
      match st.at? h with
      | none => (.error .panicked, st)
      | some (_, s) => (.ok (.truth s.settled), st)
    | .same h k =>
      match st.handles[h]?, st.handles[k]? with
      | some i, some j => (.ok (.truth (i == j)), st)
      | _, _ => (.error .panicked, st)
    | .describe h =>
      match st.at? h with
      | none => (.error .panicked, st)
      | some (_, s) => (.ok (.text s.text), st)
    | .log x => (.ok (.value x), st)
    | .panic => (.error .panicked, st)
    | .race h threads =>
      if threads = 0 then (.ok (.number 0), st)
      else
        match completeAt fuel h st with
        | (.ok (.truth true), st) => (.ok (.number 1), st)
        | (.ok _, st) => (.ok (.number 0), st)
        | other => other
    | .waitFor h =>
      match completeAt fuel h st with
      | (.ok answer, st) =>
        match st.at? h with
        | some (_, { settled := true, .. }) => (.ok answer, st)
        | _ => (.error .blocked, st)
      | other => other
    | .listen h label body =>
      match st.at? h with
      | none => (.error .panicked, st)
      | some (i, s) =>
        let l : Listener α := { number := st.registered, label, body }
        let st := { st with registered := st.registered + 1 }
        match s.listen? l with
        | some s => (.ok .unit, (st.note (.registered l.number i false)).put i s)
        | none =>
          match runListener fuel l (st.note (.registered l.number i true)) with
          | (.finished, st) => (.ok .unit, st)
          | (exit, st) => (.error exit, st)

/-- Try to complete the signal behind a handle; whoever is the first runs the listeners. -/
def completeAt {α : Type} : Nat → Nat → Store α → Reply α × Store α
  | 0, _, st => (.error .blocked, st)
  | fuel + 1, h, st =>
    match st.at? h with
    | none => (.error .panicked, st)
    | some (i, s) =>
      match s.complete? with
      | none => (.ok (.truth false), st.note (.completed i false))
      | some (ls, s) =>
        match runListeners fuel ls ((st.note (.completed i true)).put i s) with
        | (false, st) => (.error .blocked, st)
        | (true, st) =>
          match st.signals[i]? with
          | some s => (.ok (.truth true), st.put i s.settle)
          | none => (.ok (.truth true), st)

/-- Run listeners one after the other, whether they fail or not; `false` if one never ends. -/
def runListeners {α : Type} : Nat → List (Listener α) → Store α → Bool × Store α
  | 0, _, st => (false, st)
  | _ + 1, [], st => (true, st)
  | fuel + 1, l :: ls, st =>
    match runListener fuel l st with
    | (.blocked, st) => (false, st)
    | (_, st) => runListeners fuel ls st

/-- Run one listener from its beginning to its end. -/
def runListener {α : Type} : Nat → Listener α → Store α → Exit × Store α
  | 0, _, st => (.blocked, st)
  | fuel + 1, l, st =>
    let (exit, st) := runBody fuel l.label l.body (st.note (.started l.number l.label))
    (exit, st.note (.ended l.number exit))

/-- Run the steps of a listener, and log their answers. -/
def runBody {α : Type} : Nat → α → List (Step α) → Store α → Exit × Store α
  | 0, _, _, st => (.blocked, st)
  | _ + 1, _, [], st => (.finished, st)
  | fuel + 1, label, step :: steps, st =>
    match perform fuel step st with
    | (.ok answer, st) => runBody fuel label steps (st.note (.answered label step answer))
    | (.error exit, st) => (exit, st)

end

/-- Run one step with as much fuel as it can use. -/
def Step.run {α : Type} (step : Step α) (st : Store α) : Reply α × Store α :=
  perform (step.weight + st.weight) step st

/-- What a step at the top shows: its reply, and what has happened in it. -/
structure Shown (α : Type) where
  reply : Reply α
  moments : List (Moment α)

/-- Run a program from an empty store; what each step shows. -/
def runProgram {α : Type} : List (Step α) → Store α → List (Shown α)
  | [], _ => []
  | step :: steps, st =>
    let (reply, after) := step.run { st with history := [] }
    { reply, moments := after.history } :: runProgram steps after

end FrameLoop.Signal
