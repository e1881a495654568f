import FrameLoop.Loop.Host

/-
  Sessions with one loop: requests from outside, one after the other, and what each of them shows.
-/

namespace FrameLoop.Loop

/-- A request from outside. -/
inductive Request (α : Type)
  /-- Submit a script. -/
  | spawn (body : List (Action α))
  /-- Submit a script that blocks the loop, and wait until it runs. -/
  | gate
  /-- Let the script at the gate pass. -/
  | openGate
  /-- Wait until all that is queued has run, and take the log. -/
  | sync
  /-- The same until the queue is empty. -/
  | settle
  /-- Take the log. -/
  | takeLog
  | stop (grace : Grace)
  /-- Wait for the end of the loop. -/
  | await (limit : Span)
  /-- Wait for the termination signal. -/
  | awaitSignal (limit : Span)
  | state
  | isDone
  | pending
  | inLoop
  /-- The loop as it is shown to people. -/
  | describe
  | sleep (time : Span)
  /-- Add a listener to the termination signal. -/
  | listen (label : α)
  /-- So many threads submit so many tasks each; how many of them ran. -/
  | flood (threads each : Nat)

/-- What a request shows. -/
inductive Shown (α : Type)
  | reply (r : Reply α)
  | log (entries : List (Entry α))

namespace Host

variable {α : Type}

/-- Submit so many empty scripts; how many were taken. -/
def flood : Nat → Host α → Nat × Host α
  | 0, h => (0, h)
  | k + 1, h =>
    let (taken, h) := h.submit (.ofActions [])
    let (n, h) := flood k h
    (n + (if taken.isSome then 1 else 0), h)

/-- Show the log, if the loop still takes tasks. -/
def showLog : Bool × Host α → Shown α × Host α
  | (false, h) => (.reply (Script.admission false), h)
  | (true, h) =>
    let (log, h) := h.takeLog
    (.log log, h)

/-- Answer a request. -/
def answer (h : Host α) : Request α → Shown α × Host α
  | .spawn body =>
    let (taken, h) := h.submit (.ofActions body)
    (.reply (Script.admission taken.isSome), h)
  | .gate =>
    match h.submit .atGate with
    | (none, h) => (.reply (Script.admission false), h)
    | (some _, h) => (.reply .accepted, h.waitFor isAtGate longWait)
  | .openGate =>
    (.reply .unit, if h.isAtGate then { h with gateOpen := true }.settle patience else h)
  | .sync => showLog h.sync
  | .settle => showLog (syncAll patience h)
  | .takeLog =>
    let (log, h) := h.takeLog
    (.log log, h)
  | .stop grace => (.reply (.truth true), h.stop grace)
  | .await limit =>
    let (b, h) := h.await limit
    (.reply (.truth b), h)
  | .awaitSignal limit =>
    let (b, h) := h.awaitSignal limit
    (.reply (.truth b), h)
  | .state => (.reply (Script.states h.machine.phase), h)
  | .isDone => (.reply (.truth h.signal.done), h)
  | .pending => (.reply (.number h.machine.queue.length), h)
  | .inLoop => (.reply (.truth false), h)
  | .describe => (.reply (.text h.text), h)
  | .sleep time => (.reply .unit, h.waitFor (fun _ => false) time)
  | .listen label => (.reply .unit, h.listen label)
  | .flood threads each =>
    let (taken, h) := flood (threads * each) h
    let (_, h) := h.sync
    (.reply (.number taken), h)

/-- Answer requests one after the other. -/
def answerAll : List (Request α) → Host α → List (Shown α) × Host α
  | [], h => ([], h)
  | request :: requests, h =>
    let (shown, h) := h.answer request
    let (rest, h) := answerAll requests h
    (shown :: rest, h)

/-- End a session: the gate is opened, and the loop is asked to stop at once, or given up; then
its end is awaited. -/
def conclude (byDrop : Bool) (h : Host α) : Host α :=
  let h := (h.answer .openGate).2
  let h := if byDrop then h.release else h.stop ⟨.zero, .ofSeconds 20⟩
  (h.awaitSignal longWait).2

end Host

/-- What a session shows: the answers, whether the loop came to its end, and the rest of the
log. -/
structure Session (α : Type) where
  shown : List (Shown α)
  gone : Bool
  log : List (Entry α)

/-- A whole session with a loop of a pool called `loop`. -/
def Session.run {α : Type} (park : Span) (byDrop : Bool) (requests : List (Request α)) :
    Session α :=
  let thread : ThreadName := { pool := "loop", poolNumber := 1, number := 1 }
  let (shown, h) := Host.answerAll requests (.begin thread park .bootedLongAgo)
  let h := h.conclude byDrop
  { shown, gone := h.isGone, log := h.log }

end FrameLoop.Loop
