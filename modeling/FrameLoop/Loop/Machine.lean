import FrameLoop.Loop.Task

/-
  An event loop as an automaton.  Its queue, its counters and its flags are shared by the thread of
  the loop, which runs the tasks, and by any number of callers, which submit tasks and ask it to
  stop.  Each access to something shared is one step, and any order of steps can happen.

  The thread of the loop runs the tasks that are queued when it looks, rests when there are none,
  and, once asked to stop, checks after each batch whether it may.  Then it closes the queue, waits
  until no caller is between its look at the phase and its push, and runs what is left.
-/

namespace FrameLoop.Loop

/-- How far a submission is. -/
inductive SubmitStage
  /-- About to be counted among the submissions under way. -/
  | enter
  /-- About to look at the phase. -/
  | check
  /-- About to push the task. -/
  | push
  /-- The task is pushed; about to be counted off. -/
  | leave
  /-- The task was refused; about to be counted off. -/
  | retreat
  /-- About to wake the loop. -/
  | wake
  deriving DecidableEq, Repr

/-- A call that submits a task.  Calls are numbered as they begin. -/
structure Submission (τ : Type) where
  call : Nat
  task : τ
  stage : SubmitStage
  deriving DecidableEq, Repr

/-- How far a request to stop is. -/
inductive RequestStage
  /-- About to look whether the loop was asked before. -/
  | look
  /-- About to take the lock on the request, and to look again. -/
  | lock
  /-- With the lock, about to store the request. -/
  | store
  /-- About to wake the loop; `stored` if it is this request that was stored. -/
  | wake (stored : Bool)
  deriving DecidableEq, Repr

/-- A call from outside. -/
inductive Caller (τ : Type)
  | submission (s : Submission τ)
  | request (grace : Grace) (stage : RequestStage)
  deriving DecidableEq, Repr

/-- Why a batch of tasks is run. -/
inductive Batch
  /-- The loop goes round. -/
  | round
  /-- The loop, asked to stop with this grace, checks whether it may. -/
  | check (grace : Grace)
  /-- The queue is closed. -/
  | drain
  deriving DecidableEq, Repr

/-- Where the thread of the loop is. -/
inductive Place (τ : Type)
  /-- About to read how many tasks are queued. -/
  | count (b : Batch)
  /-- About to take a task, `left` more at most; `ran` if the batch has run one. -/
  | pop (b : Batch) (left : Nat) (ran : Bool)
  /-- A task is running. -/
  | body (b : Batch) (left : Nat) (call : Nat) (task : τ)
  /-- The running task submits a task. -/
  | submitting (b : Batch) (left : Nat) (call : Nat) (s : Submission τ) (next : Bool → τ)
  /-- The running task asks the loop to stop. -/
  | requesting (b : Batch) (left : Nat) (call : Nat) (grace : Grace) (stage : RequestStage)
    (next : τ)
  /-- The batch has run a task; about to read the clock. -/
  | stamp (b : Batch)
  /-- About to look at the phase. -/
  | readPhase
  /-- The request to stop is new; about to read the clock. -/
  | mark
  /-- About to read the grace of the request. -/
  | readGrace
  /-- About to compare the clock with the timeout. -/
  | compareTimeout (grace : Grace)
  /-- Nothing ran; about to compare the clock with the quiet period. -/
  | compareQuiet (grace : Grace)
  /-- About to look whether the queue is empty. -/
  | checkEmpty
  /-- About to rest. -/
  | park (limit : Span)
  | asleep (wakeAt : Instant)
  /-- About to close the queue. -/
  | close
  /-- About to look whether submissions are under way. -/
  | awaitSubmissions
  /-- About to make sure that the queue is empty. -/
  | verify
  /-- The queue is not empty, against all expectation. -/
  | failed
  /-- About to enter the last phase. -/
  | seal
  /-- About to complete the termination signal. -/
  | complete
  | stopped

/-- What everybody shares, where the thread of the loop is, and which calls are under way. -/
structure State (τ : Type) where
  phase : Phase := .started
  queue : List (Nat × τ) := []
  /-- Submissions between their first step and the step that counts them off. -/
  submitters : Nat := 0
  grace : Option Grace := none
  /-- A request to stop holds the lock on the grace. -/
  locked : Bool := false
  /-- A wake-up of the loop is pending. -/
  token : Bool := false
  /-- The number of the termination signal. -/
  signal : Nat := 0
  /-- The termination signal is complete. -/
  done : Bool := false
  /-- The calls that have begun. -/
  calls : Nat := 0
  callers : List (Caller τ) := []
  place : Place τ := .count .round
  /-- The last reading of the clock. -/
  clock : Instant
  /-- When the loop began, last saw a task run, or saw the request to stop. -/
  lastRun : Instant
  /-- When the loop saw the request to stop. -/
  marked : Option Instant := none

/-- What happens in a run. -/
inductive Event
  /-- The task of the call was pushed. -/
  | pushed (call : Nat)
  /-- The call returned, its task taken. -/
  | accepted (call : Nat)
  /-- The call returned, its task refused. -/
  | rejected (call : Nat)
  /-- The task of the call began. -/
  | started (call : Nat)
  /-- The task of the call ended; `failed` if it panicked. -/
  | finished (call : Nat) (failed : Bool)
  /-- The loop read the clock after a batch that had run a task. -/
  | ranBatch (now : Instant)
  /-- A request to stop was stored. -/
  | requested (grace : Grace)
  /-- A request to stop returned the signal with this number. -/
  | answered (signal : Nat)
  /-- The loop looked at the phase. -/
  | looked (phase : Phase)
  /-- The loop saw the request for the first time. -/
  | noticed (now : Instant)
  /-- The loop entered a phase. -/
  | entered (phase : Phase)
  /-- The termination signal was completed. -/
  | completed
  deriving DecidableEq, Repr

/-- What a step of a call leads to: its next stage, or its return with a result. -/
inductive Progress (α β : Type)
  | next (stage : α)
  | returned (result : β)

/-- A state with the events that led to it and something to go on with. -/
structure Stepped (τ : Type) (α : Type) where
  state : State τ
  events : List Event := []
  value : α

/-- The longest rest while the quiet period lasts. -/
def longestQuietRest : Span := .ofMillis 100

/-- The shortest one. -/
def shortestQuietRest : Span := .ofMillis 1

namespace State

variable {τ : Type}

/-- A loop that has just begun. -/
def begin (now : Instant) : State τ := { clock := now, lastRun := now }

/-- What can be seen of the loop. -/
def view (s : State τ) : View := ⟨s.phase, s.queue.length, s.done⟩

/-- A step of a submission, by a foreign thread or by the loop itself; only the former wakes the
loop. -/
def stepSubmission (s : State τ) (foreign : Bool) (c : Submission τ) :
    Stepped τ (Progress SubmitStage Bool) :=
  match c.stage with
  | .enter => { state := { s with submitters := s.submitters + 1 }, value := .next .check }
  | .check => { state := s, value := .next (if s.phase.isClosed then .retreat else .push) }
  | .push =>
    { state := { s with queue := s.queue ++ [(c.call, c.task)] }
      events := [.pushed c.call]
      value := .next .leave }
  | .leave =>
    let s := { s with submitters := s.submitters - 1 }
    if foreign then { state := s, value := .next .wake }
    else { state := s, events := [.accepted c.call], value := .returned true }
  | .retreat =>
    { state := { s with submitters := s.submitters - 1 }
      events := [.rejected c.call]
      value := .returned false }
  | .wake =>
    { state := { s with token := true }, events := [.accepted c.call], value := .returned true }

/-- A step of a request to stop.  Under the lock, the first request is stored and changes
the phase; the others find that it has changed.  The lock does not keep the thread of the loop from
changing the phase between the look and the store.  All return the termination signal. -/
def stepRequest (s : State τ) (grace : Grace) (stage : RequestStage) :
    Stepped τ (Progress RequestStage Unit) :=
  match stage with
  | .look => { state := s, value := if s.phase.isStopping then .returned () else .next .lock }
  | .lock =>
    if s.locked then { state := s, value := .next .lock }
    else if s.phase.isStopping then { state := s, value := .next (.wake false) }
    else { state := { s with locked := true }, value := .next .store }
  | .store =>
    { state := { s with grace := some grace.stored, phase := .stopping, locked := false }
      events := [.requested grace.stored, .entered .stopping]
      value := .next (.wake true) }
  | .wake _ =>
    { state := { s with token := true }, events := [.answered s.signal], value := .returned () }

/-- Where the loop goes when a batch is over. -/
def batchOver (b : Batch) (ran : Bool) : Place τ :=
  match b, ran with
  | .round, true => .stamp .round
  | .round, false => .readPhase
  | .check g, true => .stamp (.check g)
  | .check g, false => .compareQuiet g
  | .drain, true => .count .drain
  | .drain, false => .verify

/-- The next act of the running task. -/
def stepBody (s : State τ) (b : Batch) (left call : Nat) : Op τ → State τ × List Event
  | .finish => ({ s with place := .pop b left true }, [.finished call false])
  | .panic => ({ s with place := .pop b left true }, [.finished call true])
  | .submit task next =>
    ({ s with
        calls := s.calls + 1
        place := .submitting b left call ⟨s.calls, task, .enter⟩ next }, [])
  | .stop grace next => ({ s with place := .requesting b left call grace .lock next }, [])
  | .look next => ({ s with place := .body b left call (next s.view) }, [])
  | .skip next => ({ s with place := .body b left call next }, [])

/-- A step of the thread of the loop, the clock reading `now`; none while it is asleep. -/
def stepLoop (code : Code τ) (parkTimeout : Span) (now : Instant) (s : State τ) :
    Option (State τ × List Event) :=
  match s.place with
  | .count b => some ({ s with place := .pop b s.queue.length false }, [])
  | .pop b 0 ran => some ({ s with place := batchOver b ran }, [])
  | .pop b (left + 1) ran =>
    match s.queue with
    | [] => some ({ s with place := batchOver b ran }, [])
    | (call, task) :: queue =>
      some ({ s with queue, place := .body b left call task }, [.started call])
  | .body b left call task => some (s.stepBody b left call (code task))
  | .submitting b left call c next =>
    let r := s.stepSubmission false c
    let place := match r.value with
      | .next stage => .submitting b left call { c with stage } next
      | .returned accepted => .body b left call (next accepted)
    some ({ r.state with place }, r.events)
  | .requesting b left call grace stage next =>
    let r := s.stepRequest grace stage
    let place := match r.value with
      | .next stage => .requesting b left call grace stage next
      | .returned () => .body b left call next
    some ({ r.state with place }, r.events)
  | .stamp b =>
    let place := match b with
      | .round => .readPhase
      | .check g => if g.quiet.isZero then .close else .count .round
      | .drain => .count .drain
    some ({ s with lastRun := now, place }, [.ranBatch now])
  | .readPhase =>
    let place :=
      if s.phase.isStopping then (if s.marked.isSome then .readGrace else .mark)
      else .checkEmpty
    some ({ s with place }, [.looked s.phase])
  | .mark =>
    some ({ s with marked := some now, lastRun := now, place := .readGrace }, [.noticed now])
  | .readGrace =>
    let place := if s.locked then .readGrace else .compareTimeout (s.grace.getD .none)
    some ({ s with place }, [])
  | .compareTimeout g =>
    let place := if g.timeout < now.since (s.marked.getD now) then .close else .count (.check g)
    some ({ s with place }, [])
  | .compareQuiet g =>
    let idle := now.since s.lastRun
    let place :=
      if idle ≤ g.quiet then
        .park (max (min (g.quiet - idle) longestQuietRest) shortestQuietRest)
      else .close
    some ({ s with place }, [])
  | .checkEmpty =>
    some ({ s with place := if s.queue.isEmpty then .park parkTimeout else .count .round }, [])
  | .park limit =>
    if s.token then some ({ s with token := false, place := .count .round }, [])
    else some ({ s with place := .asleep (now.after limit) }, [])
  | .asleep wakeAt =>
    if s.token then some ({ s with token := false, place := .count .round }, [])
    else if wakeAt ≤ now then some ({ s with place := .count .round }, [])
    else none
  | .close =>
    some ({ s with phase := .closed, place := .awaitSubmissions }, [.entered .closed])
  | .awaitSubmissions =>
    some ({ s with place := if s.submitters = 0 then .count .drain else .awaitSubmissions }, [])
  | .verify => some ({ s with place := if s.queue.isEmpty then .seal else .failed }, [])
  | .seal => some ({ s with phase := .gone, place := .complete }, [.entered .gone])
  | .complete => some ({ s with done := true, place := .stopped }, [.completed])
  | .failed => none
  | .stopped => none

/-- A step of the `i`th call under way; a call that returns is gone. -/
def stepCaller (s : State τ) (i : Nat) : Option (State τ × List Event) :=
  match s.callers[i]? with
  | none => none
  | some (.submission c) =>
    let r := s.stepSubmission true c
    let callers := match r.value with
      | .next stage => s.callers.set i (.submission { c with stage })
      | .returned _ => s.callers.eraseIdx i
    some ({ r.state with callers }, r.events)
  | some (.request grace stage) =>
    let r := s.stepRequest grace stage
    let callers := match r.value with
      | .next stage => s.callers.set i (.request grace stage)
      | .returned () => s.callers.eraseIdx i
    some ({ r.state with callers }, r.events)

end State

/-- The steps of a loop and of those who call it. -/
inductive Step (τ : Type)
  /-- A thread calls to submit a task. -/
  | submit (task : τ)
  /-- A thread calls to ask the loop to stop. -/
  | request (grace : Grace)
  /-- The last handle on the loop is given up: unless it was asked before, the loop is asked to
  stop at once. -/
  | release
  /-- The `i`th call under way does its next step. -/
  | caller (i : Nat)
  /-- The thread of the loop does its next step, the clock reading `now`. -/
  | loop (now : Instant)
  /-- The thread of the loop wakes up for no reason. -/
  | rouse

/-- One step, if it can be made. -/
def step {τ : Type} (code : Code τ) (parkTimeout : Span) (s : State τ) :
    Step τ → Option (State τ × List Event)
  | .submit task =>
    some ({ s with
      calls := s.calls + 1
      callers := s.callers ++ [.submission ⟨s.calls, task, .enter⟩] }, [])
  | .request grace => some ({ s with callers := s.callers ++ [.request grace .lock] }, [])
  | .release => some ({ s with callers := s.callers ++ [.request .none .look] }, [])
  | .caller i => s.stepCaller i
  | .loop now => if s.clock ≤ now then s.stepLoop code parkTimeout now |>.map fun (t, es) =>
      ({ t with clock := now }, es) else none
  | .rouse =>
    match s.place with
    | .asleep _ => some ({ s with place := .count .round }, [])
    | _ => none

/-- The states that can be reached, each with all that has happened on the way. -/
inductive Reachable {τ : Type} (code : Code τ) (parkTimeout : Span) (now : Instant) :
    State τ → List Event → Prop
  | begin : Reachable code parkTimeout now (.begin now) []
  | step {s t : State τ} {history events : List Event} (label : Step τ) :
    Reachable code parkTimeout now s history → step code parkTimeout s label = some (t, events) →
    Reachable code parkTimeout now t (history ++ events)

end FrameLoop.Loop
