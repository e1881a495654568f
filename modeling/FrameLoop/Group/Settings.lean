import FrameLoop.Group.Error
import FrameLoop.Setting

/-
  The configuration of a group of event loops: how many there are, what their threads are called,
  and how long they rest and take to stop.
-/

namespace FrameLoop

/-- Why a configuration was refused. -/
inductive SettingsError
  | invalidValue (reason : String)
  deriving DecidableEq, Repr

/-- The text shown to people. -/
def SettingsError.message : SettingsError → String
  | invalidValue reason => "Invalid config: " ++ reason

/-- The configuration of a group. -/
structure GroupSettings where
  /-- How many loops there are. -/
  loops : Nat
  /-- The name of the pool that the threads belong to. -/
  pool : String
  /-- How long a loop must have been idle before it stops. -/
  quiet : Span
  /-- How long a loop may take to stop. -/
  timeout : Span
  /-- The longest rest of an idle loop. -/
  park : Span
  /-- The stack of a thread in bytes; 0 leaves it to the system. -/
  stack : Nat
  deriving DecidableEq, Repr

namespace GroupSettings

def standardPool : String := "eventLoopGroup"

def standardQuietMillis : Nat := 2000

def standardTimeoutMillis : Nat := 15000

def standardParkMillis : Nat := 100

def standardStack : Nat := 0

/-- The most loops that a group may have. -/
def mostLoops : Nat := 1024

/-- Two loops for each core of the machine, as far as a group may have them. -/
def standardLoops (cores : Nat) : Nat := min (cores * 2) mostLoops

/-- The standard configuration for a machine with so many cores. -/
def standard (cores : Nat) : GroupSettings where
  loops := standardLoops cores
  pool := standardPool
  quiet := .ofMillis standardQuietMillis
  timeout := .ofMillis standardTimeoutMillis
  park := .ofMillis standardParkMillis
  stack := standardStack

/-- The standard configuration, as far as the environment does not overrule it. -/
def ofEnvironment (cores : Nat) (env : Environment) : GroupSettings where
  loops := env.natural 64 "WEFT_NUM_LOOPS" (standardLoops cores)
  pool := env.string "WEFT_POOL_NAME" standardPool
  quiet := env.millis "WEFT_QUIET_PERIOD_MS" standardQuietMillis
  timeout := env.millis "WEFT_SHUTDOWN_TIMEOUT_MS" standardTimeoutMillis
  park := env.millis "WEFT_PARK_TIMEOUT_MS" standardParkMillis
  stack := env.natural 64 "WEFT_STACK_SIZE" standardStack

/-- Whether a group can be built; the first fault counts. -/
def check (c : GroupSettings) : Except SettingsError Unit :=
  if c.loops = 0 then .error (.invalidValue "num_loops must be > 0")
  else if mostLoops < c.loops then .error (.invalidValue "num_loops must be <= 1024")
  else if c.pool.isEmpty then .error (.invalidValue "pool_name must not be empty")
  else if c.timeout < c.quiet then
    .error (.invalidValue "quiet_period must be <= shutdown_timeout")
  else if c.park.isZero then .error (.invalidValue "park_timeout must be > 0")
  else .ok ()

/-- The same, as building the group reports it. -/
def approve (c : GroupSettings) : Except GroupError Unit :=
  match c.check with
  | .ok () => .ok ()
  | .error (.invalidValue reason) => .error (.invalid reason)

end GroupSettings

end FrameLoop
