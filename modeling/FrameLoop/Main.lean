import FrameLoop.Echo.Server

/-
  The echo server for one connection, which is standard input and output.  The environment tunes
  it; a setting that cannot be used ends the program at once.
-/

namespace FrameLoop.Echo

/-- The variables that the program reads. -/
def settingNames : List String :=
  ["WEFT_MAX_FRAME_LENGTH", "WEFT_STRIP_DELIMITER", "WEFT_FAIL_FAST", "WEFT_NUM_LOOPS",
    "WEFT_POOL_NAME", "WEFT_QUIET_PERIOD_MS", "WEFT_SHUTDOWN_TIMEOUT_MS", "WEFT_PARK_TIMEOUT_MS",
    "WEFT_STACK_SIZE"]

/-- The environment of the program, as far as it is read. -/
def environment : IO Environment := do
  let mut env : Environment := []
  for name in settingNames do
    if let some value ← IO.getEnv name then
      env := env ++ [(name, encode value)]
  return env

/-- Answer chunks as they come in, until the input ends. -/
partial def converse (input output : IO.FS.Stream) (c : Connection) : IO Unit := do
  let chunk ← input.read (.ofNat readSize)
  if chunk.isEmpty then return
  let c := c.receive chunk.toList
  output.write ⟨c.sent.toArray⟩
  output.flush
  converse input output { c with sent := [] }

end FrameLoop.Echo

open FrameLoop Echo in
/-- The program.  One loop is enough for one connection, so the machine counts as having one
core. -/
def main : IO UInt32 := do
  let settings := Settings.ofEnvironment 1 (← environment)
  match settings.check, Connection.accept settings.policy 1 with
  | .error refusal, _ =>
    IO.eprintln refusal.message
    return refusal.exitCode.toUInt32
  | _, .error error =>
    IO.eprintln error.message
    return 1
  | .ok (), .ok connection =>
    converse (← IO.getStdin) (← IO.getStdout) connection
    return 0
