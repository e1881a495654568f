/-
  What can go wrong with executors and groups of them, and the text shown to people.
-/

namespace FrameLoop

/-- Why an executor, or a group of executors, could not be created or used. -/
inductive GroupError
  /-- The executor takes no more tasks. -/
  | rejected
  /-- The system gave no thread. -/
  | spawn (reason : String)
  /-- A child of a group could not be created. -/
  | child (index : Nat) (source : GroupError)
  /-- An argument was refused. -/
  | invalid (reason : String)
  /-- An error that comes from elsewhere. -/
  | foreign (text : String)
  deriving DecidableEq, Repr

namespace GroupError

/-- The text shown to people; the text of a child's error is part of it. -/
def message : GroupError → String
  | rejected => "event executor terminated"
  | spawn reason => "failed to spawn event loop thread: " ++ reason
  | child index source =>
    "failed to create child event loop " ++ toString index ++ ": " ++ source.message
  | invalid reason => "invalid configuration: " ++ reason
  | foreign text => text

/-- The error is the one of a group whose child could not be created. -/
def isOfChild : GroupError → Bool
  | child _ _ => true
  | _ => false

/-- The texts of the errors behind this one, the nearest first. -/
def sources : GroupError → List String
  | spawn reason => [reason]
  | child _ source => source.message :: source.sources
  | _ => []

end GroupError

end FrameLoop
