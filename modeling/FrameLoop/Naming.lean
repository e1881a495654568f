import FrameLoop.Text.Casing

/-
  Names of threads.  A thread is called after its pool, the number of the pool in the process and
  its own number in the pool; a pool may be called after a type.
-/

namespace FrameLoop

namespace Naming

/-- The text before the first opening angle bracket: a type without its arguments. -/
def withoutArguments (cs : List Char) : List Char := cs.takeWhile (· ≠ '<')

/-- The text behind the last double colon, or all of it. -/
def lastComponent : List Char → List Char → List Char
  | best, [] => best
  | best, [_] => best
  | best, a :: b :: cs => lastComponent (if a = ':' ∧ b = ':' then cs else best) (b :: cs)

/-- The name of a type as a name for a pool: its last component without its arguments, and the
first letter in lower case if the second one is.  A name that is an acronym stays as it is. -/
def poolOfType (name : String) : String :=
  let base := withoutArguments name.toList
  match lastComponent base base with
  | [] => "unknown"
  | [c] => String.ofList (Casing.lower c)
  | a :: b :: cs =>
    if Casing.isUpper a && Casing.isLower b then String.ofList (Casing.lower a ++ b :: cs)
    else String.ofList (a :: b :: cs)

end Naming

/-- The name of a thread, in its parts. -/
structure ThreadName where
  pool : String
  poolNumber : Nat
  number : Nat
  deriving DecidableEq, Repr

namespace ThreadName

/-- What the names of all threads of a pool begin with. -/
def stem (pool : String) (poolNumber : String) : String := pool ++ "-" ++ poolNumber ++ "-"

/-- The name as the system shows it. -/
def text (name : ThreadName) : String :=
  stem name.pool (toString name.poolNumber) ++ toString name.number

/-- A name with a zero character cannot be given to a thread. -/
def isUsable (name : ThreadName) : Bool := !name.pool.toList.contains '\x00'

end ThreadName

/-- A source of named threads: a pool, its number, and how many names it has given out. -/
structure ThreadPool where
  pool : String
  number : Nat
  given : Nat := 0
  deriving DecidableEq, Repr

namespace ThreadPool

/-- The next name, and the pool without it. -/
def next (p : ThreadPool) : ThreadName × ThreadPool :=
  ({ pool := p.pool, poolNumber := p.number, number := p.given + 1 },
    { p with given := p.given + 1 })

/-- The names of `count` threads started one after the other; none if the pool cannot name a
thread. -/
def start? : Nat → ThreadPool → Option (List ThreadName × ThreadPool)
  | 0, p => some ([], p)
  | count + 1, p =>
    let (name, p) := p.next
    if name.isUsable then
      (start? count p).map fun (names, p) => (name :: names, p)
    else none

end ThreadPool

/-- The pools of a process: each new one gets the next number. -/
structure PoolRegistry where
  opened : Nat := 0
  deriving DecidableEq, Repr

/-- Open a pool. -/
def PoolRegistry.openPool (r : PoolRegistry) (pool : String) : ThreadPool × PoolRegistry :=
  ({ pool, number := r.opened + 1 }, { opened := r.opened + 1 })

end FrameLoop
