import FrameLoop.Parker.Flag
import FrameLoop.Parker.Word

/-
  The signal that every parker is meant to be: one token, which is there or not.  Waking sets it,
  resting takes it, and a rest that ends without it finds that it is not there.
-/

namespace FrameLoop

/-- What is done with the token. -/
inductive TokenAct
  /-- The resting thread calls. -/
  | park
  /-- The rest takes the token, and answers `true`. -/
  | take
  /-- The rest ends without the token, and answers `false`. -/
  | giveUp
  /-- Another thread calls to wake it. -/
  | unpark
  /-- A thread that has called to wake it sets the token. -/
  | set
  deriving DecidableEq, Repr

/-- Where the resting thread is, as far as the token is concerned. -/
inductive Rest
  | idle
  | resting
  | answered (woken : Bool)
  deriving DecidableEq, Repr

/-- The token, and those who use it. -/
structure TokenState where
  /-- The token is there. -/
  token : Bool := false
  rest : Rest := .idle
  /-- The calls to wake that have yet to set the token. -/
  unset : Nat := 0
  deriving DecidableEq, Repr

namespace TokenState

/-- The state behind an act, if it is possible. -/
def act (s : TokenState) : TokenAct → Option TokenState
  | .park => if s.rest = .resting then none else some { s with rest := .resting }
  | .take =>
    if s.rest = .resting ∧ s.token = true then
      some { s with token := false, rest := .answered true }
    else none
  | .giveUp =>
    if s.rest = .resting ∧ s.token = false then some { s with rest := .answered false } else none
  | .unpark => some { s with unset := s.unset + 1 }
  | .set => if s.unset = 0 then none else some { s with token := true, unset := s.unset - 1 }

/-- The same, the act being told. -/
def step (s : TokenState) (a : TokenAct) : Option (TokenState × List TokenAct) :=
  (s.act a).map fun t => (t, [a])

/-- What the last rest answered. -/
def answer? (s : TokenState) : Option Bool :=
  match s.rest with
  | .answered woken => some woken
  | _ => none

end TokenState

/-- Parkers whose steps are acts of a token. -/
class TokenParker (σ : Type) extends Parker σ where
  /-- What the parker is for those who use it. -/
  view : σ → TokenState
  /-- What a step does with the token. -/
  acts : σ → ParkerStep → List TokenAct
  /-- A thread is about to wake the sleeper. -/
  isWaking : σ → Bool

/-- A step of a parker, with what it does with the token. -/
def TokenParker.move {σ : Type} [TokenParker σ] (s : σ) (label : ParkerStep) :
    Option (σ × List TokenAct) :=
  (Parker.step s label).map fun t => (t, acts s label)

/-- A call of a program that uses a parker. -/
inductive ParkerCall
  | park
  | unpark
  deriving DecidableEq, Repr

/-- What the rests of a program answer, its calls being made one after the other. -/
def Parker.answers {σ : Type} [Parker σ] : List ParkerCall → σ → List Bool
  | [], _ => []
  | .park :: calls, s => (park s).1 :: answers calls (park s).2
  | .unpark :: calls, s => answers calls (unpark s)

/-- What they answer if there is one token: whether it is there. -/
def tokenAnswers : List ParkerCall → Bool → List Bool
  | [], _ => []
  | .park :: calls, token => token :: tokenAnswers calls false
  | .unpark :: calls, _ => tokenAnswers calls true

namespace Bell

/-- The calls to wake that have yet to set the token. -/
def unset (b : Bell) : Nat := b.wakers.countP (· = .mark)

/-- What the bell is for those who use it, when the one who rests is there. -/
def view (b : Bell) (rest : Rest) : TokenState := ⟨b.pending, rest, b.unset⟩

/-- What a step of a waking thread does with the token. -/
def acts (b : Bell) (i : Nat) : List TokenAct :=
  if b.wakers[i]? = some .mark then [.set] else []

end Bell

/-- Where the resting thread is, as far as the token is concerned. -/
def WordStage.rest : WordStage → Rest
  | idle => .idle
  | returned woken => .answered woken
  | _ => .resting

/-- Where the resting thread is, as far as the token is concerned. -/
def FlagStage.rest : FlagStage → Rest
  | idle => .idle
  | returned woken => .answered woken
  | _ => .resting

namespace WordParker

/-- The step of the resting thread that reads the word and clears it. -/
def swapActs (s : WordParker) : List TokenAct := if s.pending then [.take] else [.giveUp]

/-- What a step does with the token. -/
def acts (s : WordParker) : ParkerStep → List TokenAct
  | .park => [.park]
  | .unpark => [.unpark]
  | .rouse _ => []
  | .proceed =>
    match s.stage with
    | .take => if s.pending then s.swapActs else []
    | .retake => s.swapActs
    | _ => []
  | .waker i => s.toBell.acts i

instance : TokenParker WordParker where
  view s := s.toBell.view s.stage.rest
  acts := acts
  isWaking s := decide (.wake ∈ s.wakers)

end WordParker

namespace FlagParker

/-- The look of the resting thread at the flag. -/
def lookActs (s : FlagParker) (timedOut : Bool) : List TokenAct :=
  if s.pending then [.take] else if timedOut then [.giveUp] else []

/-- What a step does with the token. -/
def acts (s : FlagParker) : ParkerStep → List TokenAct
  | .park => [.park]
  | .unpark => [.unpark]
  | .rouse _ => []
  | .proceed =>
    match s.stage with
    | .enter => s.lookActs false
    | .awake timedOut => s.lookActs timedOut
    | _ => []
  | .waker i => s.toBell.acts i

instance : TokenParker FlagParker where
  view s := s.toBell.view s.stage.rest
  acts := acts
  isWaking s := decide (.wake ∈ s.wakers)

end FlagParker

end FrameLoop
