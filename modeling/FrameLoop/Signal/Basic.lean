/-
  One-shot completion signals.  A signal is completed at most once.  Listeners that were there
  before are run by whoever completes it, in the order in which they came; a listener that comes
  later is run at once by whoever brings it.  Only when the listeners have run is the signal
  settled, and waiting on it ends.
-/

namespace FrameLoop

/-- A completion signal with listeners of type `ℓ`. -/
structure Signal (ℓ : Type) where
  /-- The signal has been completed. -/
  done : Bool := false
  /-- The listeners that were there at completion have run. -/
  settled : Bool := false
  /-- The listeners that wait for completion, the earliest first. -/
  listeners : List ℓ := []
  deriving DecidableEq, Repr

namespace Signal

variable {ℓ : Type}

/-- Complete the signal: the listeners to run, unless it was complete before. -/
def complete? (s : Signal ℓ) : Option (List ℓ × Signal ℓ) :=
  if s.done then none else some (s.listeners, { s with done := true, listeners := [] })

/-- The listeners have run. -/
def settle (s : Signal ℓ) : Signal ℓ := { s with settled := true }

/-- Keep a listener for later, unless the signal is complete and the listener is to run at
once. -/
def listen? (s : Signal ℓ) (listener : ℓ) : Option (Signal ℓ) :=
  if s.done then none else some { s with listeners := s.listeners ++ [listener] }

/-- The signal as it is shown to people. -/
def text (s : Signal ℓ) : String :=
  "Promise \x7b done: " ++ (if s.done then "true" else "false") ++ " \x7d"

theorem complete?_eq_none_iff (s : Signal ℓ) : s.complete? = none ↔ s.done = true := by
  unfold complete?
  split <;> simp_all

/-- Completing hands over all listeners and keeps none. -/
theorem complete?_eq_some_iff (s t : Signal ℓ) (ls : List ℓ) :
    s.complete? = some (ls, t) ↔
      s.done = false ∧ ls = s.listeners ∧ t = { s with done := true, listeners := [] } := by
  unfold complete?
  split <;> rename_i h
  · simp [h]
  · simp only [Option.some.injEq, Prod.mk.injEq, h, true_and]
    exact ⟨fun ⟨a, b⟩ => ⟨a.symm, b.symm⟩, fun ⟨a, b⟩ => ⟨a.symm, b.symm⟩⟩

theorem listen?_eq_none_iff (s : Signal ℓ) (l : ℓ) : s.listen? l = none ↔ s.done = true := by
  unfold listen?
  split <;> simp_all

/-- A listener is kept behind those that came before. -/
theorem listen?_eq_some_iff (s t : Signal ℓ) (l : ℓ) :
    s.listen? l = some t ↔
      s.done = false ∧ t = { s with listeners := s.listeners ++ [l] } := by
  unfold listen?
  split <;> rename_i h
  · simp [h]
  · simp only [Option.some.injEq, h, true_and]
    exact eq_comm

end Signal

end FrameLoop
