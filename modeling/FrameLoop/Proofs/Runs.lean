/-
  Runs of things that go on step by step, where each step may be impossible and tells what happens
  in it.
-/

namespace FrameLoop

/-- What can be done from one state to another, and what happens on the way. -/
inductive Runs {σ τ ε : Type} (step : σ → τ → Option (σ × List ε)) : σ → List ε → σ → Prop
  | refl (s : σ) : Runs step s [] s
  | step {s t u : σ} {events more : List ε} (label : τ) :
    step s label = some (t, events) → Runs step t more u → Runs step s (events ++ more) u

/-- Follow given steps, all of which have to be possible. -/
def follow {σ τ ε : Type} (step : σ → τ → Option (σ × List ε)) :
    σ → List ε → List τ → Option (σ × List ε)
  | s, history, [] => some (s, history)
  | s, history, label :: labels =>
    match step s label with
    | none => none
    | some (t, events) => follow step t (history ++ events) labels

variable {σ τ ε : Type} {step : σ → τ → Option (σ × List ε)} {s t u : σ} {events more : List ε}

theorem Runs.trans (h : Runs step s events t) (h' : Runs step t more u) :
    Runs step s (events ++ more) u := by
  induction h with
  | refl s => exact h'
  | step label hstep _ ih =>
    rw [List.append_assoc]
    exact .step label hstep (ih h')

/-- What every step keeps holds at the end. -/
theorem Runs.keeps {P : σ → List ε → Prop}
    (hkeeps : ∀ {s t history events} label, P s history → step s label = some (t, events) →
      P t (history ++ events))
    {history : List ε} (hrun : Runs step s events t) (h : P s history) :
    P t (history ++ events) := by
  induction hrun generalizing history with
  | refl s => rwa [List.append_nil]
  | step label hstep _ ih =>
    rw [← List.append_assoc]
    exact ih (hkeeps label h hstep)

theorem follow_runs {labels : List τ} {history : List ε} {last : σ × List ε}
    (hf : follow step s history labels = some last) :
    ∃ events, Runs step s events last.1 ∧ last.2 = history ++ events := by
  induction labels generalizing s history with
  | nil => cases hf; exact ⟨[], .refl s, (List.append_nil _).symm⟩
  | cons label labels ih =>
    simp only [follow] at hf
    cases hstep : step s label with
    | none => rw [hstep] at hf; cases hf
    | some next =>
      rw [hstep] at hf
      obtain ⟨events, hruns, hlast⟩ := ih hf
      exact ⟨next.2 ++ events, .step label hstep hruns, by rw [hlast, List.append_assoc]⟩

theorem follow_keeps {P : σ → List ε → Prop}
    (hkeeps : ∀ {s t history events} label, P s history → step s label = some (t, events) →
      P t (history ++ events))
    {history : List ε} {labels : List τ} {last : σ × List ε} (h : P s history)
    (hf : follow step s history labels = some last) : P last.1 last.2 := by
  obtain ⟨events, hruns, hlast⟩ := follow_runs hf
  rw [hlast]
  exact hruns.keeps hkeeps h

end FrameLoop
