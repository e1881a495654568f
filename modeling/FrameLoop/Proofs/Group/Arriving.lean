import FrameLoop.Group.Tally
import FrameLoop.Proofs.Group.Tracking

/-
  A listener of a group that nobody interrupts does what a tally does when a child arrives.

  A tally counts, completes the signal of the group and runs its listeners all at once.  A group
  does the same in steps, between which other threads can do theirs.  When they do nothing, the
  group ends where the tally says, and the same listeners have been run (`arrive_refines`).
-/

namespace FrameLoop

/-- What a tally does that has become full. -/
def Tally.filled {ℓ : Type} (t : Tally ℓ) : List ℓ × Tally ℓ :=
  match t.signal.complete? with
  | some (ls, signal) => (ls, { t with signal := signal.settle })
  | none => ([], t)

theorem Tally.arrive_eq {ℓ : Type} (t : Tally ℓ) :
    t.arrive =
      if t.count + 1 = t.size then Tally.filled { t with count := t.count + 1 }
      else ([], { t with count := t.count + 1 }) := rfl

namespace Group.Aggregation

open Signal

/-- A group seen as a tally. -/
def tally (a : Aggregation) : Tally Nat :=
  { size := a.size, count := a.count, signal := a.crowd.signals a.signal }

/-- The listeners that began. -/
def fired (history : List Event) : List Nat :=
  (heard history).filterMap fun
    | .began _ l => some l
    | _ => none

variable {a : Aggregation} {j : Nat} {fs : List Frame}

theorem step_crowd_act {x y : Thread} {act : Act} {crowd : Crowd} {events : List Happening}
    (hj : a.crowd.threads[j]? = some x) (hact : a.crowd.act x act = some (crowd, y, events))
    (hallows : a.Allows x act)
    (hdeaf : ∀ c ∈ a.children, events.foldl Child.hear c = c) :
    a.step (.crowd (.act j act)) =
      some ({ a with crowd := { crowd with threads := crowd.threads.set j y } },
        (events.map (Entry.mk j)).map .crowd) := by
  have hstep : a.crowd.step (.act j act) =
      some ({ crowd with threads := crowd.threads.set j y }, events.map (Entry.mk j)) := by
    simp only [Crowd.step, hj, hact]
  have htold : told a.children (events.map (Entry.mk j)) = a.children := by
    rw [told, happenings_map_mk, List.map_congr_left hdeaf, List.map_id']
  simp only [step, hj, if_pos hallows, observe_of_step hstep, htold]

/-- A thread that has completed the signal of the group runs its listeners. -/
theorem deliver_runs (hown : ∀ c ∈ a.children, c.signal ≠ a.signal) (ls : List Nat)
    (hj : a.crowd.threads[j]? = some ⟨some (.deliver a.signal ls), fs⟩) :
    ∃ events, fired events = ls ∧ Runs step a events { a with
      crowd := { a.crowd.change a.signal (a.crowd.signals a.signal).settle with
        threads := a.crowd.threads.set j ⟨none, fs⟩ } } := by
  induction ls generalizing a with
  | nil =>
    have hact : a.crowd.act ⟨some (.deliver a.signal []), fs⟩ .go = some (_, _, _) := rfl
    exact ⟨_, rfl, .step _ (step_crowd_act hj hact trivial fun _ _ => rfl) (.refl _)⟩
  | cons l ls ih =>
    have hnot (c) (hc : c ∈ a.children) : ¬c.Has a.signal l := fun hhas => hown c hc hhas.1
    have hlt := (List.getElem?_eq_some_iff.1 hj).1
    -- the listener begins
    have hbegin : a.crowd.act ⟨some (.deliver a.signal (l :: ls)), fs⟩ .go =
        some (a.crowd, ⟨none, .delivered a.signal l ls :: fs⟩, [.began a.signal l]) := rfl
    have hfirst := step_crowd_act hj hbegin trivial fun c hc => if_neg (hnot c hc)
    -- and ends
    let a₁ : Aggregation := { a with
      crowd := { a.crowd with
        threads := a.crowd.threads.set j ⟨none, .delivered a.signal l ls :: fs⟩ } }
    have hj₁ : a₁.crowd.threads[j]? = some ⟨none, .delivered a.signal l ls :: fs⟩ :=
      List.getElem?_set_self hlt
    have hend : a₁.crowd.act ⟨none, .delivered a.signal l ls :: fs⟩ (.finish false) =
        some (a₁.crowd, ⟨some (.deliver a.signal ls), fs⟩, [.ended a.signal l false]) := rfl
    have hallows : a₁.Allows ⟨none, .delivered a.signal l ls :: fs⟩ (.finish false) := by
      intro f hf c hc hhas
      cases hf
      exact absurd hhas (hnot c hc)
    have hsecond := step_crowd_act hj₁ hend hallows fun c hc => if_neg (hnot c hc)
    -- before the others do the same
    let a₂ : Aggregation := { a with
      crowd := { a.crowd with
        threads := a₁.crowd.threads.set j ⟨some (.deliver a.signal ls), fs⟩ } }
    have hj₂ : a₂.crowd.threads[j]? = some ⟨some (.deliver a.signal ls), fs⟩ :=
      List.getElem?_set_self (by rwa [List.length_set])
    obtain ⟨events, rfl, hruns⟩ := ih (a := a₂) hown hj₂
    simp only [a₂, a₁, List.set_set] at hsecond hruns
    exact ⟨_, rfl, .step _ hfirst (.step _ hsecond hruns)⟩

/-- A thread that is about to complete the signal of the group does what a full tally does. -/
theorem complete_refines (hown : ∀ c ∈ a.children, c.signal ≠ a.signal)
    (hj : a.crowd.threads[j]? = some ⟨some (.complete a.signal), fs⟩) :
    ∃ b events, Runs step a events b ∧ fired events = a.tally.filled.1 ∧
      b.tally = a.tally.filled.2 ∧ b.crowd.threads = a.crowd.threads.set j ⟨none, fs⟩ ∧
      b.children = a.children := by
  cases hcomplete : (a.crowd.signals a.signal).complete? with
  | none =>
    have hgo : a.crowd.act ⟨some (.complete a.signal), fs⟩ .go =
        some (a.crowd, ⟨none, fs⟩, [.completed a.signal false]) := by
      simp only [Crowd.act, Crowd.go, hcomplete]
    have hlost := step_crowd_act hj hgo trivial fun _ _ => rfl
    have hfilled : a.tally.filled = ([], a.tally) := by
      simp only [Tally.filled, tally, hcomplete]
    rw [hfilled]
    exact ⟨_, _, .step _ hlost (.refl _), rfl, rfl, rfl, rfl⟩
  | some taken =>
    obtain ⟨ls, signal⟩ := taken
    have hgo : a.crowd.act ⟨some (.complete a.signal), fs⟩ .go =
        some (a.crowd.change a.signal signal, ⟨some (.deliver a.signal ls), fs⟩, []) := by
      simp only [Crowd.act, Crowd.go, hcomplete]
    have hwon := step_crowd_act hj hgo trivial fun _ _ => rfl
    let a₁ : Aggregation := { a with
      crowd := { a.crowd.change a.signal signal with
        threads := a.crowd.threads.set j ⟨some (.deliver a.signal ls), fs⟩ } }
    have hj₁ : a₁.crowd.threads[j]? = some ⟨some (.deliver a₁.signal ls), fs⟩ :=
      List.getElem?_set_self (List.getElem?_eq_some_iff.1 hj).1
    have hfilled : a.tally.filled = (ls, { a.tally with signal := signal.settle }) := by
      simp only [Tally.filled, tally, hcomplete]
    obtain ⟨events, hevents, hruns⟩ := deliver_runs (a := a₁) hown ls hj₁
    rw [hfilled]
    refine ⟨_, _, .step _ hwon hruns, hevents, ?_, List.set_set .., rfl⟩
    simp only [tally, size, Crowd.change, a₁, if_true]

/-- A change of how far a listener is leaves the signals of the children alone. -/
theorem signal_ne_set {children : List Child} {p i : Nat} {c c' : Child}
    (hown : ∀ c ∈ children, c.signal ≠ p) (hi : children[i]? = some c)
    (hsignal : c'.signal = c.signal) : ∀ c ∈ children.set i c', c.signal ≠ p := by
  intro d hd
  obtain hd | rfl := List.mem_or_eq_of_mem_set hd
  · exact hown d hd
  · exact hsignal ▸ hown c (List.mem_of_getElem? hi)

section

variable {i : Nat} {c : Child} {f : Frame}

/-- A listener that is about to count does so. -/
theorem step_counts (hi : a.children[i]? = some c) (hstage : c.stage = some .count)
    (hj : a.crowd.threads[j]? = some ⟨none, f :: fs⟩) (hhas : c.Has f.signal f.listener) :
    a.step (.listener i j) =
      some ({ a with
          count := a.count + 1
          children := a.children.set i
            { c with stage := some (if a.count + 1 = a.size then .attempt else .atEnd) } },
        [.counted i]) := by
  simp only [step, hi, hj, if_pos hhas, stepListener, hstage]

/-- The one that made the count full begins to complete the signal of the group. -/
theorem step_attempts (hi : a.children[i]? = some c) (hstage : c.stage = some .attempt)
    (hj : a.crowd.threads[j]? = some ⟨none, f :: fs⟩) (hhas : c.Has f.signal f.listener) :
    a.step (.listener i j) =
      some ({ a with
          crowd := { a.crowd with
            threads := a.crowd.threads.set j ⟨some (.complete a.signal), f :: fs⟩ }
          children := a.children.set i { c with stage := some .atEnd } },
        [.attempted i]) := by
  have hcall := step_call (p := a.signal) (c := .complete) hj
  simp only [Crowd.begin, List.map_nil] at hcall
  have htold : told a.children [] = a.children := told_of_silent (fun _ => rfl) _
  simp only [step, hi, hj, if_pos hhas, stepListener, hstage, observe_of_step hcall, htold,
    List.map_nil]

/-- Nobody interrupts the listener of the child at the place `i`, which made the count full. -/
theorem attempt_refines (hown : ∀ c ∈ a.children, c.signal ≠ a.signal)
    (hi : a.children[i]? = some c) (hstage : c.stage = some .attempt)
    (hj : a.crowd.threads[j]? = some ⟨none, f :: fs⟩) (hhas : c.Has f.signal f.listener) :
    ∃ b events, Runs step a events b ∧ fired events = a.tally.filled.1 ∧
      b.tally = a.tally.filled.2 ∧ b.crowd.threads = a.crowd.threads ∧
      b.children = a.children.set i { c with stage := some .atEnd } := by
  obtain ⟨hlt, hsame⟩ := List.getElem?_eq_some_iff.1 hj
  let a₁ : Aggregation := { a with
    crowd := { a.crowd with
      threads := a.crowd.threads.set j ⟨some (.complete a.signal), f :: fs⟩ }
    children := a.children.set i { c with stage := some .atEnd } }
  obtain ⟨b, events, hruns, hfired, htally, hthreads, hchildren⟩ :=
    complete_refines (a := a₁) (signal_ne_set hown hi rfl) (List.getElem?_set_self hlt)
  have htally₁ : a₁.tally = a.tally := by
    simp only [tally, size, a₁, List.length_set]
  have hthreads₁ : a₁.crowd.threads.set j ⟨none, f :: fs⟩ = a.crowd.threads := by
    rw [List.set_set, ← hsame, List.set_getElem_self]
  rw [htally₁] at hfired htally
  exact ⟨b, _, .step _ (step_attempts hi hstage hj hhas) hruns, hfired, htally,
    hthreads.trans hthreads₁, hchildren⟩

/-- Nobody interrupts the listener of the child at the place `i`, which is about to count on the
thread `j`. -/
theorem arrive_refines (hown : ∀ c ∈ a.children, c.signal ≠ a.signal)
    (hi : a.children[i]? = some c) (hstage : c.stage = some .count)
    (hj : a.crowd.threads[j]? = some ⟨none, f :: fs⟩) (hhas : c.Has f.signal f.listener) :
    ∃ b events, Runs step a events b ∧ fired events = a.tally.arrive.1 ∧
      b.tally = a.tally.arrive.2 ∧ b.crowd.threads = a.crowd.threads ∧
      b.children = a.children.set i { c with stage := some .atEnd } := by
  obtain ⟨hlt, -⟩ := List.getElem?_eq_some_iff.1 hi
  let behind (stage : ListenerStage) : Aggregation := { a with
    count := a.count + 1
    children := a.children.set i { c with stage := some stage } }
  have htally (stage : ListenerStage) :
      (behind stage).tally = { a.tally with count := a.count + 1 } := by
    simp only [tally, size, behind, List.length_set]
  have hcounts := step_counts hi hstage hj hhas
  rw [Tally.arrive_eq]
  by_cases hfull : a.count + 1 = a.size
  · obtain ⟨b, events, hruns, hattempts⟩ :=
      attempt_refines (a := behind .attempt) (signal_ne_set hown hi rfl)
        (List.getElem?_set_self hlt) rfl hj hhas
    rw [htally, List.set_set] at hattempts
    rw [if_pos hfull] at hcounts
    rw [if_pos (show a.tally.count + 1 = a.tally.size from hfull)]
    exact ⟨b, _, .step _ hcounts hruns, hattempts⟩
  · rw [if_neg hfull] at hcounts
    rw [if_neg (show ¬a.tally.count + 1 = a.tally.size from hfull)]
    exact ⟨behind .atEnd, _, .step _ hcounts (.refl _), rfl, htally .atEnd, rfl, rfl⟩

end

end Group.Aggregation

end FrameLoop
