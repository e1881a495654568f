import FrameLoop.Proofs.Loop.Delivery

/-
  How a loop stops.  Its phase only goes on from one to the next, and the request that was stored
  is the first one, for good (`stops_in_order`).  A step that changes one of them is either that of
  the request which holds the lock, or one of two steps of the thread of the loop (`Passage`).
-/

namespace FrameLoop.Loop

variable {τ : Type} {code : Code τ} {parkTimeout : Span} {now : Instant}

/-! ## What a history says of the phases and of the requests -/

/-- The phases, in their order. -/
def lifecycle : List Phase := [.started, .stopping, .closed, .gone]

/-- The phase that was entered. -/
def Event.entered? : Event → Option Phase
  | .entered p => some p
  | _ => none

/-- The grace that was stored. -/
def Event.stored? : Event → Option Grace
  | .requested grace => some grace
  | _ => none

/-- The phases that were entered, in this order. -/
def enteredPhases (history : List Event) : List Phase := history.filterMap Event.entered?

/-- The graces that were stored, in this order. -/
def storedGraces (history : List Event) : List Grace := history.filterMap Event.stored?

@[simp] theorem enteredPhases_append (h es : List Event) :
    enteredPhases (h ++ es) = enteredPhases h ++ enteredPhases es := List.filterMap_append

@[simp] theorem storedGraces_append (h es : List Event) :
    storedGraces (h ++ es) = storedGraces h ++ storedGraces es := List.filterMap_append

theorem Event.Stays.silent {signal : Nat} {es : List Event} (h : ∀ e ∈ es, e.Stays signal) :
    enteredPhases es = [] ∧ storedGraces es = [] := by
  refine ⟨List.filterMap_eq_nil_iff.2 fun e he => ?_,
      List.filterMap_eq_nil_iff.2 fun e he => ?_⟩ <;>
    · have := h e he
      cases e <;> first | rfl | exact this.elim

/-! ## From one phase to the next -/

/-- What a step does to the phase and to the grace, and what is said of it. -/
inductive Passage (s t : State τ) (label : Step τ) (events : List Event) : Prop
  | stays : t.phase = s.phase → t.grace = s.grace →
    enteredPhases events = [] → storedGraces events = [] → Passage s t label events
  /-- A request, alone with the lock, is the first to be stored. -/
  | stores (grace : Grace) : asking s label = some (grace, .store) →
    s.phase = .started → s.grace = none → t.phase = .stopping → t.grace = some grace.stored →
    enteredPhases events = [.stopping] → storedGraces events = [grace.stored] →
    Passage s t label events
  /-- The thread of the loop goes on to the next phase. -/
  | goesOn : s.phase = .stopping ∧ t.phase = .closed ∨ s.phase = .closed ∧ t.phase = .gone →
    t.grace = s.grace → enteredPhases events = [t.phase] → storedGraces events = [] →
    Passage s t label events

/-- The loop closes the queue when it was asked to stop, and is over when the queue was closed. -/
theorem Orderly.phase_of_enters {s : State τ} {p : Phase} (hs : Orderly s) (hk : Informed s)
    (hp : s.place = .close ∧ p = .closed ∨ s.place = .seal ∧ p = .gone) :
    s.phase = .stopping ∧ p = .closed ∨ s.phase = .closed ∧ p = .gone := by
  have hphase := hs.phase
  obtain ⟨hplace, rfl⟩ | ⟨hplace, rfl⟩ := hp <;> rw [hplace] at hphase
  · have hasked : s.phase ≠ .started := hk.asked (by rw [hplace]; exact nofun)
    exact .inl ⟨hphase.resolve_left hasked, rfl⟩
  · exact .inr ⟨hphase, rfl⟩

theorem Turn.passage {s t : State τ} {label : Step τ} {events : List Event}
    (h : Turn s t label events) (hs : Orderly s) (hk : Informed s) : Passage s t label events := by
  cases h with
  | keeps events hc _ _ he =>
    obtain ⟨hentered, hstored⟩ := Event.Stays.silent he
    exact .stays (congrArg Course.phase hc) (congrArg Course.grace hc) hentered hstored
  | locks _ _ hc _ _ => exact .stays (congrArg Course.phase hc) (congrArg Course.grace hc) rfl rfl
  | stores grace hasking hc hh _ =>
    have hstarted : s.phase = .started := hk.phase_of_holder (by omega)
    exact .stores grace hasking hstarted (hk.unset.2 hstarted) (congrArg Course.phase hc)
      (congrArg Course.grace hc) rfl rfl
  | enters p hp hc _ _ =>
    have hphase : t.phase = p := congrArg Course.phase hc
    refine .goesOn ?_ (congrArg Course.grace hc) (by rw [hphase]; rfl) rfl
    rw [hphase]
    exact hs.phase_of_enters hk hp
  | completes _ hc _ _ =>
    exact .stays (congrArg Course.phase hc) (congrArg Course.grace hc) rfl rfl

theorem Turn.signal_eq {s t : State τ} {label : Step τ} {events : List Event}
    (h : Turn s t label events) : t.signal = s.signal := by
  cases h with
  | keeps events hc _ _ _ => exact congrArg Course.signal hc
  | locks _ _ hc _ _ => exact congrArg Course.signal hc
  | stores _ _ hc _ _ => exact congrArg Course.signal hc
  | enters _ _ hc _ _ => exact congrArg Course.signal hc
  | completes _ hc _ _ => exact congrArg Course.signal hc

theorem Turn.answered {s t : State τ} {label : Step τ} {events : List Event}
    (h : Turn s t label events) {n : Nat} (hn : .answered n ∈ events) : n = s.signal := by
  cases h with
  | keeps events _ _ _ he => exact he _ hn
  | _ => simp at hn

/-- Only the thread of the loop completes the signal, at its end. -/
theorem Turn.done {s t : State τ} {label : Step τ} {events : List Event}
    (h : Turn s t label events) (ht : t.done = true) :
    s.done = true ∨ s.place = .complete ∧ t.phase = s.phase := by
  cases h with
  | keeps events hc _ _ _ => exact .inl ((congrArg Course.done hc).symm.trans ht)
  | locks _ _ hc _ _ => exact .inl ((congrArg Course.done hc).symm.trans ht)
  | stores _ _ hc _ _ => exact .inl ((congrArg Course.done hc).symm.trans ht)
  | enters _ _ hc _ _ => exact .inl ((congrArg Course.done hc).symm.trans ht)
  | completes hp hc _ _ => exact .inr ⟨hp, congrArg Course.phase hc⟩

/-! ## Runs -/

/-- What a run has recorded of the phases, of the graces and of the answers. -/
structure Recorded (s : State τ) (history : List Event) : Prop where
  phases : .started :: enteredPhases history = lifecycle.take s.phase.rank
  graces : storedGraces history = s.grace.toList
  answers : ∀ n, .answered n ∈ history → n = s.signal

theorem Recorded.step {s t : State τ} {history events : List Event} {label : Step τ}
    (hr : Recorded s history) (h : Turn s t label events) (hs : Orderly s) (hk : Informed s) :
    Recorded t (history ++ events) := by
  obtain ⟨hphases, hgraces, hanswers⟩ := hr
  refine ⟨?_, ?_, fun n hn => ?_⟩
  · rw [enteredPhases_append, ← List.cons_append, hphases]
    cases h.passage hs hk with
    | stays hp _ he _ => rw [hp, he, List.append_nil]
    | stores grace _ hp _ ht _ he _ => rw [hp, ht, he]; rfl
    | goesOn hp _ he _ => obtain ⟨hp, ht⟩ | ⟨hp, ht⟩ := hp <;> rw [hp, he, ht] <;> rfl
  · rw [storedGraces_append, hgraces]
    cases h.passage hs hk with
    | stays _ hg _ he => rw [hg, he, List.append_nil]
    | stores grace _ _ hg _ ht _ he => rw [hg, ht, he]; rfl
    | goesOn _ hg _ he => rw [hg, he, List.append_nil]
  · rw [h.signal_eq]
    obtain hn | hn := List.mem_append.1 hn
    · exact hanswers n hn
    · exact h.answered hn

theorem Traced.recorded {s : State τ} {history : List Event} {tasks : List τ}
    (h : Traced code parkTimeout now s history tasks) : Recorded s history := by
  induction h with
  | begin => exact ⟨rfl, rfl, nofun⟩
  | step label htraced hstep ih =>
    exact ih.step (htraced.informed.step hstep) htraced.orderly htraced.informed

/-- The signal is complete only when the loop is gone. -/
theorem Traced.gone_of_done {s : State τ} {history : List Event} {tasks : List τ}
    (h : Traced code parkTimeout now s history tasks) (hdone : s.done = true) :
    s.phase = .gone := by
  induction h with
  | begin => cases hdone
  | step label htraced hstep ih =>
    obtain hdone | ⟨hplace, hphase⟩ := (htraced.informed.step hstep).done hdone
    · exact htraced.orderly.gone_step htraced.informed (ih hdone) hstep
    · have hgone := htraced.orderly.phase
      rw [hplace] at hgone
      exact hphase.trans hgone

/-- The number of a phase is the number of phases entered so far. -/
theorem Recorded.rank_eq {s : State τ} {history : List Event} (h : Recorded s history) :
    s.phase.rank = (enteredPhases history).length + 1 := by
  have hlength := congrArg List.length h.phases
  rw [List.length_cons, List.length_take] at hlength
  rw [hlength]
  cases s.phase <;> rfl

/-- No phase is entered again, and the grace that was stored stays. -/
theorem Traced.lasting {s t : State τ} {history later : List Event} {tasks : List τ}
    (h : Traced code parkTimeout now s history tasks) (hl : Later code parkTimeout s later t) :
    s.phase.rank ≤ t.phase.rank ∧ ∀ grace, s.grace = some grace → t.grace = some grace := by
  obtain ⟨more, ht⟩ := h.later hl
  have hs := h.recorded
  have ht := ht.recorded
  constructor
  · rw [hs.rank_eq, ht.rank_eq, enteredPhases_append, List.length_append]
    omega
  · intro grace hgrace
    have hgraces := ht.graces
    rw [storedGraces_append, hs.graces, hgrace] at hgraces
    cases htg : t.grace with
    | none => rw [htg] at hgraces; cases hgraces
    | some other =>
      rw [htg] at hgraces
      rw [(List.cons.inj hgraces).1]

/-- The phases are entered one after the other, and none is left out.  The grace is stored once, by
the request that ends the first phase, with a quiet period that is not longer than the timeout, and
the thread of the loop does not read it before.  All requests return one signal, which is complete
only when the loop is gone. -/
theorem stops_in_order {s : State τ} {history : List Event} {tasks : List τ}
    (h : Traced code parkTimeout now s history tasks) :
    .started :: enteredPhases history = lifecycle.take s.phase.rank ∧
      storedGraces history = s.grace.toList ∧
      (s.place = .readGrace → ∃ grace, s.grace = some grace) ∧
      (∀ n, .answered n ∈ history → n = s.signal) ∧
      (s.done = true → s.phase = .gone) ∧
      (∀ label t events, step code parkTimeout s label = some (t, events) →
        t.phase = s.phase ∧ t.grace = s.grace ∨
        (∃ grace, asking s label = some (grace, .store) ∧ s.phase = .started ∧ s.grace = none ∧
          t.phase = .stopping ∧ t.grace = some ⟨min grace.quiet grace.timeout, grace.timeout⟩) ∨
        (s.phase = .stopping ∧ t.phase = .closed ∨ s.phase = .closed ∧ t.phase = .gone) ∧
          t.grace = s.grace) ∧
      ∀ t later, Later code parkTimeout s later t →
        s.phase.rank ≤ t.phase.rank ∧ ∀ grace, s.grace = some grace → t.grace = some grace := by
  obtain ⟨hphases, hgraces, hanswers⟩ := h.recorded
  have hk := h.informed
  refine ⟨hphases, hgraces, fun hplace => ?_, hanswers, h.gone_of_done, ?_,
    fun t later hl => h.lasting hl⟩
  · have hasked : s.phase ≠ .started := hk.asked (by rw [hplace]; exact nofun)
    exact Option.ne_none_iff_exists'.1 fun hnone => hasked (hk.unset.1 hnone)
  · intro label t events hstep
    cases (hk.step hstep).passage h.orderly hk with
    | stays hp hg _ _ => exact .inl ⟨hp, hg⟩
    | stores grace hasking hp hg htp htg _ _ =>
      exact .inr (.inl ⟨grace, hasking, hp, hg, htp, htg⟩)
    | goesOn hp hg _ _ => exact .inr (.inr ⟨hp, hg⟩)

/-- A run in which two requests and the release of the last handle all find that the loop was not
asked before.  The second request is the first to take the lock, and the loop comes to its end while
the others are still on their way. -/
def race : List (Step Nat) :=
  let caller (i n : Nat) : List (Step Nat) := .replicate n (.caller i)
  let awhile (n : Nat) : List (Step Nat) := .replicate n (.loop ⟨9⟩)
  .request ⟨.ofNanos 3, .ofNanos 4⟩ :: .request ⟨.ofNanos 2, .ofNanos 1⟩ :: .release ::
    caller 2 1 ++ caller 1 1 ++ caller 0 1 ++ caller 1 1 ++ caller 0 1 ++ awhile 6 ++
    .replicate 10 (.loop ⟨11⟩) ++ caller 0 4

/-- The loop is gone with the grace of the second request, and all three return the signal. -/
theorem stops_in_order_raced :
    ∃ s history tasks, Traced relay .zero ⟨0⟩ s history tasks ∧ s.done = true ∧
      s.phase = .gone ∧ enteredPhases history = [.stopping, .closed, .gone] ∧
      storedGraces history = [⟨.ofNanos 1, .ofNanos 1⟩] ∧
      history.count (.answered s.signal) = 3 := by
  have hrun := Traced.begin.follow
    (show follow relay .zero (.begin ⟨0⟩) [] [] race = some (_, _, _) from rfl)
  obtain ⟨hphases, hgraces, -, -, hdone, -, -⟩ := stops_in_order hrun
  exact ⟨_, _, _, hrun, rfl, hdone rfl, (List.cons.inj hphases).2, hgraces, by decide⟩

end FrameLoop.Loop
