import FrameLoop.Proofs.Loop.Steps

/-
  The ledger of a run of a loop.  `Traced` runs are the reachable states together with the tasks
  that were handed over, the task of call `n` at position `n`.  Each part of the ledger is kept by
  the five changes of the books, and so by every run:

  `Flow`    what was started, and behind it what is queued, is what was pushed;
  `Tally`   the counter of submissions counts the submissions between their first step and the
            step that counts them off;
  `Docket`  a call is pushed at most once, accepted only when pushed, and rejected only when not;
  `Filed`   the queue and the submissions hold the tasks that were handed over.
-/

namespace FrameLoop.Loop

variable {τ : Type}

/-! ## Histories -/

/-- The call whose task was pushed. -/
def Event.pushed? : Event → Option Nat
  | .pushed call => some call
  | _ => none

/-- The call whose task was started. -/
def Event.started? : Event → Option Nat
  | .started call => some call
  | _ => none

/-- The call whose task came to its end, by itself or by a panic. -/
def Event.finished? : Event → Option Nat
  | .finished call _ => some call
  | _ => none

/-- The calls whose tasks were pushed, in this order. -/
def pushedCalls (history : List Event) : List Nat := history.filterMap Event.pushed?

/-- The calls whose tasks were started, in this order. -/
def startedCalls (history : List Event) : List Nat := history.filterMap Event.started?

/-- The calls whose tasks came to their end, in this order. -/
def finishedCalls (history : List Event) : List Nat := history.filterMap Event.finished?

@[simp] theorem pushedCalls_append (h es : List Event) :
    pushedCalls (h ++ es) = pushedCalls h ++ pushedCalls es := List.filterMap_append

@[simp] theorem startedCalls_append (h es : List Event) :
    startedCalls (h ++ es) = startedCalls h ++ startedCalls es := List.filterMap_append

@[simp] theorem finishedCalls_append (h es : List Event) :
    finishedCalls (h ++ es) = finishedCalls h ++ finishedCalls es := List.filterMap_append

theorem calls_eq_nil {es : List Event} (h : ∀ e ∈ es, e.isEntry = false) :
    pushedCalls es = [] ∧ startedCalls es = [] ∧ finishedCalls es = [] := by
  refine ⟨List.filterMap_eq_nil_iff.2 ?_, List.filterMap_eq_nil_iff.2 ?_,
      List.filterMap_eq_nil_iff.2 ?_⟩ <;>
    · intro e he
      have := h e he
      cases e <;> first | rfl | cases this

/-! ## Runs -/

/-- The states that can be reached, each with all that has happened on the way and with the tasks
that were handed over, in the order of their calls. -/
inductive Traced (code : Code τ) (parkTimeout : Span) (now : Instant) :
    State τ → List Event → List τ → Prop
  | begin : Traced code parkTimeout now (.begin now) [] []
  | step {s t : State τ} {history events : List Event} {tasks : List τ} (label : Step τ) :
    Traced code parkTimeout now s history tasks →
    step code parkTimeout s label = some (t, events) →
    Traced code parkTimeout now t (history ++ events) (tasks ++ (handed code s label).toList)

variable {code : Code τ} {parkTimeout : Span} {now : Instant}

/-- Every reachable state has its trace, and a traced state is reachable. -/
theorem reachable_iff_traced {s : State τ} {history : List Event} :
    Reachable code parkTimeout now s history ↔
      ∃ tasks, Traced code parkTimeout now s history tasks := by
  constructor
  · intro h
    induction h with
    | begin => exact ⟨[], .begin⟩
    | step label _ hstep ih =>
      obtain ⟨tasks, ih⟩ := ih
      exact ⟨_, ih.step label hstep⟩
  · rintro ⟨tasks, h⟩
    induction h with
    | begin => exact .begin
    | step label _ hstep ih => exact ih.step label hstep

/-! ## What was started, and what is queued -/

/-- The tasks pass through the queue in their order, and one of them runs at a time. -/
structure Flow (s : State τ) (history : List Event) : Prop where
  /-- What was started, and behind it what is queued, is what was pushed. -/
  queued : startedCalls history ++ s.queue.map Prod.fst = pushedCalls history
  /-- What was started is what came to its end, and the running task. -/
  running : finishedCalls history ++ s.place.running?.toList = startedCalls history

theorem flow_begin : Flow (.begin now : State τ) [] := ⟨rfl, rfl⟩

theorem Flow.extend {s t : State τ} {history events : List Event} (hs : Flow s history)
    (hq : startedCalls events ++ t.queue.map Prod.fst =
      s.queue.map Prod.fst ++ pushedCalls events)
    (hr : finishedCalls events ++ t.place.running?.toList =
      s.place.running?.toList ++ startedCalls events) : Flow t (history ++ events) := by
  constructor
  · rw [startedCalls_append, pushedCalls_append, ← hs.queued, List.append_assoc,
      List.append_assoc, hq]
  · rw [startedCalls_append, finishedCalls_append, ← hs.running, List.append_assoc,
      List.append_assoc, hr]

theorem Flow.extend_silent {s t : State τ} {history events : List Event} (hs : Flow s history)
    (hq : t.queue = s.queue) (hr : t.place.running? = s.place.running?)
    (he : pushedCalls events = [] ∧ startedCalls events = [] ∧ finishedCalls events = []) :
    Flow t (history ++ events) := by
  obtain ⟨hp, hst, hf⟩ := he
  exact hs.extend (by rw [hst, hp, hq, List.append_nil]; rfl)
    (by rw [hf, hst, hr, List.append_nil]; rfl)

theorem Flow.change {s t : State τ} {history events : List Event} {task : Option τ}
    (hs : Flow s history) (h : Change s t task events) : Flow t (history ++ events) := by
  cases h with
  | begins task hb _ =>
    simp only [State.books, Books.mk.injEq] at hb
    obtain ⟨hq, -, -, hr⟩ := hb
    exact hs.extend_silent hq hr ⟨rfl, rfl, rfl⟩
  | proceeds c others queue submitters events left _ ha _ hb =>
    simp only [State.books, Books.mk.injEq] at hb
    obtain ⟨hq, -, -, hr⟩ := hb
    cases ha with
    | push _ =>
      exact hs.extend (by rw [hq, List.map_append]; rfl)
        (by rw [hr]; exact (List.append_nil _).symm)
    | _ => exact hs.extend_silent hq hr ⟨rfl, rfl, rfl⟩
  | starts b left call task queue hq hr _ hb _ =>
    simp only [State.books, Books.mk.injEq] at hb
    obtain ⟨htq, -, -, htr⟩ := hb
    exact hs.extend (by rw [htq, hq]; exact (List.append_nil _).symm) (by rw [htr, hr]; rfl)
  | ends call failed hr hb _ =>
    simp only [State.books, Books.mk.injEq] at hb
    obtain ⟨htq, -, -, htr⟩ := hb
    exact hs.extend (by rw [htq]; exact (List.append_nil _).symm) (by rw [htr, hr]; rfl)
  | keeps events hb _ he =>
    simp only [State.books, Books.mk.injEq] at hb
    obtain ⟨hq, -, -, hr⟩ := hb
    exact hs.extend_silent hq hr (calls_eq_nil he)

/-! ## The counter of submissions -/

/-- The counter counts the submissions between their first step and the step that counts them
off. -/
def Tally (s : State τ) : Prop :=
  s.submitters = s.submissions.countP fun c => c.stage.isCounted

theorem tally_begin : Tally (.begin now : State τ) := rfl

theorem Tally.change {s t : State τ} {events : List Event} {task : Option τ}
    (hs : Tally s) (h : Change s t task events) : Tally t := by
  unfold Tally at *
  cases h with
  | begins task hb ht =>
    simp only [State.books, Books.mk.injEq] at hb
    rw [hb.2.1, hs, ht.countP_eq, List.countP_cons_of_neg (by simp [SubmitStage.isCounted])]
  | proceeds c others queue submitters events left hsub ha ht hb =>
    simp only [State.books, Books.mk.injEq] at hb
    rw [hb.2.1, ht.countP_eq]
    rw [hsub.countP_eq] at hs
    cases ha with
    | check hc =>
      rw [hs]
      split <;> simp [hc, SubmitStage.isCounted]
    | _ hc => simp_all [SubmitStage.isCounted]
  | starts b left call task queue _ _ _ hb ht =>
    simp only [State.books, Books.mk.injEq] at hb
    rw [hb.2.1, ht, hs]
  | ends call failed _ hb ht =>
    simp only [State.books, Books.mk.injEq] at hb
    rw [hb.2.1, ht, hs]
  | keeps events hb ht _ =>
    simp only [State.books, Books.mk.injEq] at hb
    rw [hb.2.1, ht, hs]

/-! ## The calls -/

/-- The event pushes the task of the call, or answers the call. -/
def Event.concerns (call : Nat) : Event → Bool
  | .pushed c => c == call
  | .accepted c => c == call
  | .rejected c => c == call
  | _ => false

/-- What a history says of a call. -/
def entries (history : List Event) (call : Nat) : List Event :=
  history.filter (Event.concerns call)

/-- All that can ever be said of a call. -/
def fates (call : Nat) : List (List Event) :=
  [[], [.pushed call], [.pushed call, .accepted call], [.rejected call]]

/-- What is said of a call whose submission is under way. -/
def Submission.standing (c : Submission τ) : List Event :=
  if c.stage.isPushed then [.pushed c.call] else []

theorem entries_append (h es : List Event) (call : Nat) :
    entries (h ++ es) call = entries h call ++ entries es call := List.filter_append ..

/-- The pushes of a call are among what is said of it. -/
theorem count_pushedCalls (h : List Event) (call : Nat) :
    (pushedCalls h).count call = (entries h call).count (.pushed call) := by
  induction h with
  | nil => rfl
  | cons e h ih =>
    have hcons : pushedCalls (e :: h) = e.pushed?.toList ++ pushedCalls h := by
      rw [pushedCalls, List.filterMap_cons]
      cases e.pushed? <;> rfl
    have hentry : entries (e :: h) call = entries [e] call ++ entries h call :=
      entries_append [e] h call
    rw [hcons, hentry, List.count_append, List.count_append, ih]
    congr 1
    cases e with
    | pushed c => by_cases hc : c = call <;> simp [Event.pushed?, entries, Event.concerns, hc]
    | accepted c => by_cases hc : c = call <;> simp [Event.pushed?, entries, Event.concerns, hc]
    | rejected c => by_cases hc : c = call <;> simp [Event.pushed?, entries, Event.concerns, hc]
    | _ => rfl

/-- What the history says of the calls, given the submissions under way and the number of calls
that have begun. -/
structure Docket (submissions : List (Submission τ)) (calls : Nat) (history : List Event) :
    Prop where
  /-- Each call makes one submission. -/
  distinct : (submissions.map (·.call)).Nodup
  /-- Of a call that has not begun nothing is said. -/
  fresh : ∀ call, calls ≤ call → entries history call = []
  /-- A submission under way has pushed its task or not, as its stage says, and is unanswered. -/
  underWay : ∀ c ∈ submissions, c.call < calls ∧ entries history c.call = c.standing
  fated : ∀ call, entries history call ∈ fates call

namespace Docket

variable {submissions : List (Submission τ)} {calls : Nat} {history events : List Event}

theorem begin : Docket ([] : List (Submission τ)) 0 [] :=
  ⟨List.nodup_nil, fun _ _ => rfl, by simp, fun _ => List.mem_cons_self⟩

theorem perm {others : List (Submission τ)} (h : Docket submissions calls history)
    (hp : others.Perm submissions) : Docket others calls history where
  distinct := (hp.map _).nodup_iff.2 h.distinct
  fresh := h.fresh
  underWay c hc := h.underWay c (hp.mem_iff.1 hc)
  fated := h.fated

theorem begins (h : Docket submissions calls history) (task : τ) :
    Docket (⟨calls, task, .enter⟩ :: submissions) (calls + 1) history where
  distinct := by
    rw [List.map_cons, List.nodup_cons]
    refine ⟨fun hmem => ?_, h.distinct⟩
    obtain ⟨c, hc, hcall⟩ := List.mem_map.1 hmem
    exact Nat.ne_of_lt (h.underWay c hc).1 hcall
  fresh call hcall := h.fresh call (Nat.le_of_succ_le hcall)
  underWay := by
    rintro c (_ | ⟨_, hc⟩)
    · exact ⟨Nat.lt_succ_self _, h.fresh calls (Nat.le_refl _)⟩
    · exact ⟨Nat.lt_succ_of_lt (h.underWay c hc).1, (h.underWay c hc).2⟩
  fated := h.fated

theorem ignores (h : Docket submissions calls history)
    (he : ∀ call, entries events call = []) : Docket submissions calls (history ++ events) := by
  have hsame (call : Nat) : entries (history ++ events) call = entries history call := by
    rw [entries_append, he, List.append_nil]
  exact ⟨h.distinct, fun call hcall => by rw [hsame, h.fresh call hcall],
    fun c hc => by rw [hsame]; exact h.underWay c hc, fun call => by rw [hsame]; exact h.fated call⟩

/-- A submission goes on, and is answered if nothing is left of it.  What is said of its call is
extended; what is said of the other calls is not. -/
theorem follows {c : Submission τ} {others : List (Submission τ)}
    (h : Docket (c :: others) calls history) (left : Option (Submission τ))
    (hothers : ∀ call, call ≠ c.call → entries events call = [])
    (hleft : ∀ d ∈ left, d.call = c.call ∧ c.standing ++ entries events c.call = d.standing)
    (hfate : c.standing ++ entries events c.call ∈ fates c.call) :
    Docket (left.toList ++ others) calls (history ++ events) := by
  obtain ⟨hlt, hstanding⟩ := h.underWay c List.mem_cons_self
  have hdistinct := h.distinct
  rw [List.map_cons, List.nodup_cons] at hdistinct
  obtain ⟨hnew, hdistinct⟩ := hdistinct
  have hcall : entries (history ++ events) c.call = c.standing ++ entries events c.call := by
    rw [entries_append, hstanding]
  have hother (call : Nat) (hne : call ≠ c.call) :
      entries (history ++ events) call = entries history call := by
    rw [entries_append, hothers call hne, List.append_nil]
  constructor
  case distinct =>
    cases left with
    | none => exact hdistinct
    | some d =>
      obtain ⟨hd, -⟩ := hleft d rfl
      rw [← hd] at hnew
      exact List.nodup_cons.2 ⟨hnew, hdistinct⟩
  case fresh =>
    intro call hge
    rw [hother call (by omega)]
    exact h.fresh call hge
  case underWay =>
    intro d hd
    obtain hd | hd := List.mem_append.1 hd
    · obtain ⟨hdc, hds⟩ := hleft d (Option.mem_toList.1 hd)
      exact ⟨hdc ▸ hlt, by rw [hdc, hcall, hds]⟩
    · have hne : d.call ≠ c.call := fun heq => hnew (heq ▸ List.mem_map_of_mem hd)
      rw [hother d.call hne]
      exact h.underWay d (List.mem_cons_of_mem c hd)
  case fated =>
    intro call
    by_cases heq : call = c.call
    · rw [heq, hcall]; exact hfate
    · rw [hother call heq]; exact h.fated call

theorem advances {c : Submission τ} {others : List (Submission τ)}
    (h : Docket (c :: others) calls history) {s : State τ} {queue : List (Nat × τ)}
    {submitters : Nat} {left : Option (Submission τ)}
    (ha : Advance s c queue submitters events left) :
    Docket (left.toList ++ others) calls (history ++ events) := by
  have hconcerns (call : Nat) (hne : call ≠ c.call) : (c.call == call) = false := by
    simpa using Ne.symm hne
  cases ha with
  | enter hc =>
    refine h.follows _ (fun _ _ => rfl) ?_ ?_ <;>
      simp [Submission.standing, hc, SubmitStage.isPushed, entries, fates]
  | check hc =>
    refine h.follows _ (fun _ _ => rfl) ?_ ?_
    · split <;> simp [Submission.standing, hc, SubmitStage.isPushed, entries]
    · simp [Submission.standing, hc, SubmitStage.isPushed, entries, fates]
  | push hc =>
    refine h.follows _ (fun call hne => ?_) ?_ ?_
    · simp [entries, Event.concerns, hconcerns call hne]
    · simp [Submission.standing, hc, SubmitStage.isPushed, entries, Event.concerns]
    · simp [Submission.standing, hc, SubmitStage.isPushed, entries, fates, Event.concerns]
  | leave hc =>
    refine h.follows _ (fun _ _ => rfl) ?_ ?_ <;>
      simp [Submission.standing, hc, SubmitStage.isPushed, entries, fates]
  | _ hc =>
    refine h.follows none (fun call hne => ?_) (by simp) ?_
    · simp [entries, Event.concerns, hconcerns call hne]
    · simp [Submission.standing, hc, SubmitStage.isPushed, entries, fates, Event.concerns]

/-- A call that was told that its task was taken has pushed it. -/
theorem count_pushedCalls_of_accepted (h : Docket submissions calls history) {call : Nat}
    (ha : .accepted call ∈ history) : (pushedCalls history).count call = 1 := by
  have hmem : Event.accepted call ∈ entries history call :=
    List.mem_filter.2 ⟨ha, beq_self_eq_true call⟩
  have hfate := h.fated call
  simp only [fates, List.mem_cons, List.not_mem_nil, or_false] at hfate
  rw [count_pushedCalls]
  obtain hf | hf | hf | hf := hfate <;> simp [hf] at hmem ⊢

/-- A call that was told that its task was refused has not pushed it. -/
theorem not_pushed_of_rejected (h : Docket submissions calls history) {call : Nat}
    (hr : .rejected call ∈ history) : call ∉ pushedCalls history := by
  have hmem : Event.rejected call ∈ entries history call :=
    List.mem_filter.2 ⟨hr, beq_self_eq_true call⟩
  have hfate := h.fated call
  simp only [fates, List.mem_cons, List.not_mem_nil, or_false] at hfate
  rw [← List.count_eq_zero, count_pushedCalls]
  obtain hf | hf | hf | hf := hfate <;> simp [hf] at hmem ⊢

/-- Only a call that has begun can have pushed its task. -/
theorem lt_of_pushed (h : Docket submissions calls history) {call : Nat}
    (hp : call ∈ pushedCalls history) : call < calls := by
  refine Nat.lt_of_not_le fun hge => ?_
  rw [← List.count_pos_iff, count_pushedCalls, h.fresh call hge] at hp
  cases hp

end Docket

/-! ## The tasks -/

/-- The queue and the submissions under way hold the tasks that were handed over, each for its
call. -/
structure Filed (s : State τ) (tasks : List τ) : Prop where
  calls : s.calls = tasks.length
  queued : ∀ x ∈ s.queue, tasks[x.1]? = some x.2
  submitted : ∀ c ∈ s.submissions, tasks[c.call]? = some c.task

theorem filed_begin : Filed (.begin now : State τ) [] := ⟨rfl, by simp [State.begin], by
  simp [State.submissions, State.begin, Place.submission?]⟩

theorem Filed.change {s t : State τ} {tasks : List τ} {events : List Event} {task : Option τ}
    (hs : Filed s tasks) (h : Change s t task events) : Filed t (tasks ++ task.toList) := by
  obtain ⟨hcalls, hqueued, hsubmitted⟩ := hs
  cases h with
  | begins task hb ht =>
    simp only [State.books, Books.mk.injEq] at hb
    obtain ⟨hq, -, hc, -⟩ := hb
    have hlater {i : Nat} {x : τ} (hi : tasks[i]? = some x) : (tasks ++ [task])[i]? = some x := by
      rw [List.getElem?_append_left (List.getElem?_eq_some_iff.1 hi).1, hi]
    refine ⟨?_, fun x hx => hlater (hqueued x (hq ▸ hx)), fun c hc => ?_⟩
    · rw [hc, hcalls, List.length_append]; rfl
    · obtain _ | ⟨_, hc⟩ := ht.mem_iff.1 hc
      · simp [hcalls]
      · exact hlater (hsubmitted c hc)
  | proceeds c others queue submitters events left hsub ha ht hb =>
    simp only [State.books, Books.mk.injEq] at hb
    obtain ⟨hq, -, hc, -⟩ := hb
    rw [Option.toList_none, List.append_nil]
    have hmine := hsubmitted c (hsub.mem_iff.2 List.mem_cons_self)
    refine ⟨hc.trans hcalls, ?_, fun d hd => ?_⟩
    · rw [hq]
      cases ha with
      | push _ =>
        intro x hx
        obtain hx | hx := List.mem_append.1 hx
        · exact hqueued x hx
        · rw [List.mem_singleton.1 hx]; exact hmine
      | _ => exact hqueued
    · obtain hd | hd := List.mem_append.1 (ht.mem_iff.1 hd)
      · cases ha <;> simp only [Option.toList, List.mem_singleton, List.not_mem_nil] at hd <;>
          subst hd <;> exact hmine
      · exact hsubmitted d (hsub.mem_iff.2 (List.mem_cons_of_mem c hd))
  | starts b left call task queue hsq _ _ hb ht =>
    simp only [State.books, Books.mk.injEq] at hb
    obtain ⟨hq, -, hc, -⟩ := hb
    rw [Option.toList_none, List.append_nil]
    exact ⟨hc.trans hcalls,
      fun x hx => hqueued x (by rw [hsq]; exact List.mem_cons_of_mem _ (hq ▸ hx)), ht ▸ hsubmitted⟩
  | ends call failed _ hb ht =>
    simp only [State.books, Books.mk.injEq] at hb
    obtain ⟨hq, -, hc, -⟩ := hb
    rw [Option.toList_none, List.append_nil]
    exact ⟨hc.trans hcalls, hq ▸ hqueued, ht ▸ hsubmitted⟩
  | keeps events hb ht _ =>
    simp only [State.books, Books.mk.injEq] at hb
    obtain ⟨hq, -, hc, -⟩ := hb
    rw [Option.toList_none, List.append_nil]
    exact ⟨hc.trans hcalls, hq ▸ hqueued, ht ▸ hsubmitted⟩

/-! ## All of it -/

/-- The ledger of a run. -/
structure Ledger (s : State τ) (history : List Event) (tasks : List τ) : Prop where
  flow : Flow s history
  tally : Tally s
  docket : Docket s.submissions s.calls history
  filed : Filed s tasks

theorem Docket.change {s t : State τ} {history events : List Event} {task : Option τ}
    (hs : Docket s.submissions s.calls history) (h : Change s t task events) :
    Docket t.submissions t.calls (history ++ events) := by
  cases h with
  | begins task hb ht =>
    simp only [State.books, Books.mk.injEq] at hb
    rw [hb.2.2.1, List.append_nil]
    exact (hs.begins task).perm ht
  | proceeds c others queue submitters events left hsub ha ht hb =>
    simp only [State.books, Books.mk.injEq] at hb
    rw [hb.2.2.1]
    exact ((hs.perm hsub.symm).advances ha).perm ht
  | starts b left call task queue _ _ _ hb ht =>
    simp only [State.books, Books.mk.injEq] at hb
    rw [hb.2.2.1, ht]
    exact hs.ignores fun _ => rfl
  | ends call failed _ hb ht =>
    simp only [State.books, Books.mk.injEq] at hb
    rw [hb.2.2.1, ht]
    exact hs.ignores fun _ => rfl
  | keeps events hb ht he =>
    simp only [State.books, Books.mk.injEq] at hb
    rw [hb.2.2.1, ht]
    refine hs.ignores fun call => List.filter_eq_nil_iff.2 fun e hmem => ?_
    have := he e hmem
    cases e <;> first | exact Bool.false_ne_true | cases this

theorem Ledger.change {s t : State τ} {history events : List Event} {tasks : List τ}
    {task : Option τ} (hs : Ledger s history tasks) (h : Change s t task events) :
    Ledger t (history ++ events) (tasks ++ task.toList) :=
  ⟨hs.flow.change h, hs.tally.change h, hs.docket.change h, hs.filed.change h⟩

theorem Traced.ledger {s : State τ} {history : List Event} {tasks : List τ}
    (h : Traced code parkTimeout now s history tasks) : Ledger s history tasks := by
  induction h with
  | begin => exact ⟨flow_begin, tally_begin, .begin, filed_begin⟩
  | step label _ hstep ih => exact ih.change (step_change hstep)

end FrameLoop.Loop
