import FrameLoop.Proofs.Signal.Unfolding

/-
  Completions that set off completions, in order.

  A listener can complete signals, hand over listeners and fail, and so can the listeners that it
  sets off.  `Lawful` says of a moment what the source promises of it: a call that completes a
  signal is followed by the runs of the listeners that waited, one after the other and in the order
  in which they came, and then returns, whatever the listeners did; a listener that is late is run
  at once.  The law speaks of what was told before the moment and of what is told behind it, so it
  goes through the nesting of calls by induction on what unfolds (`Unfolds.lawful`).
  `cascades_end_in_order` is the result for whole programs.
-/

namespace FrameLoop.Signal

variable {α : Type}

/-! ## Positions in a history -/

/-- The law holds of each of these moments, for what comes before it and what comes behind. -/
def Holds (law : List (Moment α) → Moment α → List (Moment α) → Prop)
    (before ms behind : List (Moment α)) : Prop :=
  ∀ pre m post, ms = pre ++ m :: post → law (before ++ pre) m (post ++ behind)

section

variable {law : List (Moment α) → Moment α → List (Moment α) → Prop}
  {before ms ms' behind : List (Moment α)} {m : Moment α}

theorem holds_nil : Holds law before [] behind := by
  intro pre m post h
  simp at h

theorem Holds.append (h : Holds law before ms (ms' ++ behind))
    (h' : Holds law (before ++ ms) ms' behind) : Holds law before (ms ++ ms') behind := by
  intro pre m post heq
  obtain ⟨rest, rfl, hrest⟩ | ⟨rest, rfl, hrest⟩ := List.append_eq_append_iff.1 heq
  · rw [← List.append_assoc]
    exact h' rest m post hrest
  · cases rest with
    | nil => simpa using h' [] m post hrest.symm
    | cons m' rest =>
      obtain ⟨rfl, rfl⟩ := List.cons.inj hrest
      simpa using h pre m rest rfl

theorem holds_singleton (hm : law before m behind) : Holds law before [m] behind := by
  intro pre m' post heq
  cases pre with
  | nil =>
    obtain ⟨rfl, rfl⟩ := List.cons.inj heq
    rwa [List.append_nil, List.nil_append]
  | cons m'' pre => simp at heq

theorem Holds.cons (hm : law before m (ms ++ behind)) (h : Holds law (before ++ [m]) ms behind) :
    Holds law before (m :: ms) behind :=
  (holds_singleton hm).append h

end

/-! ## The law -/

/-- A step at the top, in the program that it is a step of. -/
structure Scene (α : Type) where
  /-- The signals behind the handles. -/
  handles : List Nat
  /-- The listeners in the order in which they were handed over. -/
  listeners : List (Listener α)
  /-- The step. -/
  top : Step α
  /-- What it shows as its reply. -/
  shown : Reply α

/-- What is told when a step is over: a listener goes on with the answer, and ends if there is none.
Behind the step at the top nothing is told. -/
inductive Returns (c : Scene α) (step : Step α) : Reply α → List (Moment α) → Prop
  | top (htop : c.top = step) : Returns c step c.shown []
  | answered (label : α) (answer : Answer α) (rest : List (Moment α)) :
      Returns c step (.ok answer) (.answered label step answer :: rest)
  | failed (l : Nat) (exit : Exit) (rest : List (Moment α)) :
      Returns c step (.error exit) (.ended l exit :: rest)

/-- These moments are a run of the listener from its beginning to its end. -/
def RunOf (l : Listener α) (exit : Exit) (ms : List (Moment α)) : Prop :=
  exit ≠ .blocked ∧ ∃ inner fuel st st',
    ms = .started l.number l.label :: inner ++ [.ended l.number exit] ∧
    runBody fuel l.label l.body st = (exit, st') ∧ st'.history = st.history ++ inner

/-- These moments are the runs of the listeners, one after the other. -/
inductive RunsOf : List (Listener α) → List (Moment α) → Prop
  | nil : RunsOf [] []
  | cons {l : Listener α} {ls : List (Listener α)} {exit : Exit} {run ms : List (Moment α)}
      (hrun : RunOf l exit run) (hrest : RunsOf ls ms) : RunsOf (l :: ls) (run ++ ms)

/-- The listener that waits for the signal from now on. -/
def Moment.waits? (listeners : List (Listener α)) (p : Nat) : Moment α → Option (Listener α)
  | .registered l q false => if q = p then listeners[l]? else none
  | _ => none

/-- The listeners that were handed to a signal before it was complete. -/
def waiting (listeners : List (Listener α)) (p : Nat) (history : List (Moment α)) :
    List (Listener α) :=
  history.filterMap (Moment.waits? listeners p)

/-- What holds of a moment.  A listener is handed over once; it is late if the signal has been
completed before, and then it is run at once, and how it ends is how the step ends that brought it.
Whoever is the first to complete a signal runs the listeners that wait for it, each of them to its
end before the next, and the call returns whether they fail or not. -/
def Lawful (c : Scene α) (before : List (Moment α)) : Moment α → List (Moment α) → Prop
  | .registered l p false, behind =>
    .completed p true ∉ before ∧ (∀ q late, .registered l q late ∉ before) ∧
      ∃ h label body, c.handles[h]? = some p ∧ c.listeners[l]? = some ⟨l, label, body⟩ ∧
        Returns c (.listen h label body) (.ok .unit) behind
  | .registered l p true, behind =>
    .completed p true ∈ before ∧ (∀ q late, .registered l q late ∉ before) ∧
      ∃ h label body exit run rest, c.handles[h]? = some p ∧
        c.listeners[l]? = some ⟨l, label, body⟩ ∧ behind = run ++ rest ∧
        RunOf ⟨l, label, body⟩ exit run ∧ Returns c (.listen h label body) exit.reply rest
  | .completed p first, behind =>
    (first = true ↔ .completed p true ∉ before) ∧
      ∃ h runs rest, c.handles[h]? = some p ∧ behind = runs ++ rest ∧
        RunsOf (if first then waiting c.listeners p before else []) runs ∧
        Returns c (.complete h) (.ok (.truth first)) rest
  | .started _ _, _ | .answered _ _ _, _ | .ended _ _, _ => True

/-! ## Books -/

/-- The signal at a position; one that is still to come is fresh. -/
def Store.signal (st : Store α) (p : Nat) : Signal (Listener α) := st.signals[p]?.getD {}

theorem Store.signal_of_getElem? {st : Store α} {p : Nat} {s : Signal (Listener α)}
    (hp : st.signals[p]? = some s) : st.signal p = s := by
  rw [Store.signal, hp, Option.getD_some]

theorem Store.signal_put {st : Store α} {p : Nat} {s : Signal (Listener α)}
    (hp : st.signals[p]? = some s) (s' : Signal (Listener α)) (q : Nat) :
    (st.put p s').signal q = if q = p then s' else st.signal q := by
  unfold Store.signal Store.put
  by_cases hq : q = p
  · rw [if_pos hq, hq, List.getElem?_set_self (List.getElem?_eq_some_iff.1 hp).1, Option.getD_some]
  · rw [if_neg hq, List.getElem?_set_ne (Ne.symm hq)]

theorem Store.signal_quiet {step : Step α} {st st' : Store α} {reply : Reply α}
    (hquiet : step.IsQuiet st) (hrun : perform 2 step st = (reply, st')) (p : Nat) :
    st'.signal p = st.signal p := by
  obtain ⟨k, hs, rfl⟩ := quiet_effect hquiet hrun
  unfold Store.signal
  rw [List.getElem?_append]
  split
  · rfl
  · next hp =>
    rw [List.getElem?_eq_none (Nat.not_lt.1 hp), List.getElem?_replicate]
    split <;> rfl

/-- The moment at which the signal is completed. -/
def Moment.completes (p : Nat) : Moment α → Bool
  | .completed q true => q == p
  | _ => false

/-- Whether the moment changes what a signal holds. -/
def Moment.changes : Moment α → Bool
  | .registered _ _ _ => true
  | .completed _ first => first
  | _ => false

/-- What the history says of the signals of a store. -/
structure Books (listeners : List (Listener α)) (history : List (Moment α)) (st : Store α) :
    Prop where
  completions : ∀ p, history.countP (Moment.completes p) = (st.signal p).done.toNat
  pending : ∀ p, (st.signal p).done = false →
    (st.signal p).listeners = waiting listeners p history
  numbered : ∀ l p late, .registered l p late ∈ history → l < st.registered

section

variable {listeners : List (Listener α)} {history : List (Moment α)} {st st' : Store α}
  {s : Signal (Listener α)} {m : Moment α} {p : Nat}

theorem books_begin : Books listeners [] ({} : Store α) where
  completions _ := rfl
  pending _ _ := rfl
  numbered _ _ _ h := (List.not_mem_nil h).elim

theorem Books.add (h : Books listeners history st)
    (hdone : ∀ p, (st'.signal p).done.toNat =
      (st.signal p).done.toNat + if m.completes p then 1 else 0)
    (hpending : ∀ p, (st'.signal p).done = false →
      (st'.signal p).listeners = (st.signal p).listeners ++ (m.waits? listeners p).toList)
    (hregistered : st.registered ≤ st'.registered)
    (hnumber : ∀ l p late, m = .registered l p late → l < st'.registered) :
    Books listeners (history ++ [m]) st' where
  completions p := by
    rw [List.countP_append, List.countP_singleton, h.completions, hdone]
  pending p hp := by
    have hbefore : (st.signal p).done = false := by
      have hsum := hdone p
      rw [hp, Bool.toNat_false] at hsum
      exact Bool.toNat_eq_zero.1 (by omega)
    rw [hpending p hp, h.pending p hbefore, waiting, waiting, List.filterMap_append]
    cases hm : m.waits? listeners p <;> simp [hm]
  numbered l p late hl := by
    obtain hl | hl := List.mem_append.1 hl
    · exact Nat.lt_of_lt_of_le (h.numbered l p late hl) hregistered
    · exact hnumber l p late (List.mem_singleton.1 hl).symm

/-- What changes no signal can be told at any time. -/
theorem Books.note (h : Books listeners history st) (hm : m.changes = false) :
    Books listeners (history ++ [m]) (st.note m) := by
  cases m with
  | registered l p late => simp [Moment.changes] at hm
  | completed p first =>
    obtain rfl : first = false := hm
    exact h.add (fun _ => rfl) (fun _ _ => (List.append_nil _).symm) (Nat.le_refl _) nofun
  | started l label | answered label step answer | ended l exit =>
    exact h.add (fun _ => rfl) (fun _ _ => (List.append_nil _).symm) (Nat.le_refl _) nofun

theorem Books.quiet {step : Step α} {reply : Reply α} (h : Books listeners history st)
    (hquiet : step.IsQuiet st) (hrun : perform 2 step st = (reply, st')) :
    Books listeners history st' where
  completions p := by rw [Store.signal_quiet hquiet hrun, h.completions]
  pending p := by
    rw [Store.signal_quiet hquiet hrun]
    exact h.pending p
  numbered l p late hl := by
    obtain ⟨k, hs, rfl⟩ := quiet_effect hquiet hrun
    exact h.numbered l p late hl

theorem Books.completed (h : Books listeners history st) (hp : st.signals[p]? = some s)
    (hdone : s.done = false) :
    Books listeners (history ++ [.completed p true])
      ((st.note (.completed p true)).put p { s with done := true, listeners := [] }) := by
  have hsignal := Store.signal_put (st.getElem?_note hp (m := .completed p true))
    { s with done := true, listeners := [] }
  refine h.add (fun q => ?_) (fun q hq => ?_) (Nat.le_refl _) nofun
  · rw [hsignal]
    by_cases hqp : q = p
    · rw [if_pos hqp, hqp, Store.signal_of_getElem? hp, hdone]
      simp [Moment.completes]
    · rw [if_neg hqp]
      simp [Moment.completes, Ne.symm hqp, Store.signal, Store.note]
  · rw [hsignal] at hq ⊢
    by_cases hqp : q = p
    · simp [hqp] at hq
    · rw [if_neg hqp]
      exact (List.append_nil _).symm

theorem Books.kept {l : Listener α} (h : Books listeners history st)
    (hp : st.signals[p]? = some s) (hl : listeners[st.registered]? = some l) :
    Books listeners (history ++ [.registered st.registered p false])
      ((st.handOver p false).put p { s with listeners := s.listeners ++ [l] }) := by
  have hp' : (st.handOver p false).signals[p]? = some s := hp
  have hsignal := Store.signal_put hp' { s with listeners := s.listeners ++ [l] }
  refine h.add (fun q => ?_) (fun q hq => ?_) (Nat.le_succ _) ?_
  · rw [hsignal]
    by_cases hqp : q = p
    · rw [if_pos hqp, hqp, Store.signal_of_getElem? hp]
      rfl
    · rw [if_neg hqp]
      rfl
  · rw [hsignal] at hq ⊢
    by_cases hqp : q = p
    · rw [if_pos hqp, hqp, Store.signal_of_getElem? hp, Moment.waits?, if_pos rfl, hl]
      rfl
    · rw [if_neg hqp, Moment.waits?, if_neg (Ne.symm hqp)]
      exact (List.append_nil _).symm
  · rintro _ _ _ ⟨⟩
    exact Nat.lt_succ_self _

theorem Books.late (h : Books listeners history st) (p : Nat) :
    Books listeners (history ++ [.registered st.registered p true]) (st.handOver p true) :=
  h.add (fun _ => rfl) (fun _ _ => (List.append_nil _).symm) (Nat.le_succ _) (by
    rintro _ _ _ ⟨⟩
    exact Nat.lt_succ_self _)

theorem Books.settled (h : Books listeners history st) (hp : st.signals[p]? = some s) :
    Books listeners history (st.put p s.settle) := by
  have hsame (q : Nat) : ((st.put p s.settle).signal q).done = (st.signal q).done ∧
      ((st.put p s.settle).signal q).listeners = (st.signal q).listeners := by
    rw [Store.signal_put hp]
    by_cases hqp : q = p
    · rw [if_pos hqp, hqp, Store.signal_of_getElem? hp]
      exact ⟨rfl, rfl⟩
    · rw [if_neg hqp]
      exact ⟨rfl, rfl⟩
  exact ⟨fun q => by rw [(hsame q).1, h.completions],
    fun q hq => by rw [(hsame q).2, h.pending q ((hsame q).1 ▸ hq)], h.numbered⟩

theorem completed_mem_iff (history : List (Moment α)) (p : Nat) :
    .completed p true ∈ history ↔ 0 < history.countP (Moment.completes p) := by
  rw [List.countP_pos_iff]
  constructor
  · exact fun hmem => ⟨_, hmem, beq_self_eq_true p⟩
  · rintro ⟨m, hmem, hm⟩
    match m, hm with
    | .completed q true, hm => exact eq_of_beq hm ▸ hmem

/-- A signal is complete when it has been completed. -/
theorem Books.completed_iff (h : Books listeners history st) (hp : st.signals[p]? = some s) :
    .completed p true ∈ history ↔ s.done = true := by
  rw [completed_mem_iff, h.completions, Store.signal_of_getElem? hp]
  cases s.done <;> decide

theorem Books.never (h : Books listeners history st) (hp : st.signals[p]? = some s)
    (hdone : s.done = false) : .completed p true ∉ history := by
  rw [h.completed_iff hp, hdone]
  exact Bool.false_ne_true

theorem Books.fresh (h : Books listeners history st) (q : Nat) (late : Bool) :
    .registered st.registered q late ∉ history :=
  fun hmem => Nat.lt_irrefl _ (h.numbered _ q late hmem)

end

/-- From this number on these are the listeners, in the order in which they were handed over. -/
def Names (listeners : List (Listener α)) (n : Nat) (new : List (Listener α)) : Prop :=
  ∀ i l, new[i]? = some l → listeners[n + i]? = some l

section

variable {listeners new new' : List (Listener α)} {l : Listener α} {n : Nat}

theorem names_self (listeners : List (Listener α)) : Names listeners 0 listeners := by
  intro i l hl
  rwa [Nat.zero_add]

theorem Names.head (h : Names listeners n (l :: new)) : listeners[n]? = some l := h 0 l rfl

theorem Names.tail (h : Names listeners n (l :: new)) : Names listeners (n + 1) new := by
  intro i l' hl'
  have hnext := h (i + 1) l' (by rwa [List.getElem?_cons_succ])
  rwa [show n + 1 + i = n + (i + 1) by omega]

theorem Names.left (h : Names listeners n (new ++ new')) : Names listeners n new := by
  intro i l' hl'
  apply h i l'
  rw [List.getElem?_append_left (List.getElem?_eq_some_iff.1 hl').1, hl']

theorem Names.right (h : Names listeners n (new ++ new')) :
    Names listeners (n + new.length) new' := by
  intro i l' hl'
  rw [Nat.add_assoc]
  apply h (new.length + i) l'
  rw [List.getElem?_append_right (Nat.le_add_right ..), Nat.add_sub_cancel_left, hl']

end

variable {piece : Piece α} {st st' : Store α} {reply : Reply α} {ms : List (Moment α)}
  {new : List (Listener α)}

/-- The books are kept by whatever unfolds. -/
theorem Unfolds.books (h : Unfolds piece st reply ms new st') {listeners : List (Listener α)}
    {history : List (Moment α)} (hbooks : Books listeners history st)
    (hnames : Names listeners st.registered new) : Books listeners (history ++ ms) st' := by
  induction h generalizing history with
  | quiet hquiet hrun =>
    rw [List.append_nil]
    exact hbooks.quiet hquiet hrun
  | lost => exact hbooks.note rfl
  | won hat hcomplete _ hlast ih =>
    obtain ⟨hdone, rfl, rfl⟩ := (Signal.complete?_eq_some_iff ..).1 hcomplete
    have hcompleted := ih (hbooks.completed (Store.at?_eq_some hat) hdone) hnames
    rw [List.append_assoc] at hcompleted
    exact hcompleted.settled hlast
  | kept hat hlisten =>
    obtain ⟨-, rfl⟩ := (Signal.listen?_eq_some_iff ..).1 hlisten
    exact hbooks.kept (Store.at?_eq_some hat) hnames.head
  | @late _ p _ _ _ st _ _ _ _ _ _ _ ih =>
    have hlate := ih (hbooks.late p) hnames.tail
    rwa [List.append_assoc] at hlate
  | delivered | done => rwa [List.append_nil]
  | deliver hfirst _ ih₁ ih₂ =>
    rw [← List.append_assoc]
    exact ih₂ (ih₁ hbooks hnames.left) (hfirst.adds.registered ▸ hnames.right)
  | @listener l _ _ reply _ _ _ ih =>
    have hended := (ih (hbooks.note rfl) hnames).note (m := .ended l.number (exitOf reply)) rfl
    simpa using hended
  | @next label step _ answer _ _ _ _ _ _ _ _ hstep _ ih₁ ih₂ =>
    have hanswered := (ih₁ hbooks hnames.left).note (m := .answered label step answer) rfl
    have hrest := ih₂ hanswered (hstep.adds.registered ▸ hnames.right)
    simpa using hrest
  | fails _ ih => exact ih hbooks hnames

/-! ## Runs of listeners -/

/-- A listener that unfolds runs to its end. -/
theorem Unfolds.runOf {l : Listener α} (h : Unfolds (.listener l) st reply ms new st') :
    RunOf l (exitOf reply) ms ∧ (exitOf reply).reply = reply := by
  have hgives := h.gives
  cases h with
  | @listener _ _ st₁ _ inner _ hbody =>
    refine ⟨⟨?_, inner, _, _, st₁, rfl, hbody.runs _ (Nat.le_refl _), hbody.adds.history⟩, ?_⟩
    · obtain rfl | rfl := hgives <;> simp [exitOf]
    · obtain rfl | rfl := hgives <;> rfl

/-- A delivery runs its listeners one after the other. -/
theorem Unfolds.runsOf {ls : List (Listener α)} (h : Unfolds (.delivery ls) st reply ms new st') :
    RunsOf ls ms := by
  induction ls generalizing st ms new with
  | nil =>
    cases h
    exact .nil
  | cons l ls ih =>
    cases h with
    | deliver hfirst hrest => exact .cons hfirst.runOf.1 (ih hrest)

/-- Each of the listeners has its run there. -/
theorem RunsOf.exists_run {ls : List (Listener α)} (h : RunsOf ls ms) {l : Listener α}
    (hl : l ∈ ls) : ∃ exit run, RunOf l exit run ∧ run ⊆ ms := by
  induction h with
  | nil => exact (List.not_mem_nil hl).elim
  | @cons _ _ exit run rest hrun _ ih =>
    obtain rfl | hl := List.mem_cons.1 hl
    · exact ⟨exit, run, hrun, List.subset_append_left run rest⟩
    · obtain ⟨exit', run', hrun', hsub⟩ := ih hl
      exact ⟨exit', run', hrun', List.subset_append_of_subset_right run hsub⟩

/-! ## The law holds -/

theorem Store.handle_of_at? {h p : Nat} {s : Signal (Listener α)} (hat : st.at? h = some (p, s)) :
    st.handles[h]? = some p := by
  simp only [Store.at?, Option.bind_eq_bind, Option.bind_eq_some_iff, Option.pure_def,
    Option.some.injEq, Prod.mk.injEq] at hat
  obtain ⟨_, hp, _, -, rfl, -⟩ := hat
  exact hp

theorem handle_of_prefix {handles handles' : List Nat} {h p : Nat} (hhandles : handles <+: handles')
    (hp : handles[h]? = some p) : handles'[h]? = some p := by
  obtain ⟨more, rfl⟩ := hhandles
  rw [List.getElem?_append_left (List.getElem?_eq_some_iff.1 hp).1, hp]

/-- What is told behind a piece that gives this reply. -/
def Continues (c : Scene α) (reply : Reply α) (behind : List (Moment α)) : Piece α → Prop
  | .step s => Returns c s reply behind
  | .body _ _ => ∀ exit, reply = .error exit → ∃ l rest, behind = .ended l exit :: rest
  | .delivery _ | .listener _ => True

/-- The law holds of whatever unfolds, with whatever is told behind it. -/
theorem Unfolds.lawful (h : Unfolds piece st reply ms new st') {c : Scene α}
    {history behind : List (Moment α)} (hbooks : Books c.listeners history st)
    (hnames : Names c.listeners st.registered new) (hhandles : st'.handles <+: c.handles)
    (hbehind : Continues c reply behind piece) : Holds (Lawful c) history ms behind := by
  induction h generalizing history behind with
  | quiet | delivered | done => exact holds_nil
  | @lost h p s st hat hcomplete =>
    have hdone := (hbooks.completed_iff (Store.at?_eq_some hat)).2
      ((Signal.complete?_eq_none_iff s).1 hcomplete)
    have hhandle := handle_of_prefix hhandles (Store.handle_of_at? hat)
    exact holds_singleton ⟨by simp [hdone], h, [], behind, hhandle, rfl, .nil, hbehind⟩
  | @won h p s s' _ _ _ st st₁ _ ms hat hcomplete hruns _ ih =>
    obtain ⟨hdone, rfl, rfl⟩ := (Signal.complete?_eq_some_iff ..).1 hcomplete
    have hp := Store.at?_eq_some hat
    have hnever := hbooks.never hp hdone
    have hmore : st.handles <+: c.handles := hruns.adds.handles.trans hhandles
    have hhandle := handle_of_prefix hmore (Store.handle_of_at? hat)
    -- the call is followed by the runs of the listeners, and these by whatever follows the step
    have hblocks := hruns.runsOf
    have hsignal := Store.signal_of_getElem? hp
    rw [← hsignal, hbooks.pending p (hsignal ▸ hdone)] at hblocks
    have hfirst : Lawful c history (.completed p true) (ms ++ behind) :=
      ⟨by simp [hnever], h, ms, behind, hhandle, rfl, hblocks, hbehind⟩
    exact .cons hfirst (ih (hbooks.completed hp hdone) hnames hhandles trivial)
  | @kept h p label body s _ st hat hlisten =>
    obtain ⟨hdone, rfl⟩ := (Signal.listen?_eq_some_iff ..).1 hlisten
    have hnever := hbooks.never (Store.at?_eq_some hat) hdone
    have hmore : st.handles <+: c.handles := hhandles
    have hhandle := handle_of_prefix hmore (Store.handle_of_at? hat)
    exact holds_singleton
      ⟨hnever, hbooks.fresh, h, label, body, hhandle, hnames.head, hbehind⟩
  | @late h p label body s st st' reply ms _ hat hlisten hruns ih =>
    have hdone := (hbooks.completed_iff (Store.at?_eq_some hat)).2
      ((Signal.listen?_eq_none_iff ..).1 hlisten)
    have hmore : st.handles <+: c.handles := hruns.adds.handles.trans hhandles
    have hhandle := handle_of_prefix hmore (Store.handle_of_at? hat)
    obtain ⟨hrun, hreply⟩ := hruns.runOf
    have hfirst : Lawful c history (.registered st.registered p true) (ms ++ behind) :=
      ⟨hdone, hbooks.fresh, h, label, body, exitOf reply, ms, behind, hhandle, hnames.head, rfl,
        hrun, hreply.symm ▸ hbehind⟩
    exact .cons hfirst (ih (hbooks.late p) hnames.tail hhandles trivial)
  | deliver hfirst hrest ih₁ ih₂ =>
    have hmore := hrest.adds.handles.trans hhandles
    have hbetween := hfirst.books hbooks hnames.left
    have hnext := hfirst.adds.registered ▸ hnames.right
    exact (ih₁ hbooks hnames.left hmore trivial).append (ih₂ hbetween hnext hhandles trivial)
  | @listener l _ _ reply ms _ hbody ih =>
    have hbegun := hbooks.note (m := .started l.number l.label) rfl
    have hinner : Holds (Lawful c) (history ++ [.started l.number l.label]) ms
        (.ended l.number (exitOf reply) :: behind) := by
      apply ih hbegun hnames hhandles
      rintro exit rfl
      exact ⟨l.number, behind, rfl⟩
    exact .cons trivial (hinner.append (holds_singleton trivial))
  | @next label step steps answer st st₁ _ _ _ _ _ _ hstep hrest ih₁ ih₂ =>
    have hmore := hrest.adds.handles.trans hhandles
    have hanswered :=
      (hstep.books hbooks hnames.left).note (m := .answered label step answer) rfl
    have hnext := hstep.adds.registered ▸ hnames.right
    -- the answer is told right behind the step, so a call that ends the step returns there
    refine (ih₁ hbooks hnames.left hmore (.answered ..)).append ?_
    exact .cons trivial (ih₂ hanswered hnext hhandles hbehind)
  | fails hstep ih =>
    refine ih hbooks hnames hhandles ?_
    obtain ⟨l, rest, rfl⟩ := hbehind _ rfl
    exact .failed l _ rest

/-! ## Winners -/

/-- Whether the step is a call that has returned that it completed the signal. -/
def Step.wins (handles : List Nat) (p : Nat) : Step α → Reply α → Bool
  | .complete h, .ok (.truth true) => handles[h]? == some p
  | _, _ => false

/-- Whether the moment is the return of such a call in a listener. -/
def Moment.wins (handles : List Nat) (p : Nat) : Moment α → Bool
  | .answered _ step answer => step.wins handles p (.ok answer)
  | _ => false

def Piece.wins (handles : List Nat) (p : Nat) (reply : Reply α) : Piece α → Bool
  | .step s => s.wins handles p reply
  | _ => false

theorem wins_error (handles : List Nat) (p : Nat) (step : Step α) (exit : Exit) :
    step.wins handles p (.error exit) = false := by
  cases step <;> rfl

theorem wins_quiet {step : Step α} (hquiet : step.IsQuiet st)
    (hrun : perform 2 step st = (reply, st')) (handles : List Nat) (p : Nat) :
    step.wins handles p reply = false := by
  cases step with
  | complete h =>
    have hat : st.at? h = none := hquiet
    simp only [perform, completeAt, hat] at hrun
    cases hrun
    rfl
  | _ => rfl

theorem countP_cons_eq (q : Moment α → Bool) (m : Moment α) (ms : List (Moment α)) :
    (m :: ms).countP q = (q m).toNat + ms.countP q := by
  rw [List.countP_cons]
  cases q m <;> simp [Nat.add_comm]

/-- A signal is completed as often as a call returns that it completed it. -/
theorem Unfolds.wins (h : Unfolds piece st reply ms new st') {handles : List Nat}
    (hhandles : st'.handles <+: handles) (p : Nat) :
    ms.countP (Moment.wins handles p) + (piece.wins handles p reply).toNat =
      ms.countP (Moment.completes p) := by
  induction h with
  | quiet hquiet hrun => simp [Piece.wins, wins_quiet hquiet hrun]
  | lost | kept => rfl
  | @won h q _ _ _ _ _ st _ _ _ hat _ hruns _ ih =>
    have hmore : st.handles <+: handles := hruns.adds.handles.trans hhandles
    have hhandle := handle_of_prefix hmore (Store.handle_of_at? hat)
    have hcalls := ih hhandles
    simp only [countP_cons_eq, Moment.wins, Moment.completes, Piece.wins, Step.wins, hhandle]
      at hcalls ⊢
    rw [← hcalls, Option.some_beq_some]
    simp [Nat.add_comm]
  | late _ _ _ ih => simpa [Moment.wins, Moment.completes, Piece.wins, Step.wins] using ih hhandles
  | delivered | done => rfl
  | deliver _ hrest ih₁ ih₂ =>
    have hfirst := ih₁ (hrest.adds.handles.trans hhandles)
    have hnext := ih₂ hhandles
    simp only [Piece.wins, List.countP_append, Bool.toNat_false] at hfirst hnext ⊢
    omega
  | listener _ ih => simpa [Moment.wins, Moment.completes, Piece.wins] using ih hhandles
  | next _ hrest ih₁ ih₂ =>
    -- what the step answers is told at once
    have hfirst := ih₁ (hrest.adds.handles.trans hhandles)
    have hnext := ih₂ hhandles
    simp only [Piece.wins, List.countP_append, countP_cons_eq, Moment.wins, Moment.completes,
      Bool.toNat_false] at hfirst hnext ⊢
    omega
  | fails _ ih => simpa [Piece.wins, wins_error] using ih hhandles

/-! ## Programs -/

/-- The store at the beginning of a step, of which nothing has been told yet. -/
def Store.anew (st : Store α) : Store α := { st with history := [] }

/-- The store that a program leaves. -/
def leftBy (steps : List (Step α)) (st : Store α) : Store α :=
  steps.foldl (fun st step => (step.run st.anew).2) st

/-- All that is told in a program. -/
def moments (shown : List (Shown α)) : List (Moment α) := shown.flatMap Shown.moments

/-- The calls, at the top and in listeners, that have returned that they completed the signal. -/
def winners (handles : List Nat) (p : Nat) : List (Step α) → List (Shown α) → Nat
  | step :: steps, sh :: shown =>
    sh.moments.countP (Moment.wins handles p) + (step.wins handles p sh.reply).toNat +
      winners handles p steps shown
  | _, _ => 0

/-- What a program shows, step by step; the listeners that are handed over, and the store that is
left. -/
inductive Plays :
    List (Step α) → Store α → List (Shown α) → List (Listener α) → Store α → Prop
  | nil {st : Store α} : Plays [] st [] [] st
  | cons {step : Step α} {steps : List (Step α)} {st st₁ st₂ : Store α} {reply : Reply α}
      {ms : List (Moment α)} {shown : List (Shown α)} {new new' : List (Listener α)}
      (hstep : Unfolds (.step step) st.anew reply ms new st₁)
      (hrest : Plays steps st₁ shown new' st₂) :
      Plays (step :: steps) st (⟨reply, ms⟩ :: shown) (new ++ new') st₂

theorem Unfolds.run_eq {step : Step α} (h : Unfolds (.step step) st reply ms new st') {fuel : Nat}
    (hfuel : step.weight + st.weight ≤ fuel) : perform fuel step st = (reply, st') :=
  h.runs fuel (Nat.add_comm step.weight st.weight ▸ hfuel)

theorem exists_plays {steps : List (Step α)} (hsteps : allAlone steps = true) (hst : st.Alone) :
    ∃ new, Plays steps st (runProgram steps st) new (leftBy steps st) := by
  induction steps generalizing st with
  | nil => exact ⟨[], .nil⟩
  | cons step steps ih =>
    simp only [allAlone, Bool.and_eq_true] at hsteps
    have hanew : st.anew.Alone := hst
    have hstep : (Piece.step step).Alone := hsteps.1
    obtain ⟨reply, ms, new, st₁, hunfolds, hst₁⟩ := exists_unfolds hstep hanew
    obtain ⟨new', hrest⟩ := ih hsteps.2 hst₁
    have hrun : step.run st.anew = (reply, st₁) := hunfolds.run_eq (Nat.le_refl _)
    have hhistory : st₁.history = ms := hunfolds.adds.history
    refine ⟨new ++ new', ?_⟩
    simp only [Store.anew] at hrun
    rw [leftBy, List.foldl_cons]
    simp only [runProgram, Store.anew, hrun, hhistory]
    exact .cons hunfolds hrest

section

variable {steps : List (Step α)} {shown : List (Shown α)} {handles : List Nat}
  {listeners : List (Listener α)} {history : List (Moment α)}

theorem Plays.handles_prefix (h : Plays steps st shown new st') : st.handles <+: st'.handles := by
  induction h with
  | nil => exact List.prefix_rfl
  | cons hstep _ ih => exact List.IsPrefix.trans hstep.adds.handles ih

theorem Plays.length_eq (h : Plays steps st shown new st') : shown.length = steps.length := by
  induction h with
  | nil => rfl
  | cons _ _ ih => rw [List.length_cons, List.length_cons, ih]

theorem Books.anew (h : Books listeners history st) :
    Books listeners history st.anew :=
  ⟨h.completions, h.pending, h.numbered⟩

theorem Plays.books (h : Plays steps st shown new st') (hbooks : Books listeners history st)
    (hnames : Names listeners st.registered new) :
    Books listeners (history ++ moments shown) st' := by
  induction h generalizing history with
  | nil => exact (List.append_nil history).symm ▸ hbooks
  | cons hstep _ ih =>
    have hnext := ih (hstep.books hbooks.anew hnames.left)
      (hstep.adds.registered ▸ hnames.right)
    simpa [moments] using hnext

/-- The law holds in each step. -/
theorem Plays.lawful (h : Plays steps st shown new st') (hbooks : Books listeners history st)
    (hnames : Names listeners st.registered new) (hhandles : st'.handles <+: handles) {i : Nat}
    {step : Step α} {sh : Shown α} (hstep : steps[i]? = some step) (hsh : shown[i]? = some sh) :
    Holds (Lawful ⟨handles, listeners, step, sh.reply⟩) (history ++ moments (shown.take i))
      sh.moments [] := by
  induction h generalizing history i with
  | nil => simp at hstep
  | cons hfirst hrest ih =>
    cases i with
    | zero =>
      obtain rfl := Option.some.inj hstep
      obtain rfl := Option.some.inj hsh
      rw [List.take_zero, moments, List.flatMap_nil, List.append_nil]
      exact hfirst.lawful hbooks.anew hnames.left (hrest.handles_prefix.trans hhandles) (.top rfl)
    | succ i =>
      have hnext := ih (hfirst.books hbooks.anew hnames.left)
        (hfirst.adds.registered ▸ hnames.right) hhandles hstep hsh
      simpa [moments] using hnext

theorem Plays.winners_eq (h : Plays steps st shown new st') (hhandles : st'.handles <+: handles)
    (p : Nat) : winners handles p steps shown = (moments shown).countP (Moment.completes p) := by
  induction h with
  | nil => rfl
  | cons hstep hrest ih =>
    have hfirst := hstep.wins (hrest.handles_prefix.trans hhandles) p
    have hnext := ih hhandles
    simp only [winners, moments, List.flatMap_cons, List.countP_append, Piece.wins]
      at hfirst hnext ⊢
    omega

/-- Each step of a program ends, and more fuel would not change what it does. -/
theorem Plays.ends (h : Plays steps st shown new st') {i : Nat} {step : Step α} {sh : Shown α}
    (hstep : steps[i]? = some step) (hsh : shown[i]? = some sh) :
    (∀ exit, sh.reply = .error exit → exit = .panicked) ∧
      ∀ fuel, step.weight + (leftBy (steps.take i) st).weight ≤ fuel →
        perform fuel step (leftBy (steps.take i) st).anew =
          (sh.reply, leftBy (steps.take (i + 1)) st) := by
  induction h generalizing i with
  | nil => simp at hstep
  | @cons _ _ st st₁ _ _ _ _ _ _ hfirst hrest ih =>
    have hleft : leftBy [_] st = st₁ := congrArg Prod.snd (hfirst.run_eq (Nat.le_refl _))
    cases i with
    | zero =>
      obtain rfl := Option.some.inj hstep
      obtain rfl := Option.some.inj hsh
      refine ⟨hfirst.gives, fun fuel hfuel => ?_⟩
      have hrun := hfirst.run_eq hfuel
      rwa [← hleft] at hrun
    | succ i =>
      have hnext := ih hstep hsh
      rw [← hleft] at hnext
      exact hnext

/-- What the law says of a moment when the whole history is known. -/
def Orderly (listeners : List (Listener α)) (history : List (Moment α)) : Prop :=
  ∀ m ∈ history, ∃ c before behind later, c.listeners = listeners ∧
    history = before ++ m :: (behind ++ later) ∧ Lawful c before m behind

theorem Plays.orderly (h : Plays steps {} shown new st') : Orderly new (moments shown) := by
  intro m hm
  obtain ⟨sh, hmem, hm⟩ := List.mem_flatMap.1 hm
  obtain ⟨i, hi⟩ := List.mem_iff_getElem?.1 hmem
  obtain ⟨pre, post, heq⟩ := List.append_of_mem hm
  have hlt : i < steps.length := h.length_eq ▸ (List.getElem?_eq_some_iff.1 hi).1
  have hlaw := h.lawful books_begin (names_self new) List.prefix_rfl
    (List.getElem?_eq_getElem hlt) hi pre m post heq
  refine ⟨_, _, _, moments (shown.drop (i + 1)), rfl, ?_, hlaw⟩
  have hsplit : shown = shown.take i ++ sh :: shown.drop (i + 1) := by
    obtain ⟨hlt, rfl⟩ := List.getElem?_eq_some_iff.1 hi
    rw [← List.drop_eq_getElem_cons hlt, List.take_append_drop]
  conv => lhs; rw [hsplit]
  simp [moments, heq]

section

variable {l p : Nat} {late first : Bool}

theorem Orderly.completed (h : Orderly listeners history) (hm : .completed p first ∈ history) :
    .completed p true ∈ history := by
  obtain ⟨c, before, behind, later, -, rfl, hfirst, -⟩ := h _ hm
  cases first with
  | true => exact hm
  | false =>
    have hbefore : .completed p true ∈ before := by simpa using hfirst
    exact List.mem_append_left _ hbefore

/-- Of two moments one comes before the other. -/
theorem mem_before {m m' : Moment α} {before before' rest rest' : List (Moment α)} (hne : m ≠ m')
    (heq : before ++ m :: rest = before' ++ m' :: rest') (hm' : m' ∉ before) : m ∈ before' := by
  obtain ⟨more, rfl, hmore⟩ | ⟨more, rfl, hmore⟩ := List.append_eq_append_iff.1 heq
  · cases more with
    | nil => exact (hne (List.cons.inj hmore).1).elim
    | cons _ more =>
      obtain ⟨rfl, -⟩ := List.cons.inj hmore
      simp
  · cases more with
    | nil => exact (hne (List.cons.inj hmore).1.symm).elim
    | cons _ more =>
      obtain ⟨rfl, -⟩ := List.cons.inj hmore
      simp at hm'

/-- A listener of a signal that is completed runs. -/
theorem Orderly.runs (h : Orderly listeners history) (hl : .registered l p late ∈ history)
    (hp : .completed p true ∈ history) :
    ∃ x exit run, x.number = l ∧ RunOf x exit run ∧ run ⊆ history := by
  obtain ⟨c, before, behind, later, hc, heq, hlaw⟩ := h _ hl
  cases late with
  | true =>
    obtain ⟨-, -, _, _, _, exit, run, rest, -, -, rfl, hrun, -⟩ := hlaw
    refine ⟨_, exit, run, rfl, hrun, fun m hm => ?_⟩
    rw [heq]
    simp [hm]
  | false =>
    obtain ⟨hnever, -, _, label, body, -, hname, -⟩ := hlaw
    -- the signal is completed behind, and the listener is among those that wait
    obtain ⟨c', before', behind', later', hc', heq', -, _, runs, rest, -, rfl, hruns, -⟩ := h _ hp
    have hne : (.registered l p false : Moment α) ≠ .completed p true := nofun
    have hbefore := mem_before hne (heq.symm.trans heq') hnever
    have hwaits : ⟨l, label, body⟩ ∈ waiting c'.listeners p before' :=
      List.mem_filterMap.2 ⟨_, hbefore, by rw [Moment.waits?, if_pos rfl, hc', ← hc, hname]⟩
    obtain ⟨exit, run, hrun, hsub⟩ := hruns.exists_run hwaits
    refine ⟨_, exit, run, rfl, hrun, fun m hm => ?_⟩
    rw [heq']
    simp [hsub hm]

end

end

theorem told_eq (shown : List (Shown α)) :
    told shown = (moments shown).filterMap Moment.mark? := by
  rw [told, moments, List.filterMap_flatMap]

/-- A listener of a signal that is completed runs exactly once. -/
theorem ran_once {steps : List (Step α)} {listeners : List (Listener α)} {l p : Nat}
    {late : Bool} (h : Orderly listeners (moments (runProgram steps {})))
    (hl : .registered l p late ∈ moments (runProgram steps {}))
    (hp : .completed p true ∈ moments (runProgram steps {})) :
    (told (runProgram steps {})).count (.began l) = 1 ∧
      (told (runProgram steps {})).count (.ended l false) +
        (told (runProgram steps {})).count (.ended l true) = 1 := by
  obtain ⟨x, exit, run, rfl, ⟨hexit, inner, _, _, _, rfl, -⟩, hsub⟩ := h.runs hl hp
  have hbegan : 0 < (told (runProgram steps {})).count (.began x.number) := by
    rw [told_eq, List.count_pos_iff, List.mem_filterMap]
    exact ⟨.started x.number x.label, hsub (by simp), rfl⟩
  have hended (failed : Bool) (hmark : Moment.mark? (.ended x.number exit : Moment α) =
      some (.ended x.number failed)) :
      0 < (told (runProgram steps {})).count (.ended x.number failed) := by
    rw [told_eq, List.count_pos_iff, List.mem_filterMap]
    exact ⟨.ended x.number exit, hsub (by simp), hmark⟩
  obtain ⟨hone, hless⟩ := program_runs_once steps x.number
  cases exit with
  | finished =>
    have hpos := hended false rfl
    omega
  | panicked =>
    have hpos := hended true rfl
    omega
  | blocked => exact (hexit rfl).elim

/-! ## Cascades -/

/-- What is promised of a program without other threads and without waiting. -/
structure EndsInOrder (steps : List (Step α)) : Prop where
  /-- Each step ends with an answer or with a panic, and with more fuel it would do the same. -/
  ends : ∀ i step, steps[i]? = some step → ∃ sh, (runProgram steps {})[i]? = some sh ∧
    (∀ exit, sh.reply = .error exit → exit = .panicked) ∧
    ∀ fuel, step.weight + (leftBy (steps.take i) {}).weight ≤ fuel →
      perform fuel step (leftBy (steps.take i) {}).anew =
        (sh.reply, leftBy (steps.take (i + 1)) {})
  /-- The law holds of each moment of each step. -/
  lawful : ∃ listeners, ∀ i step sh, steps[i]? = some step → (runProgram steps {})[i]? = some sh →
    Holds (Lawful ⟨(leftBy steps {}).handles, listeners, step, sh.reply⟩)
      (moments ((runProgram steps {}).take i)) sh.moments []
  /-- A listener of a signal that somebody completes begins once, and ends once. -/
  once : ∀ l p late first, .registered l p late ∈ moments (runProgram steps {}) →
    .completed p first ∈ moments (runProgram steps {}) →
      (told (runProgram steps {})).count (.began l) = 1 ∧
        (told (runProgram steps {})).count (.ended l false) +
          (told (runProgram steps {})).count (.ended l true) = 1
  /-- One call returns that it completed the signal. -/
  winner : ∀ p first, .completed p first ∈ moments (runProgram steps {}) →
    winners (leftBy steps {}).handles p steps (runProgram steps {}) = 1

/-- Completions end and keep order, whatever they set off. -/
theorem cascades_end_in_order (steps : List (Step α)) (halone : allAlone steps = true) :
    EndsInOrder steps := by
  have hempty : ({} : Store α).Alone := nofun
  obtain ⟨new, hplays⟩ := exists_plays halone hempty
  have hnames : Names new ({} : Store α).registered new := names_self new
  have hbooks := hplays.books books_begin hnames
  rw [List.nil_append] at hbooks
  have horderly := hplays.orderly
  refine ⟨fun i step hstep => ?_, ⟨new, fun i step sh hstep hsh => ?_⟩,
    fun l p late first hl hp => ran_once horderly hl (horderly.completed hp), fun p first hp => ?_⟩
  · obtain ⟨hlt, -⟩ := List.getElem?_eq_some_iff.1 hstep
    have hsh := List.getElem?_eq_getElem (hplays.length_eq ▸ hlt)
    exact ⟨_, hsh, hplays.ends hstep hsh⟩
  · have hlaw := hplays.lawful books_begin hnames List.prefix_rfl hstep hsh
    rwa [List.nil_append] at hlaw
  · rw [hplays.winners_eq List.prefix_rfl, hbooks.completions]
    have hpos := (completed_mem_iff _ p).1 (horderly.completed hp)
    rw [hbooks.completions] at hpos
    cases hdone : ((leftBy steps {}).signal p).done with
    | true => rfl
    | false => simp [hdone] at hpos

/-- Two signals whose listeners complete each other, with listeners that fail and one that is
late. -/
def crossing : List (Step String) :=
  [.new, .new, .listen 0 "first" [.complete 1, .panic],
    .listen 1 "other" [.complete 0, .listen 0 "late" [.panic], .log "never"],
    .listen 0 "last" [.log "here"], .complete 0, .complete 1]

/-- The listeners of the first signal run one after the other, although the first of them fails, as
does the listener that it sets off; both signals are completed, by one call each. -/
theorem crossing_ends_in_order :
    allAlone crossing = true ∧ EndsInOrder crossing ∧
      told (runProgram crossing {}) =
        [.handed 0 0, .handed 1 1, .handed 0 2, .began 0, .began 1, .handed 0 3, .began 3,
          .ended 3 true, .ended 1 true, .ended 0 true, .began 2, .ended 2 false] ∧
      (runProgram crossing {}).map Shown.reply =
        [.ok (.number 0), .ok (.number 1), .ok .unit, .ok .unit, .ok .unit, .ok (.truth true),
          .ok (.truth false)] :=
  ⟨rfl, cascades_end_in_order crossing rfl, by decide +kernel, by cbv⟩

end FrameLoop.Signal
