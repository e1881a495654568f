import FrameLoop.Proofs.Signal.Programs

/-
  What a program over signals does, without fuel.

  `Unfolds` follows the interpreter from step to step and from listener to listener.  It tells the
  moments of a piece of a program one by one, and the listeners that were handed over in it; what
  never ends does not unfold.  As long as nobody else takes part and nobody waits for as long as it
  takes, every piece unfolds (`exists_unfolds`), and the interpreter does what has unfolded,
  whatever fuel it is given beyond what is needed (`Unfolds.runs`).  The measure for both is the
  weight of the piece with that of the listeners that wait: a listener is taken out before it
  runs.
-/

namespace FrameLoop.Signal

variable {α : Type}

/-! ## Programs on their own -/

mutual

/-- Nobody else takes part in the step, and it does not wait for as long as it takes. -/
def Step.alone {α : Type} : Step α → Bool
  | .wait _ | .race _ _ | .waitFor _ => false
  | .listen _ _ body => allAlone body
  | _ => true

/-- That holds of all of them. -/
def allAlone {α : Type} : List (Step α) → Bool
  | [] => true
  | step :: steps => step.alone && allAlone steps

end

/-- It holds of the listeners that wait. -/
def Store.Alone (st : Store α) : Prop :=
  ∀ s ∈ st.signals, ∀ l ∈ s.listeners, allAlone l.body = true

/-! ## What unfolds -/

/-- A piece of a program. -/
inductive Piece (α : Type)
  | step (step : Step α)
  /-- The listeners that a completion runs. -/
  | delivery (listeners : List (Listener α))
  | listener (l : Listener α)
  /-- What a listener with this label still has to do. -/
  | body (label : α) (steps : List (Step α))

/-- How a piece ends that gives this reply. -/
def exitOf : Reply α → Exit
  | .ok _ => .finished
  | .error exit => exit

/-- What a listener gives that ends like this. -/
def Exit.reply : Exit → Reply α
  | .finished => .ok .unit
  | exit => .error exit

/-- A step that runs no listener, keeps none and waits for nothing. -/
def Step.IsQuiet (st : Store α) : Step α → Prop
  | .complete h | .listen h _ _ => st.at? h = none
  | .wait _ | .race _ _ | .waitFor _ => False
  | _ => True

/-- The listener that is handed over next. -/
def Store.newcomer (st : Store α) (label : α) (body : List (Step α)) : Listener α :=
  { number := st.registered, label, body }

/-- A listener has been handed to a signal. -/
def Store.handOver (st : Store α) (p : Nat) (late : Bool) : Store α :=
  Store.note { st with registered := st.registered + 1 } (.registered st.registered p late)

/-- Run from a store, the piece gives the reply and leaves another store; these are its moments, and
the listeners that were handed over. -/
inductive Unfolds :
    Piece α → Store α → Reply α → List (Moment α) → List (Listener α) → Store α → Prop
  /-- A quiet step takes no more fuel than this. -/
  | quiet {step : Step α} {st st' : Store α} {reply : Reply α} (hquiet : step.IsQuiet st)
      (hrun : perform 2 step st = (reply, st')) : Unfolds (.step step) st reply [] [] st'
  | lost {h p : Nat} {s : Signal (Listener α)} {st : Store α} (hat : st.at? h = some (p, s))
      (hcomplete : s.complete? = none) :
      Unfolds (.step (.complete h)) st (.ok (.truth false)) [.completed p false] []
        (st.note (.completed p false))
  | won {h p : Nat} {s s' s₁ : Signal (Listener α)} {ls new : List (Listener α)}
      {st st₁ : Store α} {reply : Reply α} {ms : List (Moment α)} (hat : st.at? h = some (p, s))
      (hcomplete : s.complete? = some (ls, s'))
      (hruns : Unfolds (.delivery ls) ((st.note (.completed p true)).put p s') reply ms new st₁)
      (hlast : st₁.signals[p]? = some s₁) :
      Unfolds (.step (.complete h)) st (.ok (.truth true)) (.completed p true :: ms) new
        (st₁.put p s₁.settle)
  | kept {h p : Nat} {label : α} {body : List (Step α)} {s s' : Signal (Listener α)}
      {st : Store α} (hat : st.at? h = some (p, s))
      (hlisten : s.listen? (st.newcomer label body) = some s') :
      Unfolds (.step (.listen h label body)) st (.ok .unit) [.registered st.registered p false]
        [st.newcomer label body] ((st.handOver p false).put p s')
  | late {h p : Nat} {label : α} {body : List (Step α)} {s : Signal (Listener α)}
      {st st' : Store α} {reply : Reply α} {ms : List (Moment α)} {new : List (Listener α)}
      (hat : st.at? h = some (p, s)) (hlisten : s.listen? (st.newcomer label body) = none)
      (hruns : Unfolds (.listener (st.newcomer label body)) (st.handOver p true) reply ms new st') :
      Unfolds (.step (.listen h label body)) st reply (.registered st.registered p true :: ms)
        (st.newcomer label body :: new) st'
  | delivered {st : Store α} : Unfolds (.delivery []) st (.ok .unit) [] [] st
  /-- The next listener is run, whether this one fails or not. -/
  | deliver {l : Listener α} {ls new₁ new₂ : List (Listener α)} {st st₁ st₂ : Store α}
      {reply₁ reply₂ : Reply α} {ms₁ ms₂ : List (Moment α)}
      (hfirst : Unfolds (.listener l) st reply₁ ms₁ new₁ st₁)
      (hrest : Unfolds (.delivery ls) st₁ reply₂ ms₂ new₂ st₂) :
      Unfolds (.delivery (l :: ls)) st reply₂ (ms₁ ++ ms₂) (new₁ ++ new₂) st₂
  | listener {l : Listener α} {st st' : Store α} {reply : Reply α} {ms : List (Moment α)}
      {new : List (Listener α)}
      (hbody : Unfolds (.body l.label l.body) (st.note (.started l.number l.label)) reply ms new
        st') :
      Unfolds (.listener l) st reply
        (.started l.number l.label :: ms ++ [.ended l.number (exitOf reply)]) new
        (st'.note (.ended l.number (exitOf reply)))
  | done {label : α} {st : Store α} : Unfolds (.body label []) st (.ok .unit) [] [] st
  | next {label : α} {step : Step α} {steps : List (Step α)} {answer : Answer α}
      {st st₁ st₂ : Store α} {reply : Reply α} {ms₁ ms₂ : List (Moment α)}
      {new₁ new₂ : List (Listener α)} (hstep : Unfolds (.step step) st (.ok answer) ms₁ new₁ st₁)
      (hrest : Unfolds (.body label steps) (st₁.note (.answered label step answer)) reply ms₂ new₂
        st₂) :
      Unfolds (.body label (step :: steps)) st reply (ms₁ ++ .answered label step answer :: ms₂)
        (new₁ ++ new₂) st₂
  | fails {label : α} {step : Step α} {steps : List (Step α)} {exit : Exit} {st st' : Store α}
      {ms : List (Moment α)} {new : List (Listener α)}
      (hstep : Unfolds (.step step) st (.error exit) ms new st') :
      Unfolds (.body label (step :: steps)) st (.error exit) ms new st'

/-! ## Quiet steps -/

section

variable {step : Step α} {st st' : Store α} {reply : Reply α}

theorem perform_quiet (hquiet : step.IsQuiet st) (fuel : Nat) :
    perform (fuel + 2) step st = perform 2 step st := by
  cases step with
  | complete h =>
    have hat : st.at? h = none := hquiet
    simp only [perform, completeAt, hat]
  | listen h label body =>
    have hat : st.at? h = none := hquiet
    simp only [perform, hat]
  | wait h | race h threads | waitFor h => exact hquiet.elim
  | _ => simp only [perform]

/-- A quiet step brings fresh signals and handles at most. -/
theorem quiet_effect (hquiet : step.IsQuiet st) (hrun : perform 2 step st = (reply, st')) :
    ∃ k hs, st' = { st with
      signals := st.signals ++ List.replicate k {}, handles := st.handles ++ hs } := by
  have hnothing : ∃ k hs, st = { st with
      signals := st.signals ++ List.replicate k {}, handles := st.handles ++ hs } :=
    ⟨0, [], by simp⟩
  cases step with
  | new | default =>
    cases hrun
    exact ⟨1, [st.signals.length], rfl⟩
  | clone h =>
    simp only [perform] at hrun
    split at hrun
    · cases hrun
      exact hnothing
    · next i _ =>
      cases hrun
      exact ⟨0, [i], by simp⟩
  | complete h =>
    have hat : st.at? h = none := hquiet
    simp only [perform, completeAt, hat] at hrun
    cases hrun
    exact hnothing
  | listen h label body =>
    have hat : st.at? h = none := hquiet
    simp only [perform, hat] at hrun
    cases hrun
    exact hnothing
  | wait h | race h threads | waitFor h => exact hquiet.elim
  | isDone h | waitTimeout h limit | same h k | describe h =>
    simp only [perform] at hrun
    split at hrun <;> cases hrun <;> exact hnothing
  | log x | panic =>
    cases hrun
    exact hnothing

/-- A quiet step fails if it does not answer. -/
theorem quiet_error {exit : Exit} (hquiet : step.IsQuiet st)
    (hrun : perform 2 step st = (.error exit, st')) : exit = .panicked := by
  cases step with
  | complete h | listen h label body =>
    have hat : st.at? h = none := hquiet
    simp only [perform, completeAt, hat] at hrun
    cases hrun
    rfl
  | wait h | race h threads | waitFor h => exact hquiet.elim
  | new | default | log x => cases hrun
  | clone h | isDone h | waitTimeout h limit | same h k | describe h =>
    simp only [perform] at hrun
    split at hrun <;> cases hrun
    rfl
  | panic =>
    cases hrun
    rfl

end

/-! ## What a piece leaves -/

/-- What one store has that another one had not: these moments, and so many listeners. -/
structure Store.Adds (st : Store α) (ms : List (Moment α)) (n : Nat) (st' : Store α) : Prop where
  history : st'.history = st.history ++ ms
  registered : st'.registered = st.registered + n
  handles : st.handles <+: st'.handles
  signals : st.signals.length ≤ st'.signals.length

section

variable {st st₁ st₂ st' : Store α} {ms ms₁ ms₂ : List (Moment α)} {n n₁ n₂ : Nat}

theorem Store.Adds.refl (st : Store α) : st.Adds [] 0 st :=
  ⟨(List.append_nil _).symm, rfl, List.prefix_rfl, Nat.le_refl _⟩

theorem Store.Adds.trans (h : st.Adds ms₁ n₁ st₁) (h' : st₁.Adds ms₂ n₂ st₂) :
    st.Adds (ms₁ ++ ms₂) (n₁ + n₂) st₂ where
  history := by rw [h'.history, h.history, List.append_assoc]
  registered := by rw [h'.registered, h.registered, Nat.add_assoc]
  handles := h.handles.trans h'.handles
  signals := Nat.le_trans h.signals h'.signals

theorem Store.adds_note (st : Store α) (m : Moment α) : st.Adds [m] 0 (st.note m) :=
  ⟨rfl, rfl, List.prefix_rfl, Nat.le_refl _⟩

theorem Store.adds_handOver (st : Store α) (p : Nat) (late : Bool) :
    st.Adds [.registered st.registered p late] 1 (st.handOver p late) :=
  ⟨rfl, rfl, List.prefix_rfl, Nat.le_refl _⟩

theorem Store.Adds.put (h : st.Adds ms n st') (p : Nat) (s : Signal (Listener α)) :
    st.Adds ms n (st'.put p s) :=
  ⟨h.history, h.registered, h.handles, Store.length_put st' p s ▸ h.signals⟩

end

theorem Unfolds.adds {piece : Piece α} {st st' : Store α} {reply : Reply α}
    {ms : List (Moment α)} {new : List (Listener α)}
    (h : Unfolds piece st reply ms new st') : st.Adds ms new.length st' := by
  induction h with
  | quiet hquiet hrun =>
    obtain ⟨k, hs, rfl⟩ := quiet_effect hquiet hrun
    exact ⟨(List.append_nil _).symm, rfl, List.prefix_append .., by simp⟩
  | lost => exact Store.adds_note ..
  | @won _ p _ s' _ _ _ st _ _ _ _ _ _ _ ih =>
    have hset := (st.adds_note (.completed p true)).put p s'
    simpa using (hset.trans ih).put ..
  | kept => exact (Store.adds_handOver ..).put ..
  | late _ _ _ ih => simpa [Nat.add_comm] using (Store.adds_handOver ..).trans ih
  | delivered | done => exact .refl _
  | deliver _ _ ih₁ ih₂ => exact List.length_append ▸ ih₁.trans ih₂
  | listener _ ih => simpa using ((Store.adds_note ..).trans ih).trans (Store.adds_note ..)
  | next _ _ ih₁ ih₂ => simpa using (ih₁.trans (Store.adds_note ..)).trans ih₂
  | fails _ ih => exact ih

/-! ## Weights -/

@[simp] theorem Store.weight_note (st : Store α) (m : Moment α) :
    (st.note m).weight = st.weight := rfl

@[simp] theorem Store.weight_handOver (st : Store α) (p : Nat) (late : Bool) :
    (st.handOver p late).weight = st.weight := rfl

theorem Store.weightOf_cons (l : Listener α) (ls : List (Listener α)) :
    weightOf (l :: ls) = 2 + weights l.body + weightOf ls := rfl

theorem Store.weightOf_append (ls ls' : List (Listener α)) :
    weightOf (ls ++ ls') = weightOf ls + weightOf ls' := by
  induction ls with
  | nil => exact (Nat.zero_add _).symm
  | cons l ls ih =>
    rw [List.cons_append, weightOf_cons, weightOf_cons, ih]
    omega

/-- What it takes at most to run the listeners of these signals. -/
def weigh (ss : List (Signal (Listener α))) : Nat :=
  ss.foldr (fun s n => Store.weightOf s.listeners + n) 0

theorem weigh_cons (s : Signal (Listener α)) (ss : List (Signal (Listener α))) :
    weigh (s :: ss) = Store.weightOf s.listeners + weigh ss := rfl

theorem weigh_set {ss : List (Signal (Listener α))} {p : Nat} {s : Signal (Listener α)}
    (hp : ss[p]? = some s) (s' : Signal (Listener α)) :
    weigh (ss.set p s') + Store.weightOf s.listeners = weigh ss + Store.weightOf s'.listeners := by
  induction ss generalizing p with
  | nil => simp at hp
  | cons t ss ih =>
    cases p with
    | zero =>
      obtain rfl : t = s := by simpa using hp
      rw [List.set_cons_zero, weigh_cons, weigh_cons]
      omega
    | succ p =>
      have hrest := ih (p := p) (by simpa using hp)
      rw [List.set_cons_succ, weigh_cons, weigh_cons]
      omega

theorem weigh_fresh (k : Nat) : weigh (List.replicate k ({} : Signal (Listener α))) = 0 := by
  induction k with
  | zero => rfl
  | succ k ih =>
    rw [List.replicate_succ, weigh_cons, ih]
    rfl

theorem weigh_append_fresh (ss : List (Signal (Listener α))) (k : Nat) :
    weigh (ss ++ List.replicate k ({} : Signal (Listener α))) = weigh ss := by
  induction ss with
  | nil => exact weigh_fresh k
  | cons s ss ih => rw [List.cons_append, weigh_cons, weigh_cons, ih]

theorem Store.weight_put {st : Store α} {p : Nat} {s : Signal (Listener α)}
    (hp : st.signals[p]? = some s) (s' : Signal (Listener α)) :
    (st.put p s').weight + weightOf s.listeners = st.weight + weightOf s'.listeners :=
  weigh_set hp s'

theorem Store.weight_settle {st : Store α} {p : Nat} {s : Signal (Listener α)}
    (hp : st.signals[p]? = some s) : (st.put p s.settle).weight = st.weight :=
  Nat.add_right_cancel (Store.weight_put hp s.settle)

theorem weight_quiet {step : Step α} {st st' : Store α} {reply : Reply α}
    (hquiet : step.IsQuiet st) (hrun : perform 2 step st = (reply, st')) :
    st'.weight = st.weight := by
  obtain ⟨k, hs, rfl⟩ := quiet_effect hquiet hrun
  exact weigh_append_fresh st.signals k

theorem Step.three_le_weight (step : Step α) : 3 ≤ step.weight := by
  cases step <;> simp only [Step.weight] <;> omega

/-- What it takes at most to run a piece, apart from the listeners that wait. -/
def Piece.need : Piece α → Nat
  | .step s => s.weight
  | .delivery ls => 1 + Store.weightOf ls
  | .listener l => 2 + weights l.body
  | .body _ steps => 1 + weights steps

theorem weight_completed {st : Store α} {h p : Nat} {s s' : Signal (Listener α)}
    {ls : List (Listener α)} (hat : st.at? h = some (p, s))
    (hcomplete : s.complete? = some (ls, s')) :
    ((st.note (.completed p true)).put p s').weight + Store.weightOf ls = st.weight := by
  obtain ⟨-, rfl, rfl⟩ := (Signal.complete?_eq_some_iff ..).1 hcomplete
  exact Store.weight_put (st.getElem?_note (Store.at?_eq_some hat)) _

/-- A listener that is kept counts. -/
theorem weight_listened {st : Store α} {h p : Nat} {s s' : Signal (Listener α)} {label : α}
    {body : List (Step α)} (hat : st.at? h = some (p, s))
    (hlisten : s.listen? (st.newcomer label body) = some s') :
    ((st.handOver p false).put p s').weight = st.weight + (2 + weights body) := by
  obtain ⟨-, rfl⟩ := (Signal.listen?_eq_some_iff ..).1 hlisten
  have hp : (st.handOver p false).signals[p]? = some s := Store.at?_eq_some hat
  have hput := Store.weight_put hp { s with listeners := s.listeners ++ [st.newcomer label body] }
  have hone : Store.weightOf [st.newcomer label body] = 2 + weights body := rfl
  rw [Store.weightOf_append, Store.weight_handOver] at hput
  omega

variable {piece : Piece α} {st st' : Store α} {reply : Reply α} {ms : List (Moment α)}
  {new : List (Listener α)}

/-- What a piece needs pays for the listeners that it leaves behind. -/
theorem Unfolds.weight_lt (h : Unfolds piece st reply ms new st') :
    st'.weight < st.weight + piece.need := by
  induction h with
  | @quiet step st st' reply hquiet hrun =>
    rw [weight_quiet hquiet hrun]
    exact Nat.lt_add_of_pos_right (Nat.lt_of_lt_of_le (by decide) step.three_le_weight)
  | lost => exact Nat.lt_add_of_pos_right (Nat.lt_of_lt_of_le (by decide) (Step.three_le_weight _))
  | won hat hcomplete _ hlast ih =>
    have htaken := weight_completed hat hcomplete
    rw [Store.weight_settle hlast]
    simp only [Piece.need, Step.weight] at ih ⊢
    omega
  | kept hat hlisten =>
    have hkept := weight_listened hat hlisten
    simp only [Piece.need, Step.weight]
    omega
  | late _ _ _ ih =>
    simp only [Piece.need, Step.weight, Store.weight_handOver, Store.newcomer] at ih ⊢
    omega
  | delivered | done => simp only [Piece.need]; omega
  | deliver _ _ ih₁ ih₂ =>
    simp only [Piece.need, Store.weightOf_cons] at ih₁ ih₂ ⊢
    omega
  | listener _ ih =>
    simp only [Piece.need, Store.weight_note] at ih ⊢
    omega
  | next _ _ ih₁ ih₂ =>
    simp only [Piece.need, weights, Store.weight_note] at ih₁ ih₂ ⊢
    omega
  | fails _ ih =>
    simp only [Piece.need, weights] at ih ⊢
    omega

/-! ## The interpreter -/

/-- The replies that a piece can give: nothing waits forever. -/
def Piece.Gives (reply : Reply α) : Piece α → Prop
  | .step _ => ∀ exit, reply = .error exit → exit = .panicked
  | _ => reply = .ok .unit ∨ reply = .error .panicked

theorem Unfolds.gives (h : Unfolds piece st reply ms new st') : piece.Gives reply := by
  induction h with
  | quiet hquiet hrun =>
    rintro exit rfl
    exact quiet_error hquiet hrun
  | lost | won | kept => exact nofun
  | late _ _ _ ih =>
    rintro exit rfl
    exact Except.error.inj (ih.resolve_left nofun)
  | delivered | done => exact .inl rfl
  | deliver _ _ _ ih => exact ih
  | listener _ ih => exact ih
  | next _ _ _ ih => exact ih
  | fails _ ih => exact .inr (congrArg _ (ih _ rfl))

/-- With this fuel the interpreter does the same. -/
def Piece.Runs (fuel : Nat) (st : Store α) (reply : Reply α) (st' : Store α) : Piece α → Prop
  | .step s => perform fuel s st = (reply, st')
  | .delivery ls => runListeners fuel ls st = (true, st')
  | .listener l => runListener fuel l st = (exitOf reply, st')
  | .body label steps => runBody fuel label steps st = (exitOf reply, st')

theorem perform_kept {h p : Nat} {label : α} {body : List (Step α)} {s s' : Signal (Listener α)}
    (hat : st.at? h = some (p, s)) (hlisten : s.listen? (st.newcomer label body) = some s')
    (fuel : Nat) :
    perform (fuel + 1) (.listen h label body) st =
      (.ok .unit, (st.handOver p false).put p s') := by
  have hkept : s.listen? { number := st.registered, label, body } = some s' := hlisten
  simp only [perform, hat, hkept]
  rfl

theorem perform_late {h p : Nat} {label : α} {body : List (Step α)} {s : Signal (Listener α)}
    (hat : st.at? h = some (p, s)) (hlisten : s.listen? (st.newcomer label body) = none)
    (hgives : reply = .ok .unit ∨ reply = .error .panicked) {fuel : Nat}
    (hl : runListener fuel (st.newcomer label body) (st.handOver p true) = (exitOf reply, st')) :
    perform (fuel + 1) (.listen h label body) st = (reply, st') := by
  have hnone : s.listen? { number := st.registered, label, body } = none := hlisten
  simp only [Store.newcomer, Store.handOver] at hl
  simp only [perform, hat, hnone, hl]
  obtain rfl | rfl := hgives <;> rfl

theorem runListeners_cons {l : Listener α} {ls : List (Listener α)} {st₁ : Store α} {fuel : Nat}
    (hgives : reply = .ok .unit ∨ reply = .error .panicked)
    (hl : runListener fuel l st = (exitOf reply, st₁))
    (hls : runListeners fuel ls st₁ = (true, st')) :
    runListeners (fuel + 1) (l :: ls) st = (true, st') := by
  simp only [runListeners, hl]
  obtain rfl | rfl := hgives <;> exact hls

/-- The interpreter does what unfolds, whatever fuel it is given beyond what is needed. -/
theorem Unfolds.runs (h : Unfolds piece st reply ms new st') (fuel : Nat)
    (hfuel : st.weight + piece.need ≤ fuel) : piece.Runs fuel st reply st' := by
  induction h generalizing fuel with
  | @quiet step st _ _ hquiet hrun =>
    have hthree : 3 ≤ st.weight + step.weight :=
      Nat.le_trans step.three_le_weight (Nat.le_add_left ..)
    obtain ⟨k, rfl⟩ := Nat.exists_eq_add_of_le' (Nat.le_trans hthree hfuel)
    exact (perform_quiet hquiet (k + 1)).trans hrun
  | lost hat hcomplete =>
    simp only [Piece.need, Step.weight] at hfuel
    obtain ⟨k, rfl⟩ := Nat.exists_eq_add_of_le' (show 2 ≤ fuel by omega)
    simp only [Piece.Runs, perform, completeAt, hat, hcomplete]
  | won hat hcomplete _ hlast ih =>
    have htaken := weight_completed hat hcomplete
    simp only [Piece.need, Step.weight] at hfuel ih
    obtain ⟨k, rfl⟩ := Nat.exists_eq_add_of_le' (show 2 ≤ fuel by omega)
    have hls := ih k (by omega)
    simp only [Piece.Runs] at hls
    simp only [Piece.Runs, perform, completeAt, hat, hcomplete, hls, hlast]
  | kept hat hlisten =>
    simp only [Piece.need, Step.weight] at hfuel
    obtain ⟨k, rfl⟩ := Nat.exists_eq_add_of_le' (show 1 ≤ fuel by omega)
    exact perform_kept hat hlisten k
  | late hat hlisten hruns ih =>
    simp only [Piece.need, Step.weight, Store.newcomer, Store.weight_handOver] at hfuel ih
    obtain ⟨k, rfl⟩ := Nat.exists_eq_add_of_le' (show 1 ≤ fuel by omega)
    exact perform_late hat hlisten hruns.gives (ih k (by omega))
  | delivered =>
    simp only [Piece.need] at hfuel
    obtain ⟨k, rfl⟩ := Nat.exists_eq_add_of_le' (show 1 ≤ fuel by omega)
    rfl
  | deliver hfirst _ ih₁ ih₂ =>
    have hlt := hfirst.weight_lt
    simp only [Piece.need, Store.weightOf_cons] at hfuel hlt ih₁ ih₂
    obtain ⟨k, rfl⟩ := Nat.exists_eq_add_of_le' (show 1 ≤ fuel by omega)
    exact runListeners_cons hfirst.gives (ih₁ k (by omega)) (ih₂ k (by omega))
  | listener _ ih =>
    simp only [Piece.need, Store.weight_note] at hfuel ih
    obtain ⟨k, rfl⟩ := Nat.exists_eq_add_of_le' (show 1 ≤ fuel by omega)
    have hbody := ih k (by omega)
    simp only [Piece.Runs] at hbody
    simp only [Piece.Runs, runListener, hbody]
  | done =>
    simp only [Piece.need] at hfuel
    obtain ⟨k, rfl⟩ := Nat.exists_eq_add_of_le' (show 1 ≤ fuel by omega)
    rfl
  | next hstep _ ih₁ ih₂ =>
    have hlt := hstep.weight_lt
    simp only [Piece.need, weights, Store.weight_note] at hfuel hlt ih₁ ih₂
    obtain ⟨k, rfl⟩ := Nat.exists_eq_add_of_le' (show 1 ≤ fuel by omega)
    have hfirst := ih₁ k (by omega)
    have hrest := ih₂ k (by omega)
    simp only [Piece.Runs] at hfirst hrest
    simp only [Piece.Runs, runBody, hfirst, hrest]
  | fails _ ih =>
    simp only [Piece.need, weights] at hfuel ih
    obtain ⟨k, rfl⟩ := Nat.exists_eq_add_of_le' (show 1 ≤ fuel by omega)
    have hstep := ih k (by omega)
    simp only [Piece.Runs] at hstep
    simp only [Piece.Runs, runBody, hstep]
    rfl

/-! ## Everything unfolds -/

/-- No step of the piece waits for as long as it takes, or for anybody else. -/
def Piece.Alone : Piece α → Prop
  | .step s => s.alone = true
  | .delivery ls => ∀ l ∈ ls, allAlone l.body = true
  | .listener l => allAlone l.body = true
  | .body _ steps => allAlone steps = true

theorem Store.Alone.of_getElem? (hst : st.Alone) {p : Nat} {s : Signal (Listener α)}
    (hp : st.signals[p]? = some s) : ∀ l ∈ s.listeners, allAlone l.body = true :=
  hst s (List.mem_of_getElem? hp)

theorem Store.Alone.put (hst : st.Alone) (p : Nat) {s : Signal (Listener α)}
    (hs : ∀ l ∈ s.listeners, allAlone l.body = true) : (st.put p s).Alone := by
  intro t ht
  obtain ht | rfl := List.mem_or_eq_of_mem_set ht
  · exact hst t ht
  · exact hs

theorem Store.Alone.quiet {step : Step α} (hst : st.Alone) (hquiet : step.IsQuiet st)
    (hrun : perform 2 step st = (reply, st')) : st'.Alone := by
  obtain ⟨k, hs, rfl⟩ := quiet_effect hquiet hrun
  intro s hs l hl
  obtain hs | hs := List.mem_append.1 hs
  · exact hst s hs l hl
  · rw [List.eq_of_mem_replicate hs] at hl
    exact (List.not_mem_nil hl).elim

/-- The piece unfolds from the store, and no listener that waits waits forever. -/
def Piece.Ends (piece : Piece α) (st : Store α) : Prop :=
  ∃ reply ms new st', Unfolds piece st reply ms new st' ∧ st'.Alone

/-- What needs less than this ends. -/
def EndsBelow (α : Type) (n : Nat) : Prop :=
  ∀ (piece : Piece α) (st : Store α), piece.Alone → st.Alone → st.weight + piece.need < n →
    piece.Ends st

theorem quiet_ends (hst : st.Alone) {step : Step α} (hquiet : step.IsQuiet st) :
    (Piece.step step).Ends st :=
  ⟨_, _, _, _, .quiet hquiet rfl, hst.quiet hquiet rfl⟩

theorem complete_ends {n : Nat} (ih : EndsBelow α n) (hst : st.Alone) (h : Nat)
    (hn : st.weight + 3 ≤ n) : (Piece.step (.complete h)).Ends st := by
  cases hat : st.at? h with
  | none => exact quiet_ends hst hat
  | some found =>
    obtain ⟨p, s⟩ := found
    have hp := Store.at?_eq_some hat
    cases hcomplete : s.complete? with
    | none => exact ⟨_, _, _, _, .lost hat hcomplete, hst⟩
    | some taken =>
      obtain ⟨ls, s'⟩ := taken
      have htaken := weight_completed hat hcomplete
      obtain ⟨-, rfl, rfl⟩ := (Signal.complete?_eq_some_iff ..).1 hcomplete
      -- the signal has no listeners left, and those that it had are run
      have hput : Store.Alone ((st.note (.completed p true)).put p
          { s with done := true, listeners := [] }) := Store.Alone.put hst p nofun
      obtain ⟨reply, ms, new, st₁, hruns, hst₁⟩ :=
        ih (.delivery s.listeners) _ (hst.of_getElem? hp) hput
          (by simp only [Piece.need]; omega)
      have hlength := hruns.adds.signals
      rw [Store.length_put] at hlength
      have hlt := Nat.lt_of_lt_of_le (List.getElem?_eq_some_iff.1 hp).1 hlength
      have hlast := List.getElem?_eq_getElem hlt
      have hlisteners := hst₁.of_getElem? hlast
      exact ⟨_, _, _, _, .won hat hcomplete hruns hlast, hst₁.put p hlisteners⟩

theorem listen_ends {n : Nat} (ih : EndsBelow α n) (hst : st.Alone) (h : Nat) (label : α)
    {body : List (Step α)} (hbody : allAlone body = true)
    (hn : st.weight + (4 + weights body) ≤ n) : (Piece.step (.listen h label body)).Ends st := by
  cases hat : st.at? h with
  | none => exact quiet_ends hst hat
  | some found =>
    obtain ⟨p, s⟩ := found
    cases hlisten : s.listen? (st.newcomer label body) with
    | none =>
      obtain ⟨reply, ms, new, st₁, hruns, hst₁⟩ :=
        ih (.listener (st.newcomer label body)) (st.handOver p true) hbody hst
          (by simp only [Piece.need, Store.newcomer, Store.weight_handOver]; omega)
      exact ⟨_, _, _, _, .late hat hlisten hruns, hst₁⟩
    | some s' =>
      have hhanded : (st.handOver p false).Alone := hst
      refine ⟨_, _, _, _, .kept hat hlisten, hhanded.put p ?_⟩
      obtain ⟨-, rfl⟩ := (Signal.listen?_eq_some_iff ..).1 hlisten
      intro l hl
      obtain hl | hl := List.mem_append.1 hl
      · exact hst.of_getElem? (Store.at?_eq_some hat) l hl
      · rw [List.mem_singleton.1 hl]
        exact hbody

theorem step_ends {n : Nat} (ih : EndsBelow α n) (hst : st.Alone) {step : Step α}
    (hstep : step.alone = true) (hn : st.weight + step.weight ≤ n) :
    (Piece.step step).Ends st := by
  cases step with
  | complete h => exact complete_ends ih hst h hn
  | listen h label body =>
    simp only [Step.alone] at hstep
    exact listen_ends ih hst h label hstep hn
  | wait h | race h threads | waitFor h => simp [Step.alone] at hstep
  | _ => exact quiet_ends hst trivial

/-- A completion runs all of its listeners to their ends, -/
theorem delivery_ends {n : Nat} (ih : EndsBelow α n) (hst : st.Alone) {ls : List (Listener α)}
    (hls : ∀ l ∈ ls, allAlone l.body = true) (hn : st.weight + (1 + Store.weightOf ls) ≤ n) :
    (Piece.delivery ls).Ends st := by
  cases ls with
  | nil => exact ⟨_, _, _, _, .delivered, hst⟩
  | cons l ls =>
    obtain ⟨hl, hls⟩ := List.forall_mem_cons.1 hls
    rw [Store.weightOf_cons] at hn
    obtain ⟨_, _, _, st₁, hfirst, hst₁⟩ :=
      ih (.listener l) st hl hst (by simp only [Piece.need]; omega)
    have hlt := hfirst.weight_lt
    obtain ⟨_, _, _, st₂, hrest, hst₂⟩ :=
      ih (.delivery ls) st₁ hls hst₁ (by simp only [Piece.need] at hlt ⊢; omega)
    exact ⟨_, _, _, _, .deliver hfirst hrest, hst₂⟩

theorem listener_ends {n : Nat} (ih : EndsBelow α n) (hst : st.Alone) {l : Listener α}
    (hl : allAlone l.body = true) (hn : st.weight + (2 + weights l.body) ≤ n) :
    (Piece.listener l).Ends st := by
  obtain ⟨_, _, _, st₁, hbody, hst₁⟩ :=
    ih (.body l.label l.body) (st.note (.started l.number l.label)) hl hst
      (by simp only [Piece.need, Store.weight_note]; omega)
  exact ⟨_, _, _, _, .listener hbody, hst₁⟩

/-- and a listener all of its steps, up to the first that fails. -/
theorem body_ends {n : Nat} (ih : EndsBelow α n) (hst : st.Alone) (label : α)
    {steps : List (Step α)} (hsteps : allAlone steps = true)
    (hn : st.weight + (1 + weights steps) ≤ n) : (Piece.body label steps).Ends st := by
  cases steps with
  | nil => exact ⟨_, _, _, _, .done, hst⟩
  | cons step steps =>
    simp only [allAlone, Bool.and_eq_true] at hsteps
    simp only [weights] at hn
    obtain ⟨reply, _, _, st₁, hstep, hst₁⟩ :=
      ih (.step step) st hsteps.1 hst (by simp only [Piece.need]; omega)
    cases reply with
    | error exit => exact ⟨_, _, _, _, .fails hstep, hst₁⟩
    | ok answer =>
      have hlt := hstep.weight_lt
      obtain ⟨_, _, _, st₂, hrest, hst₂⟩ :=
        ih (.body label steps) (st₁.note (.answered label step answer)) hsteps.2 hst₁
          (by simp only [Piece.need, Store.weight_note] at hlt ⊢; omega)
      exact ⟨_, _, _, _, .next hstep hrest, hst₂⟩

theorem endsBelow (n : Nat) : EndsBelow α n := by
  induction n with
  | zero => exact fun _ _ _ _ hlt => (Nat.not_lt_zero _ hlt).elim
  | succ n ih =>
    intro piece st hpiece hst hlt
    have hn := Nat.le_of_lt_succ hlt
    cases piece with
    | step step => exact step_ends ih hst hpiece hn
    | delivery ls => exact delivery_ends ih hst hpiece hn
    | listener l => exact listener_ends ih hst hpiece hn
    | body label steps => exact body_ends ih hst label hpiece hn

/-- Whatever nobody has to be waited for in ends. -/
theorem exists_unfolds (hpiece : piece.Alone) (hst : st.Alone) : piece.Ends st :=
  endsBelow _ piece st hpiece hst (Nat.lt_succ_self _)

end FrameLoop.Signal
