import FrameLoop.Proofs.Parker.Lawful
import Mathlib.Data.List.DropRight

/-
  The signal of the parkers is one token.  A run of a parker is a run of the token (`runs_refine`),
  so what a token keeps every parker keeps: a rest that takes the token takes one that was set since
  the rest before it that did (`Earned`), and a program that makes its calls one after the other
  cannot tell one parker from another (`Plays.answers_eq`).
-/

namespace FrameLoop

open Parker TokenParker

/-! ## What a token keeps -/

/-- What was done since the last rest that took the token. -/
def sinceTake (history : List TokenAct) : List TokenAct := history.rtakeWhile (· ≠ .take)

theorem sinceTake_concat {history : List TokenAct} {a : TokenAct} (h : a ≠ .take) :
    sinceTake (history ++ [a]) = sinceTake history ++ [a] :=
  List.rtakeWhile_concat_pos _ _ _ (by simpa using h)

/-- The token was set since it was last taken, whenever it is there or is taken. -/
structure Earned (s : TokenState) (history : List TokenAct) : Prop where
  pending : s.token = true → .set ∈ sinceTake history
  taken : ∀ before after, history = before ++ .take :: after → .set ∈ sinceTake before

theorem earned_fresh : Earned {} [] :=
  ⟨nofun, fun before after h => by simp at h⟩

/-- An act behind a history that is cut at a rest: it is that rest, or comes later. -/
theorem cut_concat {history before after : List TokenAct} {a : TokenAct}
    (h : history ++ [a] = before ++ .take :: after) :
    (a = .take ∧ history = before) ∨ ∃ after', history = before ++ .take :: after' := by
  obtain rfl | ⟨after', b, rfl⟩ := after.eq_nil_or_concat
  · obtain ⟨hhistory, ha⟩ := List.append_inj' h rfl
    exact .inl ⟨(List.cons.inj ha).1, hhistory⟩
  · rw [List.concat_eq_append, ← List.cons_append, ← List.append_assoc] at h
    exact .inr ⟨after', (List.append_inj' h rfl).1⟩

/-- An act that does not take the token. -/
theorem Earned.other {s t : TokenState} {history : List TokenAct} {a : TokenAct}
    (he : Earned s history) (ha : a ≠ .take)
    (ht : t.token = true → s.token = true ∨ a = .set) : Earned t (history ++ [a]) where
  pending htoken := by
    rw [sinceTake_concat ha]
    obtain hs | rfl := ht htoken
    · exact List.mem_append_left _ (he.pending hs)
    · exact List.mem_append_right _ List.mem_cons_self
  taken before after h := by
    obtain ⟨htake, -⟩ | ⟨after', h⟩ := cut_concat h
    · exact absurd htake ha
    · exact he.taken before after' h

theorem Earned.act {s t : TokenState} {history : List TokenAct} {a : TokenAct}
    (he : Earned s history) (h : s.act a = some t) : Earned t (history ++ [a]) := by
  cases a with
  | park =>
    simp only [TokenState.act] at h
    split at h <;> cases h
    exact he.other (by simp) .inl
  | take =>
    by_cases htoken : s.rest = .resting ∧ s.token = true
    · rw [TokenState.act, if_pos htoken] at h
      cases h
      refine ⟨by simp, fun before after hcut => ?_⟩
      obtain ⟨-, rfl⟩ | ⟨after', hcut⟩ := cut_concat hcut
      · exact he.pending htoken.2
      · exact he.taken before after' hcut
    · rw [TokenState.act, if_neg htoken] at h
      cases h
  | giveUp =>
    simp only [TokenState.act] at h
    split at h <;> cases h
    exact he.other (by simp) .inl
  | unpark =>
    cases h
    exact he.other (by simp) .inl
  | set =>
    simp only [TokenState.act] at h
    split at h <;> cases h
    exact he.other (by simp) fun _ => .inr rfl

/-- Every run of the token earns what it takes. -/
theorem Earned.runs {s : TokenState} {history : List TokenAct}
    (h : Runs TokenState.step {} history s) : Earned s history := by
  refine h.keeps (P := Earned) (fun label he hstep => ?_) earned_fresh
  obtain ⟨t, ht, heq⟩ := Option.map_eq_some_iff.1 hstep
  cases heq
  exact he.act ht

/-- A rest answers `true` in the act that takes the token, and `false` in the one that gives up. -/
theorem TokenState.act_answers {s t : TokenState} {a : TokenAct} (h : s.act a = some t) :
    (.take = a ↔ s.answer? = none ∧ t.answer? = some true) ∧
      (.giveUp = a ↔ s.answer? = none ∧ t.answer? = some false) := by
  cases a with
  | park =>
    simp only [act] at h
    split at h <;> cases h
    simp [answer?]
  | take =>
    simp only [act] at h
    split at h <;> cases h
    simp_all [answer?]
  | giveUp =>
    simp only [act] at h
    split at h <;> cases h
    simp_all [answer?]
  | unpark =>
    have hsame : t.answer? = s.answer? := by cases h; rfl
    rw [hsame]
    cases s.answer? <;> simp
  | set =>
    have hsame : t.answer? = s.answer? := by
      simp only [act] at h
      split at h <;> cases h
      rfl
    rw [hsame]
    cases s.answer? <;> simp

/-! ## Runs of parkers -/

variable {σ : Type} [TokenParker σ] [LawfulParker σ]

theorem move_refines {s t : σ} {label : ParkerStep} {events : List TokenAct}
    (h : move s label = some (t, events)) : Runs TokenState.step (view s) events (view t) := by
  obtain ⟨u, hu, heq⟩ := Option.map_eq_some_iff.1 h
  cases heq
  obtain ⟨hacts, hview⟩ | ⟨a, hacts, -, ha⟩ := LawfulParker.view_step hu
  · rw [hacts, hview]
    exact .refl _
  · have hstep : (view s).step a = some (view t, [a]) := by rw [TokenState.step, ha]; rfl
    have hrun : Runs TokenState.step (view s) ([a] ++ []) (view t) := .step a hstep (.refl _)
    rwa [hacts]

/-- A run of a parker is a run of the token. -/
theorem runs_refine {s t : σ} {history : List TokenAct} (h : Runs move s history t) :
    Runs TokenState.step (view s) history (view t) := by
  induction h with
  | refl s => exact .refl _
  | step label hstep _ ih => exact (move_refines hstep).trans ih

theorem waking_fresh : Waking (fresh : σ) := by
  intro hasleep
  rw [LawfulParker.awake_fresh] at hasleep
  cases hasleep

/-- Nobody sleeps through a wake-up. -/
theorem Waking.runs {s t : σ} {history : List TokenAct} (hs : Waking s)
    (h : Runs move s history t) : Waking t := by
  induction h with
  | refl s => exact hs
  | step label hstep _ ih =>
    obtain ⟨u, hu, heq⟩ := Option.map_eq_some_iff.1 hstep
    cases heq
    exact ih (LawfulParker.waking_step hu hs)

/-- A rest answers in the step that takes the token, or finds that it is not there. -/
theorem answers_step {s t : σ} {label : ParkerStep} (h : Parker.step s label = some t) :
    (.take ∈ acts s label ↔ answer? s = none ∧ answer? t = some true) ∧
      (.giveUp ∈ acts s label ↔ answer? s = none ∧ answer? t = some false) := by
  rw [LawfulParker.answer_eq s, LawfulParker.answer_eq t]
  obtain ⟨hacts, hview⟩ | ⟨a, hacts, -, ha⟩ := LawfulParker.view_step h
  · rw [hacts, hview]
    cases (view s).answer? <;> simp
  · rw [hacts]
    simpa only [List.mem_singleton] using TokenState.act_answers ha

/-! ## One call after the other -/

/-- The parker goes on with such steps, as many as it likes. -/
inductive GoesOn {σ : Type} [Parker σ] (p : ParkerStep → Bool) : σ → σ → Prop
  | refl (s : σ) : GoesOn p s s
  | step {s t u : σ} (label : ParkerStep) :
    p label = true → Parker.step s label = some t → GoesOn p t u → GoesOn p s u

/-- A step of the resting thread. -/
def ParkerStep.ofRest : ParkerStep → Bool
  | .proceed => true
  | .rouse _ => true
  | _ => false

/-- A step of a waking thread. -/
def ParkerStep.ofWaker : ParkerStep → Bool
  | .waker _ => true
  | _ => false

theorem ParkerStep.act_of_rest {label : ParkerStep} {a : TokenAct} (h : label.ofRest = true)
    (ha : label.allows a = true) : a = .take ∨ a = .giveUp := by
  cases label <;> cases a <;> simp_all [ofRest, allows]

theorem ParkerStep.act_of_waker {label : ParkerStep} {a : TokenAct} (h : label.ofWaker = true)
    (ha : label.allows a = true) : a = .set := by
  cases label <;> cases a <;> simp_all [ofWaker, allows]

/-- A program makes its calls one after the other: each of them begins, goes on, however often the
resting thread wakes up for nothing, and has returned before the next one. -/
inductive Plays {σ : Type} [Parker σ] : σ → List ParkerCall → List Bool → σ → Prop
  | done (s : σ) : Plays s [] [] s
  | park {s t u v : σ} {calls : List ParkerCall} {answer : Bool} {answers : List Bool} :
    Parker.step s .park = some t → GoesOn ParkerStep.ofRest t u → answer? u = some answer →
    Plays u calls answers v → Plays s (.park :: calls) (answer :: answers) v
  | unpark {s t u v : σ} {calls : List ParkerCall} {answers : List Bool} :
    Parker.step s .unpark = some t → GoesOn ParkerStep.ofWaker t u →
    (∀ i, Parker.step u (.waker i) = none) →
    Plays u calls answers v → Plays s (.unpark :: calls) answers v

/-- What the view of a parker keeps in one step, it keeps as long as the parker goes on so. -/
theorem GoesOn.keeps {p : ParkerStep → Bool} {P : TokenState → Prop} {s t : σ}
    (h : GoesOn p s t)
    (hkeeps : ∀ label a u v, p label = true → label.allows a = true → P u →
      TokenState.act u a = some v → P v) (hs : P (view s)) : P (view t) := by
  induction h with
  | refl s => exact hs
  | step label hp hstep _ ih =>
    refine ih ?_
    obtain ⟨-, hview⟩ | ⟨a, -, hallows, ha⟩ := LawfulParker.view_step hstep
    · rwa [hview]
    · exact hkeeps label a _ _ hp hallows hs ha

/-- The act of a call that begins. -/
theorem act_of_acts {s t : σ} {label : ParkerStep} {a : TokenAct}
    (h : Parker.step s label = some t) (hacts : acts s label = [a]) :
    (view s).act a = some (view t) := by
  obtain ⟨hnone, -⟩ | ⟨b, hb, -, hact⟩ := LawfulParker.view_step h
  · rw [hacts] at hnone
    cases hnone
  · rw [hacts] at hb
    cases hb
    exact hact

/-- A rest under way that began with this token, or has answered whether it was there. -/
def Rests (token : Bool) (unset : Nat) (s : TokenState) : Prop :=
  s.unset = unset ∧
    (s.rest = .resting ∧ s.token = token ∨ s.rest = .answered token ∧ s.token = false)

/-- While nobody sets the token, the rest finds it as it was. -/
theorem Rests.act {token : Bool} {unset : Nat} {s t : TokenState} {label : ParkerStep}
    {a : TokenAct} (hs : Rests token unset s) (hlabel : label.ofRest = true)
    (hallows : label.allows a = true) (h : s.act a = some t) : Rests token unset t := by
  obtain ⟨hunset, hrest⟩ := hs
  obtain rfl | rfl := ParkerStep.act_of_rest hlabel hallows
  · simp only [TokenState.act] at h
    split at h <;> cases h
    simp_all [Rests]
  · simp only [TokenState.act] at h
    split at h <;> cases h
    simp_all [Rests]

theorem park_alone {s t u : σ} {answer : Bool} (hpark : Parker.step s .park = some t)
    (hgoes : GoesOn ParkerStep.ofRest t u) (hanswer : answer? u = some answer) :
    answer = (view s).token ∧ (view u).token = false ∧ (view u).unset = (view s).unset := by
  have hact := act_of_acts hpark (LawfulParker.acts_park s)
  have hbegins : Rests (view s).token (view s).unset (view t) := by
    simp only [TokenState.act] at hact
    split at hact
    · cases hact
    · rw [← Option.some.inj hact]
      exact ⟨rfl, .inl ⟨rfl, rfl⟩⟩
  obtain ⟨hunset, hrest⟩ := hgoes.keeps
    (fun label a v w hlabel hallows hv hvw => hv.act hlabel hallows hvw) hbegins
  rw [LawfulParker.answer_eq, TokenState.answer?] at hanswer
  obtain ⟨hrest, -⟩ | ⟨hrest, htoken⟩ := hrest
  · rw [hrest] at hanswer
    cases hanswer
  · rw [hrest] at hanswer
    exact ⟨(Option.some.inj hanswer).symm, htoken, hunset⟩

theorem unpark_alone {s t u : σ} (hunpark : Parker.step s .unpark = some t)
    (hgoes : GoesOn ParkerStep.ofWaker t u) (hdone : ∀ i, Parker.step u (.waker i) = none) :
    (view u).token = true ∧ (view u).unset = 0 := by
  have hact := act_of_acts hunpark (LawfulParker.acts_unpark s)
  have hbegins : (view t).token = true ∨ 0 < (view t).unset := by
    rw [← Option.some.inj hact]
    exact .inr (Nat.succ_pos _)
  have hunset : (view u).unset = 0 := LawfulParker.unset_eq_zero hdone
  have hends : (view u).token = true ∨ 0 < (view u).unset := by
    refine hgoes.keeps (P := fun v => v.token = true ∨ 0 < v.unset)
      (fun label a v w hlabel hallows hv hvw => ?_) hbegins
    -- a waking thread does nothing with the token but to set it
    obtain rfl := ParkerStep.act_of_waker hlabel hallows
    simp only [TokenState.act] at hvw
    split at hvw <;> cases hvw
    exact .inl rfl
  exact ⟨hends.resolve_right (by omega), hunset⟩

/-- The answers of a program are those of one token. -/
theorem Plays.answers_eq {s t : σ} {calls : List ParkerCall} {answers : List Bool}
    (h : Plays s calls answers t) (hs : (view s).unset = 0) :
    answers = tokenAnswers calls (view s).token := by
  induction h with
  | done s => rfl
  | park hpark hgoes hanswer _ ih =>
    obtain ⟨rfl, htoken, hunset⟩ := park_alone hpark hgoes hanswer
    rw [ih (hunset.trans hs), htoken]
    rfl
  | unpark hunpark hgoes hdone _ ih =>
    obtain ⟨htoken, hunset⟩ := unpark_alone hunpark hgoes hdone
    rw [ih hunset, htoken]
    rfl

/-- Nobody is at a call. -/
def Quiet {σ : Type} [TokenParker σ] (s : σ) : Prop :=
  (view s).rest ≠ .resting ∧ ∀ i, Parker.step s (.waker i) = none

/-- The calls of a parker can be made one after the other if each of them comes to its end. -/
theorem plays_answers {σ : Type} [TokenParker σ]
    (hpark : ∀ s : σ, Quiet s → Quiet (park s).2 ∧ answer? (park s).2 = some (park s).1 ∧
      ∃ t, Parker.step s .park = some t ∧ GoesOn ParkerStep.ofRest t (park s).2)
    (hunpark : ∀ s : σ, Quiet s → Quiet (unpark s) ∧
      ∃ t, Parker.step s .unpark = some t ∧ GoesOn ParkerStep.ofWaker t (unpark s))
    (calls : List ParkerCall) {s : σ} (hs : Quiet s) : ∃ t, Plays s calls (answers calls s) t := by
  induction calls generalizing s with
  | nil => exact ⟨s, .done s⟩
  | cons call calls ih =>
    cases call with
    | park =>
      obtain ⟨hquiet, hanswer, t, hstep, hgoes⟩ := hpark s hs
      obtain ⟨u, hplays⟩ := ih hquiet
      exact ⟨u, .park hstep hgoes hanswer hplays⟩
    | unpark =>
      obtain ⟨hquiet, t, hstep, hgoes⟩ := hunpark s hs
      obtain ⟨u, hplays⟩ := ih hquiet
      exact ⟨u, .unpark hstep hgoes hquiet.2 hplays⟩

/-- A call to wake, with nobody else about and the resting thread awake, sets the token and returns,
whatever else the parker is made of. -/
theorem unpark_awake {σ : Type} [Parker σ] {s : Bell → σ}
    (hcall : ∀ b, Parker.step (s b) .unpark = some (s b.call))
    (hring : ∀ b i, Parker.step (s b) (.waker i) = (b.ring i).map fun (c, _) => s c)
    (pending : Bool) :
    unpark (s ⟨pending, []⟩) = s ⟨true, []⟩ ∧
      ∃ t, Parker.step (s ⟨pending, []⟩) .unpark = some t ∧
        GoesOn ParkerStep.ofWaker t (unpark (s ⟨pending, []⟩)) := by
  have hdone : Parker.step (s ⟨true, []⟩) (.waker 0) = none := hring _ 0
  have hmark : Parker.step (s ⟨pending, [.mark]⟩) (.waker 0) =
      some (s ⟨true, if pending then [] else [.wake]⟩) := by
    rw [hring]
    cases pending <;> rfl
  have hwake : Parker.step (s ⟨true, [.wake]⟩) (.waker 0) = some (s ⟨true, []⟩) := hring _ 0
  have hends : unpark (s ⟨pending, []⟩) = s ⟨true, []⟩ := by
    cases pending <;>
      simp [unpark, after, hcall, Bell.call, longestCall, finishWaker, hmark, hwake, hdone]
  rw [hends]
  refine ⟨rfl, _, hcall _, ?_⟩
  cases pending with
  | true => exact .step (.waker 0) rfl hmark (.refl _)
  | false => exact .step (.waker 0) rfl hmark (.step (.waker 0) rfl hwake (.refl _))

namespace WordParker

theorem quiet_iff {s : WordParker} : Quiet s ↔ s.stage.rest ≠ .resting ∧ s.wakers = [] := by
  refine and_congr_right fun _ => ⟨fun h => ?_, fun h i => ?_⟩
  · exact Bell.wakers_eq_nil fun i => Option.map_eq_none_iff.1 (h i)
  · simp [Parker.step, step, Bell.ring, h]

theorem quiet_park {s : WordParker} (hs : Quiet s) :
    Quiet (park s).2 ∧ answer? (park s).2 = some (park s).1 ∧
      ∃ t, Parker.step s .park = some t ∧ GoesOn ParkerStep.ofRest t (park s).2 := by
  obtain ⟨⟨pending, wakers⟩, stage⟩ := s
  obtain ⟨hrest, rfl⟩ := quiet_iff.1 hs
  have hends : park (⟨⟨pending, []⟩, stage⟩ : WordParker) =
      (pending, ⟨⟨false, []⟩, .returned pending⟩) := by
    cases stage <;> cases pending <;> rfl
  have hbegins : Parker.step (⟨⟨pending, []⟩, stage⟩ : WordParker) .park =
      some ⟨⟨pending, []⟩, .take⟩ := by
    cases stage <;> first | rfl | exact absurd rfl hrest
  rw [hends, quiet_iff]
  refine ⟨⟨nofun, rfl⟩, rfl, _, hbegins, ?_⟩
  cases pending with
  | true => exact .step .proceed rfl rfl (.refl _)
  | false =>
    exact .step .proceed rfl rfl (.step .proceed rfl rfl
      (.step (.rouse true) rfl rfl (.step .proceed rfl rfl (.refl _))))

theorem quiet_unpark {s : WordParker} (hs : Quiet s) :
    Quiet (unpark s) ∧
      ∃ t, Parker.step s .unpark = some t ∧ GoesOn ParkerStep.ofWaker t (unpark s) := by
  obtain ⟨⟨pending, wakers⟩, stage⟩ := s
  obtain ⟨hrest, rfl⟩ := quiet_iff.1 hs
  have hawake : stage.woken = stage := by
    cases stage <;> first | rfl | exact absurd rfl hrest
  obtain ⟨hends, hgoes⟩ := unpark_awake (σ := WordParker) (s := fun b => ⟨b, stage⟩) (fun _ => rfl)
    (fun b i => by simp [Parker.step, step, hawake]) pending
  rw [hends] at hgoes ⊢
  exact ⟨quiet_iff.2 ⟨hrest, rfl⟩, hgoes⟩

end WordParker

namespace FlagParker

theorem quiet_iff {s : FlagParker} : Quiet s ↔ s.stage.rest ≠ .resting ∧ s.wakers = [] := by
  refine and_congr_right fun _ => ⟨fun h => ?_, fun h i => ?_⟩
  · exact Bell.wakers_eq_nil fun i => Option.map_eq_none_iff.1 (h i)
  · simp [Parker.step, step, Bell.ring, h]

theorem quiet_park {s : FlagParker} (hs : Quiet s) :
    Quiet (park s).2 ∧ answer? (park s).2 = some (park s).1 ∧
      ∃ t, Parker.step s .park = some t ∧ GoesOn ParkerStep.ofRest t (park s).2 := by
  obtain ⟨⟨pending, wakers⟩, stage⟩ := s
  obtain ⟨hrest, rfl⟩ := quiet_iff.1 hs
  have hends : park (⟨⟨pending, []⟩, stage⟩ : FlagParker) =
      (pending, ⟨⟨false, []⟩, .returned pending⟩) := by
    cases stage <;> cases pending <;> first | rfl | exact absurd rfl hrest
  have hbegins : Parker.step (⟨⟨pending, []⟩, stage⟩ : FlagParker) .park =
      some ⟨⟨pending, []⟩, .enter⟩ := by
    cases stage <;> first | rfl | exact absurd rfl hrest
  rw [hends, quiet_iff]
  refine ⟨⟨nofun, rfl⟩, rfl, _, hbegins, ?_⟩
  cases pending with
  | true => exact .step .proceed rfl rfl (.refl _)
  | false =>
    exact .step .proceed rfl rfl
      (.step (.rouse true) rfl rfl (.step .proceed rfl rfl (.refl _)))

theorem quiet_unpark {s : FlagParker} (hs : Quiet s) :
    Quiet (unpark s) ∧
      ∃ t, Parker.step s .unpark = some t ∧ GoesOn ParkerStep.ofWaker t (unpark s) := by
  obtain ⟨⟨pending, wakers⟩, stage⟩ := s
  obtain ⟨hrest, rfl⟩ := quiet_iff.1 hs
  have hawake : stage.woken = stage := by
    cases stage <;> first | rfl | exact absurd rfl hrest
  obtain ⟨hends, hgoes⟩ := unpark_awake (σ := FlagParker) (s := fun b => ⟨b, stage⟩) (fun _ => rfl)
    (fun b i => by simp [Parker.step, step, hawake]) pending
  rw [hends] at hgoes ⊢
  exact ⟨quiet_iff.2 ⟨hrest, rfl⟩, hgoes⟩

end FlagParker

/-! ## One signal -/

/-- The parker is the signal of one token, in every order of the steps of its threads. -/
structure OneToken (σ : Type) [TokenParker σ] : Prop where
  /-- What the steps of a run do with the token, the token allows, and comes to be what the parker
  is for its users. -/
  refines {s : σ} {history : List TokenAct} : Runs move fresh history s →
    Runs TokenState.step {} history (view s)
  /-- The calls of the parker are those of the token. -/
  calls (s : σ) : acts s .park = [.park] ∧ acts s .unpark = [.unpark]
  /-- A rest answers `true` in the step that takes the token, and `false` in one that finds that it
  is not there. -/
  answers {s t : σ} {label : ParkerStep} : Parker.step s label = some t →
    (.take ∈ acts s label ↔ answer? s = none ∧ answer? t = some true) ∧
      (.giveUp ∈ acts s label ↔ answer? s = none ∧ answer? t = some false)
  /-- A token that is taken was set after the one before it was taken. -/
  taken {s : σ} {history before after : List TokenAct} : Runs move fresh history s →
    history = before ++ .take :: after → .set ∈ sinceTake before
  /-- The resting thread does not sleep while the token is there, unless a thread is about to wake
  it. -/
  waking {s : σ} {history : List TokenAct} : Runs move fresh history s →
    isAsleep s = true → (view s).token = true → isWaking s = true
  /-- The answers of a program that makes its calls one after the other are those of the token. -/
  sequential {s : σ} {calls : List ParkerCall} {answers : List Bool} :
    Plays fresh calls answers s → answers = tokenAnswers calls false

/-- Whatever follows from what the steps say, follows for every parker that keeps its word. -/
theorem oneToken : OneToken σ where
  refines h := by
    have hrun := runs_refine h
    rwa [LawfulParker.view_fresh] at hrun
  calls s := ⟨LawfulParker.acts_park s, LawfulParker.acts_unpark s⟩
  answers h := answers_step h
  taken {s history before after} h hcut := by
    have hrun := runs_refine h
    rw [LawfulParker.view_fresh] at hrun
    exact (Earned.runs hrun).taken before after hcut
  waking h := waking_fresh.runs h
  sequential h := by
    have hfresh : view (fresh : σ) = {} := LawfulParker.view_fresh
    rw [h.answers_eq (by rw [hfresh]), hfresh]

/-- Both parkers are the signal of one token.  A program that makes its calls one after the other
comes to its end with either of them, and has the same answers from both. -/
theorem parkers_are_one_token :
    OneToken WordParker ∧ OneToken FlagParker ∧
      ∀ calls,
        (∃ s, Plays (fresh : WordParker) calls (answers calls (fresh : WordParker)) s) ∧
        (∃ s, Plays (fresh : FlagParker) calls (answers calls (fresh : FlagParker)) s) ∧
        ∀ as bs (s : WordParker) (t : FlagParker),
          Plays fresh calls as s → Plays fresh calls bs t → as = bs := by
  have hword : OneToken WordParker := oneToken
  have hflag : OneToken FlagParker := oneToken
  have hquietWord : Quiet (fresh : WordParker) := WordParker.quiet_iff.2 ⟨nofun, rfl⟩
  have hquietFlag : Quiet (fresh : FlagParker) := FlagParker.quiet_iff.2 ⟨nofun, rfl⟩
  refine ⟨hword, hflag, fun calls => ⟨?_, ?_, fun as bs s t hs ht => ?_⟩⟩
  · exact plays_answers (fun _ => WordParker.quiet_park) (fun _ => WordParker.quiet_unpark) calls
      hquietWord
  · exact plays_answers (fun _ => FlagParker.quiet_park) (fun _ => FlagParker.quiet_unpark) calls
      hquietFlag
  · rw [hword.sequential hs, hflag.sequential ht]

end FrameLoop
