import FrameLoop.Parker.Token
import FrameLoop.Proofs.Positions
import FrameLoop.Proofs.Runs

/-
  Both parkers work on one token.  What a step does with the token is at most one act, and the act
  leads from what the parker was for its users to what it is then (`LawfulParker`).
-/

namespace FrameLoop

/-- The step can come to the act. -/
def ParkerStep.allows : ParkerStep → TokenAct → Bool
  | .park, .park => true
  | .proceed, .take => true
  | .proceed, .giveUp => true
  | .unpark, .unpark => true
  | .waker _, .set => true
  | _, _ => false

/-- The acts of a step lead from the one state to the other: a step is one act of the token, or
nothing that its users see. -/
def Enacts (label : ParkerStep) (acts : List TokenAct) (s t : TokenState) : Prop :=
  acts = [] ∧ t = s ∨ ∃ a, acts = [a] ∧ label.allows a = true ∧ s.act a = some t

theorem Enacts.one {label : ParkerStep} {s t : TokenState} (a : TokenAct)
    (hallows : label.allows a = true) (hact : s.act a = some t) : Enacts label [a] s t :=
  .inr ⟨a, rfl, hallows, hact⟩

theorem Enacts.nothing {label : ParkerStep} {s : TokenState} : Enacts label [] s s :=
  .inl ⟨rfl, rfl⟩

open Parker TokenParker

/-- Whoever sleeps while the token is there is about to be woken. -/
def Waking {σ : Type} [TokenParker σ] (s : σ) : Prop :=
  isAsleep s = true → (view s).token = true → isWaking s = true

/-- Parkers whose steps do with the token what they say. -/
class LawfulParker (σ : Type) [TokenParker σ] : Prop where
  view_fresh : view (fresh : σ) = {}
  view_step {s t : σ} {label : ParkerStep} : Parker.step s label = some t →
    Enacts label (acts s label) (view s) (view t)
  acts_park (s : σ) : acts s .park = [.park]
  acts_unpark (s : σ) : acts s .unpark = [.unpark]
  answer_eq (s : σ) : answer? s = (view s).answer?
  /-- When no thread is at a call to wake, none of them has yet to set the token. -/
  unset_eq_zero {s : σ} : (∀ i, Parker.step s (.waker i) = none) → (view s).unset = 0
  /-- Nobody sleeps at first. -/
  awake_fresh : isAsleep (fresh : σ) = false
  /-- The resting thread does not fall asleep when the token is there, and a thread that sets the
  token goes on to wake it. -/
  waking_step {s t : σ} {label : ParkerStep} :
    Parker.step s label = some t → Waking s → Waking t

/-! ## Waking threads -/

namespace Bell

variable {b c : Bell} {i : Nat} {wakes : Bool}

theorem call_act (b : Bell) (rest : Rest) :
    (b.view rest).act .unpark = some (b.call.view rest) := by
  simp [view, call, unset, TokenState.act]

theorem set_act {rest : Rest} (hc : c.pending = true) (hunset : c.unset + 1 = b.unset) :
    (b.view rest).act .set = some (c.view rest) := by
  simp [view, TokenState.act, ← hunset, hc]

/-- A waking thread sets the token in its first step, and does nothing with it in the second. -/
theorem ring_enacts (h : b.ring i = some (c, wakes)) (rest : Rest) :
    Enacts (.waker i) (b.acts i) (b.view rest) (c.view rest) := by
  cases hi : b.wakers[i]? with
  | none => simp only [ring, hi, reduceCtorEq] at h
  | some waker =>
    have herase := countP_erase_around (fun w => decide (w = Waker.mark)) hi
    have hset := countP_set_around (fun w => decide (w = Waker.mark)) hi .wake
    cases waker with
    | mark =>
      have hacts : b.acts i = [.set] := if_pos hi
      rw [hacts]
      refine .one .set rfl ?_
      simp only [ring, hi] at h
      cases hpending : b.pending with
      | true =>
        rw [hpending] at h
        cases h
        exact set_act rfl herase
      | false =>
        rw [hpending] at h
        cases h
        exact set_act rfl hset
    | wake =>
      have hacts : b.acts i = [] := if_neg (by rw [hi]; exact nofun)
      simp only [ring, hi] at h
      cases h
      exact .inl ⟨hacts, congrArg (TokenState.mk b.pending rest) herase⟩

/-- A thread that sets the token goes on to wake the sleeper, and stays at it until it does. -/
theorem wake_mem_of_ring (h : b.ring i = some (c, false)) (hb : b.pending = true → .wake ∈ b.wakers)
    (hc : c.pending = true) : .wake ∈ c.wakers := by
  cases hi : b.wakers[i]? with
  | none => simp only [ring, hi, reduceCtorEq] at h
  | some waker =>
    have hlt : i < b.wakers.length := (List.getElem?_eq_some_iff.1 hi).1
    cases waker with
    | mark =>
      simp only [ring, hi] at h
      split at h <;> cases h
      · exact mem_erase_around hi (hb hc) nofun
      · exact List.mem_set hlt .wake
    | wake =>
      simp only [ring, hi] at h
      cases h

/-- Only without waking threads nobody can do the next step of one. -/
theorem wakers_eq_nil (h : ∀ i, b.ring i = none) : b.wakers = [] := by
  cases hw : b.wakers with
  | nil => rfl
  | cons waker wakers =>
    have hfirst := h 0
    cases waker with
    | mark =>
      simp only [ring, hw, List.getElem?_cons_zero] at hfirst
      split at hfirst <;> cases hfirst
    | wake => simp [ring, hw] at hfirst

end Bell

/-! ## The parker on a word -/

namespace WordStage

theorem rest_woken (stage : WordStage) : stage.woken.rest = stage.rest := by
  cases stage <;> rfl

theorem woken_ne_asleep (stage : WordStage) : stage.woken ≠ asleep := by
  cases stage <;> exact nofun

end WordStage

namespace WordParker

theorem step_enacts {s t : WordParker} {label : ParkerStep} (h : s.step label = some t) :
    Enacts label (s.acts label) (view s) (view t) := by
  cases label with
  | park =>
    obtain ⟨⟨pending, wakers⟩, stage⟩ := s
    cases stage with
    | idle => cases h; exact .one .park rfl rfl
    | returned woken => cases h; exact .one .park rfl rfl
    | _ => cases h
  | proceed =>
    obtain ⟨⟨pending, wakers⟩, stage⟩ := s
    cases stage with
    | take =>
      cases pending with
      | true => cases h; exact .one .take rfl rfl
      | false => cases h; exact .nothing
    | wait =>
      cases pending with
      | true => cases h; exact .nothing
      | false => cases h; exact .nothing
    | retake =>
      cases pending with
      | true => cases h; exact .one .take rfl rfl
      | false => cases h; exact .one .giveUp rfl rfl
    | _ => cases h
  | rouse timedOut =>
    obtain ⟨⟨pending, wakers⟩, stage⟩ := s
    cases stage with
    | asleep => cases h; exact .nothing
    | _ => cases h
  | unpark =>
    cases h
    exact .one .unpark rfl (s.call_act _)
  | waker i =>
    obtain ⟨⟨c, wakes⟩, hring, rfl⟩ := Option.map_eq_some_iff.1 h
    have hrest : (if wakes then s.stage.woken else s.stage).rest = s.stage.rest := by
      split
      · exact s.stage.rest_woken
      · rfl
    show Enacts _ (s.toBell.acts i) (s.toBell.view s.stage.rest)
      (c.view (if wakes then s.stage.woken else s.stage).rest)
    rw [hrest]
    exact Bell.ring_enacts hring s.stage.rest

/-- The resting thread falls asleep only when no wake-up is pending. -/
theorem waking_step {s t : WordParker} {label : ParkerStep} (h : s.step label = some t)
    (hs : s.stage = .asleep → s.pending = true → .wake ∈ s.wakers) (hasleep : t.stage = .asleep)
    (hpending : t.pending = true) : .wake ∈ t.wakers := by
  cases label with
  | park =>
    simp only [step] at h
    split at h <;> cases h <;> cases hasleep
  | proceed =>
    obtain ⟨⟨pending, wakers⟩, stage⟩ := s
    cases pending with
    | true => cases stage <;> cases h <;> cases hasleep
    | false => cases stage <;> cases h <;> exact absurd hpending Bool.false_ne_true
  | rouse timedOut =>
    simp only [step] at h
    split at h <;> cases h
    cases hasleep
  | unpark =>
    cases h
    exact List.mem_append_left _ (hs hasleep hpending)
  | waker i =>
    obtain ⟨⟨c, wakes⟩, hring, rfl⟩ := Option.map_eq_some_iff.1 h
    cases wakes with
    | true => exact absurd hasleep s.stage.woken_ne_asleep
    | false => exact Bell.wake_mem_of_ring hring (hs hasleep) hpending

instance : LawfulParker WordParker where
  view_fresh := rfl
  view_step := step_enacts
  acts_park _ := rfl
  acts_unpark _ := rfl
  answer_eq s := by
    obtain ⟨bell, stage⟩ := s
    cases stage <;> rfl
  unset_eq_zero h :=
    congrArg (List.countP _) (Bell.wakers_eq_nil fun i => Option.map_eq_none_iff.1 (h i))
  awake_fresh := rfl
  waking_step h hs hasleep hpending := by
    simp only [Waking, isAsleep, isWaking, decide_eq_true_eq] at *
    exact waking_step h hs hasleep hpending

end WordParker

/-! ## The parker on a flag -/

namespace FlagStage

theorem rest_woken (stage : FlagStage) : stage.woken.rest = stage.rest := by
  cases stage <;> rfl

theorem woken_ne_asleep (stage : FlagStage) : stage.woken ≠ asleep := by
  cases stage <;> exact nofun

end FlagStage

namespace FlagParker

/-- The look at the flag does with the token what the flag says; when it is down, the resting thread
may only go back to sleep. -/
theorem look_enacts (s : FlagParker) (timedOut : Bool) (hs : s.stage.rest = .resting) :
    Enacts .proceed (s.lookActs timedOut) (view s) (view (s.look timedOut)) := by
  obtain ⟨⟨pending, wakers⟩, stage⟩ := s
  have hview : view (⟨⟨pending, wakers⟩, stage⟩ : FlagParker) =
      (Bell.mk pending wakers).view .resting := congrArg (Bell.mk pending wakers).view hs
  rw [hview]
  cases pending with
  | true => exact .one .take rfl rfl
  | false =>
    cases timedOut with
    | true => exact .one .giveUp rfl rfl
    | false => exact .nothing

theorem step_enacts {s t : FlagParker} {label : ParkerStep} (h : s.step label = some t) :
    Enacts label (s.acts label) (view s) (view t) := by
  cases label with
  | park =>
    obtain ⟨bell, stage⟩ := s
    cases stage with
    | idle => cases h; exact .one .park rfl rfl
    | returned woken => cases h; exact .one .park rfl rfl
    | _ => cases h
  | proceed =>
    obtain ⟨bell, stage⟩ := s
    cases stage with
    | enter => cases h; exact look_enacts _ false rfl
    | awake timedOut => cases h; exact look_enacts _ timedOut rfl
    | _ => cases h
  | rouse timedOut =>
    obtain ⟨bell, stage⟩ := s
    cases stage with
    | asleep => cases h; exact .nothing
    | _ => cases h
  | unpark =>
    cases h
    exact .one .unpark rfl (s.call_act _)
  | waker i =>
    obtain ⟨⟨c, wakes⟩, hring, rfl⟩ := Option.map_eq_some_iff.1 h
    have hrest : (if wakes then s.stage.woken else s.stage).rest = s.stage.rest := by
      split
      · exact s.stage.rest_woken
      · rfl
    show Enacts _ (s.toBell.acts i) (s.toBell.view s.stage.rest)
      (c.view (if wakes then s.stage.woken else s.stage).rest)
    rw [hrest]
    exact Bell.ring_enacts hring s.stage.rest

/-- The resting thread falls asleep only when it finds the flag down. -/
theorem waking_step {s t : FlagParker} {label : ParkerStep} (h : s.step label = some t)
    (hs : s.stage = .asleep → s.pending = true → .wake ∈ s.wakers) (hasleep : t.stage = .asleep)
    (hpending : t.pending = true) : .wake ∈ t.wakers := by
  cases label with
  | park =>
    simp only [step] at h
    split at h <;> cases h <;> cases hasleep
  | proceed =>
    obtain ⟨⟨pending, wakers⟩, stage⟩ := s
    cases pending with
    | true => cases stage <;> cases h <;> cases hasleep
    | false => cases stage <;> cases h <;> exact absurd hpending Bool.false_ne_true
  | rouse timedOut =>
    simp only [step] at h
    split at h <;> cases h
    cases hasleep
  | unpark =>
    cases h
    exact List.mem_append_left _ (hs hasleep hpending)
  | waker i =>
    obtain ⟨⟨c, wakes⟩, hring, rfl⟩ := Option.map_eq_some_iff.1 h
    cases wakes with
    | true => exact absurd hasleep s.stage.woken_ne_asleep
    | false => exact Bell.wake_mem_of_ring hring (hs hasleep) hpending

instance : LawfulParker FlagParker where
  view_fresh := rfl
  view_step := step_enacts
  acts_park _ := rfl
  acts_unpark _ := rfl
  answer_eq s := by
    obtain ⟨bell, stage⟩ := s
    cases stage <;> rfl
  unset_eq_zero h :=
    congrArg (List.countP _) (Bell.wakers_eq_nil fun i => Option.map_eq_none_iff.1 (h i))
  awake_fresh := rfl
  waking_step h hs hasleep hpending := by
    simp only [Waking, isAsleep, isWaking, decide_eq_true_eq] at *
    exact waking_step h hs hasleep hpending

end FlagParker

end FrameLoop
