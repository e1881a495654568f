import FrameLoop.Proofs.Signal.Once

/-
  Who tries to complete a signal, and from where.

  Calls that try to complete a signal are counted from their begin to their return
  (`step_asked`).  When only listeners of one kind begin such calls, then each of them is found
  directly above such a listener as long as it is under way (`Nested`), so when no listener of this
  kind runs, none is.
-/

namespace FrameLoop.Signal

/-! ## Calls that try to complete a signal -/

/-- The signal that a call is about to try to complete. -/
@[simp, grind =]
def Stage.asked : Stage → List Nat
  | .complete p => [p]
  | _ => []

/-- The signal that an act begins to complete. -/
@[simp]
def Act.asked : Act → List Nat
  | .call p .complete => [p]
  | _ => []

/-- The signal that a step begins to complete. -/
@[simp]
def Crowd.Step.asked : Crowd.Step → List Nat
  | .fork => []
  | .act _ a => a.asked

/-- The signals that calls under way are about to try to complete. -/
abbrev Thread.asking : Thread → List Nat := Thread.collect Stage.asked fun _ => []

variable {s t : Crowd} {x y : Thread} {a : Act} {events : List Happening}

/-- A call that tries to complete a signal is about to, or runs its listeners, until it returns. -/
theorem Move.asked (h : Move s a x t y events) (p : Nat) :
    y.asking.count p + y.delivering.count p + events.count (.completed p true) +
        events.count (.completed p false) =
      x.asking.count p + x.delivering.count p + a.asked.count p := by
  cases h with
  | ends f fs failed => cases f <;> cases failed <;> simp [Frame.after]
  | _ => simp <;> grind

theorem step_asked {label : Crowd.Step} {entries : List Entry}
    (hstep : s.step label = some (t, entries)) (p : Nat) :
    (t.all Thread.asking).count p + (t.all Thread.delivering).count p +
        (happenings entries).count (.completed p true) +
        (happenings entries).count (.completed p false) =
      (s.all Thread.asking).count p + (s.all Thread.delivering).count p + label.asked.count p := by
  obtain ⟨rfl, rfl, rfl⟩ | ⟨i, a, x, u, y, events, rfl, hi, hm, rfl, rfl⟩ := step_cases hstep
  · simp [all_fork, happenings]
  · have hasking := hm.count_all hi Thread.asking p
    have hdelivering := hm.count_all hi Thread.delivering p
    have hmove := hm.asked p
    simp only [happenings_map_mk, Crowd.Step.asked]
    omega

/-! ## Where such calls are made -/

/-- The innermost listener, if one runs, is of the kind `own`. -/
def Within (own : Frame → Prop) (fs : List Frame) : Prop := ∃ f ∈ fs.head?, own f

/-- Each call of this thread that is to complete the signal, or has completed it, was made by a
listener of the kind `own`. -/
structure Nested (own : Frame → Prop) (p : Nat) (x : Thread) : Prop where
  call : ∀ d, x.call = some d → p ∈ d.asked ++ d.delivered → Within own x.frames
  frames : ∀ f fs, f :: fs <:+ x.frames → p ∈ f.completed → Within own fs

variable {own : Frame → Prop} {p : Nat}

theorem Nested.mono {own' : Frame → Prop} (h : Nested own p x) (hown : ∀ f, own f → own' f) :
    Nested own' p x where
  call d hd hp := (h.call d hd hp).imp fun f hf => ⟨hf.1, hown f hf.2⟩
  frames f fs hsuffix hp := (h.frames f fs hsuffix hp).imp fun f hf => ⟨hf.1, hown f hf.2⟩

theorem nested_idle : Nested own p {} where
  call _ h := by cases h
  frames _ _ h := by cases List.suffix_nil.1 h

theorem Nested.recall {call : Option Stage} (h : Nested own p x)
    (hcall : ∀ d, call = some d → p ∈ d.asked ++ d.delivered → Within own x.frames) :
    Nested own p ⟨call, x.frames⟩ :=
  ⟨hcall, h.frames⟩

/-- A listener can begin in a call that needs no listener, or has one. -/
theorem Nested.push (h : Nested own p x) {f : Frame}
    (hf : p ∈ f.completed → Within own x.frames) : Nested own p ⟨none, f :: x.frames⟩ where
  call _ hd := by cases hd
  frames g fs hsuffix hg := by
    obtain heq | hsuffix := List.suffix_cons_iff.1 hsuffix
    · cases heq
      exact hf hg
    · exact h.frames g fs hsuffix hg

/-- When the innermost listener ends, its call goes on where it was. -/
theorem Nested.pop {f : Frame} {fs : List Frame} (h : Nested own p ⟨none, f :: fs⟩)
    (failed : Bool) : Nested own p ⟨f.after failed, fs⟩ where
  call d hd hp := by
    cases f with
    | delivered q l left =>
      cases hd
      exact h.frames _ _ (List.suffix_refl _) hp
    | late q l => cases failed <;> cases hd; cases hp
  frames g gs hsuffix hg := h.frames g gs (hsuffix.trans (List.suffix_cons f fs)) hg

/-- A move keeps it so, if a call that is to complete the signal is begun by such a listener. -/
theorem Nested.move (h : Nested own p x) (hm : Move s a x t y events)
    (ha : p ∈ a.asked → Within own x.frames) : Nested own p y := by
  cases hm with
  | tries q fs => exact h.recall fun d hd hp => ha (by cases hd; exact hp)
  | wins q fs hdone => exact h.recall fun d hd hp => h.call _ rfl (by cases hd; exact hp)
  | delivers q l left fs => exact h.push fun hp => h.call _ rfl hp
  | runsLate q l fs => exact h.push fun hp => nomatch hp
  | ends f fs failed => exact h.pop failed
  | _ => exact h.recall fun d hd hp => by cases hd <;> cases hp

/-- Without such a listener no call is to complete the signal, or has completed it. -/
theorem Nested.none (h : Nested own p x) (hx : ∀ f ∈ x.frames, ¬own f) :
    p ∉ x.asking ∧ p ∉ x.delivering := by
  have hwithin {fs : List Frame} (hfs : fs <:+ x.frames) : ¬Within own fs :=
    fun ⟨f, hf, hown⟩ => hx f (hfs.subset (List.mem_of_mem_head? hf)) hown
  constructor
  · intro hp
    obtain ⟨d, hd, hp⟩ | ⟨f, -, hp⟩ := mem_collect.1 hp
    · exact hwithin (List.suffix_refl _) (h.call d hd (List.mem_append_left _ hp))
    · cases hp
  · intro hp
    obtain ⟨d, hd, hp⟩ | ⟨f, hf, hp⟩ := mem_collect.1 hp
    · exact hwithin (List.suffix_refl _) (h.call d hd (List.mem_append_right _ hp))
    · obtain ⟨before, behind, heq⟩ := List.append_of_mem hf
      have hsuffix : f :: behind <:+ x.frames := ⟨before, heq.symm⟩
      exact hwithin ((List.suffix_cons f behind).trans hsuffix) (h.frames f behind hsuffix hp)

/-- A step keeps it so in every thread. -/
theorem nested_step {label : Crowd.Step} {entries : List Entry}
    (h : ∀ (j : Nat) x, s.threads[j]? = some x → Nested own p x)
    (hstep : s.step label = some (t, entries))
    (hlabel : ∀ (i : Nat) a x, label = .act i a → s.threads[i]? = some x → p ∈ a.asked →
      Within own x.frames) :
    ∀ (j : Nat) y, t.threads[j]? = some y → Nested own p y := by
  intro j y hj
  obtain ⟨-, rfl, -⟩ | ⟨i, a, x, u, z, events, rfl, hi, hm, rfl, -⟩ := step_cases hstep
  · obtain hj | rfl := thread_fork hj
    · exact h j y hj
    · exact nested_idle
  · obtain ⟨rfl, rfl⟩ | ⟨-, hj⟩ := set_cases hj
    · exact (h j x hi).move hm (hlabel j a x rfl hi)
    · exact h j y (hm.threads ▸ hj)

end FrameLoop.Signal
