import FrameLoop.Group.Aggregation
import FrameLoop.Proofs.Signal.Once

/-
  What the listeners of a group do, each one by itself.

  A group does five kinds of steps (`Change`).  Every one of them keeps what holds of the listener
  of each child (`Followed`): it counts once when it has begun, whether on the thread of the builder
  or on one that completes the signal of the child, and it ends only when it has counted.  The one
  that makes the count full, and no other, goes on to complete the signal of the group.
-/

namespace FrameLoop.Group.Aggregation

open Signal

/-! ## Histories -/

@[simp]
def Event.entry? : Event → Option Entry
  | .crowd e => some e
  | .counted _ | .attempted _ => none

@[simp]
def Event.counted? : Event → Option Nat
  | .counted i => some i
  | .crowd _ | .attempted _ => none

@[simp]
def Event.attempted? : Event → Option Nat
  | .attempted i => some i
  | .crowd _ | .counted _ => none

/-- What the threads of the group did. -/
def entries (history : List Event) : List Entry := history.filterMap Event.entry?

/-- What happened on the threads of the group. -/
abbrev heard (history : List Event) : List Happening := happenings (entries history)

/-- The children whose listeners counted, the earliest first. -/
def counted (history : List Event) : List Nat := history.filterMap Event.counted?

/-- The children whose listeners began to complete the signal of the group. -/
def attempted (history : List Event) : List Nat := history.filterMap Event.attempted?

section

variable (history events : List Event)

@[simp] theorem entries_append : entries (history ++ events) = entries history ++ entries events :=
  List.filterMap_append

@[simp] theorem counted_append : counted (history ++ events) = counted history ++ counted events :=
  List.filterMap_append

@[simp] theorem attempted_append :
    attempted (history ++ events) = attempted history ++ attempted events :=
  List.filterMap_append

@[simp] theorem entries_crowd (es : List Entry) : entries (es.map .crowd) = es := by
  induction es with
  | nil => rfl
  | cons e es ih => exact congrArg (e :: ·) ih

@[simp] theorem counted_crowd (es : List Entry) : counted (es.map .crowd) = [] := by
  induction es with
  | nil => rfl
  | cons e es ih => exact ih

@[simp] theorem attempted_crowd (es : List Entry) : attempted (es.map .crowd) = [] := by
  induction es with
  | nil => rfl
  | cons e es ih => exact ih

end

/-! ## Changes -/

/-- What the children hear of a step of the crowd. -/
def told (children : List Child) (es : List Entry) : List Child :=
  children.map fun c => (happenings es).foldl Child.hear c

theorem told_getElem? {children : List Child} {es : List Entry} {i : Nat} {d : Child}
    (h : (told children es)[i]? = some d) :
    ∃ c, children[i]? = some c ∧ (happenings es).foldl Child.hear c = d := by
  rwa [told, List.getElem?_map, Option.map_eq_some_iff] at h

/-- A child that hears what happens keeps its signal. -/
@[simp] theorem foldl_hear_signal (events : List Happening) (c : Child) :
    (events.foldl Child.hear c).signal = c.signal := by
  induction events generalizing c with
  | nil => rfl
  | cons e events ih =>
    rw [List.foldl_cons, ih]
    unfold Child.hear
    split
    · split <;> rfl
    · split <;> rfl
    · rfl

/-- And it keeps its listener. -/
@[simp] theorem foldl_hear_listener (events : List Happening) (c : Child) :
    (events.foldl Child.hear c).listener = c.listener := by
  induction events generalizing c with
  | nil => rfl
  | cons e events ih =>
    rw [List.foldl_cons, ih]
    unfold Child.hear
    split
    · split <;> rfl
    · split <;> rfl
    · rfl

/-- What a step of a group can do. -/
inductive Change (a : Aggregation) : Aggregation → List Event → Prop
  | crowd (label : Crowd.Step) (crowd : Crowd) (es : List Entry) :
    a.crowd.step label = some (crowd, es) →
    (∀ (i : Nat) act x, label = .act i act → a.crowd.threads[i]? = some x → a.Allows x act) →
    Change a { a with crowd, children := told a.children es } (es.map .crowd)
  | register (c : Child) (crowd : Crowd) :
    a.children[a.next]? = some c → a.crowd.threads[0]? = some ⟨none, []⟩ →
    a.crowd.step (.act 0 (.call c.signal .listen)) =
      some (crowd, [⟨0, .handed c.signal a.crowd.registered⟩]) →
    Change a { a with
        crowd
        children := a.children.set a.next { c with listener := some a.crowd.registered }
        next := a.next + 1 }
      [.crowd ⟨0, .handed c.signal a.crowd.registered⟩]
  | handOut : a.next = a.size → a.crowd.threads[0]? = some ⟨none, []⟩ →
    Change a { a with built := true } []
  | count (i : Nat) (c : Child) : a.children[i]? = some c → c.stage = some .count →
    Change a { a with
        count := a.count + 1
        children := a.children.set i
          { c with stage := some (if a.count + 1 = a.size then .attempt else .atEnd) } }
      [.counted i]
  | attempt (i thread : Nat) (c : Child) (f : Frame) (fs : List Frame) (crowd : Crowd) :
    a.children[i]? = some c → c.stage = some .attempt →
    a.crowd.threads[thread]? = some ⟨none, f :: fs⟩ → c.Has f.signal f.listener →
    a.crowd.step (.act thread (.call a.signal .complete)) = some (crowd, []) →
    Change a { a with
        crowd
        children := a.children.set i { c with stage := some .atEnd } }
      [.attempted i]

variable {a b : Aggregation} {history events : List Event}

theorem told_of_silent {es : List Entry}
    (h : ∀ c, (happenings es).foldl Child.hear c = c) (children : List Child) :
    told children es = children := by
  simp only [told, h, List.map_id']

theorem observe_of_step {label : Crowd.Step} {crowd : Crowd} {es : List Entry}
    (h : a.crowd.step label = some (crowd, es)) :
    a.observe label =
      some ({ a with crowd, children := told a.children es }, es.map .crowd) := by
  rw [observe, h]
  rfl

theorem observe_change {label : Crowd.Step} (h : a.observe label = some (b, events))
    (hallows : ∀ (i : Nat) act x, label = .act i act → a.crowd.threads[i]? = some x →
      a.Allows x act) : Change a b events := by
  cases hstep : a.crowd.step label with
  | none => rw [observe, hstep] at h; cases h
  | some next =>
    rw [observe_of_step hstep] at h
    cases h
    exact .crowd label next.1 next.2 hstep hallows

theorem step_call {s : Crowd} {i p : Nat} {c : Call} {fs : List Frame}
    (hi : s.threads[i]? = some ⟨none, fs⟩) :
    s.step (.act i (.call p c)) =
      some ({ (s.begin fs p c).1 with
          threads := (s.begin fs p c).1.threads.set i (s.begin fs p c).2.1 },
        (s.begin fs p c).2.2.map (Entry.mk i)) := by
  simp only [Crowd.step, hi, Crowd.act]

theorem register_change {c : Child} (hc : a.children[a.next]? = some c)
    (hidle : a.crowd.threads[0]? = some ⟨none, []⟩) (h : a.register c = some (b, events)) :
    Change a b events := by
  have hstep : a.crowd.step (.act 0 (.call c.signal .listen)) =
      some (_, [⟨0, .handed c.signal a.crowd.registered⟩]) := step_call hidle
  rw [register, observe_of_step hstep, told_of_silent fun _ => rfl] at h
  cases h
  exact .register c _ hc hidle hstep

theorem listener_change {i thread : Nat} {c : Child} {f : Frame} {fs : List Frame}
    (hc : a.children[i]? = some c) (hthread : a.crowd.threads[thread]? = some ⟨none, f :: fs⟩)
    (hhas : c.Has f.signal f.listener) (h : a.stepListener i c thread = some (b, events)) :
    Change a b events := by
  unfold stepListener at h
  split at h
  · next hstage => cases h; exact .count i c hc hstage
  · next hstage =>
    have hstep : a.crowd.step (.act thread (.call a.signal .complete)) = some (_, []) :=
      step_call hthread
    rw [observe_of_step hstep, told_of_silent fun _ => rfl] at h
    cases h
    exact .attempt i thread c f fs _ hc hstage hthread hhas hstep
  · cases h

theorem step_change {label : Step} (h : a.step label = some (b, events)) : Change a b events := by
  cases label with
  | crowd label =>
    cases label with
    | fork =>
      exact observe_change (by simpa only [step] using h) fun _ _ _ hlabel => by cases hlabel
    | act i act =>
      simp only [step] at h
      split at h
      · cases h
      · next x hx =>
        split at h
        · next hallows =>
          refine observe_change h fun j act' y hlabel hy => ?_
          cases hlabel
          cases hx.symm.trans hy
          exact hallows
        · cases h
  | register =>
    simp only [step] at h
    split at h
    · cases h
    · next c hc =>
      split at h
      · next hidle => exact register_change hc hidle h
      · cases h
  | handOut =>
    simp only [step] at h
    split at h
    · next hready => cases h; exact .handOut hready.1 hready.2
    · cases h
  | listener i thread =>
    simp only [step] at h
    split at h
    · next c f fs hc hthread =>
      split at h
      · next hhas => exact listener_change hc hthread hhas h
      · cases h
    · cases h

/-! ## One listener -/

/-- What holds of the listener of the child `c` at the place `i` of `n`, when the threads have done
`es`, the listeners of the children `cs` have counted, and those of `as` have begun to complete the
signal of the group. -/
structure Followed (es : List Entry) (cs as : List Nat) (n i : Nat) (c : Child) : Prop where
  /-- The builder, which is the first thread, has brought it. -/
  handed : ∀ l, c.listener = some l → ⟨0, .handed c.signal l⟩ ∈ es
  /-- When it has begun it has counted, or is about to. -/
  began : ∀ l, c.listener = some l →
    cs.count i + (if c.stage = some .count then 1 else 0) =
      (happenings es).count (.began c.signal l)
  /-- When it has begun it runs, or has ended. -/
  ran : ∀ l, c.listener = some l →
    c.stage.isSome.toNat + (happenings es).count (.ended c.signal l false) +
        (happenings es).count (.ended c.signal l true) =
      (happenings es).count (.began c.signal l)
  /-- Without a listener nothing counts. -/
  idle : c.listener = none → c.stage = none ∧ i ∉ cs
  /-- When it made the count full it has begun to complete the signal of the group, or is about
  to. -/
  attempted : as.count i + (if c.stage = some .attempt then 1 else 0) =
    if cs[n - 1]? = some i then 1 else 0

variable {es : List Entry} {cs as : List Nat} {n i j : Nat} {c : Child}

/-- The books of a listener are kept when its stage follows what happens. -/
theorem Followed.hear {es' : List Entry} {stage : Option ListenerStage}
    (h : Followed es cs as n i c)
    (hbegan : ∀ l, c.listener = some l →
      (if stage = some .count then 1 else 0) =
        (if c.stage = some .count then 1 else 0) + (happenings es').count (.began c.signal l))
    (hran : ∀ l, c.listener = some l →
      stage.isSome.toNat + (happenings es').count (.ended c.signal l false) +
          (happenings es').count (.ended c.signal l true) =
        c.stage.isSome.toNat + (happenings es').count (.began c.signal l))
    (hidle : c.listener = none → stage = none)
    (hattempt : stage = some .attempt ↔ c.stage = some .attempt) :
    Followed (es ++ es') cs as n i { c with stage } where
  handed l hl := List.mem_append_left _ (h.handed l hl)
  began l hl := by
    have hbefore := h.began l hl
    have hnow := hbegan l hl
    simp only [happenings_append, List.count_append]
    omega
  ran l hl := by
    have hbefore := h.ran l hl
    have hnow := hran l hl
    simp only [happenings_append, List.count_append]
    omega
  idle hl := ⟨hidle hl, (h.idle hl).2⟩
  attempted := by simpa only [hattempt] using h.attempted

/-- What other listeners do does not matter. -/
theorem Followed.unheard {es' : List Entry} (h : Followed es cs as n i c)
    (hbegan : ∀ l, c.listener = some l → .began c.signal l ∉ happenings es')
    (hended : ∀ l failed, c.listener = some l → .ended c.signal l failed ∉ happenings es') :
    Followed (es ++ es') cs as n i c := by
  refine h.hear (fun l hl => ?_) (fun l hl => ?_) (fun hl => (h.idle hl).1) Iff.rfl
  · rw [List.count_eq_zero.2 (hbegan l hl), Nat.add_zero]
  · rw [List.count_eq_zero.2 (hbegan l hl), List.count_eq_zero.2 (hended l false hl),
      List.count_eq_zero.2 (hended l true hl)]

/-- A listener that begins, and has not begun before, is at its first step. -/
theorem Followed.hear_began (h : Followed es cs as n i c) {p l : Nat}
    (hfresh : .began p l ∉ happenings es) :
    Followed (es ++ [⟨j, .began p l⟩]) cs as n i (c.hear (.began p l)) := by
  by_cases hhas : c.Has p l
  · have hhear : c.hear (.began p l) = { c with stage := some .count } := if_pos hhas
    obtain ⟨rfl, hl⟩ := hhas
    have hzero := List.count_eq_zero.2 hfresh
    have hstage : c.stage = none := by
      have hran := h.ran l hl
      cases hstage : c.stage with
      | none => rfl
      | some stage => rw [hstage, Option.isSome_some, Bool.toNat_true] at hran; omega
    rw [hhear]
    refine h.hear (fun l' hl' => ?_) (fun l' hl' => ?_)
      (fun hnone => nomatch hl.symm.trans hnone) (by simp [hstage])
    · obtain rfl : l = l' := Option.some.inj (hl.symm.trans hl')
      simp [happenings, hstage]
    · obtain rfl : l = l' := Option.some.inj (hl.symm.trans hl')
      simp [happenings, hstage]
  · have hhear : c.hear (.began p l) = c := if_neg hhas
    rw [hhear]
    refine h.unheard (fun l' hl' hmem => hhas ?_) (by simp [happenings])
    cases List.mem_singleton.1 hmem
    exact ⟨rfl, hl'⟩

/-- A listener ends when it is at its end. -/
theorem Followed.hear_ended (h : Followed es cs as n i c) {p l : Nat} {failed : Bool}
    (hend : c.Has p l → failed = false ∧ c.stage = some .atEnd) :
    Followed (es ++ [⟨j, .ended p l failed⟩]) cs as n i (c.hear (.ended p l failed)) := by
  by_cases hhas : c.Has p l
  · have hhear : c.hear (.ended p l failed) = { c with stage := none } := if_pos hhas
    obtain ⟨rfl, hstage⟩ := hend hhas
    obtain ⟨rfl, hl⟩ := hhas
    rw [hhear]
    refine h.hear (fun l' hl' => ?_) (fun l' hl' => ?_) (fun _ => rfl) (by simp [hstage])
    · simp [happenings, hstage]
    · obtain rfl : l = l' := Option.some.inj (hl.symm.trans hl')
      simp [happenings, hstage]
  · have hhear : c.hear (.ended p l failed) = c := if_neg hhas
    rw [hhear]
    refine h.unheard (by simp [happenings]) fun l' failed' hl' hmem => hhas ?_
    cases List.mem_singleton.1 hmem
    exact ⟨rfl, hl'⟩

/-- What threads do that is neither begin nor end of a listener. -/
def Silent (es : List Entry) : Prop :=
  (∀ p l, .began p l ∉ happenings es) ∧ ∀ p l failed, .ended p l failed ∉ happenings es

theorem Silent.hear (h : Silent es) (c : Child) :
    (happenings es).foldl Child.hear c = c := by
  obtain ⟨hbegan, hended⟩ := h
  generalize happenings es = events at hbegan hended ⊢
  induction events with
  | nil => rfl
  | cons e events ih =>
    have hdeaf : c.hear e = c := by
      cases e with
      | began p l => exact absurd (List.mem_cons_self ..) (hbegan p l)
      | ended p l failed => exact absurd (List.mem_cons_self ..) (hended p l failed)
      | _ => rfl
    rw [List.foldl_cons, hdeaf]
    exact ih (fun p l hmem => hbegan p l (List.mem_cons_of_mem _ hmem))
      fun p l failed hmem => hended p l failed (List.mem_cons_of_mem _ hmem)

/-- A step of the crowd begins a listener, or ends one, or is silent. -/
theorem step_heard {s t : Crowd} {label : Crowd.Step} (h : s.step label = some (t, es)) :
    (∃ j p l, es = [⟨j, .began p l⟩]) ∨
      (∃ j failed f fs, label = .act j (.finish failed) ∧
        s.threads[j]? = some ⟨none, f :: fs⟩ ∧
          es = [⟨j, .ended f.signal f.listener failed⟩]) ∨ Silent es := by
  obtain ⟨-, -, rfl⟩ | ⟨j, act, x, u, y, events, rfl, hj, hm, -, rfl⟩ := step_cases h
  · exact .inr (.inr ⟨nofun, nofun⟩)
  · cases hm with
    | delivers p l left fs => exact .inl ⟨j, p, l, rfl⟩
    | runsLate p l fs => exact .inl ⟨j, p, l, rfl⟩
    | ends f fs failed => exact .inr (.inl ⟨j, failed, f, fs, rfl, hj, rfl⟩)
    | _ => exact .inr (.inr ⟨by simp [happenings], by simp [happenings]⟩)

/-- The listener of a child is followed through each step of the crowd. -/
theorem Followed.crowd {s t : Crowd} {label : Crowd.Step} {es' : List Entry}
    (h : Followed es cs as n i c) (hbooks : Accounted t (es ++ es'))
    (hstep : s.step label = some (t, es'))
    (hend : ∀ j failed f fs, label = .act j (.finish failed) →
      s.threads[j]? = some ⟨none, f :: fs⟩ → c.Has f.signal f.listener →
        failed = false ∧ c.stage = some .atEnd) :
    Followed (es ++ es') cs as n i ((happenings es').foldl Child.hear c) := by
  obtain ⟨j, p, l, rfl⟩ | ⟨j, failed, f, fs, hlabel, hj, rfl⟩ | hsilent := step_heard hstep
  · refine h.hear_began fun hmem => ?_
    have hone := hbooks.count_began_le_one p l
    have hpos := List.count_pos_iff.2 hmem
    have hnew : (happenings [⟨j, .began p l⟩]).count (.began p l) = 1 := List.count_singleton_self
    rw [happenings_append, List.count_append] at hone
    omega
  · exact h.hear_ended fun hhas => hend j failed f fs hlabel hj hhas
  · rw [hsilent.hear c]
    exact h.unheard (fun l _ => hsilent.1 c.signal l) fun l failed _ => hsilent.2 c.signal l failed

theorem Followed.register (h : Followed es cs as n i c) {l : Nat} (hnone : c.listener = none)
    (hbegan : .began c.signal l ∉ happenings es)
    (hended : ∀ failed, .ended c.signal l failed ∉ happenings es) :
    Followed (es ++ [⟨0, .handed c.signal l⟩]) cs as n i { c with listener := some l } where
  handed l' hl' := by
    cases hl'
    exact List.mem_append_right _ (List.mem_singleton_self _)
  began l' hl' := by
    cases hl'
    obtain ⟨hstage, hcounted⟩ := h.idle hnone
    simp only [hstage, List.count_eq_zero.2 hcounted, happenings_append, List.count_append,
      List.count_eq_zero.2 hbegan]
    rfl
  ran l' hl' := by
    cases hl'
    simp only [(h.idle hnone).1, happenings_append, List.count_append, List.count_eq_zero.2 hbegan,
      List.count_eq_zero.2 (hended _)]
    rfl
  idle hl := nomatch hl
  attempted := h.attempted

theorem Followed.counts (h : Followed es cs as n i c) (hstage : c.stage = some .count)
    (hlength : cs.length < n) :
    Followed es (cs ++ [i]) as n i
      { c with stage := some (if cs.length + 1 = n then .attempt else .atEnd) } where
  handed := h.handed
  began l hl := by
    have hbegan := h.began l hl
    rw [if_pos hstage] at hbegan
    rw [← hbegan, List.count_append, List.count_singleton_self]
    split <;> simp
  ran l hl := by
    have hran := h.ran l hl
    rw [hstage] at hran
    exact hran
  idle hl := by
    rw [(h.idle hl).1] at hstage
    cases hstage
  attempted := by
    have hattempted := h.attempted
    rw [hstage, List.getElem?_eq_none (by omega)] at hattempted
    simp only [reduceCtorEq, if_false, Option.some.injEq] at hattempted ⊢
    by_cases hfull : cs.length + 1 = n
    · obtain rfl := hfull
      simpa using hattempted
    · have hnone : (cs ++ [i])[n - 1]? = none := by
        rw [List.getElem?_eq_none_iff, List.length_append, List.length_singleton]
        omega
      simpa [hfull, hnone] using hattempted

theorem Followed.counts_other (h : Followed es cs as n i c) (hij : i ≠ j)
    (hlength : cs.length < n) : Followed es (cs ++ [j]) as n i c where
  handed := h.handed
  began l hl := by
    simpa [List.count_append, List.count_singleton, Ne.symm hij] using h.began l hl
  ran := h.ran
  idle hl := ⟨(h.idle hl).1, by simpa [hij] using (h.idle hl).2⟩
  attempted := by
    have hattempted := h.attempted
    grind

/-- The listener that made the count full begins to complete the signal of the group. -/
theorem Followed.attempts (h : Followed es cs as n i c) (hstage : c.stage = some .attempt) :
    Followed es cs (as ++ [i]) n i { c with stage := some .atEnd } where
  handed := h.handed
  began l hl := by simpa [hstage] using h.began l hl
  ran l hl := by simpa [hstage] using h.ran l hl
  idle hl := by
    rw [(h.idle hl).1] at hstage
    cases hstage
  attempted := by simpa [hstage] using h.attempted

theorem Followed.attempts_other (h : Followed es cs as n i c) (hij : i ≠ j) :
    Followed es cs (as ++ [j]) n i c where
  handed := h.handed
  began := h.began
  ran := h.ran
  idle := h.idle
  attempted := by
    simpa [List.count_append, List.count_singleton, Ne.symm hij] using h.attempted

end FrameLoop.Group.Aggregation
