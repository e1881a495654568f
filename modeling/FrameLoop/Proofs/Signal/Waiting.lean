import FrameLoop.Proofs.Signal.Once

/-
  What a thread that has waited for a signal can rely on.

  A listener that a signal has kept waits in the signal, or is owed by the thread that completed the
  signal, or has ended on this thread (`Owing`).  The signal is settled only when this thread owes
  nothing more, so whoever has waited finds that all of them have ended
  (`Crowd.Reachable.ended_of_settled`), and until then nobody is told that the signal is settled.
-/

namespace FrameLoop.Signal

/-! ## What a completion owes -/

/-- The listeners that the call of this frame has taken from its signal and that have not ended. -/
@[simp, grind =]
def Frame.owed : Frame → List (Nat × Nat)
  | delivered p l left => (p, l) :: left.map (p, ·)
  | late _ _ => []

/-- The listeners that completions on this thread have taken and that have not ended. -/
abbrev Thread.owed : Thread → List (Nat × Nat) := Thread.collect Stage.taken Frame.owed

/-- Listeners are owed by a call that has completed their signal. -/
theorem delivering_of_owed {x : Thread} {p l : Nat} (h : (p, l) ∈ x.owed) : p ∈ x.delivering := by
  simp only [mem_collect] at h ⊢
  obtain ⟨d, hd, hl⟩ | ⟨f, hf, hl⟩ := h
  · exact .inl ⟨d, hd, by cases d <;> simp_all⟩
  · cases f with
    | delivered q k left =>
      obtain rfl : p = q := by
        simp only [Frame.owed, List.mem_cons, Prod.mk.injEq, List.mem_map] at hl
        obtain ⟨hp, -⟩ | ⟨-, -, hp, -⟩ := hl
        · exact hp
        · exact hp.symm
      exact .inr ⟨_, hf, List.mem_singleton_self p⟩
    | late q k => cases hl

section

variable {s t : Crowd} {x y : Thread} {a : Act} {events : List Happening}

/-- A listener is owed until it ends. -/
theorem Move.owed (h : Move s a x t y events) {p l : Nat} (hl : (p, l) ∈ x.owed) :
    (p, l) ∈ y.owed ∨ ∃ failed, .ended p l failed ∈ events := by
  cases h with
  | ends f fs failed =>
    cases f with
    | delivered q k left =>
      simp only [collect_frame, Frame.owed, List.cons_append, List.mem_cons, Prod.mk.injEq] at hl
      obtain ⟨rfl, rfl⟩ | hl := hl
      · exact .inr ⟨failed, List.mem_singleton_self _⟩
      · left
        simp only [Frame.after, collect_call, Stage.taken]
        simpa only [List.mem_append] using hl
    | late q k => cases failed <;> simp_all [Frame.after]
  | _ => simp_all

theorem Move.delivering (h : Move s a x t y events) {p : Nat} (hp : p ∈ x.delivering) :
    p ∈ y.delivering ∨ .completed p true ∈ events := by
  cases h with
  | settles q fs =>
    simp only [collect_call, Stage.delivered, List.singleton_append, List.mem_cons] at hp
    obtain rfl | hp := hp
    · exact .inr (List.mem_singleton_self _)
    · exact .inl hp
  | ends f fs failed => cases f <;> cases failed <;> simp_all [Frame.after]
  | _ => simp_all

/-- A listener waits in its signal until a completion takes it. -/
theorem Move.taken (h : Move s a x t y events) {p l : Nat} (hl : l ∈ (s.signals p).listeners) :
    l ∈ (t.signals p).listeners ∨ (p, l) ∈ y.owed := by
  cases h <;> grind [Crowd.change, Signal.settle]

theorem Move.told (h : Move s a x t y events) (p : Nat) :
    (∀ answer, .isDone p answer ∈ events → answer = (s.signals p).done) ∧
      (∀ answer, .waitedTimeout p answer ∈ events → answer = (s.signals p).settled) ∧
      (.waited p ∈ events → (s.signals p).settled = true) := by
  cases h <;> simp_all

/-- A listener that is kept waits in its signal. -/
theorem Move.kept (h : Move s a x t y events) {p l : Nat} (hl : .kept p l ∈ events) :
    l ∈ (t.signals p).listeners := by
  cases h <;> grind [Crowd.change]

end

/-- The thread `c` has completed the signal `p`: it is in the call, or the call has returned. -/
def Completer (s : Crowd) (history : List Entry) (c p : Nat) : Prop :=
  (∃ z, s.threads[c]? = some z ∧ p ∈ z.delivering) ∨ ⟨c, .completed p true⟩ ∈ history

/-- A listener that was kept waits in its signal, or is owed by the thread that completed the
signal, or has ended on this thread. -/
def Owing (s : Crowd) (history : List Entry) : Prop :=
  ∀ p l, .kept p l ∈ happenings history →
    l ∈ (s.signals p).listeners ∨
      ∃ c, Completer s history c p ∧
        ((∃ z, s.threads[c]? = some z ∧ (p, l) ∈ z.owed) ∨
          ∃ failed, ⟨c, .ended p l failed⟩ ∈ history)

section

variable {s t : Crowd} {history : List Entry}

theorem Owing.fork (h : Owing s history) :
    Owing { s with threads := s.threads ++ [{}] } history := by
  have hthread {c : Nat} {z : Thread} (hz : s.threads[c]? = some z) :
      (s.threads ++ [({} : Thread)])[c]? = some z := by
    rw [List.getElem?_append_left (List.getElem?_eq_some_iff.1 hz).1, hz]
  intro p l hl
  obtain hl | ⟨c, hc, hl⟩ := h p l hl
  · exact .inl hl
  · refine .inr ⟨c, hc.imp_left ?_, hl.imp_left ?_⟩
    · exact fun ⟨z, hz, hp⟩ => ⟨z, hthread hz, hp⟩
    · exact fun ⟨z, hz, hl⟩ => ⟨z, hthread hz, hl⟩

/-- A thread is the one that moves, or is the same behind the move. -/
theorem Move.thread {i c : Nat} {x y z : Thread} {a : Act} {events : List Happening}
    (hm : Move s a x t y events) (hi : s.threads[i]? = some x) (hz : s.threads[c]? = some z) :
    c = i ∧ z = x ∨ (t.threads.set i y)[c]? = some z := by
  by_cases hci : c = i
  · subst hci
    exact .inl ⟨rfl, Option.some.inj (hz.symm.trans hi)⟩
  · right
    rw [hm.threads, List.getElem?_set_ne (Ne.symm hci), hz]

theorem Owing.move {i : Nat} {x y : Thread} {a : Act} {events : List Happening}
    (h : Owing s history) (hi : s.threads[i]? = some x) (hm : Move s a x t y events) :
    Owing { t with threads := t.threads.set i y } (history ++ events.map (Entry.mk i)) := by
  have hy : (t.threads.set i y)[i]? = some y := by
    rw [hm.threads, List.getElem?_set_self (List.getElem?_eq_some_iff.1 hi).1]
  have hnew {e : Happening} (he : e ∈ events) : ⟨i, e⟩ ∈ history ++ events.map (Entry.mk i) :=
    List.mem_append_right _ (List.mem_map_of_mem he)
  have hold {e : Entry} (he : e ∈ history) : e ∈ history ++ events.map (Entry.mk i) :=
    List.mem_append_left _ he
  intro p l hl
  rw [happenings_append, happenings_map_mk, List.mem_append] at hl
  obtain hl | hl := hl
  · obtain hl | ⟨c, hc, hl⟩ := h p l hl
    · obtain hl | hl := hm.taken hl
      · exact .inl hl
      · exact .inr ⟨i, .inl ⟨y, hy, delivering_of_owed hl⟩, .inl ⟨y, hy, hl⟩⟩
    · refine .inr ⟨c, ?_, ?_⟩
      · obtain ⟨z, hz, hp⟩ | hcompleted := hc
        · obtain ⟨rfl, rfl⟩ | hz := hm.thread hi hz
          · exact (hm.delivering hp).imp (fun hp => ⟨y, hy, hp⟩) hnew
          · exact .inl ⟨z, hz, hp⟩
        · exact .inr (hold hcompleted)
      · obtain ⟨z, hz, hl⟩ | ⟨failed, hended⟩ := hl
        · obtain ⟨rfl, rfl⟩ | hz := hm.thread hi hz
          · exact (hm.owed hl).imp (fun hl => ⟨y, hy, hl⟩) fun ⟨failed, he⟩ => ⟨failed, hnew he⟩
          · exact .inl ⟨z, hz, hl⟩
        · exact .inr ⟨failed, hold hended⟩
  · exact .inl (hm.kept hl)

theorem Owing.step {label : Crowd.Step} {entries : List Entry} (h : Owing s history)
    (hstep : s.step label = some (t, entries)) : Owing t (history ++ entries) := by
  obtain ⟨-, rfl, rfl⟩ | ⟨i, a, x, u, y, events, -, hi, hm, rfl, rfl⟩ := step_cases hstep
  · rw [List.append_nil]
    exact h.fork
  · exact h.move hi hm

theorem Crowd.Reachable.owing (h : s.Reachable history) : Owing s history := by
  induction h with
  | begin => intro p l hl; cases hl
  | step label _ hstep ih => exact ih.step hstep

/-! ## Waiting -/

theorem step_told {label : Crowd.Step} {entries : List Entry}
    (hstep : s.step label = some (t, entries)) (p : Nat) :
    (∀ answer, .isDone p answer ∈ happenings entries → answer = (s.signals p).done) ∧
      (∀ answer, .waitedTimeout p answer ∈ happenings entries →
        answer = (s.signals p).settled) ∧
      (.waited p ∈ happenings entries → (s.signals p).settled = true) := by
  obtain ⟨-, rfl, rfl⟩ | ⟨i, a, x, u, y, events, -, hi, hm, rfl, rfl⟩ := step_cases hstep
  · simp [happenings]
  · rw [happenings_map_mk]
    exact hm.told p

theorem step_settled {label : Crowd.Step} {entries : List Entry}
    (hstep : s.step label = some (t, entries)) {p : Nat} (hp : (s.signals p).settled = true) :
    (t.signals p).settled = true := by
  obtain ⟨-, rfl, rfl⟩ | ⟨i, a, x, u, y, events, -, hi, hm, rfl, rfl⟩ := step_cases hstep
  · exact hp
  · exact (hm.settled_iff p).2 (.inl hp)

/-- Somebody has waited for the signal, and with success. -/
def Awaited (history : List Entry) (p : Nat) : Prop :=
  .waited p ∈ happenings history ∨ .waitedTimeout p true ∈ happenings history

/-- Who has waited for a signal finds it settled. -/
theorem Crowd.Reachable.settled_of_awaited (h : s.Reachable history) {p : Nat}
    (hp : Awaited history p) : (s.signals p).settled = true := by
  induction h with
  | begin => rcases hp with hp | hp <;> cases hp
  | @step s t history entries label _ hstep ih =>
    obtain ⟨-, htimeout, hwait⟩ := step_told hstep p
    simp only [Awaited, happenings_append, List.mem_append] at hp
    obtain (hp | hp) | (hp | hp) := hp
    · exact step_settled hstep (ih (.inl hp))
    · exact step_settled hstep (hwait hp)
    · exact step_settled hstep (ih (.inr hp))
    · exact step_settled hstep (htimeout true hp).symm

/-- When a signal is settled, all listeners that it kept have ended on the thread that completed
it. -/
theorem Crowd.Reachable.ended_of_settled (h : s.Reachable history) {p : Nat}
    (hp : (s.signals p).settled = true) :
    ∃ c, ⟨c, .completed p true⟩ ∈ history ∧
      ∀ l, .kept p l ∈ happenings history → ∃ failed, ⟨c, .ended p l failed⟩ ∈ history := by
  have hbooks := h.accounted
  have hmem := (hbooks.settled p).1 hp
  obtain ⟨⟨c, e⟩, hc, rfl⟩ := List.mem_map.1 hmem
  refine ⟨c, hc, fun l hl => ?_⟩
  have hclosed := hbooks.closed p (hbooks.done_of_completed hmem)
  obtain hl | ⟨d, hd, hl⟩ := h.owing p l hl
  · rw [hclosed] at hl
    cases hl
  · obtain ⟨z, hz, hdelivering⟩ | hd := hd
    · exact absurd hdelivering (hbooks.not_delivering hmem (List.mem_of_getElem? hz))
    · obtain rfl : c = d := thread_unique (hbooks.count_completed_le_one p) hc hd
      obtain ⟨z, hz, howed⟩ | hended := hl
      · exact absurd (delivering_of_owed howed)
          (hbooks.not_delivering hmem (List.mem_of_getElem? hz))
      · exact hended

/-- What those who wait for a signal can rely on, in a crowd after a history. -/
structure Reliable (s : Crowd) (history : List Entry) (p : Nat) : Prop where
  done_of_settled : (s.signals p).settled = true → (s.signals p).done = true
  settled_stays : ∀ label t entries, s.step label = some (t, entries) →
    (s.signals p).settled = true → (t.signals p).settled = true
  /-- Behind a wait all listeners that the signal kept have ended, on the thread that completed
  it. -/
  ended : Awaited history p → ∃ c, ⟨c, .completed p true⟩ ∈ history ∧
    ∀ l, .kept p l ∈ happenings history → ∃ failed, ⟨c, .ended p l failed⟩ ∈ history
  /-- While the signal is complete, and a listener that it kept has not ended, nobody is told that
  it is not complete, or that it is settled. -/
  told : ∀ l, .kept p l ∈ happenings history →
    (∀ failed, .ended p l failed ∉ happenings history) → (s.signals p).done = true →
      ∀ label t entries, s.step label = some (t, entries) →
        (∀ answer, .isDone p answer ∈ happenings entries → answer = true) ∧
        (∀ answer, .waitedTimeout p answer ∈ happenings entries → answer = false) ∧
        .waited p ∉ happenings entries

theorem Crowd.Reachable.reliable (h : s.Reachable history) (p : Nat) : Reliable s history p where
  done_of_settled hp := h.accounted.done_of_completed ((h.accounted.settled p).1 hp)
  settled_stays _ _ _ hstep hp := step_settled hstep hp
  ended hp := h.ended_of_settled (h.settled_of_awaited hp)
  told l hl hended hdone label t entries hstep := by
    have hsettled : (s.signals p).settled = false := by
      rw [← Bool.not_eq_true]
      intro hp
      obtain ⟨c, -, hall⟩ := h.ended_of_settled hp
      obtain ⟨failed, hmem⟩ := hall l hl
      exact hended failed (mem_happenings hmem)
    obtain ⟨hisDone, htimeout, hwait⟩ := step_told hstep p
    refine ⟨fun answer hmem => ?_, fun answer hmem => ?_, fun hmem => ?_⟩
    · rw [hisDone answer hmem, hdone]
    · rw [htimeout answer hmem, hsettled]
    · rw [hwait hmem] at hsettled
      cases hsettled

end

end FrameLoop.Signal
