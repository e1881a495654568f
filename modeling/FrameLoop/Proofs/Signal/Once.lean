import FrameLoop.Proofs.Runs
import FrameLoop.Proofs.Signal.Moves

/-
  Each listener of a signal runs once, whatever the threads do and in whatever order.

  The books that are kept on a run (`Accounted`) hold that a listener is at one place at a time,
  that listeners are numbered in order, and that a signal has at most one call that has completed
  it.  A step keeps the books (`Accounted.step`), so every run does, and `listeners_run_once` reads
  off from them what the threads can rely on.
-/

namespace FrameLoop.Signal

/-! ## Histories -/

/-- What happened, on whatever thread. -/
def happenings (history : List Entry) : List Happening := history.map Entry.what

@[simp, grind =] theorem happenings_append (h es : List Entry) :
    happenings (h ++ es) = happenings h ++ happenings es := List.map_append

@[simp, grind =] theorem happenings_map_mk (i : Nat) (events : List Happening) :
    happenings (events.map (Entry.mk i)) = events := by
  simp [happenings, Function.comp_def]

theorem mem_happenings {history : List Entry} {i : Nat} {e : Happening}
    (h : ⟨i, e⟩ ∈ history) : e ∈ happenings history := List.mem_map_of_mem h

/-- What happens once happens on one thread. -/
theorem thread_unique {history : List Entry} {e : Happening}
    (hcount : (happenings history).count e ≤ 1) {i j : Nat} (hi : ⟨i, e⟩ ∈ history)
    (hj : ⟨j, e⟩ ∈ history) : i = j := by
  -- of two places in the history the one that is reached first decides which half holds both
  obtain ⟨before, behind, rfl⟩ := List.append_of_mem hi
  simp only [happenings_append, List.count_append] at hcount
  have hone : (happenings (⟨i, e⟩ :: behind)).count e = (happenings behind).count e + 1 :=
    List.count_cons_self
  have hbefore : ⟨j, e⟩ ∉ before := fun hmem => by
    have hpos := List.count_pos_iff.2 (mem_happenings hmem)
    omega
  have hbehind : ⟨j, e⟩ ∉ behind := fun hmem => by
    have hpos := List.count_pos_iff.2 (mem_happenings hmem)
    omega
  have hj := ((List.mem_append.1 hj).resolve_left hbefore)
  exact (congrArg Entry.thread ((List.mem_cons.1 hj).resolve_right hbehind)).symm

/-- A listener is handed over, to whatever signals, as often as its number occurs, or less. -/
theorem count_handed_add_le (events : List Happening) {p q : Nat} (hpq : p ≠ q) (l : Nat) :
    events.count (.handed p l) + events.count (.handed q l) ≤
      (events.filterMap Happening.number?).count l := by
  induction events with
  | nil => exact Nat.le_refl _
  | cons e events ih => cases e <;> grind

/-! ## Books -/

/-- The books of a crowd after a history. -/
structure Accounted (s : Crowd) (history : List Entry) : Prop where
  /-- A listener that has been handed over, and only such a one, is at one of its places. -/
  placed : ∀ p l, (s.all Thread.coming).count (p, l) + (s.signals p).listeners.count l +
      (s.all Thread.taken).count (p, l) + (s.all Thread.due).count (p, l) +
      (happenings history).count (.began p l) = (happenings history).count (.handed p l)
  /-- What has begun runs or has ended. -/
  ran : ∀ p l, (s.all Thread.running).count (p, l) + (happenings history).count (.ended p l false) +
      (happenings history).count (.ended p l true) = (happenings history).count (.began p l)
  numbered : (happenings history).filterMap Happening.number? = List.range s.registered
  /-- Who adds a listener has handed it over. -/
  adding : ∀ i x, s.threads[i]? = some x → ∀ p l, (p, l) ∈ x.adding → ⟨i, .handed p l⟩ ∈ history
  /-- A signal that is complete has one call that completed it, and it has returned or not. -/
  won : ∀ p, (s.all Thread.delivering).count p + (happenings history).count (.completed p true) =
      (s.signals p).done.toNat
  closed : ∀ p, (s.signals p).done = true → (s.signals p).listeners = []
  settled : ∀ p, (s.signals p).settled = true ↔ .completed p true ∈ happenings history
  lost : ∀ p, .completed p false ∈ happenings history → (s.signals p).done = true

variable {s t : Crowd} {history : List Entry}

theorem accounted_begin : Accounted {} [] where
  placed _ _ := rfl
  ran _ _ := rfl
  numbered := rfl
  adding _ _ h := by cases h
  won _ := rfl
  closed _ h := by cases h
  settled _ := by simp [happenings]
  lost _ h := by cases h

theorem all_fork {α : Type} (stage : Stage → List α) (frame : Frame → List α) :
    Crowd.all { s with threads := s.threads ++ [{}] } (Thread.collect stage frame) =
      s.all (Thread.collect stage frame) := by
  simp [Crowd.all]

theorem Accounted.fork (h : Accounted s history) :
    Accounted { s with threads := s.threads ++ [{}] } history where
  placed p l := by simpa only [all_fork] using h.placed p l
  ran p l := by simpa only [all_fork] using h.ran p l
  numbered := h.numbered
  adding i x hi p l hmem := by
    obtain hi | rfl := thread_fork hi
    · exact h.adding i x hi p l hmem
    · cases hmem
  won p := by simpa only [all_fork] using h.won p
  closed := h.closed
  settled := h.settled
  lost := h.lost

theorem Accounted.move {i : Nat} {x y : Thread} {a : Act} {events : List Happening}
    (h : Accounted s history) (hi : s.threads[i]? = some x) (hm : Move s a x t y events) :
    Accounted { t with threads := t.threads.set i y } (history ++ events.map (Entry.mk i)) := by
  constructor
  case placed =>
    intro p l
    have hcoming := hm.count_all hi Thread.coming (p, l)
    have htaken := hm.count_all hi Thread.taken (p, l)
    have hdue := hm.count_all hi Thread.due (p, l)
    have hmove := hm.placed p l
    have hbefore := h.placed p l
    simp only [happenings_append, happenings_map_mk, List.count_append]
    omega
  case ran =>
    intro p l
    have hrunning := hm.count_all hi Thread.running (p, l)
    have hmove := hm.ran p l
    have hbefore := h.ran p l
    simp only [happenings_append, happenings_map_mk, List.count_append]
    omega
  case numbered =>
    simp only [happenings_append, happenings_map_mk, List.filterMap_append, h.numbered, hm.numbered]
  case adding =>
    intro j z hj p l hmem
    rw [List.mem_append]
    obtain ⟨w, hw, hmem⟩ | hnew := hm.adding_set hi hj hmem
    · exact .inl (h.adding j w hw p l hmem)
    · exact .inr hnew
  case won =>
    intro p
    have hdelivering := hm.count_all hi Thread.delivering p
    have hmove := hm.won p
    have hbefore := h.won p
    simp only [happenings_append, happenings_map_mk, List.count_append]
    omega
  case closed =>
    intro p
    exact hm.closed (h.closed p)
  case settled =>
    intro p
    simp only [happenings_append, happenings_map_mk, List.mem_append, ← h.settled p]
    exact hm.settled_iff p
  case lost =>
    intro p hlost
    rw [happenings_append, happenings_map_mk, List.mem_append] at hlost
    obtain hlost | hlost := hlost
    · exact (hm.done p).1 (h.lost p hlost)
    · exact (hm.done p).2 hlost

theorem Accounted.step {label : Crowd.Step} {entries : List Entry} (h : Accounted s history)
    (hstep : s.step label = some (t, entries)) : Accounted t (history ++ entries) := by
  obtain ⟨-, rfl, rfl⟩ | ⟨i, a, x, u, y, events, -, hi, hm, rfl, rfl⟩ := step_cases hstep
  · rw [List.append_nil]
    exact h.fork
  · exact h.move hi hm

theorem Crowd.Reachable.accounted (h : s.Reachable history) : Accounted s history := by
  induction h with
  | begin => exact accounted_begin
  | step label _ hstep ih => exact ih.step hstep

/-! ## What the books say -/

theorem Accounted.count_number_le_one (h : Accounted s history) (l : Nat) :
    ((happenings history).filterMap Happening.number?).count l ≤ 1 := by
  rw [h.numbered]
  exact List.nodup_iff_count.1 List.nodup_range l

theorem Accounted.count_handed_le_one (h : Accounted s history) (p l : Nat) :
    (happenings history).count (.handed p l) ≤ 1 := by
  have hle := count_handed_add_le (happenings history) (Nat.succ_ne_self p).symm l
  have hone := h.count_number_le_one l
  omega

theorem Accounted.handed_unique (h : Accounted s history) {p q l : Nat}
    (hp : .handed p l ∈ happenings history) (hq : .handed q l ∈ happenings history) : p = q := by
  by_cases hpq : p = q
  · exact hpq
  · have hle := count_handed_add_le (happenings history) hpq l
    have hone := h.count_number_le_one l
    have hp := List.count_pos_iff.2 hp
    have hq := List.count_pos_iff.2 hq
    omega

theorem Accounted.not_handed (h : Accounted s history) (p : Nat) :
    .handed p s.registered ∉ happenings history := by
  intro hmem
  have hle := count_handed_add_le (happenings history) (Nat.succ_ne_self p).symm s.registered
  have hpos := List.count_pos_iff.2 hmem
  rw [h.numbered, List.count_eq_zero.2 List.not_mem_range_self] at hle
  omega

theorem Accounted.not_begun (h : Accounted s history) (p : Nat) :
    .began p s.registered ∉ happenings history ∧
      ∀ failed, .ended p s.registered failed ∉ happenings history := by
  have hplaced := h.placed p s.registered
  have hran := h.ran p s.registered
  rw [List.count_eq_zero.2 (h.not_handed p)] at hplaced
  refine ⟨List.count_eq_zero.1 (by omega), fun failed => List.count_eq_zero.1 ?_⟩
  cases failed <;> omega

theorem Accounted.count_handed (h : Accounted s history) {p l : Nat}
    (hl : .handed p l ∈ happenings history) : (happenings history).count (.handed p l) = 1 :=
  Nat.le_antisymm (h.count_handed_le_one p l) (List.count_pos_iff.2 hl)

theorem Accounted.count_began_le_one (h : Accounted s history) (p l : Nat) :
    (happenings history).count (.began p l) ≤ 1 := by
  have hplaced := h.placed p l
  have hhanded := h.count_handed_le_one p l
  omega

/-- A signal is completed by one call at most. -/
theorem Accounted.count_completed_le_one (h : Accounted s history) (p : Nat) :
    (happenings history).count (.completed p true) ≤ 1 := by
  have hwon := h.won p
  have hone := Bool.toNat_le (s.signals p).done
  omega

/-- A signal whose completion has returned is complete. -/
theorem Accounted.done_of_completed (h : Accounted s history) {p : Nat}
    (hp : .completed p true ∈ happenings history) : (s.signals p).done = true := by
  have hwon := h.won p
  have hcompleted := List.count_pos_iff.2 hp
  exact Bool.toNat_eq_one.1 (by have hone := Bool.toNat_le (s.signals p).done; omega)

/-- When the completion of a signal has returned, nobody runs its listeners. -/
theorem Accounted.not_delivering (h : Accounted s history) {p : Nat}
    (hp : .completed p true ∈ happenings history) {x : Thread} (hx : x ∈ s.threads) :
    p ∉ x.delivering := by
  intro hmem
  have hwon := h.won p
  have hcompleted := List.count_pos_iff.2 hp
  have hdelivering := List.count_pos_iff.2 (mem_all.2 ⟨x, hx, hmem⟩)
  have hone := Bool.toNat_le (s.signals p).done
  omega

/-- A listener that nobody adds any more has run once when the completion of its signal has
returned. -/
theorem Accounted.ran_once (h : Accounted s history) {p l : Nat}
    (hp : .completed p true ∈ happenings history) (hadded : ∀ x ∈ s.threads, (p, l) ∉ x.adding)
    (hl : .handed p l ∈ happenings history) :
    (happenings history).count (.began p l) = 1 ∧
      (happenings history).count (.ended p l false) +
        (happenings history).count (.ended p l true) = 1 := by
  have hcoming : (s.all Thread.coming).count (p, l) = 0 :=
    count_all_eq_zero fun x hx hmem => hadded x hx (adding_of_coming hmem)
  have hdue : (s.all Thread.due).count (p, l) = 0 :=
    count_all_eq_zero fun x hx hmem => hadded x hx (adding_of_due hmem)
  have htaken : (s.all Thread.taken).count (p, l) = 0 :=
    count_all_eq_zero fun x hx hmem => h.not_delivering hp hx (delivering_of_taken hmem)
  have hrunning : (s.all Thread.running).count (p, l) = 0 :=
    count_all_eq_zero fun x hx hmem =>
      (delivering_or_adding_of_running hmem).elim (h.not_delivering hp hx) (hadded x hx)
  have hplaced := h.placed p l
  have hran := h.ran p l
  rw [h.count_handed hl, hcoming, hdue, htaken, h.closed p (h.done_of_completed hp),
    List.count_nil] at hplaced
  rw [hrunning] at hran
  omega

/-- A signal is completed by one call at most.  Each listener that was handed over is at one place:
on its way to the signal, kept by it, taken by the call that completed it and not yet run, about to
run on the thread that adds it, or begun; it begins once at most, and what has begun runs or has
ended.  When the call that completed the signal has returned, and nobody adds a listener to it any
more, each of its listeners has been run once. -/
theorem listeners_run_once (h : s.Reachable history) :
    (∀ p, (happenings history).count (.completed p true) ≤ 1) ∧
    (∀ p l, .handed p l ∈ happenings history →
      (s.all Thread.coming).count (p, l) + (s.signals p).listeners.count l +
          (s.all Thread.taken).count (p, l) + (s.all Thread.due).count (p, l) +
          (happenings history).count (.began p l) = 1 ∧
        (s.all Thread.running).count (p, l) + (happenings history).count (.ended p l false) +
          (happenings history).count (.ended p l true) =
            (happenings history).count (.began p l)) ∧
    (∀ i x, s.threads[i]? = some x → ∀ p l, (p, l) ∈ x.coming ++ x.due →
      ⟨i, .handed p l⟩ ∈ history) ∧
    (∀ p, .completed p true ∈ happenings history →
      (∀ x ∈ s.threads, ∀ l, (p, l) ∉ x.adding) → ∀ l, .handed p l ∈ happenings history →
        (happenings history).count (.began p l) = 1 ∧
          (happenings history).count (.ended p l false) +
            (happenings history).count (.ended p l true) = 1) := by
  have hbooks := h.accounted
  refine ⟨fun p => ?_, fun p l hl => ⟨?_, hbooks.ran p l⟩, fun i x hi p l hmem => ?_, ?_⟩
  · exact hbooks.count_completed_le_one p
  · rw [hbooks.placed p l, hbooks.count_handed hl]
  · refine hbooks.adding i x hi p l ?_
    exact (List.mem_append.1 hmem).elim adding_of_coming adding_of_due
  · intro p hp hadded l hl
    exact hbooks.ran_once hp (fun x hx => hadded x hx l) hl

/-- Two threads race to complete a signal that keeps the listeners 0 and 1, while a third one brings
the listener 2 too late.  The listener 0 brings the listener 3, which panics, and it panics with
it. -/
def racingRun : List Crowd.Step :=
  let go (i : Nat) : Crowd.Step := .act i .go
  let call (i : Nat) (c : Call) : Crowd.Step := .act i (.call 0 c)
  let finish (i : Nat) (failed : Bool) : Crowd.Step := .act i (.finish failed)
  [.fork, .fork, .fork, call 0 .listen, go 0, call 0 .listen, go 0, call 1 .complete,
    call 2 .complete, call 0 .listen, go 1, go 2, go 0, go 1, call 1 .listen, go 1, go 1,
    call 1 .complete, go 1, finish 1 true, finish 1 true, go 1, finish 1 false, go 1, go 0,
    finish 0 false, go 0]

/-- At its end each of the four listeners has been run once. -/
theorem listeners_run_once_racing :
    ∃ (s : Crowd) (history : List Entry), s.Reachable history ∧
      .completed 0 true ∈ happenings history ∧ .completed 0 false ∈ happenings history ∧
      (∀ x ∈ s.threads, ∀ l, (0, l) ∉ x.adding) ∧
      ∀ l < 4, (happenings history).count (.began 0 l) = 1 ∧
        (happenings history).count (.ended 0 l false) +
          (happenings history).count (.ended 0 l true) = 1 := by
  let last := (follow Crowd.step {} [] racingRun).get (by decide +kernel)
  have hrun : last.1.Reachable last.2 := follow_keeps .step .begin (Option.some_get _).symm
  obtain ⟨-, -, -, honce⟩ := listeners_run_once hrun
  have hcompleted : .completed 0 true ∈ happenings last.2 := by decide +kernel
  have hlost : .completed 0 false ∈ happenings last.2 := by decide +kernel
  have hadding : ∀ x ∈ last.1.threads, ∀ l, (0, l) ∉ x.adding := by
    have hnone : ∀ x ∈ last.1.threads, x.adding = [] := by decide +kernel
    intro x hx l
    rw [hnone x hx]
    exact List.not_mem_nil
  have hhanded : ∀ l < 4, .handed 0 l ∈ happenings last.2 := by decide +kernel
  exact ⟨last.1, last.2, hrun, hcompleted, hlost, hadding,
    fun l hl => honce 0 hcompleted hadding l (hhanded l hl)⟩

end FrameLoop.Signal
