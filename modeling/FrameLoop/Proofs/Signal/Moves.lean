import FrameLoop.Signal.Threads

/-
  What an act of a thread does to signals and listeners, said once (`Move`), and what follows for
  the places where a listener can be.

  On its way through a thread a listener is `coming`, `taken` or `due`, and then `running`, which
  is read off from the call of the thread and from its frames.  Each act takes listeners from one
  place to the next (`Move.placed`, `Move.ran`).  A signal that has been completed is being
  `delivered` until its completion has returned (`Move.won`).
-/

namespace FrameLoop.Signal

/-! ## Places -/

/-- The listener, with its signal, that a call is about to hand to the signal. -/
@[simp, grind =]
def Stage.coming : Stage → List (Nat × Nat)
  | .listen p l => [(p, l)]
  | _ => []

/-- The listeners that a call has taken from the signal that it completed, and is still to run. -/
@[simp, grind =]
def Stage.taken : Stage → List (Nat × Nat)
  | .deliver p left => left.map (p, ·)
  | _ => []

/-- The late listener that a call is about to run. -/
@[simp, grind =]
def Stage.due : Stage → List (Nat × Nat)
  | .late p l => [(p, l)]
  | _ => []

/-- The listener that a call adds. -/
@[simp, grind =]
def Stage.added : Stage → List (Nat × Nat)
  | .listen p l => [(p, l)]
  | .late p l => [(p, l)]
  | .listened p l => [(p, l)]
  | _ => []

/-- The signal that a call has completed and whose listeners it runs. -/
@[simp, grind =]
def Stage.delivered : Stage → List Nat
  | .deliver p _ => [p]
  | _ => []

namespace Frame

/-- The listeners that are to run behind the one of this frame. -/
@[simp, grind =]
def taken : Frame → List (Nat × Nat)
  | delivered p _ left => left.map (p, ·)
  | late _ _ => []

/-- The listener that the call of this frame adds. -/
@[simp, grind =]
def added : Frame → List (Nat × Nat)
  | delivered _ _ _ => []
  | late p l => [(p, l)]

/-- The signal that the call of this frame has completed. -/
@[simp, grind =]
def completed : Frame → List Nat
  | delivered p _ _ => [p]
  | late _ _ => []

end Frame

namespace Thread

/-- What is found in the call of a thread, and in each of its frames. -/
def collect {α : Type} (stage : Stage → List α) (frame : Frame → List α) (x : Thread) : List α :=
  x.call.toList.flatMap stage ++ x.frames.flatMap frame

/-- The listeners that are about to be handed to their signals. -/
abbrev coming : Thread → List (Nat × Nat) := collect Stage.coming fun _ => []

/-- The listeners that a completion of their signal has taken and not yet run. -/
abbrev taken : Thread → List (Nat × Nat) := collect Stage.taken Frame.taken

/-- The late listeners that are about to run. -/
abbrev due : Thread → List (Nat × Nat) := collect Stage.due fun _ => []

/-- The listeners that run. -/
abbrev running : Thread → List (Nat × Nat) :=
  collect (fun _ => []) fun f => [(f.signal, f.listener)]

/-- The listeners that the calls under way add. -/
abbrev adding : Thread → List (Nat × Nat) := collect Stage.added Frame.added

/-- The signals that the calls under way have completed. -/
abbrev delivering : Thread → List Nat := collect Stage.delivered Frame.completed

end Thread

/-- What is found in all threads. -/
def Crowd.all {α : Type} (s : Crowd) (f : Thread → List α) : List α := s.threads.flatMap f

section

variable {α : Type} (stage : Stage → List α) (frame : Frame → List α)

@[simp, grind =] theorem collect_call (d : Stage) (fs : List Frame) :
    Thread.collect stage frame ⟨some d, fs⟩ = stage d ++ Thread.collect stage frame ⟨none, fs⟩ := by
  simp [Thread.collect]

@[simp, grind =] theorem collect_frame (f : Frame) (fs : List Frame) :
    Thread.collect stage frame ⟨none, f :: fs⟩ =
      frame f ++ Thread.collect stage frame ⟨none, fs⟩ := by
  simp [Thread.collect]

@[simp] theorem collect_idle : Thread.collect stage frame {} = [] := rfl

end

/-- What is found in all threads changes as what is found in the thread that acts. -/
theorem count_all_set {α : Type} [BEq α] {f : Thread → List α} {threads : List Thread} {i : Nat}
    {x : Thread} (hi : threads[i]? = some x) (y : Thread) (a : α) :
    ((threads.set i y).flatMap f).count a + (f x).count a =
      (threads.flatMap f).count a + (f y).count a := by
  induction threads generalizing i with
  | nil => cases hi
  | cons z threads ih =>
    cases i with
    | zero =>
      obtain rfl : z = x := Option.some.inj hi
      simp only [List.set_cons_zero, List.flatMap_cons, List.count_append]
      omega
    | succ i =>
      have htail := ih (show threads[i]? = some x from hi)
      simp only [List.set_cons_succ, List.flatMap_cons, List.count_append]
      omega

/-- What is found in a list in which one place has been set is what was set there, or was found
before. -/
theorem set_cases {α : Type} {xs : List α} {i j : Nat} {y z : α}
    (h : (xs.set i y)[j]? = some z) : j = i ∧ z = y ∨ j ≠ i ∧ xs[j]? = some z := by
  rw [List.getElem?_set] at h
  split at h
  · next hij =>
    split at h
    · exact .inl ⟨hij.symm, (Option.some.inj h).symm⟩
    · cases h
  · next hij => exact .inr ⟨Ne.symm hij, h⟩

theorem thread_fork {threads : List Thread} {j : Nat} {z : Thread}
    (h : (threads ++ [({} : Thread)])[j]? = some z) : threads[j]? = some z ∨ z = {} := by
  rw [List.getElem?_append] at h
  split at h
  · exact .inl h
  · exact .inr (List.mem_singleton.1 (List.mem_of_getElem? h))

section

variable {x : Thread} {s : Crowd}

theorem mem_collect {α : Type} {stage : Stage → List α} {frame : Frame → List α} {a : α} :
    a ∈ x.collect stage frame ↔
      (∃ d, x.call = some d ∧ a ∈ stage d) ∨ ∃ f ∈ x.frames, a ∈ frame f := by
  simp [Thread.collect]

theorem mem_all {α : Type} {f : Thread → List α} {a : α} :
    a ∈ s.all f ↔ ∃ x ∈ s.threads, a ∈ f x := List.mem_flatMap

theorem count_all_eq_zero {α : Type} [BEq α] [LawfulBEq α] {f : Thread → List α} {a : α}
    (h : ∀ x ∈ s.threads, a ∉ f x) : (s.all f).count a = 0 :=
  List.count_eq_zero.2 fun hmem =>
    have ⟨x, hx, hmem⟩ := mem_all.1 hmem
    h x hx hmem

theorem adding_of_coming {l : Nat × Nat} (h : l ∈ x.coming) : l ∈ x.adding := by
  simp only [mem_collect] at h ⊢
  obtain ⟨d, hd, hl⟩ | ⟨f, -, hl⟩ := h
  · exact .inl ⟨d, hd, by cases d <;> simp_all⟩
  · cases hl

theorem adding_of_due {l : Nat × Nat} (h : l ∈ x.due) : l ∈ x.adding := by
  simp only [mem_collect] at h ⊢
  obtain ⟨d, hd, hl⟩ | ⟨f, -, hl⟩ := h
  · exact .inl ⟨d, hd, by cases d <;> simp_all⟩
  · cases hl

/-- Listeners are taken by a call that has completed their signal. -/
theorem delivering_of_taken {p l : Nat} (h : (p, l) ∈ x.taken) : p ∈ x.delivering := by
  simp only [mem_collect] at h ⊢
  obtain ⟨d, hd, hl⟩ | ⟨f, hf, hl⟩ := h
  · exact .inl ⟨d, hd, by cases d <;> simp_all⟩
  · exact .inr ⟨f, hf, by cases f <;> simp_all⟩

/-- A listener runs in a call that has completed its signal, or in one that adds it. -/
theorem delivering_or_adding_of_running {p l : Nat} (h : (p, l) ∈ x.running) :
    p ∈ x.delivering ∨ (p, l) ∈ x.adding := by
  simp only [mem_collect] at h ⊢
  obtain ⟨d, -, hl⟩ | ⟨f, hf, hl⟩ := h
  · cases hl
  · cases f with
    | delivered q k left => exact .inl (.inr ⟨_, hf, by simp_all [Frame.signal]⟩)
    | late q k => exact .inr (.inr ⟨_, hf, by simp_all [Frame.signal, Frame.listener]⟩)

end

/-- Pairs with one signal are counted by their listeners. -/
theorem count_map_pair (p q l : Nat) (ls : List Nat) :
    (ls.map (q, ·)).count (p, l) = if q = p then ls.count l else 0 := by
  induction ls with
  | nil => simp
  | cons k ls ih => grind

/-! ## Moves -/

/-- The number of the listener that is handed over. -/
@[simp, grind =]
def Happening.number? : Happening → Option Nat
  | .handed _ l => some l
  | _ => none

/-- What an act of the thread `x` in the crowd `s` can do: the crowd and the thread behind it, and
what happens. -/
inductive Move (s : Crowd) : Act → Thread → Crowd → Thread → List Happening → Prop
  | tries (p : Nat) (fs : List Frame) :
    Move s (.call p .complete) ⟨none, fs⟩ s ⟨some (.complete p), fs⟩ []
  | hands (p : Nat) (fs : List Frame) :
    Move s (.call p .listen) ⟨none, fs⟩ { s with registered := s.registered + 1 }
      ⟨some (.listen p s.registered), fs⟩ [.handed p s.registered]
  | asks (p : Nat) (fs : List Frame) :
    Move s (.call p .isDone) ⟨none, fs⟩ s ⟨none, fs⟩ [.isDone p (s.signals p).done]
  | waits (p : Nat) (fs : List Frame) :
    Move s (.call p .wait) ⟨none, fs⟩ s ⟨some (.wait p), fs⟩ []
  | waitsTimeout (p : Nat) (fs : List Frame) :
    Move s (.call p .waitTimeout) ⟨none, fs⟩ s ⟨some (.waitTimeout p), fs⟩ []
  | loses (p : Nat) (fs : List Frame) : (s.signals p).done = true →
    Move s .go ⟨some (.complete p), fs⟩ s ⟨none, fs⟩ [.completed p false]
  | wins (p : Nat) (fs : List Frame) : (s.signals p).done = false →
    Move s .go ⟨some (.complete p), fs⟩
      (s.change p { s.signals p with done := true, listeners := [] })
      ⟨some (.deliver p (s.signals p).listeners), fs⟩ []
  | delivers (p l : Nat) (left : List Nat) (fs : List Frame) :
    Move s .go ⟨some (.deliver p (l :: left)), fs⟩ s ⟨none, .delivered p l left :: fs⟩ [.began p l]
  | settles (p : Nat) (fs : List Frame) :
    Move s .go ⟨some (.deliver p []), fs⟩ (s.change p (s.signals p).settle) ⟨none, fs⟩
      [.completed p true]
  | keeps (p l : Nat) (fs : List Frame) : (s.signals p).done = false →
    Move s .go ⟨some (.listen p l), fs⟩
      (s.change p { s.signals p with listeners := (s.signals p).listeners ++ [l] }) ⟨none, fs⟩
      [.kept p l, .listened p l]
  | misses (p l : Nat) (fs : List Frame) : (s.signals p).done = true →
    Move s .go ⟨some (.listen p l), fs⟩ s ⟨some (.late p l), fs⟩ []
  | runsLate (p l : Nat) (fs : List Frame) :
    Move s .go ⟨some (.late p l), fs⟩ s ⟨none, .late p l :: fs⟩ [.began p l]
  | returns (p l : Nat) (fs : List Frame) :
    Move s .go ⟨some (.listened p l), fs⟩ s ⟨none, fs⟩ [.listened p l]
  | wakes (p : Nat) (fs : List Frame) : (s.signals p).settled = true →
    Move s .go ⟨some (.wait p), fs⟩ s ⟨none, fs⟩ [.waited p]
  | wakesInTime (p : Nat) (fs : List Frame) : (s.signals p).settled = true →
    Move s .go ⟨some (.waitTimeout p), fs⟩ s ⟨none, fs⟩ [.waitedTimeout p true]
  | ends (f : Frame) (fs : List Frame) (failed : Bool) :
    Move s (.finish failed) ⟨none, f :: fs⟩ s ⟨f.after failed, fs⟩
      [.ended f.signal f.listener failed]
  | givesUp (p : Nat) (fs : List Frame) :
    Move s .timeUp ⟨some (.waitTimeout p), fs⟩ s ⟨none, fs⟩
      [.waitedTimeout p (s.signals p).settled]

variable {s t : Crowd} {x y : Thread} {a : Act} {events : List Happening}

/-- A step of a call is a move. -/
theorem go_move {fs : List Frame} {stage : Stage} (h : s.go fs stage = some (t, y, events)) :
    Move s .go ⟨some stage, fs⟩ t y events := by
  cases stage with
  | complete p =>
    cases hcomplete : (s.signals p).complete? with
    | none =>
      simp only [Crowd.go, hcomplete] at h
      cases h
      exact .loses p fs ((Signal.complete?_eq_none_iff _).1 hcomplete)
    | some taken =>
      obtain ⟨ls, signal⟩ := taken
      obtain ⟨hdone, rfl, rfl⟩ := (Signal.complete?_eq_some_iff _ _ _).1 hcomplete
      simp only [Crowd.go, hcomplete] at h
      cases h
      exact .wins p fs hdone
  | deliver p left =>
    cases left with
    | nil => cases h; exact .settles p fs
    | cons l left => cases h; exact .delivers p l left fs
  | listen p l =>
    cases hlisten : (s.signals p).listen? l with
    | none =>
      simp only [Crowd.go, hlisten] at h
      cases h
      exact .misses p l fs ((Signal.listen?_eq_none_iff _ l).1 hlisten)
    | some signal =>
      obtain ⟨hdone, rfl⟩ := (Signal.listen?_eq_some_iff _ _ l).1 hlisten
      simp only [Crowd.go, hlisten] at h
      cases h
      exact .keeps p l fs hdone
  | late p l => cases h; exact .runsLate p l fs
  | listened p l => cases h; exact .returns p l fs
  | wait p =>
    simp only [Crowd.go] at h
    split at h
    · next hsettled => cases h; exact .wakes p fs hsettled
    · cases h
  | waitTimeout p =>
    simp only [Crowd.go] at h
    split at h
    · next hsettled => cases h; exact .wakesInTime p fs hsettled
    · cases h

/-- Every act is a move. -/
theorem act_move (h : s.act x a = some (t, y, events)) : Move s a x t y events := by
  obtain ⟨call, fs⟩ := x
  cases a with
  | call p c =>
    cases call with
    | some stage => cases h
    | none =>
      cases c with
      | complete => cases h; exact .tries p fs
      | listen => cases h; exact .hands p fs
      | isDone => cases h; exact .asks p fs
      | wait => cases h; exact .waits p fs
      | waitTimeout => cases h; exact .waitsTimeout p fs
  | go =>
    cases call with
    | none => cases h
    | some stage => exact go_move h
  | finish failed =>
    cases call with
    | some stage => cases h
    | none =>
      cases fs with
      | nil => cases h
      | cons f fs => cases h; exact .ends f fs failed
  | timeUp =>
    cases call with
    | none => cases h
    | some stage =>
      cases stage with
      | waitTimeout p => cases h; exact .givesUp p fs
      | _ => cases h

/-- A step of a crowd is a new thread, or a move of one of its threads. -/
theorem step_cases {label : Crowd.Step} {entries : List Entry}
    (h : s.step label = some (t, entries)) :
    (label = .fork ∧ t = { s with threads := s.threads ++ [{}] } ∧ entries = []) ∨
      ∃ i a x u y events, label = .act i a ∧ s.threads[i]? = some x ∧ Move s a x u y events ∧
        t = { u with threads := u.threads.set i y } ∧ entries = events.map (Entry.mk i) := by
  cases label with
  | fork => cases h; exact .inl ⟨rfl, rfl, rfl⟩
  | act i a =>
    simp only [Crowd.step] at h
    split at h
    · cases h
    · next x hx =>
      split at h
      · cases h
      · next u y events hact =>
        cases h
        exact .inr ⟨i, a, x, u, y, events, rfl, hx, act_move hact, rfl, rfl⟩

theorem Move.threads (h : Move s a x t y events) : t.threads = s.threads := by
  cases h <;> rfl

/-- What is found in all threads changes as what is found in the thread that moves. -/
theorem Move.count_all {α : Type} [BEq α] {i : Nat} (h : Move s a x t y events)
    (hi : s.threads[i]? = some x) (f : Thread → List α) (b : α) :
    (Crowd.all { t with threads := t.threads.set i y } f).count b + (f x).count b =
      (s.all f).count b + (f y).count b := by
  unfold Crowd.all
  rw [h.threads]
  exact count_all_set hi y b

/-! ## What a move does to the places -/

/-- A listener that is handed over comes to a place, one that begins leaves it, and any other move
takes listeners from one place to another. -/
theorem Move.placed (h : Move s a x t y events) (p l : Nat) :
    y.coming.count (p, l) + (t.signals p).listeners.count l + y.taken.count (p, l) +
        y.due.count (p, l) + events.count (.began p l) =
      x.coming.count (p, l) + (s.signals p).listeners.count l + x.taken.count (p, l) +
        x.due.count (p, l) + events.count (.handed p l) := by
  cases h with
  | ends f fs failed => cases f <;> cases failed <;> simp [Frame.after]
  | _ => grind [Crowd.change, Signal.settle, count_map_pair]

/-- A listener that begins runs, until it ends. -/
theorem Move.ran (h : Move s a x t y events) (p l : Nat) :
    y.running.count (p, l) + events.count (.ended p l false) + events.count (.ended p l true) =
      x.running.count (p, l) + events.count (.began p l) := by
  cases h with
  | ends f fs failed =>
    cases f <;> cases failed <;> grind [Frame.after, Frame.signal, Frame.listener]
  | _ => grind [Frame.signal, Frame.listener]

/-- A signal that is completed is being delivered until its completion returns. -/
theorem Move.won (h : Move s a x t y events) (p : Nat) :
    y.delivering.count p + events.count (.completed p true) + (s.signals p).done.toNat =
      x.delivering.count p + (t.signals p).done.toNat := by
  cases h with
  | ends f fs failed => cases f <;> cases failed <;> grind [Frame.after]
  | _ => grind [Crowd.change, Signal.settle]

/-- A signal is settled when its completion returns, and not before. -/
theorem Move.settled_iff (h : Move s a x t y events) (p : Nat) :
    (t.signals p).settled = true ↔
      (s.signals p).settled = true ∨ .completed p true ∈ events := by
  cases h <;> grind [Crowd.change, Signal.settle]

/-- A signal that has been completed stays so, and who fails to complete it finds it completed. -/
theorem Move.done (h : Move s a x t y events) (p : Nat) :
    ((s.signals p).done = true → (t.signals p).done = true) ∧
      (.completed p false ∈ events → (t.signals p).done = true) := by
  cases h <;> grind [Crowd.change, Signal.settle]

/-- A signal that has been completed keeps no listener. -/
theorem Move.closed (h : Move s a x t y events) {p : Nat}
    (hs : (s.signals p).done = true → (s.signals p).listeners = [])
    (ht : (t.signals p).done = true) : (t.signals p).listeners = [] := by
  cases h <;> grind [Crowd.change, Signal.settle]

/-- Listeners are numbered in the order in which they are handed over. -/
theorem Move.numbered (h : Move s a x t y events) :
    List.range t.registered = List.range s.registered ++ events.filterMap Happening.number? := by
  cases h with
  | hands p fs => exact List.range_succ
  | _ => exact (List.append_nil _).symm

/-- Only a call that begins adds a listener that was not being added before. -/
theorem Move.adding (h : Move s a x t y events) {p l : Nat} (hmem : (p, l) ∈ y.adding) :
    (p, l) ∈ x.adding ∨ .handed p l ∈ events := by
  cases h with
  | ends f fs failed => cases f <;> cases failed <;> grind [Frame.after]
  | _ => grind

/-- So does a step, on the thread of the call. -/
theorem Move.adding_set (h : Move s a x t y events) {i j : Nat} (hi : s.threads[i]? = some x)
    {z : Thread} (hj : (t.threads.set i y)[j]? = some z) {p l : Nat} (hmem : (p, l) ∈ z.adding) :
    (∃ w, s.threads[j]? = some w ∧ (p, l) ∈ w.adding) ∨
      ⟨j, .handed p l⟩ ∈ events.map (Entry.mk i) := by
  obtain ⟨rfl, rfl⟩ | ⟨-, hj⟩ := set_cases hj
  · exact (h.adding hmem).imp (fun hx => ⟨x, hi, hx⟩) List.mem_map_of_mem
  · exact .inl ⟨z, h.threads ▸ hj, hmem⟩

theorem step_adding {label : Crowd.Step} {entries : List Entry}
    (h : s.step label = some (t, entries)) {j : Nat} {z : Thread} (hj : t.threads[j]? = some z)
    {p l : Nat} (hmem : (p, l) ∈ z.adding) :
    (∃ w, s.threads[j]? = some w ∧ (p, l) ∈ w.adding) ∨ ⟨j, .handed p l⟩ ∈ entries := by
  obtain ⟨-, rfl, -⟩ | ⟨i, a, x, u, y, events, -, hi, hm, rfl, rfl⟩ := step_cases h
  · obtain hj | rfl := thread_fork hj
    · exact .inl ⟨z, hj, hmem⟩
    · cases hmem
  · exact hm.adding_set hi hj hmem

end FrameLoop.Signal
