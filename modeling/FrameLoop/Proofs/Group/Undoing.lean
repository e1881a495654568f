import FrameLoop.Group.Driven

/-
  Groups that cannot be built, and what is done about the children that are there already.

  A child that cannot be created, and a rotation for another number of children, have the same end:
  the children that exist are asked to stop, one after the other, and only when all have been asked
  is each awaited until it has come to its end (`build_undone`).  The error is handed out behind
  that, and as long as a child has not come to its end it is not handed out at all.  Where there is
  no room for so many children nothing has to be undone: building panics before the first of them is
  asked for.

  What the children do is a relation on the world that they live in: `Polled` says how often one of
  them has to be awaited, and `PolledFrom` the same of several, one after the other.
-/

namespace FrameLoop.Group

open Loop (Grace)

/-- The error that a creation ends with.  A panic ends with one that stands for it. -/
def Creation.error? : Creation → Option GroupError
  | created => none
  | failed error => some error
  | panicked => some factoryPanic

/-- The world after one call to each of the first `k` children. -/
def called {σ : Type} (act : Nat → σ → σ) : Nat → σ → σ
  | 0, world => world
  | k + 1, world => act k (called act k world)

namespace Surroundings

variable {σ : Type} (s : Surroundings σ)

/-- The world after the first `k` children were asked for. -/
def made : Nat → σ → σ
  | 0, world => world
  | k + 1, world => (s.create k (made k world)).2

/-- The world after the first `k` children were asked to stop. -/
def stopped (grace : Grace) : Nat → σ → σ := called (s.stop · grace)

/-- The world after the first `k` children were given up. -/
def dropped : Nat → σ → σ := called s.drop

/-- Child `i` is awaited so many times until it has come to its end: each time but the last it gives
up early. -/
inductive Polled (i : Nat) : σ → Nat → σ → Prop
  | gone {world world' : σ} : s.await i undoWait world = (true, world') → Polled i world 1 world'
  | again {world world' world'' : σ} {polls : Nat} :
    s.await i undoWait world = (false, world') → Polled i world' polls world'' →
    Polled i world (polls + 1) world''

/-- The children from `i` on are awaited, each until it has come to its end and then the next one;
how often each of them. -/
inductive PolledFrom : Nat → σ → List Nat → σ → Prop
  | nil {i : Nat} {world : σ} : PolledFrom i world [] world
  | cons {i polls : Nat} {more : List Nat} {world world' world'' : σ} :
    s.Polled i world polls world' → PolledFrom (i + 1) world' more world'' →
    PolledFrom i world (polls :: more) world''

end Surroundings

/-- The calls that await the children from `i` on, each so many times. -/
def awaitCalls : Nat → List Nat → List Call
  | _, [] => []
  | i, polls :: more => List.replicate polls (.await i undoWait) ++ awaitCalls (i + 1) more

section

variable {σ : Type} {s : Surroundings σ} {grace : Grace} {world world' : σ} {calls : List Call}
  {patience i k : Nat}

/-! ## Creating -/

/-- Children that can be created are created, in order, before the others are asked for. -/
theorem createFrom_add {more : Nat}
    (h : ∀ j, i ≤ j → j < i + k → (s.create j (s.made j world)).1 = .created) :
    createFrom s (k + more) i ⟨s.made i world, calls⟩ =
      createFrom s more (i + k)
        ⟨s.made (i + k) world, calls ++ (List.range' i k).map .create⟩ := by
  induction k generalizing i calls with
  | zero => simp
  | succ k ih =>
    have hi := h i (Nat.le_refl i) (by omega)
    have hmore : ∀ j, i + 1 ≤ j → j < i + 1 + k → (s.create j (s.made j world)).1 = .created :=
      fun j hj hlt => h j (by omega) (by omega)
    rw [Nat.add_right_comm k 1 more, createFrom]
    dsimp only
    rw [hi]
    show createFrom s (k + more) (i + 1) ⟨s.made (i + 1) world, calls ++ [.create i]⟩ = _
    rw [ih hmore, List.range'_succ, List.map_cons, List.append_assoc, Nat.add_right_comm i 1 k]
    rfl

/-- A child that cannot be created is the last one asked for. -/
theorem createFrom_failed {error : GroupError} {more : Nat}
    (h : (s.create i (s.made i world)).1.error? = some error) :
    createFrom s (more + 1) i ⟨s.made i world, calls⟩ =
      (some (i, error), ⟨s.made (i + 1) world, calls ++ [.create i]⟩) := by
  unfold createFrom
  dsimp only
  cases hcreation : (s.create i (s.made i world)).1 with
  | created =>
    rw [hcreation] at h
    cases h
  | failed source =>
    rw [hcreation] at h
    obtain rfl : source = error := Option.some.inj h
    rfl
  | panicked =>
    rw [hcreation] at h
    obtain rfl : factoryPanic = error := Option.some.inj h
    rfl

theorem createFrom_zero_add {more : Nat}
    (h : ∀ j < k, (s.create j (s.made j world)).1 = .created) :
    createFrom s (k + more) 0 ⟨world, []⟩ =
      createFrom s more k ⟨s.made k world, (List.range k).map .create⟩ := by
  have hadd : createFrom s (k + more) 0 ⟨s.made 0 world, []⟩ = _ :=
    createFrom_add fun j _ hj => h j (by omega)
  rwa [Nat.zero_add, List.nil_append, ← List.range_eq_range'] at hadd

/-! ## Calling each of them -/

/-- The children are called in order. -/
theorem callFrom_eq (act : Nat → σ → σ) (call : Nat → Call) :
    callFrom act call k i ⟨called act i world, calls⟩ =
      ⟨called act (i + k) world, calls ++ (List.range' i k).map call⟩ := by
  induction k generalizing i calls with
  | zero => simp [callFrom]
  | succ k ih =>
    unfold callFrom
    show callFrom act call k (i + 1) ⟨called act (i + 1) world, calls ++ [call i]⟩ = _
    rw [ih, List.range'_succ, List.map_cons, List.append_assoc, Nat.add_right_comm]
    rfl

theorem callFrom_zero (act : Nat → σ → σ) (call : Nat → Call) (t : Trail σ) :
    callFrom act call k 0 t =
      ⟨called act k t.world, t.calls ++ (List.range k).map call⟩ := by
  have h : callFrom act call k 0 ⟨called act 0 t.world, t.calls⟩ = _ := callFrom_eq act call
  rwa [Nat.zero_add, ← List.range_eq_range'] at h

theorem stopFirst_eq (t : Trail σ) :
    stopFirst s grace k t =
      ⟨s.stopped grace k t.world, t.calls ++ (List.range k).map (.stop · grace)⟩ :=
  callFrom_zero _ _ t

theorem dropFirst_eq (t : Trail σ) :
    dropFirst s k t = ⟨s.dropped k t.world, t.calls ++ (List.range k).map .drop⟩ :=
  callFrom_zero _ _ t

/-! ## Awaiting -/

/-- A child is awaited until it has come to its end. -/
theorem awaitChild_polled {polls : Nat} (h : s.Polled i world polls world')
    (hpatience : polls ≤ patience) :
    awaitChild s i patience ⟨world, calls⟩ =
      (true, ⟨world', calls ++ List.replicate polls (.await i undoWait)⟩) := by
  induction h generalizing patience calls with
  | gone hawait =>
    obtain ⟨patience, rfl⟩ := Nat.exists_eq_succ_of_ne_zero (Nat.ne_of_gt hpatience)
    simp [awaitChild, hawait]
  | again hawait _ ih =>
    obtain ⟨patience, rfl⟩ :=
      Nat.exists_eq_succ_of_ne_zero (Nat.ne_of_gt (Nat.lt_of_lt_of_le (Nat.succ_pos _) hpatience))
    simp only [awaitChild, hawait, Bool.false_eq_true, if_false]
    rw [ih (by omega), List.append_assoc]
    rfl

/-- Before that, awaiting it does not end. -/
theorem awaitChild_short {polls : Nat} (h : s.Polled i world polls world')
    (hpatience : patience < polls) : (awaitChild s i patience ⟨world, calls⟩).1 = false := by
  induction h generalizing patience calls with
  | gone hawait =>
    obtain rfl : patience = 0 := by omega
    rfl
  | again hawait _ ih =>
    cases patience with
    | zero => rfl
    | succ patience =>
      simp only [awaitChild, hawait, Bool.false_eq_true, if_false]
      exact ih (by omega)

/-- Children are awaited in order, each until it has come to its end. -/
theorem awaitFrom_polled {polls : List Nat} (h : s.PolledFrom i world polls world')
    (hpatience : ∀ p ∈ polls, p ≤ patience) :
    awaitFrom s patience polls.length i ⟨world, calls⟩ =
      (true, ⟨world', calls ++ awaitCalls i polls⟩) := by
  induction h generalizing calls with
  | nil => simp [awaitFrom, awaitCalls]
  | cons hchild _ ih =>
    rw [List.forall_mem_cons] at hpatience
    rw [List.length_cons]
    simp only [awaitFrom, awaitChild_polled hchild hpatience.1]
    rw [ih hpatience.2, List.append_assoc]
    rfl

/-- If one of them takes longer, awaiting them does not end. -/
theorem awaitFrom_short {polls : List Nat} (h : s.PolledFrom i world polls world')
    (hpatience : ∃ p ∈ polls, patience < p) :
    (awaitFrom s patience polls.length i ⟨world, calls⟩).1 = false := by
  induction h generalizing calls with
  | nil => simp at hpatience
  | @cons i polls more world world' world'' hchild hmore ih =>
    rw [List.length_cons, awaitFrom]
    -- the first child that takes longer is the last one awaited
    by_cases hshort : patience < polls
    · have hends : (awaitChild s i patience ⟨world, calls⟩).1 = false :=
        awaitChild_short hchild hshort
      split
      · next hgone => rw [hgone] at hends; cases hends
      · rfl
    · simp only [awaitChild_polled hchild (Nat.le_of_not_lt hshort)]
      refine ih ?_
      obtain ⟨p, hp, hlt⟩ := hpatience
      cases hp with
      | head => exact absurd hlt hshort
      | tail _ hp => exact ⟨p, hp, hlt⟩

end

/-! ## Undoing -/

section

variable {σ : Type}

/-- After the calls of `t` the first `k` children are undone: all of them are asked to stop, in
order, then each is awaited until it has come to its end, and then they are given up and the error
is handed out, if all of them come to their end when they are awaited.  With less patience than one
of them needs the error is not handed out. -/
structure Undone (s : Surroundings σ) (grace : Grace) (k : Nat) (error : GroupError) (t : Trail σ)
    (result : Nat → Outcome × Trail σ) : Prop where
  refused : ∀ polls world, polls.length = k →
    s.PolledFrom 0 (s.stopped grace k t.world) polls world →
    ∀ patience, (∀ p ∈ polls, p ≤ patience) →
      result patience =
        (.refused error,
          ⟨s.dropped k world,
            t.calls ++ (List.range k).map (.stop · grace) ++ awaitCalls 0 polls ++
              (List.range k).map .drop⟩)
  waiting : ∀ polls world, polls.length = k →
    s.PolledFrom 0 (s.stopped grace k t.world) polls world →
    ∀ patience, (∃ p ∈ polls, patience < p) → (result patience).1 = .waiting

variable {s : Surroundings σ} {grace : Grace} {k n : Nat} {error : GroupError} {world : σ}

theorem undone_undo (t : Trail σ) :
    Undone s grace k error t fun patience => undo s patience grace k error t := by
  constructor
  · rintro polls world rfl hpolled patience hpatience
    unfold undo
    rw [stopFirst_eq, awaitFrom_polled hpolled hpatience]
    exact congrArg _ (dropFirst_eq _)
  · rintro polls world rfl hpolled patience hpatience
    have hends : (awaitFrom s patience polls.length 0 ⟨s.stopped grace polls.length t.world,
        t.calls ++ (List.range polls.length).map (.stop · grace)⟩).1 = false :=
      awaitFrom_short hpolled hpatience
    unfold undo
    rw [stopFirst_eq]
    split
    · next hgone => rw [hgone] at hends; cases hends
    · rfl

/-- A child that cannot be created: those before it are undone. -/
theorem build_of_failed (hn : n ≤ mostChildren) (hk : k < n)
    (hcreated : ∀ j < k, (s.create j (s.made j world)).1 = .created)
    (herror : (s.create k (s.made k world)).1.error? = some error) (patience : Nat) :
    build s patience grace n world =
      undo s patience grace k (.child k error)
        ⟨s.made (k + 1) world, (List.range (k + 1)).map .create⟩ := by
  obtain ⟨more, rfl⟩ : ∃ more, n = k + (more + 1) := Nat.exists_eq_add_of_lt hk
  have hcreate : createFrom s (k + (more + 1)) 0 ⟨world, []⟩ =
      (some (k, error), ⟨s.made (k + 1) world, (List.range (k + 1)).map .create⟩) := by
    rw [createFrom_zero_add hcreated, createFrom_failed herror, List.range_succ, List.map_append]
    rfl
  unfold build
  rw [if_neg (Nat.ne_of_gt (Nat.zero_lt_of_lt hk)), if_neg (Nat.not_lt.2 hn), hcreate]

/-- When all children have been created, the rest depends on the rotation. -/
theorem build_of_created (hn : n ≤ mostChildren) (hzero : n ≠ 0)
    (hcreated : ∀ j < n, (s.create j (s.made j world)).1 = .created) (patience : Nat) :
    build s patience grace n world =
      let chosen := s.choose n (s.made n world)
      let t : Trail σ := ⟨chosen.2, (List.range n).map .create ++ [.choose n]⟩
      match chosen.1 with
      | .panicked => (.panicked, dropFirst s n t)
      | .chosen length =>
        if length = n then (.built, listenFirst s n t)
        else
          undo s patience grace n (.invalid "chooser length does not match executor count") t := by
  have hcreate : createFrom s n 0 ⟨world, []⟩ =
      (none, ⟨s.made n world, (List.range n).map .create⟩) := by
    rw [← Nat.add_zero n, createFrom_zero_add hcreated]
    rfl
  have hmany := Nat.not_lt.2 hn
  cases hchoice : (s.choose n (s.made n world)).1 with
  | panicked => simp only [build, if_neg hzero, if_neg hmany, hcreate, hchoice]
  | chosen length => simp only [build, if_neg hzero, if_neg hmany, hcreate, hchoice]

theorem build_of_mismatch (hn : n ≤ mostChildren) (hzero : n ≠ 0)
    (hcreated : ∀ j < n, (s.create j (s.made j world)).1 = .created) {length : Nat} {world' : σ}
    (hchoose : s.choose n (s.made n world) = (.chosen length, world')) (hlength : length ≠ n)
    (patience : Nat) :
    build s patience grace n world =
      undo s patience grace n (.invalid "chooser length does not match executor count")
        ⟨world', (List.range n).map .create ++ [.choose n]⟩ := by
  rw [build_of_created hn hzero hcreated, hchoose]
  exact if_neg hlength

theorem build_of_many (hmany : mostChildren < n) (patience : Nat) :
    build s patience grace n world = (.panicked, ⟨world, []⟩) := by
  unfold build
  rw [if_neg (Nat.ne_of_gt (Nat.lt_of_le_of_lt (Nat.zero_le _) hmany)), if_pos hmany]

/-- A group for which there is room, and whose child `k` is the first that cannot be created:
nothing else is created, no rotation is made, nobody is listened to, and the children before it are
undone.  And such a group whose rotation is made for another number of children: all of them are
undone.  A group for which there is no room: building panics, and nothing has been called. -/
theorem build_undone (s : Surroundings σ) (grace : Grace) (n : Nat) (world : σ) :
    (n ≤ mostChildren →
      (∀ k < n, ∀ error, (∀ j < k, (s.create j (s.made j world)).1 = .created) →
        (s.create k (s.made k world)).1.error? = some error →
        Undone s grace k (.child k error)
          ⟨s.made (k + 1) world, (List.range (k + 1)).map .create⟩
          fun patience => build s patience grace n world) ∧
      (∀ length world', n ≠ 0 → (∀ j < n, (s.create j (s.made j world)).1 = .created) →
        s.choose n (s.made n world) = (.chosen length, world') → length ≠ n →
        Undone s grace n (.invalid "chooser length does not match executor count")
          ⟨world', (List.range n).map .create ++ [.choose n]⟩
          fun patience => build s patience grace n world)) ∧
    (mostChildren < n → ∀ patience,
      build s patience grace n world = (.panicked, ⟨world, []⟩)) := by
  refine ⟨fun hn => ⟨?_, ?_⟩, build_of_many⟩
  · intro k hk error hcreated herror
    rw [funext (build_of_failed hn hk hcreated herror)]
    exact undone_undo _
  · intro length world' hzero hcreated hchoose hlength
    rw [funext (build_of_mismatch hn hzero hcreated hchoose hlength)]
    exact undone_undo _

end

/-- Two children are there when creating the third one panics.  The first has to be awaited twice,
so it is not undone with less patience.  The same children, when all are there and the rotation is
made for three.  And one child more than there is room for. -/
theorem build_undone_driven :
    let panicking : DrivenPlan :=
      { size := 4, kinds := [.awaited 2, .auto], failure := some (2, .panicked) }
    let mismatched : DrivenPlan :=
      { size := 2, kinds := [.awaited 2, .auto], rotation := .fixed 3 [] }
    let s : Surroundings (DrivenWorld Nat) := DrivenWorld.surroundings
    let grace : Grace := standardGrace
    ((build s 2 grace 4 (.ofPlan panicking)).1 = .refused (.child 2 factoryPanic) ∧
      (build s 2 grace 4 (.ofPlan panicking)).2.calls =
        [.create 0, .create 1, .create 2, .stop 0 grace, .stop 1 grace,
          .await 0 undoWait, .await 0 undoWait, .await 1 undoWait, .drop 0, .drop 1] ∧
      (build s 1 grace 4 (.ofPlan panicking)).1 = .waiting) ∧
    ((build s 2 grace 2 (.ofPlan mismatched)).1 =
        .refused (.invalid "chooser length does not match executor count") ∧
      (build s 2 grace 2 (.ofPlan mismatched)).2.calls =
        [.create 0, .create 1, .choose 2, .stop 0 grace, .stop 1 grace,
          .await 0 undoWait, .await 0 undoWait, .await 1 undoWait, .drop 0, .drop 1]) ∧
    build s 2 grace (mostChildren + 1) (.ofPlan mismatched) =
      (.panicked, ⟨.ofPlan mismatched, []⟩) := by
  intro panicking mismatched s grace
  have hpanicking : Undone s grace 2 (.child 2 factoryPanic)
      ⟨s.made 3 (.ofPlan panicking), [.create 0, .create 1, .create 2]⟩
      fun patience => build s patience grace 4 (.ofPlan panicking) :=
    ((build_undone s grace 4 (.ofPlan panicking)).1 (by decide)).1 2 (by decide) factoryPanic
      (by decide +kernel) rfl
  have hmismatched : Undone s grace 2 (.invalid "chooser length does not match executor count")
      ⟨(s.choose 2 (s.made 2 (.ofPlan mismatched))).2, [.create 0, .create 1, .choose 2]⟩
      fun patience => build s patience grace 2 (.ofPlan mismatched) :=
    ((build_undone s grace 2 (.ofPlan mismatched)).1 (by decide)).2 3 _ (by decide)
      (by decide +kernel) rfl (by decide)
  have hrefused := hpanicking.refused [2, 1] _ rfl
    (.cons (.again rfl (.gone rfl)) (.cons (.gone rfl) .nil)) 2 (by decide)
  have hwaiting := hpanicking.waiting [2, 1] _ rfl
    (.cons (.again rfl (.gone rfl)) (.cons (.gone rfl) .nil)) 1 (by decide)
  have hinvalid := hmismatched.refused [2, 1] _ rfl
    (.cons (.again rfl (.gone rfl)) (.cons (.gone rfl) .nil)) 2 (by decide)
  exact ⟨⟨congrArg (·.1) hrefused, congrArg (·.2.calls) hrefused, hwaiting⟩,
    ⟨congrArg (·.1) hinvalid, congrArg (·.2.calls) hinvalid⟩,
    (build_undone s grace (mostChildren + 1) (.ofPlan mismatched)).2 (Nat.lt_succ_self _) 2⟩

/-- A group that no memory could hold, and whose first child could not be created either: building
it panics before the child is asked for. -/
theorem build_too_many :
    let plan : DrivenPlan :=
      { size := Nat.pow 2 60, kinds := [.auto], failure := some (0, .failed (.foreign "first")) }
    let s : Surroundings (DrivenWorld Nat) := DrivenWorld.surroundings
    let result := fun patience => build s patience standardGrace plan.size (.ofPlan plan)
    (s.create 0 (.ofPlan plan)).1.error? = some (.foreign "first") ∧
      (∀ patience, (result patience).1 = .panicked ∧ (result patience).2.calls = []) ∧
      ¬ Undone s standardGrace 0 (.child 0 (.foreign "first"))
        ⟨s.made 1 (.ofPlan plan), [.create 0]⟩ result := by
  intro plan s result
  have hbuild : ∀ patience, result patience = (.panicked, ⟨.ofPlan plan, []⟩) := by
    intro patience
    exact build_of_many (by decide +kernel) patience
  refine ⟨rfl, ?_, ?_⟩
  · intro patience
    rw [hbuild patience]
    exact ⟨rfl, rfl⟩
  · intro hundone
    have hrefused := hundone.refused [] _ rfl .nil 0 (by simp)
    rw [hbuild 0] at hrefused
    cases hrefused

end FrameLoop.Group
