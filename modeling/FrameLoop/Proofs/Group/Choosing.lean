import FrameLoop.Group.LoopGroup
import FrameLoop.Proofs.Group.Undoing

/-
  Groups whose children are all there when the rotation over them is asked for.

  `build_choice` says how building ends then, and what has been done about the children by that
  time.  A rotation for as many children gives the group.  With one for another number no end is
  reached before every child has been asked to stop, awaited until it had come to its end, and given
  up (`Cleared`).

  A factory of rotations that panics ends the building at once: the builder asks no child to stop and
  awaits none, it only gives them up.  What they do upon that is their own affair.  An event loop
  begins to stop, and the caller has the panic whether it has come to its end or not; a driven
  executor does nothing and goes on running (`build_masked_three`).
-/

namespace FrameLoop.Group

open Loop (Grace)

/-- From `t` to `t'` the first `k` children were asked to stop, in order, then awaited, each until it
had come to its end and at most `patience` times, and then given up, in order.  Nothing else was
called. -/
def Surroundings.Cleared {σ : Type} (s : Surroundings σ) (grace : Grace) (patience k : Nat)
    (t t' : Trail σ) : Prop :=
  ∃ polls world, polls.length = k ∧ (∀ p ∈ polls, p ≤ patience) ∧
    s.PolledFrom 0 (s.stopped grace k t.world) polls world ∧
    t' = ⟨s.dropped k world,
      t.calls ++ (List.range k).map (.stop · grace) ++ awaitCalls 0 polls ++
        (List.range k).map .drop⟩

section

variable {σ : Type} {s : Surroundings σ} {grace : Grace} {world : σ} {calls : List Call}
  {patience i k n : Nat} {error : GroupError}

/-- Awaiting a child ends only when the child has come to its end. -/
theorem polled_of_awaitChild {t : Trail σ}
    (h : awaitChild s i patience ⟨world, calls⟩ = (true, t)) :
    ∃ polls ≤ patience, s.Polled i world polls t.world ∧
      t.calls = calls ++ List.replicate polls (.await i undoWait) := by
  induction patience generalizing world calls with
  | zero => cases h
  | succ patience ih =>
    simp only [awaitChild] at h
    split at h
    · next hgone =>
      cases h
      exact ⟨1, by omega, .gone (Prod.ext hgone rfl), rfl⟩
    · next hgone =>
      obtain ⟨polls, hpolls, hpolled, hcalls⟩ := ih h
      refine ⟨polls + 1, by omega, .again (Prod.ext ?_ rfl) hpolled, ?_⟩
      · exact Bool.eq_false_iff.2 hgone
      · rw [hcalls, List.append_assoc]
        rfl

/-- Awaiting several children ends only when all of them have come to their end. -/
theorem polledFrom_of_awaitFrom {t : Trail σ}
    (h : awaitFrom s patience k i ⟨world, calls⟩ = (true, t)) :
    ∃ polls, polls.length = k ∧ (∀ p ∈ polls, p ≤ patience) ∧
      s.PolledFrom i world polls t.world ∧ t.calls = calls ++ awaitCalls i polls := by
  induction k generalizing i world calls with
  | zero =>
    cases h
    exact ⟨[], rfl, by simp, .nil, (List.append_nil calls).symm⟩
  | succ k ih =>
    simp only [awaitFrom] at h
    split at h
    · next between hchild =>
      obtain ⟨first, hfirst, hpolled, hcalls⟩ := polled_of_awaitChild hchild
      obtain ⟨polls, rfl, hpolls, hmore, hcalls'⟩ := ih h
      refine ⟨first :: polls, rfl, ?_, .cons hpolled hmore, ?_⟩
      · exact List.forall_mem_cons.2 ⟨hfirst, hpolls⟩
      · rw [hcalls', hcalls, List.append_assoc]
        rfl
    · cases h

/-- Undoing ends when the children are cleared, and not before. -/
theorem undo_eq_refused_iff (t t' : Trail σ) (error' : GroupError) :
    undo s patience grace k error t = (.refused error', t') ↔
      error' = error ∧ s.Cleared grace patience k t t' := by
  constructor
  · intro h
    unfold undo at h
    rw [stopFirst_eq] at h
    split at h
    · next last hawait =>
      cases h
      obtain ⟨polls, hlength, hpolls, hpolled, hcalls⟩ := polledFrom_of_awaitFrom hawait
      refine ⟨rfl, polls, last.world, hlength, hpolls, hpolled, ?_⟩
      rw [dropFirst_eq, hcalls]
    · cases h
  · rintro ⟨rfl, polls, last, rfl, hpolls, hpolled, rfl⟩
    exact (undone_undo t).refused polls last rfl hpolled patience hpolls

theorem undo_fst_ne (t : Trail σ) :
    (undo s patience grace k error t).1 ≠ .built ∧
      (undo s patience grace k error t).1 ≠ .panicked := by
  unfold undo
  split <;> exact ⟨nofun, nofun⟩

/-- A group whose children have all been created is built if the rotation is for as many.  It is
refused if the rotation is for another number, and only when all children have been cleared.  A
factory of rotations that panics ends the building with all children created, none of them asked to
stop or awaited by the builder, and all of them given up; a group that no memory could hold ends it
before any child is there. -/
theorem build_choice (hzero : n ≠ 0)
    (hcreated : ∀ j < n, (s.create j (s.made j world)).1 = .created)
    (grace : Grace) (patience : Nat) :
    let chosen := s.choose n (s.made n world)
    let before : Trail σ := ⟨chosen.2, (List.range n).map .create ++ [.choose n]⟩
    let result := build s patience grace n world
    (result.1 = .built ↔ n ≤ mostChildren ∧ chosen.1 = .chosen n) ∧
    (∀ error t, result = (.refused error, t) ↔
      n ≤ mostChildren ∧ (∃ length, chosen.1 = .chosen length ∧ length ≠ n) ∧
        error = .invalid "chooser length does not match executor count" ∧
        s.Cleared grace patience n before t) ∧
    (∀ t, result = (.panicked, t) ↔
      mostChildren < n ∧ t = ⟨world, []⟩ ∨
        n ≤ mostChildren ∧ chosen.1 = .panicked ∧
          t = ⟨s.dropped n before.world, before.calls ++ (List.range n).map .drop⟩) := by
  intro chosen before result
  by_cases hmany : mostChildren < n
  · have hresult : result = (.panicked, ⟨world, []⟩) := build_of_many hmany patience
    have hnot : ¬ n ≤ mostChildren := Nat.not_le.2 hmany
    simp [hresult, hmany, hnot, eq_comm]
  · have hn : n ≤ mostChildren := Nat.not_lt.1 hmany
    have hresult : result = _ := build_of_created hn hzero hcreated patience
    cases hchoice : chosen.1 with
    | panicked =>
      simp only [chosen] at hchoice
      simp only [hchoice] at hresult
      have hpanicked : result = (.panicked, _) := hresult.trans (congrArg _ (dropFirst_eq before))
      simp [hpanicked, hmany, hn, eq_comm]
    | chosen length =>
      simp only [chosen] at hchoice
      simp only [hchoice] at hresult
      by_cases hlength : length = n
      · rw [if_pos hlength] at hresult
        simp [hresult, hmany, hn, hlength]
      · rw [if_neg hlength] at hresult
        have hundo : result = undo s patience grace n
          (.invalid "chooser length does not match executor count") before := hresult
        obtain ⟨hbuilt, hpanicked⟩ := hundo ▸ undo_fst_ne before
        refine ⟨?_, fun error t => ?_, fun t => ?_⟩
        · simp [hbuilt, hlength]
        · rw [hundo, undo_eq_refused_iff]
          simp [hn, hlength]
        · simp [Prod.ext_iff, hpanicked, hmany]

end

/-- Two children, of which the first has to be awaited twice, and a rotation for three: the group is
refused, and by then both have been cleared.  With a rotation for two, the same children make a
group. -/
theorem build_choice_driven :
    let plan (length : Nat) : DrivenPlan :=
      { size := 2, kinds := [.awaited 2, .auto], rotation := .fixed length [] }
    let s : Surroundings (DrivenWorld Nat) := DrivenWorld.surroundings
    let world (length : Nat) := (s.choose 2 (s.made 2 (.ofPlan (plan length)))).2
    let result (length : Nat) := build s 2 standardGrace 2 (.ofPlan (plan length))
    (∀ length, ∀ j < 2, (s.create j (s.made j (.ofPlan (plan length)))).1 = .created) ∧
      (result 3).1 = .refused (.invalid "chooser length does not match executor count") ∧
      s.Cleared standardGrace 2 2 ⟨world 3, [.create 0, .create 1, .choose 2]⟩ (result 3).2 ∧
      (result 2).1 = .built := by
  intro plan s world result
  have hcreated : ∀ length, ∀ j < 2,
      (s.create j (s.made j (.ofPlan (plan length)))).1 = .created := by
    intro length j hj
    obtain rfl | rfl : j = 0 ∨ j = 1 := by omega
    · rfl
    · rfl
  have hrefused :
      (result 3).1 = .refused (.invalid "chooser length does not match executor count") := by
    decide +kernel
  obtain ⟨-, hcleared, -⟩ := build_choice (by decide) (hcreated 3) standardGrace 2
  obtain ⟨hbuilt, -, -⟩ := build_choice (by decide) (hcreated 2) standardGrace 2
  obtain ⟨-, -, -, hcleared⟩ := (hcleared _ (result 3).2).1 (Prod.ext hrefused rfl)
  exact ⟨hcreated, hrefused, hcleared, hbuilt.2 ⟨by decide, rfl⟩⟩

/-- The rotation that masks panics when it is asked for three children.  They have been created by
then.  Whatever the patience, the builder does not ask them to stop and does not await them; and as
it is nothing to driven executors to be given up, all three go on running. -/
theorem build_masked_three :
    let plan : DrivenPlan := { size := 3, kinds := [.awaited 1], rotation := .masked none }
    let s : Surroundings (DrivenWorld Nat) := DrivenWorld.surroundings
    let result (patience : Nat) := build s patience standardGrace 3 (.ofPlan plan)
    (∀ j < 3, (s.create j (s.made j (.ofPlan plan))).1 = .created) ∧
      ∀ patience, (result patience).1 = .panicked ∧
        (result patience).2.calls =
          [.create 0, .create 1, .create 2, .choose 3, .drop 0, .drop 1, .drop 2] ∧
        (result patience).2.world.children.map (fun c => (c.stopping, c.gone)) =
          [(false, false), (false, false), (false, false)] := by
  intro plan s result
  have hcreated : ∀ j < 3, (s.create j (s.made j (.ofPlan plan))).1 = .created := by
    decide +kernel
  have hchoose : (s.choose 3 (s.made 3 (.ofPlan plan))).1 = .panicked := by decide +kernel
  refine ⟨hcreated, fun patience => ?_⟩
  have hresult : result patience = _ := build_of_created (by decide) (by decide) hcreated patience
  simp only [hchoose] at hresult
  rw [hresult]
  refine ⟨rfl, rfl, ?_⟩
  decide +kernel

/-- Two event loops and a factory of rotations that panics: the builder does not ask the loops to
stop and does not await them either.  As they are given up, each of them is asked to stop at
once. -/
example :
    let s : Surroundings (LoopWorld Nat) :=
      { LoopWorld.surroundings with choose := fun _ w => (.panicked, w) }
    let result := build s 1 standardGrace 2 (.ofConfig (.standard 1))
    result.1 = .panicked ∧
      result.2.calls = [.create 0, .create 1, .choose 2, .drop 0, .drop 1] ∧
      result.2.world.members.map (·.host.machine.grace) = [some Grace.none, some Grace.none] := by
  decide +kernel

end FrameLoop.Group
