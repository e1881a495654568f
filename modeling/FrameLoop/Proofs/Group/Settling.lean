import FrameLoop.Proofs.Group.Completing
import FrameLoop.Proofs.Signal.Waiting

/-
  What those who have waited for all children of a group can rely on.

  When the group has been handed out, its builder adds no listener any more
  (`Reachable.brought`).  So a child whose signal is settled has had its listener run, be it
  by the thread that completed the signal or by the builder.
-/

namespace FrameLoop.Group.Aggregation

open Signal

variable {a b : Aggregation} {history events : List Event} {es : List Entry} {cs as : List Nat}

/-- The listeners of all children have been brought, and nobody is adding one of them any more. -/
structure Brought (a : Aggregation) : Prop where
  next : a.next = a.size
  added : ∀ x ∈ a.crowd.threads, ∀ c ∈ a.children, ∀ l, c.listener = some l →
    (c.signal, l) ∉ x.adding

namespace Brought

/-- When the builder has brought the last listener and does nothing else, all of them have been
brought. -/
theorem of_idle (ht : Tracked a es cs as) (hnext : a.next = a.size)
    (hidle : a.crowd.threads[0]? = some ⟨none, []⟩) : Brought a where
  next := hnext
  added x hx c hc l hl hmem := by
    obtain ⟨j, hj⟩ := List.mem_iff_getElem?.1 hx
    obtain ⟨i, hi⟩ := List.mem_iff_getElem?.1 hc
    have hbooks := ht.crowd.accounted
    have hbuilder := (ht.followed i c hi).handed l hl
    obtain rfl : j = 0 := thread_unique (hbooks.count_handed_le_one c.signal l)
      (hbooks.adding j x hj c.signal l hmem) hbuilder
    cases hidle.symm.trans hj
    cases hmem

theorem step (h : Brought a) (ht : Tracked a es cs as) {label : Crowd.Step} {crowd : Crowd}
    {es' : List Entry} (hstep : a.crowd.step label = some (crowd, es')) :
    ∀ x ∈ crowd.threads, ∀ c ∈ a.children, ∀ l, c.listener = some l →
      (c.signal, l) ∉ x.adding := by
  intro x hx c hc l hl hmem
  obtain ⟨j, hj⟩ := List.mem_iff_getElem?.1 hx
  obtain ⟨w, hw, hmem⟩ | hagain := step_adding hstep hj hmem
  · exact h.added w (List.mem_of_getElem? hw) c hc l hl hmem
  · obtain ⟨i, hi⟩ := List.mem_iff_getElem?.1 hc
    have hone := (ht.crowd.step label hstep).accounted.count_handed_le_one c.signal l
    have hbefore := List.count_pos_iff.2 (mem_happenings ((ht.followed i c hi).handed l hl))
    have hnow := List.count_pos_iff.2 (mem_happenings hagain)
    rw [happenings_append, List.count_append] at hone
    omega

theorem change (h : Brought a) (ht : Tracked a es cs as) (hc : Change a b events) : Brought b := by
  cases hc with
  | crowd label crowd es' hstep hallows =>
    refine ⟨h.next.trans (List.length_map ..).symm, fun x hx d hd l hl => ?_⟩
    obtain ⟨c, hc, rfl⟩ := List.mem_map.1 hd
    rw [foldl_hear_listener] at hl
    rw [foldl_hear_signal]
    exact h.step ht hstep x hx c hc l hl
  | register c crowd hc hidle hstep =>
    have hlt := (List.getElem?_eq_some_iff.1 hc).1
    exact absurd h.next (Nat.ne_of_lt hlt)
  | handOut hnext hidle => exact ⟨h.next, h.added⟩
  | count i c hc hstage =>
    refine ⟨h.next.trans (size_set ..).symm, fun x hx d hd l hl => ?_⟩
    obtain hd | rfl := List.mem_or_eq_of_mem_set hd
    · exact h.added x hx d hd l hl
    · exact h.added x hx c (List.mem_of_getElem? hc) l hl
  | attempt i thread c f fs crowd hc hstage hthread hhas hstep =>
    refine ⟨h.next.trans (size_set ..).symm, fun x hx d hd l hl => ?_⟩
    obtain hd | rfl := List.mem_or_eq_of_mem_set hd
    · exact h.step ht hstep x hx d hd l hl
    · exact h.step ht hstep x hx c (List.mem_of_getElem? hc) l hl

end Brought

theorem Reachable.brought {signal : Nat} {futures : List Nat}
    (h : Reachable signal futures a history) (hbuilt : a.built = true) : Brought a := by
  induction h with
  | begin => cases hbuilt
  | @step a b history events label hreach hstep ih =>
    cases hc : a.built with
    | true => exact (ih hc).change hreach.tracked (step_change hstep)
    | false =>
      cases step_change hstep with
      | handOut hnext hidle =>
        have hready := Brought.of_idle hreach.tracked hnext hidle
        exact ⟨hready.next, hready.added⟩
      | _ => exact absurd (hc.symm.trans hbuilt) Bool.false_ne_true

/-- When the group has been handed out, and the signals of its children are settled, all listeners
of the group have ended. -/
theorem Reachable.all_ended {signal : Nat} {futures : List Nat}
    (h : Reachable signal futures a history) (hbuilt : a.built = true)
    (hsettled : ∀ p ∈ futures, (a.crowd.signals p).settled = true) :
    AllEnded a (entries history) := by
  obtain ⟨-, hfutures, -, -⟩ := h.signals
  have hready := h.brought hbuilt
  have hbooks := h.tracked.crowd.accounted
  intro c hc
  obtain ⟨i, hi⟩ := List.mem_iff_getElem?.1 hc
  have hbrought : c.listener.isSome = true := by
    rw [h.tracked.registered i c hi, hready.next]
    exact (List.getElem?_eq_some_iff.1 hi).1
  obtain ⟨l, hl⟩ := Option.isSome_iff_exists.1 hbrought
  refine ⟨l, hl, ?_⟩
  have hcompleted : .completed c.signal true ∈ heard history :=
    (hbooks.settled c.signal).1 (hsettled c.signal (hfutures ▸ List.mem_map_of_mem hc))
  have hhanded := mem_happenings ((h.tracked.followed i c hi).handed l hl)
  obtain ⟨-, hended⟩ := hbooks.ran_once hcompleted (fun x hx => hready.added x hx c hc l hl) hhanded
  by_contra hnot
  rw [List.count_eq_zero.2 fun hmem => hnot ⟨false, hmem⟩,
    List.count_eq_zero.2 fun hmem => hnot ⟨true, hmem⟩] at hended
  cases hended

/-- A signal that is settled is complete and stays settled.  Who has waited for it finds that all
listeners that it had kept have ended, on the thread that completed it; until then, and from its
completion on, those who ask are told that it is complete, and those who wait for some time that it
is not settled.  So when a group has been handed out, and somebody has waited for the signal of each
of its children, the count is full and the signal of the group is complete. -/
theorem waiters_see_listeners :
    (∀ (s : Crowd) (history : List Entry), s.Reachable history → ∀ p, Reliable s history p) ∧
    ∀ (signal : Nat) (futures : List Nat) (a : Aggregation) (history : List Event),
      Reachable signal futures a history → a.built = true →
        (∀ p ∈ futures, Awaited (entries history) p) →
          a.count = futures.length ∧ (a.crowd.signals signal).done = true := by
  refine ⟨fun s history h p => h.reliable p, fun signal futures a history h hbuilt hall => ?_⟩
  have hended := h.all_ended hbuilt fun p hp => h.tracked.crowd.settled_of_awaited (hall p hp)
  obtain ⟨rfl, rfl, hne, -⟩ := h.signals
  have hpos : 0 < a.size := by
    rw [← List.length_pos_iff, List.length_map] at hne
    exact hne
  obtain ⟨i, -, -, hcompleted⟩ := h.tracked.completed h.sole hended hpos
  refine ⟨?_, h.tracked.crowd.accounted.done_of_completed hcompleted⟩
  rw [h.tracked.count, h.tracked.full hended, List.length_map]
  rfl

/-- A thread waits for some time while another one runs the listener of a complete signal. -/
def slowRun : List Crowd.Step :=
  [.fork, .fork, .fork, .act 0 (.call 0 .listen), .act 0 .go, .act 1 (.call 0 .complete),
    .act 1 .go, .act 1 .go, .act 2 (.call 0 .waitTimeout)]

/-- Two threads wait for the children of `lateRun`, one of them for some time. -/
def awaitedRun : List Step :=
  lateRun ++ [.crowd (.act 2 (.call 0 .wait)), .crowd (.act 2 .go),
    .crowd (.act 1 (.call 1 .waitTimeout)), .crowd (.act 1 .go)]

/-- While the listener runs the one who waits is told that the signal is not settled; behind the
waits for its children the group knows of all of them. -/
theorem waiters_see_listeners_late :
    (∃ (s : Crowd) (history : List Entry), s.Reachable history ∧ (s.signals 0).done = true ∧
      (s.step (.act 2 .timeUp)).isSome = true ∧
      ∀ label t entries, s.step label = some (t, entries) →
        .waitedTimeout 0 true ∉ happenings entries) ∧
    ∃ (a : Aggregation) (history : List Event), Reachable 9 [0, 1, 0] a history ∧
      a.built = true ∧ a.count = 3 ∧ (a.crowd.signals 9).done = true := by
  obtain ⟨hcrowd, hgroup⟩ := waiters_see_listeners
  constructor
  · let last := (follow Crowd.step {} [] slowRun).get (by decide +kernel)
    have hrun : last.1.Reachable last.2 := follow_keeps .step .begin (Option.some_get _).symm
    have hdone : (last.1.signals 0).done = true := by decide +kernel
    have htold := (hcrowd last.1 last.2 hrun 0).told 0 (by decide +kernel) (by decide +kernel) hdone
    refine ⟨last.1, last.2, hrun, hdone, by decide +kernel, fun label t entries hstep hmem => ?_⟩
    cases (htold label t entries hstep).2.1 true hmem
  · let last := (follow step (.begin 9 [0, 1, 0]) [] awaitedRun).get (by decide +kernel)
    have hrun : Reachable 9 [0, 1, 0] last.1 last.2 :=
      follow_keeps .step (.begin (by decide) (by decide)) (Option.some_get _).symm
    have hbuilt : last.1.built = true := by decide +kernel
    have hawaited : ∀ p ∈ [0, 1, 0], Awaited (entries last.2) p := by
      unfold Awaited
      decide +kernel
    exact ⟨last.1, last.2, hrun, hbuilt, hgroup 9 [0, 1, 0] last.1 last.2 hrun hbuilt hawaited⟩

end FrameLoop.Group.Aggregation
