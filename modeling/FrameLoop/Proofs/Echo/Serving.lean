import FrameLoop.Proofs.Echo.Lanes
import FrameLoop.Proofs.Positions

/-
  What has been read is dealt with.

  The steps that hand over, take and do tasks need nothing from outside.  There are no more than
  three of them for everything that was read (`work`), so that they come to an end, and only when
  every lane is empty (`lane_idle`).
-/

namespace FrameLoop.Echo

theorem sum_map_modify {α : Type} {l : List α} {i : Nat} {x : α} (h : l[i]? = some x) (g : α → Nat)
    (f : α → α) : ((l.modify i f).map g).sum + g x = (l.map g).sum + g (f x) := by
  obtain ⟨hlt, rfl⟩ := List.getElem?_eq_some_iff.1 h
  have hl : l = l.take i ++ l[i] :: l.drop (i + 1) := by
    rw [← List.drop_eq_getElem_cons hlt, List.take_append_drop]
  have hsum := congrArg (fun l => (List.map g l).sum) hl
  rw [List.modify_eq_take_cons_drop hlt]
  simp only [List.map_append, List.map_cons, List.sum_append, List.sum_cons] at hsum ⊢
  omega

/-- The step goes on with what was read before. -/
def Step.isInner : Step → Bool
  | .submit _ | .take _ | .run _ => true
  | _ => false

/-- The steps that are still to be made with what a reader has not handed over. -/
def Reader.work : Reader → Nat
  | .handing _ => 3
  | _ => 0

/-- The steps that are still to be made with the tasks of a loop. -/
def Worker.work (w : Worker) : Nat := 2 * w.queue.length + w.running.toList.length

@[simp]
theorem Reader.work_after (errand : Errand) : (Reader.after errand).work = 0 := by
  cases errand <;> rfl

theorem Reader.work_behind_le (input : Input) : (Reader.behind input).work ≤ 3 := by
  cases input with
  | chunk bytes => exact Nat.le_refl 3
  | ended => exact Nat.le_refl 3
  | failed => exact Nat.zero_le 3

theorem Worker.work_push (w : Worker) (job : Job) : (w.push job).work = w.work + 2 := by
  simp only [work, push, List.length_append, List.length_singleton]
  omega

namespace Server

variable {s s' : Server} {first : Rotation} {n i l : Nat} {labels : List Step} {label : Step}

/-- The steps that are still to be made with what was read. -/
def work (s : Server) : Nat :=
  (s.peers.map (·.reader.work)).sum + (s.loops.map Worker.work).sum

theorem work_setReader {p : Peer} (h : s.peers[i]? = some p) (reader : Reader) :
    (s.setReader i reader).work + p.reader.work = s.work + reader.work := by
  have hsum := sum_map_modify h (·.reader.work) fun p => { p with reader }
  simp only [work, setReader, onPeer] at hsum ⊢
  omega

theorem work_onLoop {w : Worker} (h : s.loops[l]? = some w) (f : Worker → Worker) :
    (s.onLoop l f).work + w.work = s.work + (f w).work := by
  have hsum := sum_map_modify h Worker.work f
  simp only [work, onLoop] at hsum ⊢
  omega

theorem work_perform (s : Server) (job : Job) : (s.perform job).work = s.work := by
  simp only [work, perform, onPeer]
  rw [map_modify_same]
  intro p _
  rfl

theorem work_enroll (s : Server) (connection : Connection) :
    (s.enroll connection).work = s.work := by
  simp [work, enroll, Reader.work]

/-- Reading brings up to three more steps, and each of them is made once. -/
theorem work_change (hplaced : Placed first n s) (hchange : Change s label s') :
    if label.isInner then s'.work + 1 = s.work else s'.work ≤ s.work + 3 := by
  cases hchange with
  | @accept connection _ => exact (work_enroll s connection).trans_le (Nat.le_add_right _ 3)
  | @read i p input hi hreader =>
    have h := work_setReader hi (.behind input)
    have hle := Reader.work_behind_le input
    show _ ≤ _
    omega
  | @submit i p errand hi hreader =>
    obtain ⟨w, hw⟩ := hplaced.exists_worker hi
    have hpush := work_onLoop hw (·.push ⟨i, errand⟩)
    have hreads := work_setReader (s := s.onLoop p.loop (·.push ⟨i, errand⟩)) hi (.after errand)
    rw [Worker.work_push] at hpush
    rw [hreader, Reader.work_after] at hreads
    simp only [Reader.work] at hreads
    show _ = _
    omega
  | @take l job queue hl =>
    have h := work_onLoop hl fun _ => { queue, running := some job }
    simp only [Worker.work, List.length_cons, Option.toList] at h
    show _ = _
    omega
  | @run l job queue hl =>
    have h := work_onLoop hl fun _ => { queue }
    simp only [Worker.work, List.length_cons, Option.toList] at h
    show _ = _
    rw [work_perform]
    omega

/-- A server has no more to do than it was given. -/
theorem work_le (hplaced : Placed first n s) (hsteps : s.steps labels = some s') :
    s'.work ≤ s.work + 3 * labels.length := by
  induction labels generalizing s with
  | nil =>
    cases hsteps
    exact Nat.le_add_right _ _
  | cons label labels ih =>
    obtain ⟨next, hnext, hrest⟩ := Option.bind_eq_some_iff.1 hsteps
    have hchange := Change.of_step hnext
    have hle := ih (hplaced.change hchange) hrest
    have hone := work_change hplaced hchange
    rw [List.length_cons]
    split at hone <;> omega

/-- Steps that go on with what was read use up the work. -/
theorem length_le_work (hplaced : Placed first n s) (hinner : ∀ label ∈ labels, label.isInner)
    (hsteps : s.steps labels = some s') : labels.length ≤ s.work := by
  induction labels generalizing s with
  | nil => exact Nat.zero_le _
  | cons label labels ih =>
    obtain ⟨next, hnext, hrest⟩ := Option.bind_eq_some_iff.1 hsteps
    obtain ⟨hhead, htail⟩ := List.forall_mem_cons.1 hinner
    have hchange := Change.of_step hnext
    have hle := ih (hplaced.change hchange) htail hrest
    have hone := work_change hplaced hchange
    rw [if_pos hhead] at hone
    rw [List.length_cons]
    omega

theorem work_start {settings : Settings} (h : Server.start settings = .ok s) : s.work = 0 := by
  obtain ⟨-, -, rfl⟩ := start_eq_ok_iff.1 h
  simp [work, Worker.work]

/-- When no such step can be made, nothing is under way on a lane. -/
theorem lane_idle {lane : Lane} (hlane : s.lane? i = some lane)
    (hidle : ∀ label, label.isInner → s.step label = none) :
    lane.errands = [] ∧ lane.reader.held = [] := by
  have hnever {label : Step} {s' : Server} (hinner : label.isInner) : ¬ Change s label s' :=
    fun hchange => nomatch (hidle label hinner).symm.trans hchange.step
  obtain ⟨p, ⟨queue, running⟩, hi, hw, rfl⟩ := lane?_eq_some_iff.1 hlane
  constructor
  · cases running with
    | some job => exact absurd (.run hw) (hnever rfl)
    | none =>
      cases queue with
      | nil => rfl
      | cons job queue => exact absurd (.take hw) (hnever rfl)
  · show p.reader.held = []
    cases hreader : p.reader with
    | handing errand => exact absurd (.submit hi hreader) (hnever rfl)
    | reading => rfl
    | gone => rfl

end Server

end FrameLoop.Echo
