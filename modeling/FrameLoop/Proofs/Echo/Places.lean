import FrameLoop.Echo.Server
import FrameLoop.Proofs.Rotation

/-
  Where connections and tasks are while the echo server runs.

  `Change` says once what each step needs and what it changes.  From it follows that everything
  stays in its place (`Placed`): a connection is pinned to a loop that there is, and a task is with
  the loop of its connection.
-/

namespace FrameLoop.Echo

/-! ## What one step changes -/

namespace Server

variable {s s' : Server} {label : Step} {i j l : Nat}

/-- What a step needs, and what it changes. -/
inductive Change (s : Server) : Step → Server → Prop
  | accept {connection : Connection} :
    Connection.accept s.policy (s.peers.length + 1) = .ok connection →
      Change s .accept (s.enroll connection)
  | read {i : Nat} {p : Peer} {input : Input} :
    s.peers[i]? = some p → p.reader = .reading → input.fits = true →
      Change s (.read i input) (s.setReader i (.behind input))
  | submit {i : Nat} {p : Peer} {errand : Errand} :
    s.peers[i]? = some p → p.reader = .handing errand →
      Change s (.submit i)
        ((s.onLoop p.loop (·.push ⟨i, errand⟩)).setReader i (.after errand))
  | take {l : Nat} {job : Job} {queue : List Job} :
    s.loops[l]? = some { queue := job :: queue, running := none } →
      Change s (.take l) (s.onLoop l fun _ => { queue, running := some job })
  | run {l : Nat} {job : Job} {queue : List Job} :
    s.loops[l]? = some { queue, running := some job } →
      Change s (.run l) ((s.onLoop l fun _ => { queue }).perform job)

theorem Change.of_step (h : s.step label = some s') : Change s label s' := by
  unfold step at h
  cases label with
  | accept =>
    dsimp only at h
    split at h
    · cases h
    · next connection hconnection =>
      cases h
      exact .accept hconnection
  | read i input =>
    dsimp only at h
    split at h
    · next hi =>
      split at h
      · next hfits =>
        cases h
        exact .read hi rfl hfits
      · cases h
    · cases h
  | submit i =>
    dsimp only at h
    split at h
    · next hi =>
      cases h
      exact .submit hi rfl
    · cases h
  | take l =>
    dsimp only at h
    split at h
    · next hl =>
      cases h
      exact .take hl
    · cases h
  | run l =>
    dsimp only at h
    split at h
    · next hl =>
      cases h
      exact .run hl
    · cases h

theorem Change.step (h : Change s label s') : s.step label = some s' := by
  cases h with
  | accept hconnection => simp only [Server.step, hconnection]
  | @read i p input hi hreader hfits =>
    obtain ⟨connection, loop, reader⟩ := p
    cases hreader
    simp only [Server.step, hi, if_pos hfits]
  | @submit i p errand hi hreader =>
    obtain ⟨connection, loop, reader⟩ := p
    cases hreader
    simp only [Server.step, hi]
  | take hl => simp only [Server.step, hl]
  | run hl => simp only [Server.step, hl]

theorem Change.policy (h : Change s label s') : s'.policy = s.policy := by
  cases h <;> rfl

/-- A connection has come in, or the connections are those that there were. -/
theorem Change.came_or_same (h : Change s label s') :
    (∃ connection, label = .accept ∧ s' = s.enroll connection ∧
      Connection.accept s.policy (s.peers.length + 1) = .ok connection) ∨
    s'.peers.length = s.peers.length := by
  cases h with
  | accept hconnection => exact .inl ⟨_, rfl, rfl, hconnection⟩
  | read => exact .inr (List.length_modify _ _ _)
  | submit => exact .inr (List.length_modify _ _ _)
  | take => exact .inr rfl
  | run => exact .inr (List.length_modify _ _ _)

theorem peers_onPeer_self {p : Peer} (h : s.peers[i]? = some p) (f : Peer → Peer) :
    (s.onPeer i f).peers[i]? = some (f p) := by
  rw [onPeer, List.getElem?_modify_eq, h]
  rfl

theorem peers_onPeer_ne (h : j ≠ i) (s : Server) (f : Peer → Peer) :
    (s.onPeer j f).peers[i]? = s.peers[i]? :=
  List.getElem?_modify_ne f s.peers h

theorem loops_onLoop_self {w : Worker} (h : s.loops[l]? = some w) (f : Worker → Worker) :
    (s.onLoop l f).loops[l]? = some (f w) := by
  rw [onLoop, List.getElem?_modify_eq, h]
  rfl

theorem loops_onLoop_ne {k : Nat} (h : l ≠ k) (s : Server) (f : Worker → Worker) :
    (s.onLoop l f).loops[k]? = s.loops[k]? :=
  List.getElem?_modify_ne f s.loops h

end Server

/-! ## Everything is in its place -/

/-- The tasks of a loop that are not done, in the order in which it does them. -/
def Worker.tasks (w : Worker) : List Job := w.running.toList ++ w.queue

@[simp]
theorem Worker.tasks_push (w : Worker) (job : Job) : (w.push job).tasks = w.tasks ++ [job] :=
  (List.append_assoc _ _ _).symm

namespace Server

variable {s s' : Server} {first : Rotation} {n i : Nat} {label : Step}

/-- In a server of `n` loops, whose rotation was `first` before a connection came in, connections
are pinned to loops that there are, and tasks are with the loop of their connection. -/
structure Placed (first : Rotation) (n : Nat) (s : Server) : Prop where
  turns : ∃ k, s.rotation = first.skip k
  /-- The rotation never points behind the loops. -/
  covered : ∀ k, (first.skip k).next.1 < n
  loops : s.loops.length = n
  pinned : ∀ (i : Nat) (p : Peer), s.peers[i]? = some p → p.loop < n
  sorted : ∀ (l : Nat) (w : Worker), s.loops[l]? = some w → ∀ job ∈ w.tasks,
    ∃ p : Peer, s.peers[job.connection]? = some p ∧ p.loop = l

namespace Placed

theorem onPeer (h : Placed first n s) (i : Nat) {f : Peer → Peer} (hf : ∀ p, (f p).loop = p.loop) :
    Placed first n (s.onPeer i f) := by
  have hpeer (j : Nat) :
      ((s.onPeer i f).peers[j]?).map Peer.loop = (s.peers[j]?).map Peer.loop := by
    rw [Server.onPeer, List.getElem?_modify]
    cases s.peers[j]? with
    | none => rfl
    | some p =>
      by_cases hij : i = j
      · simp [hij, hf]
      · simp [hij]
  have hsome (j l : Nat) : (∃ p, (s.onPeer i f).peers[j]? = some p ∧ p.loop = l) ↔
      ∃ p, s.peers[j]? = some p ∧ p.loop = l := by
    rw [← Option.map_eq_some_iff, ← Option.map_eq_some_iff, hpeer]
  refine ⟨h.turns, h.covered, h.loops, fun j p hj => ?_, fun l w hl job hjob => ?_⟩
  · obtain ⟨q, hq, hloop⟩ := (hsome j p.loop).1 ⟨p, hj, rfl⟩
    exact hloop ▸ h.pinned j q hq
  · exact (hsome _ _).2 (h.sorted l w hl job hjob)

/-- A loop may get the tasks of the connections that are pinned to it. -/
theorem onLoop (h : Placed first n s) (l : Nat) {f : Worker → Worker}
    (hf : ∀ w, s.loops[l]? = some w → ∀ job ∈ (f w).tasks,
      job ∈ w.tasks ∨ ∃ p, s.peers[job.connection]? = some p ∧ p.loop = l) :
    Placed first n (s.onLoop l f) := by
  refine ⟨h.turns, h.covered, (List.length_modify f s.loops l).trans h.loops, h.pinned, fun k w hk => ?_⟩
  by_cases hlk : l = k
  · subst hlk
    rw [Server.onLoop, List.getElem?_modify_eq] at hk
    obtain ⟨w, hw, rfl⟩ := Option.map_eq_some_iff.1 hk
    intro job hjob
    exact (hf w hw job hjob).elim (h.sorted l w hw job) id
  · rw [loops_onLoop_ne hlk] at hk
    exact h.sorted k w hk

theorem change (h : Placed first n s) (hchange : Change s label s') : Placed first n s' := by
  cases hchange with
  | @accept connection hconnection =>
    obtain ⟨k, hk⟩ := h.turns
    refine ⟨⟨k + 1, ?_⟩, h.covered, h.loops, fun i p hi => ?_, fun l w hl job hjob => ?_⟩
    · rw [Rotation.skip_succ, ← hk]
      rfl
    · rcases List.mem_append.1 (List.mem_of_getElem? hi) with hold | hnew
      · obtain ⟨j, hj⟩ := List.mem_iff_getElem?.1 hold
        exact h.pinned j p hj
      · rw [List.mem_singleton.1 hnew, hk]
        exact h.covered k
    · obtain ⟨p, hp, hloop⟩ := h.sorted l w hl job hjob
      have hlt := (List.getElem?_eq_some_iff.1 hp).1
      exact ⟨p, (List.getElem?_append_left hlt).trans hp, hloop⟩
  | read => exact h.onPeer _ fun _ => rfl
  | @submit i p errand hi =>
    refine (h.onLoop p.loop fun w _ job hjob => ?_).onPeer _ fun _ => rfl
    rw [Worker.tasks_push] at hjob
    rcases List.mem_append.1 hjob with hold | hnew
    · exact .inl hold
    · rw [List.mem_singleton.1 hnew]
      exact .inr ⟨p, hi, rfl⟩
  | @take l job queue hl =>
    refine h.onLoop l fun w hw job' hjob => .inl ?_
    obtain rfl := Option.some.inj (hl.symm.trans hw)
    exact hjob
  | @run l job queue hl =>
    refine (h.onLoop l fun w hw job' hjob => .inl ?_).onPeer _ fun _ => rfl
    obtain rfl := Option.some.inj (hl.symm.trans hw)
    exact List.mem_cons_of_mem job hjob

theorem exists_worker (h : Placed first n s) {p : Peer} (hi : s.peers[i]? = some p) :
    ∃ w, s.loops[p.loop]? = some w :=
  ⟨_, List.getElem?_eq_getElem (h.loops.symm ▸ h.pinned i p hi)⟩

end Placed

end Server

/-- A group that can be built has a loop, and not too many. -/
theorem loops_of_approve {group : GroupSettings} (h : group.approve = .ok ()) :
    0 < group.loops ∧ group.loops ≤ GroupSettings.mostLoops := by
  cases hcheck : group.check with
  | error e => simp [GroupSettings.approve, hcheck] at h
  | ok _ =>
    unfold GroupSettings.check at hcheck
    split at hcheck
    · cases hcheck
    · next hzero =>
      split at hcheck
      · cases hcheck
      · next hmany => exact ⟨Nat.pos_of_ne_zero hzero, Nat.le_of_not_lt hmany⟩

/-- When a server begins, and how. -/
theorem Server.start_eq_ok_iff {settings : Settings} {start : Server} :
    Server.start settings = .ok start ↔
      settings.policy.check = .ok () ∧ settings.group.approve = .ok () ∧
        start =
          { policy := settings.policy
            rotation := (Rotation.standard? (.ofNat settings.group.loops)).getD (.modulo 0 1)
            loops := List.replicate settings.group.loops {} } := by
  unfold Server.start Settings.check
  cases settings.policy.check with
  | error e => simp [bind, Except.bind]
  | ok _ =>
    cases settings.group.approve with
    | error e => simp [bind, Except.bind]
    | ok _ => simp [bind, Except.bind, pure, Except.pure, eq_comm]

theorem Server.placed_start {settings : Settings} {start : Server}
    (h : Server.start settings = .ok start) :
    ∃ first n, Placed first n start := by
  obtain ⟨-, happrove, rfl⟩ := start_eq_ok_iff.1 h
  obtain ⟨hpos, hle⟩ := loops_of_approve happrove
  have hword : settings.group.loops < 2 ^ 64 := hle.trans_lt (by decide)
  obtain ⟨first, hfirst⟩ := Rotation.exists_standard? hpos hword
  refine ⟨first, settings.group.loops, ⟨0, by rw [hfirst]; rfl⟩,
    Rotation.next_skip_lt hpos hword hfirst, List.length_replicate, nofun, ?_⟩
  intro l w hl job hjob
  obtain ⟨-, rfl⟩ := List.mem_replicate.1 (List.mem_of_getElem? hl)
  cases hjob

end FrameLoop.Echo
