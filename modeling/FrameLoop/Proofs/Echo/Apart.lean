import FrameLoop.Proofs.Echo.Serving

/-
  Connections of the echo server do not influence each other.

  A server in which only one connection sends (`Muted`) goes along with the server in which all of
  them do: its loops have the tasks of that connection and no others, and a step that is about
  another connection is one that it leaves out (`Muted.change`).  So to the connection the two are
  the same.  `connections_apart` puts this beside what a connection is answered.
-/

namespace FrameLoop.Echo

/-- The connection whose reader makes the step, if a reader does. -/
def Step.reader? : Step → Option Nat
  | .read i _ | .submit i => some i
  | _ => none

/-- The loop without the tasks of other connections. -/
def Worker.only (i : Nat) (w : Worker) : Worker where
  queue := w.queue.filter (·.connection = i)
  running := w.running.filter (·.connection = i)

section Worker

variable {i : Nat} {job : Job} {queue : List Job}

theorem Worker.only_push_self (w : Worker) (i : Nat) (errand : Errand) :
    (w.push ⟨i, errand⟩).only i = (w.only i).push ⟨i, errand⟩ := by
  simp [only, push]

theorem Worker.only_push_ne (h : job.connection ≠ i) (w : Worker) :
    (w.push job).only i = w.only i := by
  simp [only, push, h]

theorem Worker.only_take_self (h : job.connection = i) :
    Worker.only i ⟨job :: queue, none⟩ = ⟨job :: queue.filter (·.connection = i), none⟩ := by
  simp [only, h]

theorem Worker.only_running_self (h : job.connection = i) :
    Worker.only i ⟨queue, some job⟩ = ⟨queue.filter (·.connection = i), some job⟩ := by
  simp [only, h]

theorem Worker.only_take_ne (h : job.connection ≠ i) :
    Worker.only i ⟨queue, some job⟩ = Worker.only i ⟨job :: queue, none⟩ := by
  simp [only, h]

theorem Worker.only_run_ne (h : job.connection ≠ i) :
    Worker.only i ⟨queue, none⟩ = Worker.only i ⟨queue, some job⟩ := by
  simp [only, Option.filter, h]

end Worker

namespace Server

variable {s s' t start : Server} {i : Nat} {labels : List Step} {label : Step}

/-- The connections are those that came in to `s`, but only one of them has sent something. -/
structure Muted (i : Nat) (s t : Server) : Prop where
  policy : t.policy = s.policy
  rotation : t.rotation = s.rotation
  count : t.peers.length = s.peers.length
  peer : t.peers[i]? = s.peers[i]?
  loops : t.loops = s.loops.map (Worker.only i)

namespace Muted

theorem onPeer_ne (h : Muted i s t) {j : Nat} (hji : j ≠ i) (f : Peer → Peer) :
    Muted i (s.onPeer j f) t :=
  ⟨h.policy, h.rotation, h.count.trans (List.length_modify f s.peers j).symm,
    h.peer.trans (peers_onPeer_ne hji s f).symm, h.loops⟩

theorem onPeer_self (h : Muted i s t) (f : Peer → Peer) :
    Muted i (s.onPeer i f) (t.onPeer i f) := by
  refine ⟨h.policy, h.rotation, ?_, ?_, h.loops⟩
  · rw [onPeer, onPeer, List.length_modify, List.length_modify, h.count]
  · rw [onPeer, onPeer, List.getElem?_modify_eq, List.getElem?_modify_eq, h.peer]

theorem onLoop_ne (h : Muted i s t) {l : Nat} {f : Worker → Worker}
    (hf : ∀ w, s.loops[l]? = some w → (f w).only i = w.only i) : Muted i (s.onLoop l f) t :=
  ⟨h.policy, h.rotation, h.count, h.peer, h.loops.trans (map_modify_same hf).symm⟩

theorem onLoop_self (h : Muted i s t) {l : Nat} {f f' : Worker → Worker}
    (hf : ∀ w, s.loops[l]? = some w → (f w).only i = f' (w.only i)) :
    Muted i (s.onLoop l f) (t.onLoop l f') := by
  refine ⟨h.policy, h.rotation, h.count, h.peer, ?_⟩
  rw [onLoop, onLoop, h.loops]
  exact (map_modify_around hf).symm

theorem loop_only (h : Muted i s t) {l : Nat} {w : Worker} (hl : s.loops[l]? = some w) :
    t.loops[l]? = some (w.only i) := by
  rw [h.loops, List.getElem?_map, hl]
  rfl

theorem enroll (h : Muted i s t) (connection : Connection) :
    Muted i (s.enroll connection) (t.enroll connection) := by
  obtain ⟨policy, rotation, loops, peers⟩ := t
  obtain ⟨rfl, rfl, hcount, hpeer, rfl⟩ := h
  refine ⟨rfl, rfl, ?_, ?_, rfl⟩
  · simp only [Server.enroll, List.length_append]
    exact congrArg (· + 1) hcount
  · have hcount : peers.length = s.peers.length := hcount
    have hpeer : peers[i]? = s.peers[i]? := hpeer
    simp only [Server.enroll, List.getElem?_append, hcount, hpeer]

/-- One step: either it is about the connection, and can be made by both, or it is about
another, and only the one makes it. -/
theorem change (h : Muted i s t) (hchange : Change s label s') :
    (Muted i s' t ∧ label.reader? ≠ some i) ∨
      ∃ t', Change t label t' ∧ Muted i s' t' ∧ ∀ j, label.reader? = some j → j = i := by
  cases hchange with
  | @accept connection hconnection =>
    refine .inr ⟨t.enroll connection, .accept ?_, h.enroll connection, nofun⟩
    rw [h.policy, h.count]
    exact hconnection
  | @read j p input hj hreader hfits =>
    by_cases hji : j = i
    · subst hji
      exact .inr ⟨_, .read (h.peer.trans hj) hreader hfits, h.onPeer_self _,
        fun _ => Option.some.inj ∘ Eq.symm⟩
    · exact .inl ⟨h.onPeer_ne hji _, hji ∘ Option.some.inj⟩
  | @submit j p errand hj hreader =>
    by_cases hji : j = i
    · subst hji
      have hpush : Muted j (s.onLoop p.loop (·.push ⟨j, errand⟩))
          (t.onLoop p.loop (·.push ⟨j, errand⟩)) :=
        h.onLoop_self fun w _ => w.only_push_self j errand
      exact .inr ⟨_, .submit (h.peer.trans hj) hreader, hpush.onPeer_self _,
        fun _ => Option.some.inj ∘ Eq.symm⟩
    · have hpush : Muted i (s.onLoop p.loop (·.push ⟨j, errand⟩)) t :=
        h.onLoop_ne fun w _ => Worker.only_push_ne hji w
      exact .inl ⟨hpush.onPeer_ne hji _, hji ∘ Option.some.inj⟩
  | @take l job queue hl =>
    by_cases hji : job.connection = i
    · have hloop := h.loop_only hl
      rw [Worker.only_take_self hji] at hloop
      refine .inr ⟨_, .take hloop, h.onLoop_self fun w _ => ?_, nofun⟩
      exact Worker.only_running_self hji
    · -- the task of another is not there, whether it waits or has been taken
      refine .inl ⟨h.onLoop_ne fun w hw => ?_, nofun⟩
      obtain rfl := Option.some.inj (hl.symm.trans hw)
      exact Worker.only_take_ne hji
  | @run l job queue hl =>
    by_cases hji : job.connection = i
    · have hloop := h.loop_only hl
      rw [Worker.only_running_self hji] at hloop
      -- both do the task, and each goes on with its own queue
      have hdone : Muted i (s.onLoop l fun _ => { queue })
          (t.onLoop l fun _ => { queue := queue.filter (·.connection = i) }) :=
        h.onLoop_self fun w _ => rfl
      subst hji
      exact .inr ⟨_, .run hloop, hdone.onPeer_self _, nofun⟩
    · have hdone : Muted i (s.onLoop l fun _ => { queue }) t := by
        refine h.onLoop_ne fun w hw => ?_
        obtain rfl := Option.some.inj (hl.symm.trans hw)
        exact Worker.only_run_ne hji
      exact .inl ⟨hdone.onPeer_ne hji _, nofun⟩

theorem steps (h : Muted i s t) (hsteps : s.steps labels = some s') :
    ∃ alone t', alone.Sublist labels ∧ t.steps alone = some t' ∧ Muted i s' t' ∧
      (∀ label ∈ alone, ∀ j, label.reader? = some j → j = i) ∧
      alone.filter (·.reader? = some i) = labels.filter (·.reader? = some i) := by
  induction labels generalizing s t with
  | nil =>
    cases hsteps
    exact ⟨[], t, .slnil, rfl, h, nofun, rfl⟩
  | cons label labels ih =>
    obtain ⟨next, hnext, hrest⟩ := Option.bind_eq_some_iff.1 hsteps
    rcases h.change (.of_step hnext) with ⟨hmuted, hother⟩ | ⟨t₁, hchange, hmuted, hown⟩
    · obtain ⟨alone, t', hsub, hrun, hlast, hreads, hsame⟩ := ih hmuted hrest
      refine ⟨alone, t', hsub.cons label, hrun, hlast, hreads, ?_⟩
      rw [hsame, List.filter_cons_of_neg (by simpa using hother)]
    · obtain ⟨alone, t', hsub, hrun, hlast, hreads, hsame⟩ := ih hmuted hrest
      refine ⟨label :: alone, t', hsub.cons_cons label, ?_, hlast,
        List.forall_mem_cons.2 ⟨hown, hreads⟩, ?_⟩
      · rw [Server.steps, hchange.step]
        exact hrun
      · rw [List.filter_cons, List.filter_cons, hsame]

theorem begin {settings : Settings} (h : Server.start settings = .ok start) (i : Nat) :
    Muted i start start := by
  obtain ⟨-, -, rfl⟩ := start_eq_ok_iff.1 h
  refine ⟨rfl, rfl, rfl, rfl, ?_⟩
  dsimp only
  rw [List.map_replicate]
  rfl

end Muted

end Server

open Server in
/-- Any number of connections send to a server, their readers and the loops do what they do in any
order.  What was sent back to a connection are the answers of one line decoder to chunks that were
read from this connection: to the first ones, in this order, and to all of them when it is closed,
which is not before its end was read.  As soon as the server can do nothing more with what was read,
everything is answered and what has come to an end is closed; for every step before there are three
steps at most until then.  And the connection is what it would be if nobody else had sent a
thing. -/
theorem connections_apart {settings : Settings} {start s : Server} {labels : List Step} {i : Nat}
    {p : Peer} (hstart : Server.start settings = .ok start) (hsteps : start.steps labels = some s)
    (hi : s.peers[i]? = some p) :
    let chunks := chunksRead i labels
    ∃ line, Line.ofPolicy settings.policy = .ok line ∧
      (∃ answered waiting, chunks = answered ++ waiting ∧
        p.connection.sent = answers line answered ∧
        (p.connection.closed = true → .read i .ended ∈ labels ∧ waiting = [])) ∧
      ((∀ label, label.isInner → s.step label = none) →
        p.connection.sent = answers line chunks ∧
          (p.connection.closed = true ↔ .read i .ended ∈ labels)) ∧
      (∀ more s', (∀ label ∈ more, label.isInner) → s.steps more = some s' →
        more.length ≤ 3 * labels.length) ∧
      ∃ alone t, alone.Sublist labels ∧ start.steps alone = some t ∧ t.peers[i]? = some p ∧
        (∀ label ∈ alone, ∀ j, label.reader? = some j → j = i) ∧
        alone.filter (·.reader? = some i) = labels.filter (·.reader? = some i) := by
  intro chunks
  obtain ⟨hpolicy, -, -⟩ := start_eq_ok_iff.1 hstart
  have hline := (Line.ofPolicy_eq_ok_iff settings.policy _).2 ⟨hpolicy, rfl⟩
  obtain ⟨first, n, hbegin⟩ := watched_start hstart
  have hwatched := hbegin.steps hsteps
  obtain ⟨w, hw⟩ := hwatched.placed.exists_worker hi
  have hlane : s.lane? i = some ⟨p.reader, w.errands i, p.connection⟩ :=
    lane?_eq_some_iff.2 ⟨p, w, hi, hw, rfl⟩
  obtain ⟨fresh, hfresh, hkept⟩ := hwatched.kept i _ hlane
  refine ⟨_, hline, hkept.answered hfresh hline, ?_, ?_, ?_⟩
  · intro hidle
    obtain ⟨herrands, hheld⟩ := lane_idle hlane hidle
    exact hkept.settled herrands hheld hfresh hline
  · intro more s' hinner hmore
    have hbound := work_le hbegin.placed hsteps
    rw [work_start hstart, Nat.zero_add] at hbound
    exact (length_le_work hwatched.placed hinner hmore).trans hbound
  · obtain ⟨alone, t, hsub, halone, hmuted, hreads, hsame⟩ := (Muted.begin hstart i).steps hsteps
    exact ⟨alone, t, hsub, halone, hmuted.peer.trans hi, hreads, hsame⟩

/-- Three connections to two loops, so that the first and the third share one.  The first sends a
line that is too long in two pieces, then a line that is not, and comes to its end in the middle of
another; the third sends its own line that is too long in between.  The first reads what is wrong
with its long line, and its short one. -/
theorem connections_apart_shared_loop :
    ∃ (settings : Settings) (start s : Server) (labels : List Step) (p : Peer) (line : Line),
      Server.start settings = .ok start ∧ start.steps labels = some s ∧ s.peers[0]? = some p ∧
        Line.ofPolicy settings.policy = .ok line ∧
        chunksRead 0 labels = [[97], [98, 99, 100, 101, 13, 10, 102, 103, 10, 104]] ∧
        p.connection.closed = true ∧
        answers line [[97], [98, 99, 100, 101, 13, 10, 102, 103, 10, 104]] =
          "ERR frame length exceeds 3: 5 - discarded\nfg\n".toList.map (·.toNat.toUInt8) := by
  let settings : Settings := { policy := { maxLength := 3 }, group := .standard 1 }
  let start : Server :=
    { policy := settings.policy, rotation := .masked 0 1, loops := List.replicate 2 {} }
  let chunk : Bytes := [98, 99, 100, 101, 13, 10, 102, 103, 10, 104]
  let labels : List Step :=
    [.accept, .accept, .accept, .read 0 (.chunk [97]), .read 2 (.chunk [98, 99, 100, 101, 10]),
      .submit 2, .submit 0, .take 0, .read 0 (.chunk chunk), .run 0, .submit 0,
      .read 2 .ended, .read 0 .ended, .take 0, .run 0, .submit 2, .submit 0, .take 0, .run 0,
      .take 0, .run 0, .take 0, .run 0]
  have hstart : Server.start settings = .ok start := by decide
  let s := (start.steps labels).get (by decide +kernel)
  let p := s.peers[0]?.get (by decide +kernel)
  have hsteps : start.steps labels = some s := (Option.some_get _).symm
  have hi : s.peers[0]? = some p := (Option.some_get _).symm
  have hchunks : chunksRead 0 labels = [[97], chunk] := by decide
  have hclosed : p.connection.closed = true := by decide +kernel
  have hsent : p.connection.sent =
      "ERR frame length exceeds 3: 5 - discarded\nfg\n".toList.map (·.toNat.toUInt8) := by
    decide +kernel
  obtain ⟨line, hline, ⟨answered, waiting, hsplit, hanswers, hall⟩, -⟩ :=
    connections_apart hstart hsteps hi
  obtain ⟨-, rfl⟩ := hall hclosed
  rw [List.append_nil, hchunks] at hsplit
  rw [← hsplit, hsent] at hanswers
  exact ⟨settings, start, s, labels, p, line, hstart, hsteps, hi, hline, hchunks, hclosed,
    hanswers.symm⟩

end FrameLoop.Echo
