import FrameLoop.Proofs.Echo.Answers
import FrameLoop.Proofs.Echo.Places

/-
  The echo server, as one of its connections sees it.

  What is to be done with a connection goes from its reader into the queue of one loop, and from
  there to the connection, so that of a whole server a connection sees its lane and nothing else
  (`lane_step`).  On a lane nothing gets lost, and nothing overtakes: what the loop has done, what
  it has still to do and what the reader has not handed over are together what was read, in this
  order (`Lane.Kept`).  `Watched` says this of all connections of a server that runs.
-/

namespace FrameLoop.Echo

/-! ## Lanes -/

/-- What a loop has still to do for a connection. -/
def Worker.errands (w : Worker) (i : Nat) : List Errand :=
  (w.tasks.filter (·.connection = i)).map Job.errand

/-- What a reader has not handed over. -/
def Reader.held : Reader → List Errand
  | .handing errand => [errand]
  | _ => []

/-- A chunk that is read from a connection. -/
def Step.chunk? (i : Nat) : Step → Option Bytes
  | .read j (.chunk bytes) => if j = i then some bytes else none
  | _ => none

/-- The chunks that were read from a connection, in this order. -/
def chunksRead (i : Nat) (labels : List Step) : List Bytes := labels.filterMap (Step.chunk? i)

/-- What was to be done with a connection after these steps. -/
def asked (i : Nat) (labels : List Step) : List Errand :=
  errands (chunksRead i labels) (.read i .ended ∈ labels)

/-- What a connection sees of the server: its reader, what its loop has still to do for it, and
itself. -/
structure Lane where
  reader : Reader
  errands : List Errand
  connection : Connection

/-- What a step of the server means to a connection. -/
inductive Lane.Moves (i : Nat) : Step → Lane → Lane → Prop
  | rest {label : Step} {lane : Lane} :
    (∀ input, label ≠ .read i input) → Moves i label lane lane
  | read {lane : Lane} {input : Input} :
    lane.reader = .reading → Moves i (.read i input) lane { lane with reader := .behind input }
  | submit {lane : Lane} {errand : Errand} :
    lane.reader = .handing errand →
      Moves i (.submit i) lane
        { lane with reader := .after errand, errands := lane.errands ++ [errand] }
  | run {l : Nat} {lane : Lane} {errand : Errand} {errands : List Errand} :
    lane.errands = errand :: errands →
      Moves i (.run l) lane { lane with errands, connection := lane.connection.perform errand }

section Worker

variable {w : Worker} {i : Nat} {job : Job} {queue : List Job}

theorem Worker.errands_push_self (w : Worker) (i : Nat) (errand : Errand) :
    (w.push ⟨i, errand⟩).errands i = w.errands i ++ [errand] := by
  simp [errands]

theorem Worker.errands_push_ne (h : job.connection ≠ i) (w : Worker) :
    (w.push job).errands i = w.errands i := by
  simp [errands, h]

theorem Worker.errands_running_self (i : Nat) (errand : Errand) :
    Worker.errands ⟨queue, some ⟨i, errand⟩⟩ i = errand :: Worker.errands ⟨queue, none⟩ i := by
  simp [errands, tasks]

theorem Worker.errands_running_ne (h : job.connection ≠ i) :
    Worker.errands ⟨queue, some job⟩ i = Worker.errands ⟨queue, none⟩ i := by
  simp [errands, tasks, h]

/-- A loop has nothing to do for a connection that none of its tasks is about. -/
theorem Worker.errands_eq_nil (h : ∀ job ∈ w.tasks, job.connection ≠ i) : w.errands i = [] := by
  rw [errands, List.map_eq_nil_iff, List.filter_eq_nil_iff]
  simpa using h

end Worker

namespace Server

variable {s s' : Server} {first : Rotation} {n : Nat} {label : Step} {i : Nat} {lane lane' : Lane}

/-- The lane of a connection. -/
def lane? (s : Server) (i : Nat) : Option Lane := do
  let p ← s.peers[i]?
  let w ← s.loops[p.loop]?
  return ⟨p.reader, w.errands i, p.connection⟩

theorem lane?_eq_some_iff : s.lane? i = some lane ↔ ∃ p w, s.peers[i]? = some p ∧
    s.loops[p.loop]? = some w ∧ ⟨p.reader, w.errands i, p.connection⟩ = lane := by
  simp [lane?, Option.bind_eq_some_iff]

theorem lane?_onPeer_ne {j : Nat} (h : j ≠ i) (s : Server) (f : Peer → Peer) :
    (s.onPeer j f).lane? i = s.lane? i := by
  simp only [lane?, peers_onPeer_ne h]
  rfl

theorem lane?_setReader_self (h : s.lane? i = some lane) (reader : Reader) :
    (s.setReader i reader).lane? i = some { lane with reader } := by
  obtain ⟨p, w, hi, hw, rfl⟩ := lane?_eq_some_iff.1 h
  exact lane?_eq_some_iff.2 ⟨{ p with reader }, w, peers_onPeer_self hi _, hw, rfl⟩

theorem lane?_onLoop {l : Nat} {f : Worker → Worker}
    (hf : ∀ w, s.loops[l]? = some w → (f w).errands i = w.errands i) (h : s.lane? i = some lane) :
    (s.onLoop l f).lane? i = some lane := by
  obtain ⟨p, w, hi, hw, rfl⟩ := lane?_eq_some_iff.1 h
  by_cases hl : l = p.loop
  · subst hl
    exact lane?_eq_some_iff.2 ⟨p, f w, hi, loops_onLoop_self hw f, by rw [hf w hw]⟩
  · exact lane?_eq_some_iff.2 ⟨p, w, hi, (loops_onLoop_ne hl s f).trans hw, rfl⟩

/-- Nothing is read from a connection that has not come in. -/
theorem Change.unread (h : Change s label s') (hi : s.peers.length ≤ i) (input : Input) :
    label ≠ .read i input := by
  cases h with
  | read hj =>
    intro heq
    obtain ⟨rfl, -⟩ := Step.read.inj heq
    have hlt := (List.getElem?_eq_some_iff.1 hj).1
    omega
  | accept => exact nofun
  | submit => exact nofun
  | take => exact nofun
  | run => exact nofun

theorem lane?_push_self {p : Peer} (hi : s.peers[i]? = some p) (h : s.lane? i = some lane)
    (errand : Errand) : (s.onLoop p.loop (·.push ⟨i, errand⟩)).lane? i =
      some { lane with errands := lane.errands ++ [errand] } := by
  obtain ⟨q, w, hq, hw, rfl⟩ := lane?_eq_some_iff.1 h
  obtain rfl := Option.some.inj (hi.symm.trans hq)
  refine lane?_eq_some_iff.2 ⟨p, _, hi, loops_onLoop_self hw _, ?_⟩
  rw [Worker.errands_push_self]

/-- A loop does the first thing that it has to do for a connection. -/
theorem lane?_run_self {l : Nat} {queue : List Job} {errand : Errand}
    (hplaced : Placed first n s) (hl : s.loops[l]? = some { queue, running := some ⟨i, errand⟩ })
    (h : s.lane? i = some lane) :
    lane.errands = errand :: Worker.errands { queue } i ∧
      ((s.onLoop l fun _ => { queue }).perform ⟨i, errand⟩).lane? i =
        some { lane with
          errands := Worker.errands { queue } i
          connection := lane.connection.perform errand } := by
  obtain ⟨q, w, hq, hw, rfl⟩ := lane?_eq_some_iff.1 h
  -- a loop only has tasks of its own connections, so that this one is the next on the lane
  obtain ⟨p, hi, rfl⟩ := hplaced.sorted l _ hl _ (List.mem_cons_self ..)
  obtain rfl := Option.some.inj (hi.symm.trans hq)
  obtain rfl := Option.some.inj (hl.symm.trans hw)
  refine ⟨Worker.errands_running_self i errand, ?_⟩
  exact lane?_eq_some_iff.2
    ⟨_, _, peers_onPeer_self hi _, loops_onLoop_self hl fun _ => { queue }, rfl⟩

theorem reader_of_lane? {p : Peer} (h : s.lane? i = some lane) (hi : s.peers[i]? = some p) :
    lane.reader = p.reader := by
  obtain ⟨q, w, hq, -, rfl⟩ := lane?_eq_some_iff.1 h
  rw [Option.some.inj (hi.symm.trans hq)]

/-- A step of the server is a step of each lane. -/
theorem lane_step (hplaced : Placed first n s) (hchange : Change s label s')
    (h : s.lane? i = some lane) : ∃ lane', s'.lane? i = some lane' ∧ lane.Moves i label lane' := by
  cases hchange with
  | accept hconnection =>
    obtain ⟨p, w, hi, hw, rfl⟩ := lane?_eq_some_iff.1 h
    have hlt := (List.getElem?_eq_some_iff.1 hi).1
    refine ⟨_, lane?_eq_some_iff.2 ⟨p, w, ?_, hw, rfl⟩, .rest nofun⟩
    exact (List.getElem?_append_left hlt).trans hi
  | @read j p input hj hreader =>
    by_cases hji : j = i
    · subst hji
      exact ⟨_, lane?_setReader_self h _, .read ((reader_of_lane? h hj).trans hreader)⟩
    · refine ⟨lane, (lane?_onPeer_ne hji s _).trans h, .rest ?_⟩
      intro input heq
      exact hji (Step.read.inj heq).1
  | @submit j p errand hj hreader =>
    by_cases hji : j = i
    · subst hji
      have hpush := lane?_push_self hj h errand
      exact ⟨_, lane?_setReader_self hpush _, .submit ((reader_of_lane? h hj).trans hreader)⟩
    · have hothers := lane?_onLoop (l := p.loop) (f := (·.push ⟨j, errand⟩))
        (fun w _ => Worker.errands_push_ne hji w) h
      exact ⟨lane, (lane?_onPeer_ne hji _ _).trans hothers, .rest nofun⟩
  | @take l job queue hl =>
    refine ⟨lane, lane?_onLoop (fun w hw => ?_) h, .rest nofun⟩
    obtain rfl := Option.some.inj (hl.symm.trans hw)
    rfl
  | @run l job queue hl =>
    obtain ⟨j, errand⟩ := job
    by_cases hji : j = i
    · subst hji
      obtain ⟨herrands, hlane⟩ := lane?_run_self hplaced hl h
      exact ⟨_, hlane, .run herrands⟩
    · refine ⟨lane, ?_, .rest nofun⟩
      refine (lane?_onPeer_ne hji _ _).trans (lane?_onLoop (fun w hw => ?_) h)
      obtain rfl := Option.some.inj (hl.symm.trans hw)
      exact (Worker.errands_running_ne hji).symm

end Server

/-! ## What happens on a lane -/

section Asked

variable {i : Nat} {labels : List Step} {label : Step}

theorem chunksRead_concat (i : Nat) (labels : List Step) (label : Step) :
    chunksRead i (labels ++ [label]) = chunksRead i labels ++ (label.chunk? i).toList := by
  rw [chunksRead, List.filterMap_append]
  cases h : label.chunk? i with
  | none => simp [chunksRead, h]
  | some chunk => simp [chunksRead, h]

theorem asked_rest (hrest : ∀ input, label ≠ .read i input) :
    asked i (labels ++ [label]) = asked i labels := by
  have hended : Step.read i .ended ∈ labels ++ [label] ↔ .read i .ended ∈ labels := by
    simp [(hrest .ended).symm]
  have hchunk : label.chunk? i = none := by
    unfold Step.chunk?
    split
    · next bytes => exact if_neg fun hji => hrest (.chunk bytes) (by rw [hji])
    · rfl
  simp only [asked, chunksRead_concat, hchunk, hended, Option.toList_none, List.append_nil]

theorem asked_read (hopen : .read i .ended ∉ labels) (input : Input) :
    asked i (labels ++ [.read i input]) = asked i labels ++ (Reader.behind input).held := by
  cases input with
  | chunk bytes =>
    have hchunk : (Step.read i (.chunk bytes)).chunk? i = some bytes := if_pos rfl
    have hended : Step.read i .ended ∉ labels ++ [.read i (.chunk bytes)] := by simpa using hopen
    simp only [asked, chunksRead_concat, hchunk, Option.toList_some, decide_eq_false hopen,
      decide_eq_false hended, errands_concat, Reader.behind, Reader.held]
  | ended =>
    have hchunk : (Step.read i .ended).chunk? i = none := rfl
    have hended : Step.read i .ended ∈ labels ++ [.read i .ended] := by simp
    simp only [asked, chunksRead_concat, hchunk, Option.toList_none, List.append_nil,
      decide_eq_false hopen, decide_eq_true hended, errands_ended, Reader.behind, Reader.held]
  | failed =>
    have hchunk : (Step.read i .failed).chunk? i = none := rfl
    have hended : Step.read i .ended ∉ labels ++ [.read i .failed] := by simpa using hopen
    simp only [asked, chunksRead_concat, hchunk, Option.toList_none, List.append_nil,
      decide_eq_false hopen, decide_eq_false hended, Reader.behind, Reader.held]

theorem open_of_asked (h : asked i labels = []) : .read i .ended ∉ labels := by
  intro hlast
  rw [asked, decide_eq_true hlast, errands_ended] at h
  simp at h

end Asked

namespace Lane

variable {i : Nat} {fresh : Connection} {labels : List Step} {label : Step} {lane lane' : Lane}

/-- What was read from a connection is done in this order: the first part by the loop, the second
is with it, and the last is with the reader.  The end is the last thing that the reader reads. -/
structure Kept (fresh : Connection) (i : Nat) (labels : List Step) (lane : Lane) : Prop where
  inOrder : ∃ performed, asked i labels = performed ++ (lane.errands ++ lane.reader.held) ∧
    lane.connection = performed.foldl Connection.perform fresh
  last : .read i .ended ∈ labels → lane.reader = .handing .close ∨ lane.reader = .gone

/-- A reader that still reads has not read the end. -/
theorem Kept.unfinished (h : Kept fresh i labels lane) (hreader : lane.reader = .reading) :
    .read i .ended ∉ labels := by
  intro hlast
  rcases h.last hlast with hclose | hgone
  · cases hclose.symm.trans hreader
  · cases hgone.symm.trans hreader

theorem Kept.move (h : Kept fresh i labels lane) (hmove : lane.Moves i label lane') :
    Kept fresh i (labels ++ [label]) lane' := by
  obtain ⟨performed, hasked, hconnection⟩ := h.inOrder
  cases hmove with
  | rest hrest =>
    refine ⟨⟨performed, (asked_rest hrest).trans hasked, hconnection⟩, fun hin => ?_⟩
    rcases List.mem_append.1 hin with hold | hnew
    · exact h.last hold
    · exact absurd (List.mem_singleton.1 hnew).symm (hrest .ended)
  | @read _ input hreader =>
    have hopen := h.unfinished hreader
    rw [hreader] at hasked
    refine ⟨⟨performed, ?_, hconnection⟩, fun hin => ?_⟩
    · rw [asked_read hopen, hasked]
      simp [Reader.held]
    · rcases List.mem_append.1 hin with hold | hnew
      · exact absurd hold hopen
      · obtain ⟨-, rfl⟩ := Step.read.inj (List.mem_singleton.1 hnew)
        exact .inl rfl
  | @submit _ errand hreader =>
    have hsame : asked i (labels ++ [.submit i]) = asked i labels := asked_rest nofun
    rw [hreader] at hasked
    refine ⟨⟨performed, ?_, hconnection⟩, fun hin => ?_⟩
    · rw [hsame, hasked]
      cases errand <;> simp [Reader.held, Reader.after]
    · have hold : .read i .ended ∈ labels := by simpa using hin
      rcases h.last hold with hclose | hgone
      · obtain rfl := Reader.handing.inj (hreader.symm.trans hclose)
        exact .inr rfl
      · cases hreader.symm.trans hgone
  | @run l _ errand errands hnext =>
    have hsame : asked i (labels ++ [.run l]) = asked i labels := asked_rest nofun
    rw [hnext] at hasked
    refine ⟨⟨performed ++ [errand], ?_, ?_⟩, fun hin => ?_⟩
    · rw [hsame, hasked]
      simp
    · rw [List.foldl_append, ← hconnection]
      rfl
    · exact h.last (by simpa using hin)

theorem Kept.begin (fresh : Connection) (h : asked i labels = []) :
    Kept fresh i labels ⟨.reading, [], fresh⟩ where
  inOrder := ⟨[], h, rfl⟩
  last hlast := absurd hlast (open_of_asked h)

section

variable {policy : Policy} {number : Nat} {line : Line}

/-- What was sent are the answers to the first chunks, and when the connection is closed, these are
all of them. -/
theorem Kept.answered (h : Kept fresh i labels lane)
    (hfresh : Connection.accept policy number = .ok fresh)
    (hline : Line.ofPolicy policy = .ok line) :
    ∃ answered waiting, chunksRead i labels = answered ++ waiting ∧
      lane.connection.sent = answers line answered ∧
      (lane.connection.closed = true → .read i .ended ∈ labels ∧ waiting = []) := by
  obtain ⟨performed, hasked, hconnection⟩ := h.inOrder
  obtain ⟨answered, waiting, closed, hsplit, rfl, hclosed⟩ := exists_answered hasked
  obtain ⟨hsent, hended⟩ := Connection.perform_errands hfresh hline answered closed
  rw [← hconnection] at hsent hended
  refine ⟨answered, waiting, hsplit, hsent, ?_⟩
  intro h
  obtain ⟨hlast, hwaiting, -⟩ := hclosed (hended.symm.trans h)
  exact ⟨of_decide_eq_true hlast, hwaiting⟩

/-- When nothing is under way, all of them are answered, and the connection is closed if it has come
to an end. -/
theorem Kept.settled (h : Kept fresh i labels lane) (herrands : lane.errands = [])
    (hheld : lane.reader.held = []) (hfresh : Connection.accept policy number = .ok fresh)
    (hline : Line.ofPolicy policy = .ok line) :
    lane.connection.sent = answers line (chunksRead i labels) ∧
      (lane.connection.closed = true ↔ .read i .ended ∈ labels) := by
  obtain ⟨performed, hasked, hconnection⟩ := h.inOrder
  rw [herrands, hheld, List.append_nil, List.append_nil] at hasked
  rw [← hasked] at hconnection
  obtain ⟨hsent, hended⟩ := Connection.perform_errands hfresh hline (chunksRead i labels)
    (.read i .ended ∈ labels)
  rw [hconnection]
  refine ⟨hsent, ?_⟩
  rw [asked, hended, decide_eq_true_iff]

end

end Lane

/-! ## Runs -/

namespace Server

variable {s s' start : Server} {first : Rotation} {n i : Nat} {labels prior : List Step}
  {label : Step} {policy : Policy} {lane : Lane}

/-- A server after some steps: everything is in its place, and on each lane everything is kept. -/
structure Watched (policy : Policy) (first : Rotation) (n : Nat) (labels : List Step)
    (s : Server) : Prop where
  placed : Placed first n s
  tuned : s.policy = policy
  /-- Nothing was read from a connection before it came in. -/
  quiet : ∀ i, s.peers.length ≤ i → asked i labels = []
  kept : ∀ i lane, s.lane? i = some lane →
    ∃ fresh, Connection.accept policy (i + 1) = .ok fresh ∧ lane.Kept fresh i labels

namespace Watched

theorem exists_lane (h : Watched policy first n labels s) (hi : i < s.peers.length) :
    ∃ lane, s.lane? i = some lane := by
  have hpeer := List.getElem?_eq_getElem hi
  obtain ⟨w, hw⟩ := h.placed.exists_worker hpeer
  exact ⟨_, lane?_eq_some_iff.2 ⟨_, w, hpeer, hw, rfl⟩⟩

theorem lane?_enroll (h : Watched policy first n labels s) {connection : Connection}
    (hlane : (s.enroll connection).lane? s.peers.length = some lane) :
    lane = ⟨.reading, [], connection⟩ := by
  obtain ⟨p, w, hi, hw, rfl⟩ := lane?_eq_some_iff.1 hlane
  obtain rfl : _ = p := Option.some.inj (List.getElem?_concat_length.symm.trans hi)
  have hnothing : w.errands s.peers.length = [] := by
    refine Worker.errands_eq_nil fun job hjob hconnection => ?_
    obtain ⟨q, hq, -⟩ := h.placed.sorted _ w hw job hjob
    have hlt := (List.getElem?_eq_some_iff.1 hq).1
    omega
  rw [hnothing]

theorem change (h : Watched policy first n labels s) (hchange : Change s label s') :
    Watched policy first n (labels ++ [label]) s' := by
  have hquiet (i : Nat) (hi : s.peers.length ≤ i) : asked i (labels ++ [label]) = [] := by
    exact (asked_rest (hchange.unread hi)).trans (h.quiet i hi)
  refine ⟨h.placed.change hchange, hchange.policy.trans h.tuned, fun i hi => hquiet i ?_,
    fun i lane' hlane' => ?_⟩
  · rcases hchange.came_or_same with ⟨connection, -, rfl, -⟩ | hsame
    · exact (Nat.le_add_right _ 1).trans ((List.length_append).symm.trans_le hi)
    · exact hsame ▸ hi
  · by_cases hi : i < s.peers.length
    · obtain ⟨lane, hlane⟩ := h.exists_lane hi
      obtain ⟨next, hnext, hmove⟩ := lane_step h.placed hchange hlane
      obtain rfl := Option.some.inj (hnext.symm.trans hlane')
      obtain ⟨fresh, hfresh, hkept⟩ := h.kept i lane hlane
      exact ⟨fresh, hfresh, hkept.move hmove⟩
    · -- there is a lane that was not there before, so that a connection has come in
      obtain ⟨p, w, hp, -⟩ := lane?_eq_some_iff.1 hlane'
      have hlt := (List.getElem?_eq_some_iff.1 hp).1
      rcases hchange.came_or_same with ⟨connection, -, rfl, hconnection⟩ | hsame
      · have hcount : (s.enroll connection).peers.length = s.peers.length + 1 := List.length_append
        obtain rfl : i = s.peers.length := by omega
        obtain rfl := h.lane?_enroll hlane'
        exact ⟨connection, h.tuned ▸ hconnection, .begin connection (hquiet _ (Nat.le_refl _))⟩
      · exact absurd (hsame ▸ hlt) hi

theorem steps (h : Watched policy first n prior s) (hsteps : s.steps labels = some s') :
    Watched policy first n (prior ++ labels) s' := by
  induction labels generalizing s prior with
  | nil =>
    cases hsteps
    rwa [List.append_nil]
  | cons label labels ih =>
    obtain ⟨next, hnext, hrest⟩ := Option.bind_eq_some_iff.1 hsteps
    rw [← List.singleton_append, ← List.append_assoc]
    exact ih (h.change (.of_step hnext)) hrest

end Watched

end Server

theorem Server.watched_start {settings : Settings} {start : Server}
    (h : Server.start settings = .ok start) :
    ∃ first n, Watched settings.policy first n [] start := by
  obtain ⟨first, n, hplaced⟩ := placed_start h
  obtain ⟨-, -, rfl⟩ := start_eq_ok_iff.1 h
  exact ⟨first, n, hplaced, rfl, fun _ _ => rfl, nofun⟩

end FrameLoop.Echo
