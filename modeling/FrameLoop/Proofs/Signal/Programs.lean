import FrameLoop.Proofs.Signal.Once
import FrameLoop.Signal.Program

/-
  A program over signals is a run of a crowd.

  A program runs on one thread, from step to step and from listener to listener, down to any depth;
  a crowd makes one access to a signal at a time.  Both tell of a listener that it was handed over,
  that it began and that it ended (`Mark`), and `program_refines` says that what a program tells, a
  crowd can tell.  So what holds of every run of every crowd holds of programs: none of them runs
  a listener twice (`program_runs_once`).
-/

namespace FrameLoop.Signal

variable {α : Type}

/-! ## What both tell -/

/-- What is told of a listener. -/
inductive Mark
  | handed (signal listener : Nat)
  | began (listener : Nat)
  | ended (listener : Nat) (failed : Bool)
  deriving DecidableEq, Repr

def Happening.mark? : Happening → Option Mark
  | .handed p l => some (.handed p l)
  | .began _ l => some (.began l)
  | .ended _ l failed => some (.ended l failed)
  | .kept _ _ | .listened _ _ | .completed _ _ => none
  | .isDone _ _ | .waited _ | .waitedTimeout _ _ => none

/-- What a moment of a program tells.  A listener that waits forever does not end. -/
def Moment.mark? : Moment α → Option Mark
  | .registered l p _ => some (.handed p l)
  | .started l _ => some (.began l)
  | .ended l .finished => some (.ended l false)
  | .ended l .panicked => some (.ended l true)
  | .ended _ .blocked | .answered _ _ _ | .completed _ _ => none

/-- What has been told in a crowd. -/
def marks (es : List Entry) : List Mark := (happenings es).filterMap Happening.mark?

/-- What has been told in a program. -/
def Store.marks (st : Store α) : List Mark := st.history.filterMap Moment.mark?

theorem marks_append (es es' : List Entry) : marks (es ++ es') = marks es ++ marks es' := by
  simp [marks]

theorem Store.marks_note (st : Store α) (m : Moment α) :
    (st.note m).marks = st.marks ++ m.mark?.toList := by
  simp only [Store.marks, Store.note, List.filterMap_append, List.filterMap_cons,
    List.filterMap_nil]
  cases m.mark? <;> rfl

/-! ## Stores as crowds -/

/-- A signal with its listeners known by their numbers. -/
def numbers (s : Signal (Listener α)) : Signal Nat :=
  { done := s.done, settled := s.settled, listeners := s.listeners.map Listener.number }

theorem complete?_numbers (s : Signal (Listener α)) :
    (numbers s).complete? =
      s.complete?.map fun r => (r.1.map Listener.number, numbers r.2) := by
  unfold complete? numbers
  cases s.done <;> rfl

theorem listen?_numbers (s : Signal (Listener α)) (l : Listener α) :
    (numbers s).listen? l.number = (s.listen? l).map numbers := by
  unfold listen? numbers
  cases s.done <;> simp

/-- The signals of a store; those that are still to come are fresh. -/
def Store.shadow (st : Store α) (p : Nat) : Signal Nat := numbers (st.signals[p]?.getD {})

/-- The crowd of a store, with these threads. -/
def Store.crowd (st : Store α) (threads : List Thread) : Crowd :=
  { signals := st.shadow, threads, registered := st.registered }

theorem Store.at?_eq_some {st : Store α} {h p : Nat} {s : Signal (Listener α)}
    (hat : st.at? h = some (p, s)) : st.signals[p]? = some s := by
  simp only [Store.at?, Option.bind_eq_bind, Option.bind_eq_some_iff, Option.pure_def,
    Option.some.injEq, Prod.mk.injEq] at hat
  obtain ⟨_, -, _, hp, rfl, rfl⟩ := hat
  exact hp

theorem Store.getElem?_note (st : Store α) {m : Moment α} {p : Nat} {s : Signal (Listener α)}
    (hp : st.signals[p]? = some s) : (st.note m).signals[p]? = some s := hp

theorem Store.length_put (st : Store α) (p : Nat) (s : Signal (Listener α)) :
    (st.put p s).signals.length = st.signals.length := List.length_set

theorem Store.shadow_of_getElem? {st : Store α} {p : Nat} {s : Signal (Listener α)}
    (hp : st.signals[p]? = some s) : st.shadow p = numbers s := by
  rw [Store.shadow, hp]
  rfl

theorem Store.crowd_signals {st : Store α} {threads : List Thread} {p : Nat}
    {s : Signal (Listener α)} (hp : st.signals[p]? = some s) :
    (st.crowd threads).signals p = numbers s := Store.shadow_of_getElem? hp

theorem Store.crowd_put {st : Store α} {p : Nat} {s : Signal (Listener α)}
    (hp : st.signals[p]? = some s) (s' : Signal (Listener α)) (threads : List Thread) :
    (st.put p s').crowd threads = (st.crowd threads).change p (numbers s') := by
  have hshadow : (st.put p s').shadow = fun q => if q = p then numbers s' else st.shadow q := by
    funext q
    by_cases hq : q = p
    · subst hq
      rw [if_pos rfl]
      refine Store.shadow_of_getElem? ?_
      rw [Store.put, List.getElem?_set_self (List.getElem?_eq_some_iff.1 hp).1]
    · rw [if_neg hq, Store.shadow, Store.shadow, Store.put, List.getElem?_set_ne (Ne.symm hq)]
  rw [Store.crowd, hshadow]
  rfl

theorem Store.crowd_create (st : Store α) (threads : List Thread) :
    st.create.2.crowd threads = st.crowd threads := by
  have hshadow : st.create.2.shadow = st.shadow := by
    funext p
    rw [Store.shadow, Store.shadow, Store.create, List.getElem?_append]
    split
    · rfl
    · next hp =>
      rw [List.getElem?_eq_none (Nat.not_lt.1 hp), List.getElem?_singleton]
      split <;> rfl
  rw [Store.crowd, hshadow]
  rfl

/-! ## Following a store -/

/-- The thread `i` is `y` now, and nothing else has changed but that there may be new threads, which
do nothing. -/
def Back (ts ts' : List Thread) (i : Nat) (y : Thread) : Prop :=
  i < ts.length ∧ ∃ k, ts' = ts.set i y ++ List.replicate k ({} : Thread)

/-- With the threads `ts` the crowd of the store `st` can make `st'` of it, and tells what `st'`
does.  If `ok`, the thread `i` ends as `y`. -/
structure Follows (st : Store α) (ts : List Thread) (i : Nat) (y : Thread) (st' : Store α)
    (ok : Prop) : Prop where
  run : ∃ ts' es, Runs Crowd.step (st.crowd ts) es (st'.crowd ts') ∧
    st'.marks = st.marks ++ marks es ∧ (ok → Back ts ts' i y)
  length_le : st.signals.length ≤ st'.signals.length

section

variable {st st₁ st' : Store α} {ts : List Thread} {i : Nat} {x y z : Thread} {ok : Prop}

theorem Follows.stuck (hok : ¬ok) : Follows st ts i y st ok :=
  ⟨⟨ts, [], .refl _, (List.append_nil _).symm, fun h => absurd h hok⟩, Nat.le_refl _⟩

theorem back_refl (hi : ts[i]? = some y) : Back ts ts i y := by
  obtain ⟨hlt, rfl⟩ := List.getElem?_eq_some_iff.1 hi
  exact ⟨hlt, 0, by simp⟩

theorem back_set (hi : ts[i]? = some x) : Back ts (ts.set i y) i y :=
  ⟨(List.getElem?_eq_some_iff.1 hi).1, 0, (List.append_nil _).symm⟩

theorem Back.getElem? {ts' : List Thread} (h : Back ts ts' i y) : ts'[i]? = some y := by
  obtain ⟨hlt, k, rfl⟩ := h
  rw [List.getElem?_append_left (by rwa [List.length_set]), List.getElem?_set_self hlt]

theorem Back.trans {ts' ts'' : List Thread} (h : Back ts ts' i y) (h' : Back ts' ts'' i z) :
    Back ts ts'' i z := by
  obtain ⟨hlt, k, rfl⟩ := h
  obtain ⟨-, k', rfl⟩ := h'
  refine ⟨hlt, k + k', ?_⟩
  rw [List.set_append_left _ _ (by rwa [List.length_set]), List.set_set, List.append_assoc,
    List.replicate_append_replicate]

theorem Follows.quiet (hi : ts[i]? = some y) (hcrowd : st'.crowd ts = st.crowd ts)
    (hmarks : st'.marks = st.marks) (hlength : st.signals.length ≤ st'.signals.length) :
    Follows st ts i y st' ok :=
  ⟨⟨ts, [], hcrowd ▸ .refl _, hmarks.trans (List.append_nil _).symm, fun _ => back_refl hi⟩,
    hlength⟩

theorem Follows.act (a : Act) (events : List Happening) (hi : ts[i]? = some x)
    (hact : (st.crowd ts).act x a = some (st'.crowd ts, y, events))
    (hmarks : st'.marks = st.marks ++ events.filterMap Happening.mark?)
    (hlength : st.signals.length ≤ st'.signals.length) : Follows st ts i y st' ok := by
  have hstep : (st.crowd ts).step (.act i a) =
      some (st'.crowd (ts.set i y), events.map (Entry.mk i)) := by
    rw [Crowd.step, show (st.crowd ts).threads[i]? = some x from hi]
    simp only [hact]
    rfl
  refine ⟨⟨ts.set i y, events.map (Entry.mk i) ++ [], .step _ hstep (.refl _), ?_, fun _ =>
    back_set hi⟩, hlength⟩
  rw [hmarks, List.append_nil, marks, happenings_map_mk]

theorem Follows.trans {ok' : Prop} (h : Follows st ts i y st₁ ok') (hok : ok')
    (next : ∀ ts' : List Thread, ts'[i]? = some y → Follows st₁ ts' i z st' ok) :
    Follows st ts i z st' ok := by
  obtain ⟨⟨ts', es, hrun, hmarks, hback⟩, hlength⟩ := h
  have hback := hback hok
  obtain ⟨⟨ts'', es', hrun', hmarks', hback'⟩, hlength'⟩ := next ts' hback.getElem?
  refine ⟨⟨ts'', es ++ es', hrun.trans hrun', ?_, fun h => hback.trans (hback' h)⟩,
    Nat.le_trans hlength hlength'⟩
  rw [hmarks', hmarks, marks_append, List.append_assoc]

theorem Follows.stopped {ok' : Prop} (h : Follows st ts i y st' ok') (hok : ¬ok) :
    Follows st ts i z st' ok := by
  obtain ⟨⟨ts', es, hrun, hmarks, -⟩, hlength⟩ := h
  exact ⟨⟨ts', es, hrun, hmarks, fun h => absurd h hok⟩, hlength⟩

theorem Follows.imp {ok' : Prop} (h : Follows st ts i y st' ok') (hok : ok → ok') :
    Follows st ts i y st' ok := by
  obtain ⟨⟨ts', es, hrun, hmarks, hback⟩, hlength⟩ := h
  exact ⟨⟨ts', es, hrun, hmarks, fun h => hback (hok h)⟩, hlength⟩

theorem Follows.note_left {m : Moment α} (h : Follows (st.note m) ts i y st' ok)
    (hm : m.mark? = none) : Follows st ts i y st' ok := by
  obtain ⟨⟨ts', es, hrun, hmarks, hback⟩, hlength⟩ := h
  rw [Store.marks_note, hm, Option.toList_none, List.append_nil] at hmarks
  exact ⟨⟨ts', es, hrun, hmarks, hback⟩, hlength⟩

theorem Follows.note_right {m : Moment α} (h : Follows st ts i y st' ok) (hm : m.mark? = none) :
    Follows st ts i y (st'.note m) ok := by
  obtain ⟨⟨ts', es, hrun, hmarks, hback⟩, hlength⟩ := h
  refine ⟨⟨ts', es, hrun, ?_, hback⟩, hlength⟩
  rw [Store.marks_note, hm, Option.toList_none, List.append_nil, hmarks]

theorem getElem?_fork (ts : List Thread) :
    (ts ++ [({} : Thread)])[ts.length]? = some ⟨none, []⟩ :=
  List.getElem?_concat_length ..

theorem Follows.fork (hi : ts[i]? = some y)
    (h : Follows st (ts ++ [({} : Thread)]) ts.length {} st' ok) : Follows st ts i y st' ok := by
  obtain ⟨⟨ts', es, hrun, hmarks, hback⟩, hlength⟩ := h
  refine ⟨⟨ts', [] ++ es, .step .fork rfl hrun, hmarks, fun hok => ?_⟩, hlength⟩
  obtain ⟨-, k, rfl⟩ := hback hok
  obtain ⟨hlt, rfl⟩ := List.getElem?_eq_some_iff.1 hi
  exact ⟨hlt, k + 1, by simp [List.replicate_succ]⟩

end

/-! ## Accesses to a signal -/

section

variable {st : Store α} {ts : List Thread} {i p : Nat} {fs : List Frame} {ok : Prop}
  {s s' : Signal (Listener α)}

theorem Follows.loses (hp : st.signals[p]? = some s) (hcomplete : s.complete? = none)
    (hi : ts[i]? = some ⟨some (.complete p), fs⟩) :
    Follows st ts i ⟨none, fs⟩ (st.note (.completed p false)) ok := by
  refine .act .go [.completed p false] hi ?_ (Store.marks_note ..) (Nat.le_refl _)
  have hnone : ((st.crowd ts).signals p).complete? = none := by
    rw [Store.crowd_signals hp, complete?_numbers, hcomplete, Option.map_none]
  simp only [Crowd.act, Crowd.go, hnone]
  rfl

theorem Follows.wins {ls : List (Listener α)} (hp : st.signals[p]? = some s)
    (hcomplete : s.complete? = some (ls, s')) (hi : ts[i]? = some ⟨some (.complete p), fs⟩) :
    Follows st ts i ⟨some (.deliver p (ls.map Listener.number)), fs⟩
      ((st.note (.completed p true)).put p s') ok := by
  refine .act .go [] hi ?_ (Store.marks_note ..) (Store.length_put .. ▸ Nat.le_refl _)
  have hsome : ((st.crowd ts).signals p).complete? =
      some (ls.map Listener.number, numbers s') := by
    rw [Store.crowd_signals hp, complete?_numbers, hcomplete, Option.map_some]
  simp only [Crowd.act, Crowd.go, hsome, Store.crowd_put (st.getElem?_note hp)]
  rfl

theorem Follows.settles (hp : st.signals[p]? = some s)
    (hi : ts[i]? = some ⟨some (.deliver p []), fs⟩) :
    Follows st ts i ⟨none, fs⟩ (st.put p s.settle) ok := by
  refine .act .go [.completed p true] hi ?_ (List.append_nil _).symm
    (Store.length_put .. ▸ Nat.le_refl _)
  simp only [Crowd.act, Crowd.go, Store.crowd_signals hp, Store.crowd_put hp]
  rfl

theorem Follows.keeps {l : Listener α} (hp : st.signals[p]? = some s)
    (hlisten : s.listen? l = some s') (hi : ts[i]? = some ⟨some (.listen p l.number), fs⟩) :
    Follows st ts i ⟨none, fs⟩ (st.put p s') ok := by
  refine .act .go [.kept p l.number, .listened p l.number] hi ?_ (List.append_nil _).symm
    (Store.length_put .. ▸ Nat.le_refl _)
  have hsome : ((st.crowd ts).signals p).listen? l.number = some (numbers s') := by
    rw [Store.crowd_signals hp, listen?_numbers, hlisten, Option.map_some]
  simp only [Crowd.act, Crowd.go, hsome, Store.crowd_put hp]

theorem Follows.misses {l : Listener α} (hp : st.signals[p]? = some s)
    (hlisten : s.listen? l = none) (hi : ts[i]? = some ⟨some (.listen p l.number), fs⟩) :
    Follows st ts i ⟨some (.late p l.number), fs⟩ st ok := by
  refine .act .go [] hi ?_ (List.append_nil _).symm (Nat.le_refl _)
  have hnone : ((st.crowd ts).signals p).listen? l.number = none := by
    rw [Store.crowd_signals hp, listen?_numbers, hlisten, Option.map_none]
  simp only [Crowd.act, Crowd.go, hnone]

end

/-! ## Programs as runs -/

/-- With this fuel a step is followed on a thread that does nothing else. -/
def Performs (α : Type) (fuel : Nat) : Prop :=
  ∀ (step : Step α) {st st' : Store α} {reply : Reply α} {ts : List Thread} {i : Nat}
    {fs : List Frame}, ts[i]? = some ⟨none, fs⟩ → perform fuel step st = (reply, st') →
    Follows st ts i ⟨none, fs⟩ st' (reply ≠ .error .blocked)

/-- So is a completion, -/
def Completes (α : Type) (fuel : Nat) : Prop :=
  ∀ (h : Nat) {st st' : Store α} {reply : Reply α} {ts : List Thread} {i : Nat} {fs : List Frame},
    ts[i]? = some ⟨none, fs⟩ → completeAt fuel h st = (reply, st') →
    Follows st ts i ⟨none, fs⟩ st' (reply ≠ .error .blocked)

/-- the listeners that it runs, -/
def RunsAll (α : Type) (fuel : Nat) : Prop :=
  ∀ (ls : List (Listener α)) {st st' : Store α} {ended : Bool} {ts : List Thread} {i p : Nat}
    {fs : List Frame}, ts[i]? = some ⟨some (.deliver p (ls.map Listener.number)), fs⟩ →
    runListeners fuel ls st = (ended, st') →
    Follows st ts i ⟨some (.deliver p []), fs⟩ st' (ended = true)

/-- each of them, whether it is late or not, -/
def RunsOne (α : Type) (fuel : Nat) : Prop :=
  ∀ (l : Listener α) {st st' : Store α} {exit : Exit} {ts : List Thread} {i : Nat} {stage : Stage}
    {f : Frame} {fs : List Frame}, ts[i]? = some ⟨some stage, fs⟩ →
    (∀ s : Crowd, s.go fs stage = some (s, ⟨none, f :: fs⟩, [.began f.signal l.number])) →
    f.listener = l.number → runListener fuel l st = (exit, st') →
    Follows st ts i ⟨f.after (exit = .panicked), fs⟩ st' (exit ≠ .blocked)

/-- and what it does. -/
def RunsBody (α : Type) (fuel : Nat) : Prop :=
  ∀ (label : α) (steps : List (Step α)) {st st' : Store α} {exit : Exit} {ts : List Thread}
    {i : Nat} {fs : List Frame}, ts[i]? = some ⟨none, fs⟩ →
    runBody fuel label steps st = (exit, st') →
    Follows st ts i ⟨none, fs⟩ st' (exit ≠ .blocked)

variable {fuel : Nat}

theorem runsBody (hperform : Performs α fuel) (hbody : RunsBody α fuel) :
    RunsBody α (fuel + 1) := by
  intro label steps st st' exit ts i fs hi h
  cases steps with
  | nil =>
    cases h
    exact .quiet hi rfl rfl (Nat.le_refl _)
  | cons step steps =>
    simp only [runBody] at h
    split at h
    · next answer st₁ hstep =>
      refine (hperform step hi hstep).trans nofun fun ts' hi' => ?_
      exact (hbody label steps hi' h).note_left rfl
    · next exit' st₁ hstep =>
      cases h
      exact (hperform step hi hstep).imp fun hne heq => hne (Except.error.inj heq)

theorem runsOne (hbody : RunsBody α fuel) : RunsOne α (fuel + 1) := by
  intro l st st' exit ts i stage f fs hi hgo hl h
  simp only [runListener] at h
  cases hrun : runBody fuel l.label l.body (st.note (.started l.number l.label)) with
  | mk e st₁ =>
    rw [hrun] at h
    cases h
    -- the listener begins, and does what it does
    have hbegin : Follows st ts i ⟨none, f :: fs⟩ (st.note (.started l.number l.label)) True :=
      .act .go _ hi (hgo _) (Store.marks_note ..) (Nat.le_refl _)
    have hruns : Follows st ts i ⟨none, f :: fs⟩ st₁ (e ≠ .blocked) :=
      hbegin.trans trivial fun ts' hi' => hbody l.label l.body hi' hrun
    cases e with
    | blocked => exact Follows.note_right (hruns.stopped fun hne => hne rfl) rfl
    | finished =>
      refine hruns.trans nofun fun ts' hi' => ?_
      refine .act (.finish false) _ hi' rfl ?_ (Nat.le_refl _)
      rw [Store.marks_note, hl]
      rfl
    | panicked =>
      refine hruns.trans nofun fun ts' hi' => ?_
      refine .act (.finish true) _ hi' rfl ?_ (Nat.le_refl _)
      rw [Store.marks_note, hl]
      rfl

theorem runsAll (hone : RunsOne α fuel) (hall : RunsAll α fuel) : RunsAll α (fuel + 1) := by
  intro ls st st' ended ts i p fs hi h
  cases ls with
  | nil =>
    cases h
    exact .quiet hi rfl rfl (Nat.le_refl _)
  | cons l ls =>
    simp only [runListeners] at h
    have hfirst {exit : Exit} {st₁ : Store α} (hl : runListener fuel l st = (exit, st₁)) :
        Follows st ts i ⟨some (.deliver p (ls.map Listener.number)), fs⟩ st₁ (exit ≠ .blocked) :=
      hone l (f := .delivered p l.number (ls.map Listener.number)) hi (fun _ => rfl) rfl hl
    split at h
    · next st₁ hl =>
      cases h
      exact (hfirst hl).stopped nofun
    · next exit st₁ hne hl =>
      exact (hfirst hl).trans hne fun ts' hi' => hall ls hi' h

theorem completes (hall : RunsAll α fuel) : Completes α (fuel + 1) := by
  intro handle st st' reply ts i fs hi h
  simp only [completeAt] at h
  split at h
  · cases h
    exact .quiet hi rfl rfl (Nat.le_refl _)
  · next p s hat =>
    have hp := Store.at?_eq_some hat
    have htries : Follows st ts i ⟨some (.complete p), fs⟩ st True :=
      .act (.call p .complete) _ hi rfl (List.append_nil _).symm (Nat.le_refl _)
    refine htries.trans trivial fun ts' hi' => ?_
    split at h
    · next hcomplete =>
      cases h
      exact .loses hp hcomplete hi'
    · next ls s' hcomplete =>
      cases hrun : runListeners fuel ls ((st.note (.completed p true)).put p s') with
      | mk ended st₂ =>
        have hruns : Follows st ts' i ⟨some (.deliver p []), fs⟩ st₂ (ended = true) :=
          (Follows.wins hp hcomplete hi').trans trivial fun ts'' hi'' => hall ls hi'' hrun
        rw [hrun] at h
        cases ended with
        | false =>
          cases h
          exact hruns.stopped fun hne => hne rfl
        | true =>
          obtain ⟨s₂, hs₂⟩ : ∃ s₂, st₂.signals[p]? = some s₂ :=
            ⟨_, List.getElem?_eq_getElem
              (Nat.lt_of_lt_of_le (List.getElem?_eq_some_iff.1 hp).1 hruns.length_le)⟩
          simp only [hs₂] at h
          cases h
          exact hruns.trans rfl fun ts'' hi'' => .settles hs₂ hi''

theorem listens (hone : RunsOne α fuel) (handle : Nat) (label : α) (body : List (Step α))
    {st st' : Store α} {reply : Reply α} {ts : List Thread} {i : Nat} {fs : List Frame}
    (hi : ts[i]? = some ⟨none, fs⟩)
    (h : perform (fuel + 1) (.listen handle label body) st = (reply, st')) :
    Follows st ts i ⟨none, fs⟩ st' (reply ≠ .error .blocked) := by
  simp only [perform] at h
  split at h
  · cases h
    exact .quiet hi rfl rfl (Nat.le_refl _)
  · next p s hat =>
    have hp := Store.at?_eq_some hat
    let l : Listener α := { number := st.registered, label, body }
    let st₁ : Store α := { st with registered := st.registered + 1 }
    have hhands (late : Bool) : Follows st ts i ⟨some (.listen p l.number), fs⟩
        (st₁.note (.registered l.number p late)) True :=
      .act (.call p .listen) _ hi rfl (Store.marks_note st₁ _) (Nat.le_refl _)
    split at h
    · next s' hlisten =>
      cases h
      exact (hhands false).trans trivial fun ts' hi' => .keeps hp hlisten hi'
    · next hlisten =>
      have hlate : Follows st ts i ⟨some (.late p l.number), fs⟩
          (st₁.note (.registered l.number p true)) True :=
        (hhands true).trans trivial fun ts' hi' => .misses hp hlisten hi'
      cases hrun : runListener fuel l (st₁.note (.registered l.number p true)) with
      | mk exit st₂ =>
        have hruns : Follows st ts i ⟨(Frame.late p l.number).after (exit = .panicked), fs⟩ st₂
            (exit ≠ .blocked) :=
          hlate.trans trivial fun ts' hi' => hone l hi' (fun _ => rfl) rfl hrun
        rw [show runListener fuel _ _ = (exit, st₂) from hrun] at h
        cases exit with
        | finished =>
          cases h
          refine hruns.trans nofun fun ts' hi' => ?_
          exact .act .go [.listened p l.number] hi' rfl (List.append_nil _).symm (Nat.le_refl _)
        | panicked =>
          cases h
          exact hruns.imp fun _ => nofun
        | blocked =>
          cases h
          exact hruns.stopped fun hne => hne rfl

theorem performs (hcomplete : Completes α fuel) (hone : RunsOne α fuel) :
    Performs α (fuel + 1) := by
  intro step st st' reply ts i fs hi h
  cases step with
  | new | default =>
    cases h
    exact .quiet hi (Store.crowd_create st ts) rfl (by simp)
  | clone handle =>
    simp only [perform] at h
    split at h <;> cases h <;> exact .quiet hi rfl rfl (Nat.le_refl _)
  | complete handle => exact hcomplete handle hi h
  | isDone handle | wait handle | waitTimeout handle limit | same handle other | describe handle =>
    simp only [perform] at h
    split at h <;> cases h <;> exact .quiet hi rfl rfl (Nat.le_refl _)
  | log value | panic =>
    cases h
    exact .quiet hi rfl rfl (Nat.le_refl _)
  | race handle threads =>
    simp only [perform] at h
    split at h
    · cases h
      exact .quiet hi rfl rfl (Nat.le_refl _)
    · -- one of the threads completes the signal, or finds it complete
      cases hrun : completeAt fuel handle st with
      | mk answer st₁ =>
        have hother := Follows.fork hi (hcomplete handle (getElem?_fork ts) hrun)
        rw [hrun] at h
        split at h
        · next heq => cases heq; cases h; exact hother.imp fun _ => nofun
        · next heq => cases heq; cases h; exact hother.imp fun _ => nofun
        · cases h; exact hother
  | waitFor handle =>
    simp only [perform] at h
    cases hrun : completeAt fuel handle st with
    | mk answer st₁ =>
      have hother := Follows.fork hi (hcomplete handle (getElem?_fork ts) hrun)
      rw [hrun] at h
      split at h
      · next heq =>
        cases heq
        split at h <;> cases h <;> exact hother.imp fun _ => nofun
      · cases h; exact hother
  | listen handle label body => exact listens hone handle label body hi h

/-- All of them are followed, with whatever fuel. -/
theorem follows (fuel : Nat) :
    Performs α fuel ∧ Completes α fuel ∧ RunsAll α fuel ∧ RunsOne α fuel ∧ RunsBody α fuel := by
  induction fuel with
  | zero =>
    refine ⟨?_, ?_, ?_, ?_, ?_⟩
    · intro step st st' reply ts i fs hi h
      cases h
      exact .stuck fun hne => hne rfl
    · intro handle st st' reply ts i fs hi h
      cases h
      exact .stuck fun hne => hne rfl
    · intro ls st st' ended ts i p fs hi h
      cases h
      exact .stuck nofun
    · intro l st st' exit ts i stage f fs hi hgo hl h
      cases h
      exact .stuck fun hne => hne rfl
    · intro label steps st st' exit ts i fs hi h
      cases h
      exact .stuck fun hne => hne rfl
  | succ fuel ih =>
    obtain ⟨hperform, hcomplete, hall, hone, hbody⟩ := ih
    exact ⟨performs hcomplete hone, completes hall, runsAll hone hall, runsOne hbody,
      runsBody hperform hbody⟩

/-- What a program tells of its listeners, from one step at the top to the next. -/
def told (shown : List (Shown α)) : List Mark := shown.flatMap (·.moments.filterMap Moment.mark?)

/-- What a program tells, a crowd can tell. -/
theorem program_refines (steps : List (Step α)) {st : Store α} {ts : List Thread}
    {history : List Entry} (hs : (st.crowd ts).Reachable history) :
    ∃ s es, Crowd.Reachable s (history ++ es) ∧ marks es = told (runProgram steps st) := by
  induction steps generalizing st ts history with
  | nil => exact ⟨_, [], by rwa [List.append_nil], rfl⟩
  | cons step steps ih =>
    simp only [runProgram]
    cases hrun : step.run { st with history := [] } with
    | mk reply after =>
      -- each step at the top is made by a thread of its own, which may be stuck at its end
      obtain ⟨⟨ts', es, hruns, hmarks, -⟩, -⟩ := (follows _).1 step (getElem?_fork ts) hrun
      obtain ⟨s, es', hs', hes'⟩ := ih (hruns.keeps .step (hs.step .fork rfl))
      refine ⟨s, es ++ es', ?_, ?_⟩
      · simpa using hs'
      · rw [marks_append, hes', ← (show after.marks = marks es from hmarks)]
        rfl

/-- What only one thing that happens can tell is told as often as it happens. -/
theorem count_mark {es : List Entry} {e : Happening} {m : Mark} (hm : e.mark? = some m)
    (hone : ∀ e' ∈ happenings es, e'.mark? = some m → e' = e) :
    (marks es).count m = (happenings es).count e := by
  rw [marks, List.count_filterMap, List.count_eq_countP]
  refine List.countP_congr fun e' he' => ?_
  simp only [beq_iff_eq]
  exact ⟨hone e' he', fun heq => heq ▸ hm⟩

/-- A listener is handed to one signal, if to any, and begins and ends as a listener of this one. -/
theorem Accounted.one_signal {s : Crowd} {es : List Entry} (h : Accounted s es) (l : Nat) :
    ∃ p, (∀ q, .began q l ∈ happenings es → q = p) ∧
      ∀ q failed, .ended q l failed ∈ happenings es → q = p := by
  obtain ⟨p, hp⟩ : ∃ p, ∀ q, .handed q l ∈ happenings es → q = p := by
    by_cases hany : ∃ p, .handed p l ∈ happenings es
    · obtain ⟨p, hp⟩ := hany
      exact ⟨p, fun q hq => h.handed_unique hq hp⟩
    · exact ⟨0, fun q hq => absurd ⟨q, hq⟩ hany⟩
  have hbegan (q : Nat) (hq : .began q l ∈ happenings es) : q = p := by
    have hplaced := h.placed q l
    have hpos := List.count_pos_iff.2 hq
    exact hp q (List.count_pos_iff.1 (by omega))
  refine ⟨p, hbegan, fun q failed hq => ?_⟩
  have hran := h.ran q l
  have hpos := List.count_pos_iff.2 hq
  exact hbegan q (List.count_pos_iff.1 (by cases failed <;> omega))

/-- No program runs a listener twice, and what ends in a program has begun there. -/
theorem program_runs_once (steps : List (Step α)) (l : Nat) :
    (told (runProgram steps ({} : Store α))).count (.began l) ≤ 1 ∧
      (told (runProgram steps ({} : Store α))).count (.ended l false) +
          (told (runProgram steps ({} : Store α))).count (.ended l true) ≤
        (told (runProgram steps ({} : Store α))).count (.began l) := by
  have hbegin : (({} : Store α).crowd []).Reachable [] := .begin
  obtain ⟨s, es, hs, htold⟩ := program_refines steps hbegin
  have hbooks : Accounted s es := hs.accounted
  obtain ⟨p, hbegan, hended⟩ := hbooks.one_signal l
  have hmarkBegan : (marks es).count (.began l) = (happenings es).count (.began p l) :=
    count_mark rfl fun e he hm => by
      cases e <;> cases hm
      rw [hbegan _ he]
  have hmarkEnded (failed : Bool) :
      (marks es).count (.ended l failed) = (happenings es).count (.ended p l failed) :=
    count_mark rfl fun e he hm => by
      cases e <;> cases hm
      rw [hended _ _ he]
  rw [← htold, hmarkBegan, hmarkEnded, hmarkEnded]
  have hone := hbooks.count_began_le_one p l
  have hran := hbooks.ran p l
  omega

end FrameLoop.Signal
