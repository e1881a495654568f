import FrameLoop.Proofs.Loop.Delivery

/-
  No wake-up of a loop is lost.  The loop rests when it has found nothing to do, and what it found
  may be outdated by then.  Whoever gives it something to do from outside wakes it afterwards, and
  until then owes it this (`Caller.owesWake`).  A task that runs on the loop wakes nobody: what it
  gives the loop to do is seen before the next rest.

  A loop that rests relies on what it has seen of the queue, and of the phase, and so does it at
  the places on the way from there to its rest (`Place.reliesOnQueue`, `Place.reliesOnPhase`).  At
  these places, whatever it has not seen is announced: its token is there, or somebody owes it a
  wake-up (`Watched`).
-/

namespace FrameLoop.Loop

variable {τ : Type} {code : Code τ} {parkTimeout : Span} {now : Instant}

/-! ## What the loop has not seen -/

/-- The loop looked at the phase. -/
def Event.isLook : Event → Bool
  | .looked _ => true
  | _ => false

/-- What has happened since the loop last looked at the phase. -/
def sinceLook (history : List Event) : List Event := history.rtakeWhile fun e => !e.isLook

/-- The loop has not seen that a request was stored. -/
def Unseen (history : List Event) : Prop := ∃ grace, .requested grace ∈ sinceLook history

theorem sinceLook_concat_looked (history : List Event) (p : Phase) :
    sinceLook (history ++ [.looked p]) = [] :=
  List.rtakeWhile_concat_neg _ _ _ (by simp [Event.isLook])

theorem sinceLook_append_subset (history events : List Event) :
    sinceLook (history ++ events) ⊆ sinceLook history ++ events :=
  rtakeWhile_append_subset _ history events

/-- What is not seen behind a step was stored by it, or was not seen before. -/
theorem Unseen.of_append {history events : List Event} (h : Unseen (history ++ events)) :
    Unseen history ∨ ∃ grace, .requested grace ∈ events := by
  obtain ⟨grace, hgrace⟩ := h
  obtain hgrace | hgrace := List.mem_append.1 (sinceLook_append_subset history events hgrace)
  · exact .inl ⟨grace, hgrace⟩
  · exact .inr ⟨grace, hgrace⟩

theorem not_unseen_looked (history : List Event) (p : Phase) :
    ¬ Unseen (history ++ [.looked p]) := by
  rintro ⟨grace, hgrace⟩
  rw [sinceLook_concat_looked] at hgrace
  cases hgrace

/-! ## Who is going to wake the loop -/

/-- The caller has pushed its task, or stored its request, and has yet to wake the loop. -/
def Caller.owesWake : Caller τ → Bool
  | .submission c => c.stage.isPushed
  | .request _ (.wake stored) => stored
  | .request _ _ => false

/-- The loop will not rest for long: its token is there, or a caller is going to set it. -/
def State.Announced (s : State τ) : Prop := s.token = true ∨ ∃ c ∈ s.callers, c.owesWake = true

/-- The caller goes on: what it owed, it still owes, or the token is there. -/
theorem State.Announced.next {s t : State τ} {i : Nat} {c d : Caller τ}
    (hi : s.callers[i]? = some c) (ht : t.callers = s.callers.set i d)
    (htoken : s.token = true → t.token = true)
    (hc : c.owesWake = true → t.token = true ∨ d.owesWake = true) (h : s.Announced) :
    t.Announced := by
  have hlt : i < s.callers.length := (List.getElem?_eq_some_iff.1 hi).1
  obtain h | ⟨e, he, howes⟩ := h
  · exact .inl (htoken h)
  · by_cases hec : e = c
    · obtain htoken | hd := hc (hec ▸ howes)
      · exact .inl htoken
      · exact .inr ⟨d, by rw [ht]; exact List.mem_set hlt d, hd⟩
    · exact .inr ⟨e, by rw [ht]; exact mem_set_around hi he hec d, howes⟩

/-- The caller returns: if it owed a wake-up, the token is there. -/
theorem State.Announced.gone {s t : State τ} {i : Nat} {c : Caller τ}
    (hi : s.callers[i]? = some c) (ht : t.callers = s.callers.eraseIdx i)
    (htoken : s.token = true → t.token = true) (hc : c.owesWake = true → t.token = true)
    (h : s.Announced) : t.Announced := by
  obtain h | ⟨e, he, howes⟩ := h
  · exact .inl (htoken h)
  · by_cases hec : e = c
    · exact .inl (hc (hec ▸ howes))
    · exact .inr ⟨e, by rw [ht]; exact mem_erase_around hi he hec, howes⟩

/-- A submission that has pushed its task goes on to the wake-up, and to nothing else. -/
theorem stepSubmission_owes (s : State τ) (c : Submission τ) :
    (s.token = true → (s.stepSubmission true c).state.token = true) ∧
      (c.stage.isPushed = true → (s.stepSubmission true c).state.token = true ∨
        (c.after (s.stepSubmission true c).value).any (·.stage.isPushed) = true) ∧
      ((c.after (s.stepSubmission true c).value).any (·.stage.isPushed) = true ∨
        (s.stepSubmission true c).state.queue = s.queue) := by
  unfold State.stepSubmission Submission.after
  cases c.stage <;> simp [SubmitStage.isPushed]

/-- A request that was stored goes on to the wake-up, and to nothing else. -/
theorem Asks.owes {s t : State τ} {grace : Grace} {stage : RequestStage} {events : List Event}
    {left : Option RequestStage} (h : Asks s grace stage t events left) :
    (s.token = true → t.token = true) ∧
      ((Caller.request grace stage : Caller τ).owesWake = true → t.token = true) ∧
      (left = some (.wake true) ∨ t.queue = s.queue ∧ ∀ g, .requested g ∉ events) := by
  cases h <;> simp [Caller.owesWake]

/-- A caller who gives the loop something to do owes it a wake-up from then on, until the token is
there. -/
theorem stepCaller_announced {s t : State τ} {i : Nat} {events : List Event}
    (h : s.stepCaller i = some (t, events)) :
    t.place = s.place ∧ (s.Announced → t.Announced) ∧
      (t.Announced ∨ t.queue = s.queue ∧ ∀ grace, .requested grace ∉ events) := by
  cases hi : s.callers[i]? with
  | none => simp only [State.stepCaller, hi, reduceCtorEq] at h
  | some caller =>
    have hlt : i < s.callers.length := (List.getElem?_eq_some_iff.1 hi).1
    cases caller with
    | submission c =>
      obtain ⟨htoken, howes, hnew⟩ := stepSubmission_owes s c
      obtain ⟨-, -, hplace, -⟩ := stepSubmission_state s true c
      have hstays := (stepSubmission_course s true c).2
      simp only [State.stepCaller, hi, Option.some.injEq, Prod.mk.injEq] at h
      obtain ⟨rfl, rfl⟩ := h
      refine ⟨hplace, ?_, ?_⟩
      · cases hv : (s.stepSubmission true c).value with
        | next stage =>
          rw [hv] at howes
          exact .next hi rfl htoken howes
        | returned accepted =>
          rw [hv] at howes
          exact .gone hi rfl htoken fun hc => (howes hc).resolve_right (by simp [Submission.after])
      · obtain hnew | hqueue := hnew
        · cases hv : (s.stepSubmission true c).value with
          | next stage =>
            rw [hv] at hnew
            exact .inl (.inr ⟨_, List.mem_set hlt (.submission { c with stage }), hnew⟩)
          | returned accepted => rw [hv] at hnew; cases hnew
        · exact .inr ⟨hqueue, fun grace hgrace => hstays _ hgrace⟩
    | request grace stage =>
      obtain ⟨htoken, howes, hnew⟩ := (stepRequest_asks s grace stage).owes
      obtain ⟨-, -, hplace, -⟩ := stepRequest_state s grace stage
      simp only [State.stepCaller, hi, Option.some.injEq, Prod.mk.injEq] at h
      obtain ⟨rfl, rfl⟩ := h
      refine ⟨hplace, ?_, ?_⟩
      · cases hv : (s.stepRequest grace stage).value with
        | next stage' => exact .next hi rfl htoken fun hc => .inl (howes hc)
        | returned => exact .gone hi rfl htoken howes
      · obtain hnew | hsame := hnew
        · cases hv : (s.stepRequest grace stage).value with
          | next stage' =>
            rw [hv] at hnew
            cases hnew
            exact .inl (.inr ⟨_, List.mem_set hlt (.request grace (.wake true)), rfl⟩)
          | returned => rw [hv] at hnew; cases hnew
        · exact .inr hsame

/-! ## What the loop relies on -/

/-- The loop will not look at the queue again before its rest, if it rests. -/
def Place.reliesOnQueue : Place τ → Bool
  | .pop _ 0 false => true
  | .compareQuiet _ => true
  | .park _ => true
  | .asleep _ => true
  | _ => false

/-- The loop has not seen a request, and will not look at the phase again before its rest, if it
rests. -/
def Place.reliesOnPhase : Place τ → Bool
  | .checkEmpty => true
  | .park _ => true
  | .asleep _ => true
  | _ => false

/-- Where the loop relies on what it has seen, the rest is announced; and when it goes by a request,
it has seen the only one. -/
structure Watched (s : State τ) (history : List Event) : Prop where
  queue : s.place.reliesOnQueue = true → s.queue ≠ [] → s.Announced
  phase : s.place.reliesOnPhase = true → Unseen history → s.Announced
  seen : s.place.notice ≠ .nothing → ¬ Unseen history

theorem watched_begin : Watched (.begin now : State τ) [] :=
  ⟨nofun, nofun, fun hn => absurd rfl hn⟩

/-- While the loop goes by a request, no other one is stored. -/
theorem Turn.not_requested {s t : State τ} {label : Step τ} {events : List Event}
    (h : Turn s t label events) (hk : Informed s) (hn : t.place.notice ≠ .nothing) (grace : Grace) :
    .requested grace ∉ events := by
  intro hgrace
  cases h with
  | keeps events _ _ _ he => exact he _ hgrace
  | stores other _ _ hh hnotice =>
    rw [hnotice] at hn
    exact hk.asked hn (hk.phase_of_holder (by omega))
  | _ => simp at hgrace

namespace Watched

variable {s t : State τ} {history events : List Event} {label : Step τ}

/-- What the loop goes by stays seen. -/
theorem seen_step (hw : Watched s history) (h : Turn s t label events) (hk : Informed s)
    (hn : t.place.notice ≠ .nothing → s.place.notice ≠ .nothing)
    (ht : t.place.notice ≠ .nothing) : ¬ Unseen (history ++ events) := by
  intro hunseen
  obtain hunseen | ⟨grace, hgrace⟩ := hunseen.of_append
  · exact hw.seen (hn ht) hunseen
  · exact h.not_requested hk ht grace hgrace

theorem goes (hw : Watched s history) (h : Turn s t label events) (hk : Informed s)
    (hq : t.place.reliesOnQueue = false) (hp : t.place.reliesOnPhase = false)
    (hn : t.place.notice ≠ .nothing → s.place.notice ≠ .nothing) :
    Watched t (history ++ events) where
  queue hrelies := by rw [hq] at hrelies; cases hrelies
  phase hrelies := by rw [hp] at hrelies; cases hrelies
  seen := hw.seen_step h hk hn

theorem caller {i : Nat} (hw : Watched s history) (hk : Informed s)
    (h : s.stepCaller i = some (t, events)) : Watched t (history ++ events) := by
  obtain ⟨hplace, hkeeps, hnew⟩ := stepCaller_announced h
  refine ⟨fun hrelies hqueue => ?_, fun hrelies hunseen => ?_,
    hw.seen_step (hk.caller h) hk (by rw [hplace]; exact id)⟩
  · rw [hplace] at hrelies
    obtain hannounced | ⟨hsame, -⟩ := hnew
    · exact hannounced
    · exact hkeeps (hw.queue hrelies (hsame ▸ hqueue))
  · rw [hplace] at hrelies
    obtain hannounced | ⟨-, hsilent⟩ := hnew
    · exact hannounced
    · obtain hunseen | ⟨grace, hgrace⟩ := hunseen.of_append
      · exact hkeeps (hw.phase hrelies hunseen)
      · exact absurd hgrace (hsilent grace)

end Watched

/-! ## The steps of the thread of the loop -/

theorem relies_batchOver (b : Batch) (ran : Bool) :
    (State.batchOver b ran : Place τ).reliesOnPhase = false ∧
      ((State.batchOver b ran : Place τ).reliesOnQueue = true → ran = false) := by
  cases b <;> cases ran <;> exact ⟨rfl, fun h => by first | rfl | cases h⟩

namespace Watched

variable {s t : State τ} {history events : List Event}

/-- A batch is over.  The loop may go on to its rest if it ran nothing. -/
theorem batchOver {b : Batch} {ran : Bool} (hw : Watched s history) (hk : Informed s)
    (hn : s.place.notice = b.notice) (ht : t = { s with place := State.batchOver b ran })
    (hturn : Turn s t (.loop now) events) (hq : ran = false → s.queue ≠ [] → s.Announced) :
    Watched t (history ++ events) := by
  obtain ⟨hphase, hran⟩ := relies_batchOver (τ := τ) b ran
  subst ht
  refine ⟨fun hrelies => hq (hran hrelies), fun hrelies => ?_, hw.seen_step hturn hk ?_⟩
  · rw [hphase] at hrelies
    cases hrelies
  · rw [hn, notice_batchOver]
    exact id

theorem pop {b : Batch} {left : Nat} {ran : Bool} (hw : Watched s history) (hk : Informed s)
    (hp : s.place = .pop b left ran)
    (h : s.stepLoop code parkTimeout now = some (t, events)) : Watched t (history ++ events) := by
  have hturn := hk.loop h
  have hn : s.place.notice = b.notice := by rw [hp]; rfl
  have hqueue := hw.queue
  rw [hp] at hqueue
  obtain ⟨ht, rfl, hempty⟩ | ⟨left, call, task, queue, -, rfl, rfl⟩ := stepLoop_pop hp h
  · refine hw.batchOver hk hn ht hturn fun hran hne => ?_
    have hleft : left = 0 := hempty.resolve_right hne
    subst hran hleft
    exact hqueue rfl hne
  · exact hw.goes hturn hk rfl rfl (by rw [hn]; exact id)

/-- A task runs.  It may give the loop something to do and wake nobody: the loop relies on nothing
meanwhile. -/
theorem task {call : Nat} (hw : Watched s history) (hk : Informed s)
    (hr : s.place.running? = some call)
    (h : s.stepLoop code parkTimeout now = some (t, events)) : Watched t (history ++ events) := by
  have hturn := hk.loop h
  cases hp : s.place with
  | body b left call running =>
    have hn : s.place.notice = b.notice := by rw [hp]; rfl
    simp only [State.stepLoop, hp, Option.some.injEq] at h
    cases hop : code running <;> simp only [hop, State.stepBody, Prod.mk.injEq] at h <;>
      obtain ⟨rfl, rfl⟩ := h <;>
      exact hw.goes hturn hk (by first | rfl | cases left <;> rfl) rfl (by rw [hn]; exact id)
  | submitting b left call c next =>
    have hn : s.place.notice = b.notice := by rw [hp]; rfl
    simp only [State.stepLoop, hp, Option.some.injEq, Prod.mk.injEq] at h
    obtain ⟨rfl, rfl⟩ := h
    refine hw.goes hturn hk ?_ ?_ ?_ <;> dsimp only
    · split <;> rfl
    · split <;> rfl
    · rw [hn]
      split <;> exact id
  | requesting b left call grace stage next =>
    have hn : s.place.notice = b.notice := by rw [hp]; rfl
    simp only [State.stepLoop, hp, Option.some.injEq, Prod.mk.injEq] at h
    obtain ⟨rfl, rfl⟩ := h
    refine hw.goes hturn hk ?_ ?_ ?_ <;> dsimp only
    · split <;> rfl
    · split <;> rfl
    · rw [hn]
      split <;> exact id
  | _ => rw [hp] at hr; cases hr

theorem rest (hw : Watched s history) (hk : Informed s)
    (hp : (∃ limit, s.place = .park limit) ∨ ∃ wakeAt, s.place = .asleep wakeAt)
    (h : s.stepLoop code parkTimeout now = some (t, events)) : Watched t (history ++ events) := by
  have hturn := hk.loop h
  have hqueue := hw.queue
  have hphase := hw.phase
  obtain ⟨rfl, ⟨token, rfl⟩ | ⟨limit, hp, rfl⟩⟩ := stepLoop_rest hp h
  · exact hw.goes hturn hk rfl rfl fun hn => absurd rfl hn
  · rw [hp] at hqueue hphase
    rw [List.append_nil]
    exact ⟨fun _ => hqueue rfl, fun _ => hphase rfl, fun hn => absurd rfl hn⟩

theorem loop (hw : Watched s history) (hk : Informed s)
    (h : s.stepLoop code parkTimeout now = some (t, events)) : Watched t (history ++ events) := by
  have hturn := hk.loop h
  have hqueue := hw.queue
  have hphase := hw.phase
  cases hp : s.place with
  | body => exact hw.task hk (by rw [hp]; rfl) h
  | submitting => exact hw.task hk (by rw [hp]; rfl) h
  | requesting => exact hw.task hk (by rw [hp]; rfl) h
  | pop => exact hw.pop hk hp h
  | park limit => exact hw.rest hk (.inl ⟨limit, hp⟩) h
  | asleep wakeAt => exact hw.rest hk (.inr ⟨wakeAt, hp⟩) h
  | failed => simp only [State.stepLoop, hp, reduceCtorEq] at h
  | stopped => simp only [State.stepLoop, hp, reduceCtorEq] at h
  | count b =>
    have hn : s.place.notice = b.notice := by rw [hp]; rfl
    simp only [State.stepLoop, hp, Option.some.injEq, Prod.mk.injEq] at h
    obtain ⟨rfl, rfl⟩ := h
    refine ⟨fun hrelies hne => ?_, by simp [Place.reliesOnPhase],
      hw.seen_step hturn hk (by rw [hn]; exact id)⟩
    -- the batch is empty only if the queue was
    cases hq : s.queue with
    | nil => exact absurd hq hne
    | cons entry queue => rw [hq] at hrelies; cases hrelies
  | readPhase =>
    simp only [State.stepLoop, hp, Option.some.injEq, Prod.mk.injEq] at h
    obtain ⟨rfl, rfl⟩ := h
    have hseen := not_unseen_looked history s.phase
    refine ⟨fun hrelies => ?_, fun _ hunseen => absurd hunseen hseen, fun _ => hseen⟩
    dsimp only at hrelies
    repeat' split at hrelies
    all_goals cases hrelies
  | stamp b =>
    simp only [State.stepLoop, hp, Option.some.injEq, Prod.mk.injEq] at h
    obtain ⟨rfl, rfl⟩ := h
    cases b with
    | round => exact hw.goes hturn hk rfl rfl fun hn => absurd rfl hn
    | drain => exact hw.goes hturn hk rfl rfl fun _ => by simp [hp, Place.notice, Batch.notice]
    | check grace =>
      have hn : s.place.notice ≠ .nothing := by simp [hp, Place.notice, Batch.notice]
      refine hw.goes hturn hk ?_ ?_ (fun _ => hn) <;> dsimp only <;> split
      all_goals rfl
  | compareQuiet grace =>
    have hseen : ¬ Unseen (history ++ []) := by
      rw [List.append_nil]
      exact hw.seen (by simp [hp, Place.notice])
    rw [hp] at hqueue
    simp only [State.stepLoop, hp, Option.some.injEq, Prod.mk.injEq] at h
    obtain ⟨rfl, rfl⟩ := h
    exact ⟨fun _ => hqueue rfl, fun _ hunseen => absurd hunseen hseen, fun _ => hseen⟩
  | checkEmpty =>
    rw [hp] at hphase
    simp only [State.stepLoop, hp, Option.some.injEq, Prod.mk.injEq] at h
    obtain ⟨rfl, rfl⟩ := h
    cases hq : s.queue.isEmpty with
    | true =>
      simp only [hq, if_true] at hturn ⊢
      rw [List.append_nil]
      exact ⟨fun _ hne => absurd (List.isEmpty_iff.1 hq) hne, fun _ => hphase rfl,
        fun hn => absurd rfl hn⟩
    | false =>
      simp only [hq, Bool.false_eq_true, if_false] at hturn ⊢
      exact hw.goes hturn hk rfl rfl fun hn => absurd rfl hn
  | _ =>
    -- the loop goes by a request and relies on nothing
    have hn : s.place.notice ≠ .nothing := by simp [hp, Place.notice]
    simp only [State.stepLoop, hp, Option.some.injEq, Prod.mk.injEq] at h
    obtain ⟨rfl, rfl⟩ := h
    refine hw.goes hturn hk ?_ ?_ (fun _ => hn) <;> dsimp only
    · try split
      all_goals rfl
    · try split
      all_goals rfl

end Watched

/-! ## Runs -/

theorem Watched.begins {s t : State τ} {history : List Event} {c : Caller τ}
    (hw : Watched s history) (hplace : t.place = s.place) (hqueue : t.queue = s.queue)
    (htoken : t.token = s.token) (hcallers : t.callers = s.callers ++ [c]) :
    Watched t (history ++ []) := by
  have hkeeps : s.Announced → t.Announced := by
    rintro (h | ⟨d, hd, howes⟩)
    · exact .inl (htoken.trans h)
    · exact .inr ⟨d, by rw [hcallers]; exact List.mem_append_left _ hd, howes⟩
  rw [List.append_nil]
  constructor
  · rw [hplace, hqueue]
    exact fun hrelies hne => hkeeps (hw.queue hrelies hne)
  · rw [hplace]
    exact fun hrelies hunseen => hkeeps (hw.phase hrelies hunseen)
  · rw [hplace]
    exact hw.seen

theorem Watched.step {s t : State τ} {history events : List Event} {label : Step τ}
    (hw : Watched s history) (hk : Informed s)
    (h : step code parkTimeout s label = some (t, events)) : Watched t (history ++ events) := by
  have hturn := hk.step h
  cases label with
  | submit task => cases h; exact hw.begins rfl rfl rfl rfl
  | request grace => cases h; exact hw.begins rfl rfl rfl rfl
  | release => cases h; exact hw.begins rfl rfl rfl rfl
  | caller i => exact hw.caller hk h
  | loop now =>
    obtain ⟨-, u, hu, rfl⟩ := loop_of_step h
    obtain ⟨hqueue, hphase, hseen⟩ := hw.loop hk hu
    exact ⟨hqueue, hphase, hseen⟩
  | rouse =>
    obtain ⟨-, rfl, rfl⟩ := rouse_of_step h
    exact hw.goes hturn hk rfl rfl fun hn => absurd rfl hn

theorem Traced.watched {s : State τ} {history : List Event} {tasks : List τ}
    (h : Traced code parkTimeout now s history tasks) : Watched s history := by
  induction h with
  | begin => exact watched_begin
  | step label htraced hstep ih => exact ih.step htraced.informed hstep

/-- The thread of the loop is about to rest, or rests. -/
def Place.isResting : Place τ → Bool
  | .park _ => true
  | .asleep _ => true
  | _ => false

/-- When the loop rests and its token is not there, it has nothing to do: its queue is empty, and no
request was stored since it looked at the phase.  Otherwise there is a caller who has pushed a task,
or stored a request, and has yet to wake the loop. -/
theorem wakeup_not_lost {s : State τ} {history : List Event} {tasks : List τ}
    (h : Traced code parkTimeout now s history tasks) (hrests : s.place.isResting = true)
    (htoken : s.token = false) :
    (s.queue = [] ∧ ∀ grace, .requested grace ∉ sinceLook history) ∨
      ∃ c ∈ s.callers, c.owesWake = true := by
  obtain ⟨hqueue, hphase, -⟩ := h.watched
  have hrelies : s.place.reliesOnQueue = true ∧ s.place.reliesOnPhase = true := by
    cases hp : s.place with
    | park => exact ⟨rfl, rfl⟩
    | asleep => exact ⟨rfl, rfl⟩
    | _ => rw [hp] at hrests; cases hrests
  by_cases hannounced : s.Announced
  · exact .inr (hannounced.resolve_left (by rw [htoken]; exact Bool.false_ne_true))
  · refine .inl ⟨Classical.byContradiction fun hne => ?_, fun grace hgrace => ?_⟩
    · exact hannounced (hqueue hrelies.1 hne)
    · exact hannounced (hphase hrelies.2 ⟨grace, hgrace⟩)

/-- A run in which the loop falls asleep between the look of a caller at the phase and its push, and
after a request has taken the lock. -/
def dozing : List (Step Nat) :=
  .submit 1 :: .request .none :: .caller 0 :: .caller 0 :: .caller 1 ::
    .replicate 5 (.loop ⟨0⟩) ++ [.caller 0, .caller 1]

/-- The loop sleeps with a task in its queue and a request that it has not seen, and somebody is
about to wake it. -/
theorem wakeup_not_lost_dozing :
    ∃ s history tasks, Traced relay (.ofNanos 1) ⟨0⟩ s history tasks ∧ s.place = .asleep ⟨1⟩ ∧
      s.token = false ∧ s.queue = [(0, 1)] ∧ Unseen history ∧
      ∃ c ∈ s.callers, c.owesWake = true := by
  have hrun := Traced.begin.follow
    (show follow relay (.ofNanos 1) (.begin ⟨0⟩) [] [] dozing = some (_, _, _) from rfl)
  have howes := (wakeup_not_lost hrun rfl rfl).resolve_left fun h => List.cons_ne_nil _ _ h.1
  exact ⟨_, _, _, hrun, rfl, rfl, rfl, ⟨⟨.zero, .zero⟩, by decide⟩, howes⟩

end FrameLoop.Loop
