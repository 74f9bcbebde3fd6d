import RtspControl.Proofs.Course

/-!
# Changes of the phase

A phase changes for one of six reasons, which `Cause` lists with what has happened in the same
move right before: a dial, a negotiated section, a play, or nothing at all. `Course.phases_lawful`
says that this holds of all moves of all courses, however callers and handlers interleave, that
no move changes the phase twice, and that plays and starts to play come in pairs.

Every kind of task is accounted for on its own, by `Account`. Most entries of a history have
nothing to do with the phase (`Entry.isQuiet`), so what remains to be looked at in each case are
the few that have.
-/

namespace RtspControl

open Session

/-! ## What entries say about phases -/

namespace Entry

/-- The change of the phase that an entry tells of. -/
def change? : Entry → Option (Phase × Phase)
  | .note (.transition old new) => some (old, new)
  | _ => none

/-- Does an entry tell of a play that has been granted? -/
def isPlayed : Entry → Bool
  | .requested .play none => true
  | _ => false

/-- Is an entry about neither a change of the phase nor a play? -/
def isQuiet : Entry → Bool
  | .note (.transition _ _) => false
  | .requested .play _ => false
  | _ => true

variable {e : Entry}

theorem change?_of_isQuiet (h : e.isQuiet = true) : e.change? = none := by
  unfold change?
  split
  · simp [isQuiet] at h
  · rfl

theorem isPlayed_of_isQuiet (h : e.isQuiet = true) : e.isPlayed = false := by
  unfold isPlayed
  split
  · simp [isQuiet] at h
  · rfl

theorem isQuiet_of_isRenewal (h : e.isRenewal = true) : e.isQuiet = true := by
  cases e with
  | requested r f => cases r <;> first | rfl | cases h
  | note n => cases n <;> first | rfl | cases h
  | _ => rfl

theorem isQuiet_of_isAside (h : e.isAside = true) : e.isQuiet = true := by
  cases e with
  | note n => cases n <;> first | rfl | simp [isAside, Note.isAside] at h
  | requested | setUp => simp [isAside] at h
  | _ => rfl

end Entry

/-- Are all entries about something else than the phase? -/
abbrev Quiet (es : List Entry) : Prop := Only Entry.isQuiet es

namespace Quiet

variable {es : List Entry}

theorem of_isAside (h : Only Entry.isAside es) : Quiet es :=
  Only.mono (fun _ => Entry.isQuiet_of_isAside) h

theorem opening (t : Task) : Quiet t.opening := of_isAside t.aside_opening

theorem changes (h : Quiet es) : es.filterMap Entry.change? = [] :=
  List.filterMap_eq_nil_iff.mpr fun e he => Entry.change?_of_isQuiet (h e he)

theorem played (h : Quiet es) : es.countP Entry.isPlayed = 0 :=
  List.countP_eq_zero.mpr fun e he => by simp [Entry.isPlayed_of_isQuiet (h e he)]

/-- Building a session anew does not move the connection, and plays nothing. -/
theorem of_isRenewal (h : Only Entry.isRenewal es) : Quiet es :=
  Only.mono (fun _ => Entry.isQuiet_of_isRenewal) h

end Quiet

/-! ## Why a phase changes -/

/-- Why a task moves a connection from one phase to another; the entries are those that the task
has made before, the newest first. -/
inductive Cause (role : Role) : Task → List Entry → Phase → Phase → Prop where
  | connect (caller : Caller) (client : role = .activeProducer) :
      Cause role (.perform caller .connect) [.requested .dial none, .began .connect]
        .idle .connected
  | negotiate {t : Task} {m : MediaSection} {c : Codec} (channel : UInt8) (before : List Entry)
      (old : Phase) (request : t.request? = some (m, c)) (client : role = .activeProducer)
      (differ : old ≠ .ready) :
      Cause role t (.setUp m (.ok channel) :: before) old .ready
  | play {t : Task} {handled : Option Outcome} (pass : t.pass? = some handled)
      (client : role = .activeProducer) :
      Cause role t (.requested .play none :: t.opening) .ready .playing
  | serve {t : Task} {handled : Option Outcome} (pass : t.pass? = some handled)
      (server : role = .passiveProducer) : Cause role t t.opening .ready .playing
  | stop (caller : Caller) (before : List Entry) (old : Phase) (differ : old ≠ .idle) :
      Cause role (.perform caller .stop) before old .idle
  | setPhase (old new : Phase) (differ : old ≠ new) :
      Cause role (.perform .frameHandler (.setPhase new)) [.began (.setPhase new)] old new

theorem Cause.differ {role : Role} {t : Task} {before : List Entry} {old new : Phase}
    (h : Cause role t before old new) : old ≠ new := by
  cases h with
  | negotiate _ _ _ _ _ differ | stop _ _ _ differ | setPhase _ _ differ => exact differ
  | _ => decide

/-- What the entries of a task amount to that has moved a connection from `p` to `p'`. -/
structure Account (role : Role) (t : Task) (es : List Entry) (p p' : Phase) : Prop where
  /-- They tell of the change, and of no other. -/
  changes : es.filterMap Entry.change? = if p = p' then [] else [(p, p')]
  cause : p ≠ p' → ∃ later before, es = later ++ .note (.transition p p') :: before ∧
    Cause role t before p p'
  /-- Only a pass of `start` plays, and only a client that is ready; it does so first, and once. -/
  plays : ∀ f, .requested .play f ∈ es →
    role = .activeProducer ∧ p = .ready ∧ t.pass?.isSome = true ∧
      ∃ later, es = later ++ .requested .play f :: t.opening ∧
        ∀ g, .requested .play g ∉ later
  count : es.countP Entry.isPlayed =
    if role = .activeProducer ∧ t.pass?.isSome = true ∧ p = .ready ∧ p' = .playing then 1 else 0

theorem Quiet.unplayed {es : List Entry} (h : Quiet es) (f : Option Fault) :
    .requested .play f ∉ es := by
  intro hm
  have hq : (Entry.requested .play f).isQuiet = true := h _ hm
  cases hq

namespace Account

variable {role : Role} {t : Task} {es later before : List Entry} {p p' : Phase}

theorem quiet (h : Quiet es) : Account role t es p p := by
  refine ⟨?_, ?_, ?_, ?_⟩
  · rw [h.changes, if_pos rfl]
  · intro hp
    exact absurd rfl hp
  · intro f hm
    exact absurd hm (h.unplayed f)
  · rw [h.played, if_neg]
    rintro ⟨-, -, rfl, hp⟩
    cases hp

/-- A change without a play. -/
theorem changed (cause : Cause role t before p p') (hl : Quiet later) (hb : Quiet before)
    (h : role = .activeProducer → t.pass? = none) :
    Account role t (later ++ .note (.transition p p') :: before) p p' := by
  refine ⟨?_, ?_, ?_, ?_⟩
  · have hc : Entry.change? (.note (.transition p p')) = some (p, p') := rfl
    rw [List.filterMap_append, hl.changes, if_neg cause.differ, List.nil_append,
      List.filterMap_cons_some hc, hb.changes]
  · intro _
    exact ⟨later, before, rfl, cause⟩
  · intro f hm
    rcases List.mem_append.mp hm with hm | hm
    · exact absurd hm (hl.unplayed f)
    · rcases List.mem_cons.mp hm with hm | hm
      · cases hm
      · exact absurd hm (hb.unplayed f)
  · rw [List.countP_append, hl.played, List.countP_cons_of_neg (by simp [Entry.isPlayed]),
      hb.played, if_neg]
    rintro ⟨client, hp, -⟩
    rw [h client] at hp
    cases hp

/-- A change after a play. -/
theorem played {handled : Option Outcome} (pass : t.pass? = some handled)
    (client : role = .activeProducer) (hl : Quiet later) :
    Account role t (later ++ .note (.transition .ready .playing) :: .requested .play none ::
      t.opening) .ready .playing := by
  have ho := Quiet.opening t
  refine ⟨?_, ?_, ?_, ?_⟩
  · have hc : Entry.change? (.note (.transition .ready .playing)) = some (.ready, .playing) := rfl
    have hp : Entry.change? (.requested .play none) = none := rfl
    rw [List.filterMap_append, hl.changes, List.nil_append, List.filterMap_cons_some hc,
      List.filterMap_cons_none hp, ho.changes]
    rfl
  · intro _
    exact ⟨later, _, rfl, .play pass client⟩
  · intro f hm
    have hf : f = none := by
      rcases List.mem_append.mp hm with hm | hm
      · exact absurd hm (hl.unplayed f)
      · simp only [List.mem_cons, reduceCtorEq, false_or, Entry.requested.injEq, true_and] at hm
        exact hm.resolve_right (ho.unplayed f)
    subst hf
    refine ⟨client, rfl, by rw [pass]; rfl, later ++ [.note (.transition .ready .playing)],
      by simp, ?_⟩
    intro g hg
    rcases List.mem_append.mp hg with hg | hg
    · exact hl.unplayed g hg
    · simp at hg
  · rw [List.countP_append, hl.played, List.countP_cons_of_neg (by simp [Entry.isPlayed]),
      List.countP_cons_of_pos rfl, ho.played, if_pos ⟨client, by rw [pass]; rfl, rfl, rfl⟩]

/-- A play that is denied. -/
theorem denied {handled : Option Outcome} (pass : t.pass? = some handled)
    (client : role = .activeProducer) (f : Fault) (hl : Quiet later) :
    Account role t (later ++ .requested .play (some f) :: t.opening) .ready .ready := by
  have ho := Quiet.opening t
  refine ⟨?_, ?_, ?_, ?_⟩
  · have hp : Entry.change? (.requested .play (some f)) = none := rfl
    rw [List.filterMap_append, hl.changes, List.nil_append, List.filterMap_cons_none hp,
      ho.changes, if_pos rfl]
  · intro hp
    exact absurd rfl hp
  · intro g hm
    have hg : g = some f := by
      rcases List.mem_append.mp hm with hm | hm
      · exact absurd hm (hl.unplayed g)
      · simp only [List.mem_cons, Entry.requested.injEq, true_and] at hm
        exact hm.resolve_right (ho.unplayed g)
    subst hg
    exact ⟨client, rfl, by rw [pass]; rfl, later, rfl, hl.unplayed⟩
  · rw [List.countP_append, hl.played, List.countP_cons_of_neg (by simp [Entry.isPlayed]),
      ho.played, if_neg]
    rintro ⟨-, -, -, hp⟩
    cases hp

/-- A section that has been set up makes the connection ready, if it is not. -/
theorem assigned {m : MediaSection} {c : Codec} (request : t.request? = some (m, c))
    (client : role = .activeProducer) (channel : UInt8) (hl : Quiet later) (hb : Quiet before) :
    Account role t (later ++ (moved p .ready ++ .setUp m (.ok channel) :: before)) p .ready := by
  have hs : Quiet (.setUp m (.ok channel) :: before) := .cons rfl hb
  by_cases hp : p = .ready
  · rw [moved, if_pos hp, hp]
    exact quiet (hl.append hs)
  · rw [moved, if_neg hp]
    apply changed (.negotiate channel before p request client hp) hl hs
    intro _
    cases ht : t.pass? with
    | none => rfl
    | some handled =>
      rw [Task.request?_of_pass? ht] at request
      cases request

end Account

/-! ## Accounts of tasks -/

/-- What a task does to the phase is accounted for by what it adds to the history. -/
def Accounted (t : Task) (s s' : Session) : Prop :=
  ∃ es, s'.history = es ++ s.history ∧
    Account s.role t es s.control.phase s'.control.phase

namespace Accounted

variable {t : Task} {s s' : Session}

theorem of_quiet {es : List Entry} (hh : s'.history = es ++ s.history) (h : Quiet es)
    (hp : s'.control.phase = s.control.phase) : Accounted t s s' := by
  refine ⟨es, hh, ?_⟩
  rw [hp]
  exact .quiet h

theorem of_aside (h : Aside s s') : Accounted t s s' := by
  obtain ⟨es, he, hes⟩ := h.history
  exact of_quiet he (.of_isAside hes) (by rw [h.control])

theorem of_connecting {caller : Caller} {r : Except Fault Unit}
    (h : Connecting (s.log (.began .connect)) (r, s')) :
    Accounted (.perform caller .connect) s s' := by
  have began : Quiet [.began .connect] := .cons rfl .nil
  have dialled : Quiet [.requested .dial none, .began .connect] := .cons rfl began
  -- The phase changes as soon as the peer is dialled, whatever comes of it.
  have change (client : s.role = .activeProducer) (idle : s.control.phase = .idle)
      {later : List Entry} (hl : Quiet later) :
      Account s.role (.perform caller .connect) (later ++ .note (.transition .idle .connected) ::
        [.requested .dial none, .began .connect]) s.control.phase .connected := by
    rw [idle]
    exact .changed (.connect caller client) hl dialled fun _ => rfl
  cases h with
  | refused f h => exact of_quiet rfl began rfl
  | undialled f p => exact of_quiet rfl (.cons rfl began : Quiet [_, _]) rfl
  | undescribed f p client idle =>
    exact ⟨_, rfl, change client idle (.cons rfl .nil : Quiet [.requested .describe (some f)])⟩
  | connected p client idle =>
    exact ⟨_, rfl, change client idle
      (.cons rfl (.cons rfl .nil) : Quiet [.note .connected, .requested .describe none])⟩

theorem of_stopping {caller : Caller} {r : Except Fault Unit}
    (h : Stopping (s.log (.began .stop)) (r, s')) :
    Accounted (.perform caller .stop) s s' := by
  cases h with
  | idle hp closed =>
    obtain ⟨es, he, hes⟩ := Task.history_closed closed
    exact of_quiet he (.of_isAside hes) (by rw [closed.control]; rfl)
  | tornDown fault p hp closed =>
    obtain ⟨es, he, hes⟩ := Task.history_closed closed
    have later : Quiet [.requested .close fault, .note .stopped] := .cons rfl (.cons rfl .nil)
    refine ⟨_, ?_, .changed (.stop caller es _ hp) later (.of_isAside hes) fun _ => rfl⟩
    rw [history_heard, history_inPhase, he]
    rfl

theorem of_passing {handled : Option Outcome} {r : Except Fault (Option Outcome)} {s₁ : Session}
    (kind : t.pass? = some handled) (producer : s.role ≠ .passiveConsumer)
    (h : Passing handled (t.underway s) (r, s₁)) (called : Aside s₁ s') : Accounted t s s' := by
  have hu := Task.aside_underway t s
  have ho := Quiet.opening t
  obtain ⟨es, hes, history⟩ := Task.history_called (t := t) (s := s) called
  have hes : Quiet es := .of_isAside hes
  -- A pass that neither plays nor moves on.
  have still (es₁ : List Entry) (hp : s₁.control = (t.underway s).control)
      (hh : s₁.history = es₁ ++ (t.underway s).history) (h₁ : Quiet es₁) : Accounted t s s' :=
    of_quiet (history es₁ hh) (hes.append (h₁.append ho)) (by rw [called.control, hp, hu.control])
  have phase_eq {p : Phase} (hp : (t.underway s).control.phase = p) : s.control.phase = p := by
    rw [← hu.control, hp]
  have client_eq (client : (t.underway s).role = .activeProducer) : s.role = .activeProducer := by
    rw [← hu.role, client]
  cases h with
  | first | early | busy | broken => exact still [] rfl rfl .nil
  | stopped es₁ idle result h aside => exact still es₁ rfl rfl (.of_isAside aside)
  | unplayed f p ready client =>
    refine ⟨_, history [.requested .play (some f)] rfl, ?_⟩
    rw [called.control, control_heard, hu.control, phase_eq ready]
    exact .denied kind (client_eq client) f hes
  | played p ready client =>
    refine ⟨_, history
      [.note (.transition .ready .playing), .requested .play none] rfl, ?_⟩
    rw [called.control, phase_eq ready]
    exact .played kind (client_eq client) hes
  | served ready server =>
    have hs : s.role = .passiveProducer := by
      rw [hu.role] at server
      cases hr : s.role <;> simp_all
    refine ⟨_, history [.note (.transition .ready .playing)] rfl, ?_⟩
    rw [called.control, phase_eq ready]
    refine .changed (.serve kind hs) hes ho ?_
    intro client
    rw [hs] at client
    cases client

theorem of_negotiation {m : MediaSection} {c : Codec} {r : Except Fault Track}
    (kind : t.request? = some (m, c)) (h : Negotiation m c (t.underway s) (r, s')) :
    Accounted t s s' := by
  have hu := Task.aside_underway t s
  have ho := Quiet.opening t
  have history {s₁ : Session} (es : List Entry) (hh : s₁.history = es ++ (t.underway s).history) :
      s₁.history = (es ++ t.opening) ++ s.history := by
    rw [hh, t.history_underway, List.append_assoc]
  -- A request that leaves the phase as it is.
  have still {s₁ : Session} (es : List Entry) (hp : s₁.control.phase = (t.underway s).control.phase)
      (hh : s₁.history = es ++ (t.underway s).history) (hq : Quiet es) :
      Accounted t s s₁ := by
    refine of_quiet (history es hh) (hq.append ho) ?_
    rw [hp, hu.control]
  cases h with
  | served t' hit => exact still [_] rfl rfl (.cons rfl .nil)
  | refused f => exact still [] rfl rfl .nil
  | unbuilt f p miss client direction playing rebuilt =>
    exact still _ rfl rfl (.of_isRenewal rebuilt.renewal)
  | @unassigned f p s₁ es miss client direction prepared =>
    refine still (.setUp m (.error f) :: es) ?_ ?_ (.cons rfl (Quiet.of_isRenewal prepared.renewal))
    · rw [control_heard, prepared.control]
    · rw [history_heard, prepared.history]
  | @assigned channel p s₁ es miss client direction prepared =>
    have hl : Quiet [.note (.trackCreated ((t.underway s).nextTrack m c channel)),
        .note (.mediaSetUp m channel)] := .cons rfl (.cons rfl .nil)
    have hb : Quiet (es ++ t.opening) := (Quiet.of_isRenewal prepared.renewal).append ho
    refine ⟨_, ?_, .assigned kind (hu.role ▸ client) channel hl hb⟩
    rw [history_heard, history_admitting, history_inPhase, prepared.history,
      t.history_underway, hu.control]
    simp only [List.cons_append, List.nil_append, List.append_assoc]
  | allotted channel => exact still [_] rfl rfl (.cons rfl .nil)

/-- Every task is accounted for. -/
theorem of_effect (h : Task.Effect t s s') : Accounted t s s' := by
  cases h with
  | aside kind aside => exact of_aside aside
  | connect kind connecting =>
    subst kind
    exact of_connecting connecting
  | stop kind stopping =>
    subst kind
    exact of_stopping stopping
  | unable | unknown | barred => exact of_quiet rfl (.cons rfl .nil : Quiet [_]) rfl
  | reconnect p kind client rebuilt =>
    refine of_quiet ?_ ((Quiet.of_isRenewal rebuilt.renewal).append
      (.cons rfl .nil : Quiet [.began .reconnect])) rfl
    rw [List.append_assoc]
    rfl
  | addSender track kind known =>
    exact of_quiet rfl ((Only.replicate _ rfl).append
      (.cons rfl .nil : Quiet [.began (.addSender _ _)])) rfl
  | @setPhase p kind =>
    subst kind
    refine ⟨_, rfl, ?_⟩
    by_cases hp : s.control.phase = p
    · rw [moved, if_pos hp]
      exact hp ▸ .quiet (.cons rfl .nil)
    · rw [moved, if_neg hp]
      exact .changed (.setPhase _ _ hp) .nil (.cons rfl .nil) fun _ => rfl
  | startless kind consumer => exact of_aside (Task.aside_underway t s)
  | pass kind producer passing called => exact of_passing kind producer passing called
  | request kind ended negotiation => exact of_negotiation kind negotiation

end Accounted

/-! ## Whole courses -/

/-- Does a pass of `start` begin to play here? -/
def Move.startsPlaying (x : Move) : Bool :=
  x.task.pass?.isSome && x.found.control.phase = .ready && x.left.control.phase = .playing

theorem Move.account {x : Move} (suits : x.task.Suits x.found.role) :
    Account x.found.role x.task x.entries x.found.control.phase x.left.control.phase := by
  obtain ⟨es, he, account⟩ := Accounted.of_effect (x.effect suits)
  rw [entries_of_history he]
  exact account

theorem Reached.countP_isPlayed {role : Role} {past : List Move} {s : Session}
    (h : Reached role past s) :
    s.history.countP Entry.isPlayed =
      past.countP fun x => role = .activeProducer ∧ x.startsPlaying = true := by
  induction h using Reached.induct with
  | opened => rfl
  | moved past x earlier _ suits ih =>
    rw [x.history_left suits, List.countP_append, ih, (x.account suits).count, List.countP_append,
      List.countP_singleton, earlier.role_eq, Nat.add_comm]
    simp only [Move.startsPlaying, Bool.and_eq_true, decide_eq_true_eq, and_assoc]

/-- Whatever callers and handlers do, a phase changes for one of the reasons of `Cause`, once in a
move at most; a play is asked for by a client that is ready and by nobody else, and every play
that is granted starts to play. -/
theorem Course.phases_lawful (r : Course) :
    (∀ x ∈ r.moves, x.left.history = x.entries ++ x.found.history ∧
      Account r.role x.task x.entries x.found.control.phase x.left.control.phase) ∧
    r.session.history.countP Entry.isPlayed =
      r.moves.countP fun x => r.role = .activeProducer ∧ x.startsPlaying = true := by
  refine ⟨?_, r.reached.countP_isPlayed⟩
  intro x hx
  obtain ⟨_, _, -, found, suits⟩ := Course.reached_found hx
  refine ⟨x.history_left suits, ?_⟩
  have := x.account suits
  rw [found.role_eq] at this
  exact this

end RtspControl
