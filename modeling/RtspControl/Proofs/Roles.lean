import RtspControl.Proofs.Attempts
import RtspControl.Proofs.Failures
import RtspControl.Proofs.Reactions
import RtspControl.Proofs.Returning

/-!
# What a role allows

A role bounds what a connection does. A server that receives media asks its peer for nothing, has no
use for a frame handler, and stays idle; one that sends media asks its peer at most to close the
session, raises no events, and has no inbound tracks; only a client connects. `Entry.mayAsk` and
`Entry.mayCall` say what the history of a role may tell, and `Course.bounded_by_role` that it tells
nothing else.

What a connection does depends on what it is asked for, and so the invariant of a run is about the
tasks that wait as well (`Task.Befits`): where no frame handler is called, none can set the phase.
-/

namespace RtspControl

open Session

/-! ## What the history of a role may tell -/

namespace Entry

/-- May a connection of a role ask this of its peer, or do it by itself? -/
def mayAsk (role : Role) : Entry → Bool
  | .requested .close _ => role ≠ .passiveConsumer
  | .requested _ _ => role = .activeProducer
  | .setUp _ _ => role = .activeProducer
  | .note (.raised _) => role = .activeProducer
  | .note (.transition _ _) => role ≠ .passiveConsumer
  | _ => true

/-- May a connection of a role call the handler that this tells of? -/
def mayCall (role : Role) : Entry → Bool
  | .handling => role ≠ .passiveConsumer
  | .unattended => role ≠ .passiveConsumer
  | .reacting _ _ => role = .activeProducer
  | _ => true

variable {e : Entry} {role : Role}

theorem mayAsk_client (e : Entry) : e.mayAsk .activeProducer = true := by
  cases e with
  | requested r => cases r <;> rfl
  | note n => cases n <;> rfl
  | _ => rfl

theorem mayCall_client (e : Entry) : e.mayCall .activeProducer = true := by
  cases e <;> rfl

theorem mayAsk_of_isAside (h : e.isAside = true) : e.mayAsk role = true := by
  cases e with
  | requested | setUp => cases h
  | note n => cases n <;> first | rfl | cases h
  | _ => rfl

theorem mayCall_of_isUncalled (h : e.isUncalled = true) : e.mayCall role = true := by
  cases e with
  | handling | unattended | reacting => cases h
  | _ => rfl

theorem mayCall_of_isCalm (h : e.isCalm = true) (producer : role ≠ .passiveConsumer) :
    e.mayCall role = true := by
  cases e with
  | handling | unattended => exact decide_eq_true producer
  | reacting => cases h
  | _ => rfl

end Entry

/-- `s'` comes from `s` by work of which the history tells in entries of one kind. -/
def Adds (p : Entry → Bool) (s s' : Session) : Prop :=
  ∃ es, s'.history = es ++ s.history ∧ Only p es

namespace Adds

variable {p q : Entry → Bool} {s s₁ s' : Session}

theorem trans (h : Adds p s s₁) (h' : Adds p s₁ s') : Adds p s s' := by
  obtain ⟨es, he, hes⟩ := h
  obtain ⟨es', he', hes'⟩ := h'
  exact ⟨es' ++ es, by rw [he', he, List.append_assoc], hes'.append hes⟩

theorem mono (hpq : ∀ e, p e = true → q e = true) (h : Adds p s s') : Adds q s s' := by
  obtain ⟨es, he, hes⟩ := h
  exact ⟨es, he, hes.mono hpq⟩

theorem refl (s : Session) : Adds p s s := ⟨[], rfl, .nil⟩

theorem log {e : Entry} (s : Session) (h : p e = true) : Adds p s (s.log e) :=
  ⟨[e], rfl, .cons h .nil⟩

/-- If all entries are of one kind, it is enough that the history goes on. -/
theorem of_onward (all : ∀ e, p e = true) (h : Task.Onward s s') : Adds p s s' := by
  obtain ⟨es, he⟩ := h.history
  exact ⟨es, he, fun e _ => all e⟩

/-- What holds of the whole history goes on to do so. -/
theorem only (h : Adds p s s') (old : Only p s.history) : Only p s'.history := by
  obtain ⟨es, he, hes⟩ := h
  rw [he]
  exact hes.append old

end Adds

/-! ## What a task asks for -/

namespace Task

/-- May a task wait for a connection of a role? -/
def Befits (role : Role) : Task → Prop
  | .perform .frameHandler _ => role ≠ .passiveConsumer
  | .handled _ => role ≠ .passiveConsumer
  | .react _ => role = .activeProducer
  | _ => True

variable {t : Task} {role : Role}

theorem Befits.suits (h : t.Befits role) : t.Suits role := by
  cases t with
  | handled => exact h
  | _ => trivial

theorem Befits.event? (h : t.Befits role) (server : role ≠ .activeProducer) : t.event? = none := by
  cases t with
  | react => exact absurd h server
  | _ => rfl

theorem befits_client (t : Task) : t.Befits .activeProducer := by
  cases t with
  | perform caller op => cases caller <;> simp [Befits]
  | _ => simp [Befits]

variable {s s' : Session}

theorem adds_of_aside (h : Aside s s') : Adds (Entry.mayAsk role) s s' := by
  obtain ⟨es, he, hes⟩ := h.history
  exact ⟨es, he, Only.mono (fun _ => Entry.mayAsk_of_isAside) hes⟩

/-- A server asks for nothing but that the session is closed, and for that only if it has left the
idle phase. -/
theorem adds_of_effect (h : Effect t s s') (server : s.role ≠ .activeProducer)
    (befits : t.Befits s.role) (idle : s.role = .passiveConsumer → s.control.phase = .idle) :
    Adds (Entry.mayAsk s.role) s s' := by
  cases h with
  | aside _ aside => exact adds_of_aside aside
  | connect _ connecting =>
    have began : Adds (Entry.mayAsk s.role) s (s.log (.began .connect)) := .log s rfl
    cases connecting with
    | refused => exact began
    | undialled _ _ client | undescribed _ _ client | connected _ client =>
      exact absurd client server
  | stop _ stopping =>
    have began : Adds (Entry.mayAsk s.role) s (s.log (.began .stop)).emptied := .log s rfl
    cases stopping with
    | idle _ closed => exact began.trans (adds_of_aside closed)
    | tornDown fault p busy closed =>
      have producer : s.role ≠ .passiveConsumer := fun consumer => busy (idle consumer)
      refine (began.trans (adds_of_aside closed)).trans ⟨_, rfl, ?_⟩
      exact .cons (decide_eq_true producer) (.cons rfl (.cons (decide_eq_true producer) .nil))
  | unable | unknown | barred => exact .log s rfl
  | reconnect _ _ client => exact absurd client server
  | addSender => exact ⟨_, rfl, (Only.replicate _ rfl).append (.cons rfl .nil)⟩
  | setPhase kind =>
    subst kind
    have producer : s.role ≠ .passiveConsumer := befits
    exact ⟨_, rfl, (Only.moved (decide_eq_true producer)).append (.cons rfl .nil)⟩
  | startless => exact adds_of_aside (aside_underway t s)
  | @pass _ _ s₁ _ _ producer passing called =>
    have hu := aside_underway t s
    have asked : Adds (Entry.mayAsk s.role) (t.underway s) s₁ := by
      cases passing with
      | first | early | busy | broken => exact .refl _
      | stopped es _ _ _ aside =>
        exact ⟨es, rfl, Only.mono (fun _ => Entry.mayAsk_of_isAside) aside⟩
      | unplayed _ _ _ client | played _ _ client =>
        exact absurd (hu.role.symm.trans client) server
      | served => exact ⟨[_], rfl, .cons (decide_eq_true producer) .nil⟩
    exact ((adds_of_aside hu).trans asked).trans (adds_of_aside called)
  | request _ _ negotiation =>
    have hu := aside_underway t s
    refine (adds_of_aside hu).trans ?_
    cases negotiation with
    | served => exact .log _ rfl
    | refused => exact .refl _
    | unbuilt _ _ _ client | unassigned _ _ _ client | assigned _ _ _ client =>
      exact absurd (hu.role.symm.trans client) server
    | allotted => exact ⟨[_], rfl, .cons rfl .nil⟩

/-! ## Which handlers a task calls -/

theorem adds_of_calmly (h : Calmly s s') : Adds (Entry.mayCall role) s s' := by
  obtain ⟨es, he, hes⟩ := h.uncalled
  exact ⟨es, he, hes.mono fun _ => Entry.mayCall_of_isUncalled⟩

/-- Where there is no `start` there is no call of a handler. -/
theorem calls_of_consumer (consumer : s.role = .passiveConsumer) (befits : t.Befits s.role) :
    Adds (Entry.mayCall s.role) s (t.step s).2 := by
  cases t with
  | perform caller op =>
    have began : Adds (Entry.mayCall s.role) s (s.log (.began op)) := .log s rfl
    by_cases start : op = .start
    · subst start
      have unable : (step (.perform caller .start) s).2 = s.log (.began .start) := by
        simp only [step, begin, role_log, consumer]
        rfl
      rw [unable]
      exact began
    · exact began.trans (adds_of_calmly (Piece.begin caller start _).calm)
  | conclude a => exact ⟨[_], (closes_conclude a false s).history, .cons rfl .nil⟩
  | deliver => exact ⟨[], rfl, .nil⟩
  | handled => exact absurd consumer befits
  | react => exact absurd (befits.symm.trans consumer) (by simp)
  | reacted => exact .log s rfl
  | fill m c next left tracks => exact adds_of_calmly (Piece.fill m c next left tracks s).calm

/-- Without events there is no call of the event handler. -/
theorem calls_of_producer (producer : s.role ≠ .passiveConsumer) (quiet : t.event? = none) :
    Adds (Entry.mayCall s.role) s (t.step s).2 := by
  have suits := suits_of_producer producer t
  obtain ⟨es, he⟩ := (onward_step suits).history
  have same := reactions_step quiet suits
  rw [reactions, reactions, he, List.countP_append, Nat.add_eq_right, List.countP_eq_zero] at same
  refine ⟨es, he, ?_⟩
  intro e hm
  exact Entry.mayCall_of_isCalm (by simpa using same e hm) producer

/-- What waits for a connection leads to nothing else than may wait for it. -/
theorem befits_step (befits : t.Befits s.role)
    (pending : s.role ≠ .activeProducer → s.pending = []) :
    ∀ t' ∈ (t.step s).1, t'.Befits s.role := by
  by_cases client : s.role = .activeProducer
  · rw [client]
    exact fun t' _ => befits_client t'
  · refine forall_step (fun _ => trivial) (fun _ => trivial) trivial trivial
      (fun _ _ _ _ _ => trivial) befits.suits
      (fun producer => ⟨fun _ => producer, fun _ => producer⟩) ?_
    rw [pending client]
    exact fun _ => List.forall_mem_nil _

end Task

/-! ## Requests that a role refuses -/

section

variable {s : Session}

theorem outcome_connect_of_producer (producer : s.role = .passiveProducer) :
    outcome connect s = (.error (.wrongRole "connect" .passiveProducer), s) := by
  unfold connect
  rw [outcome_bind_ok (outcome_get s), outcome_bind, outcome_require, producer]
  rfl

theorem outcome_reconnect_of_producer (producer : s.role = .passiveProducer) :
    outcome reconnect s = (.error (.wrongRole "reconnect" .passiveProducer), s) := by
  unfold reconnect
  rw [outcome_bind_ok (outcome_get s), outcome_bind, outcome_require, producer]
  rfl

theorem served?_of_unregistered (unregistered : s.control.receivers = []) (m : MediaSection)
    (c : Codec) : s.served? m c = none := by
  rw [served?, unregistered]
  split <;> rfl

theorem outcome_negotiate_of_producer (producer : s.role = .passiveProducer)
    (unregistered : s.control.receivers = []) (m : MediaSection) (c : Codec) :
    outcome (negotiate m c) s = (.error (.wrongRole "get_track" .passiveProducer), s) := by
  unfold negotiate
  rw [outcome_bind_ok (outcome_get s), served?_of_unregistered unregistered]
  show outcome (makeFor m c) s = _
  unfold makeFor
  rw [outcome_bind_ok (outcome_get s), producer]
  rfl

end

/-- A connection that sends media refuses whatever only a client can do, or who receives media. All
that remains of such a request is the record that it was made, and there is nothing to deliver. -/
structure Move.Barred (x : Move) : Prop where
  connect : ∀ caller, x.task = .perform caller .connect → x.task.step x.found =
    ([.conclude (.failed (.wrongRole "connect" .passiveProducer))], x.task.underway x.found)
  reconnect : ∀ caller, x.task = .perform caller .reconnect → x.task.step x.found =
    ([.conclude (.failed (.wrongRole "reconnect" .passiveProducer))], x.task.underway x.found)
  request : ∀ m c, x.task.request? = some (m, c) → x.task.step x.found =
    ([.deliver, x.task.reply (.error (.wrongRole "get_track" .passiveProducer))],
      x.task.underway x.found)
  pending : x.left.pending = []

/-- A server has no events, because it makes no attempts. -/
theorem Move.pending_left_of_server {x : Move} (suits : x.task.Suits x.found.role)
    (server : x.found.role ≠ .activeProducer) (pending : x.found.pending = []) :
    x.left.pending = [] := by
  cases x.leads suits with
  | attempt attempts => exact absurd attempts.client server
  | deliver _ _ taken => exact taken
  | idle _ _ _ kept => rw [kept, pending]

theorem Move.barred {x : Move} (producer : x.found.role = .passiveProducer)
    (suits : x.task.Suits x.found.role) (pending : x.found.pending = [])
    (unregistered : x.found.control.receivers = []) : x.Barred := by
  refine ⟨?_, ?_, ?_, x.pending_left_of_server suits (by simp [producer]) pending⟩
  · intro caller kind
    have refused := outcome_connect_of_producer (s := x.found.log (.began .connect)) producer
    simp only [kind, Task.step, Task.begin, Task.whole_eq, refused]
    rfl
  · intro caller kind
    have refused := outcome_reconnect_of_producer (s := x.found.log (.began .reconnect)) producer
    rw [kind, Task.step_reconnect, refused, producer]
    rfl
  · intro m c kind
    have hu := Task.aside_underway x.task x.found
    have refused := outcome_negotiate_of_producer (hu.role.trans producer)
      (by rw [hu.control, unregistered]) m c
    rw [Task.step_request kind, Task.thenDeliver_eq, refused]

/-! ## Whole courses -/

/-- A session that a role can have. -/
structure Session.Bounded (role : Role) (s : Session) : Prop where
  kept : s.role = role
  pending : role ≠ .activeProducer → s.pending = []
  asked : Only (Entry.mayAsk role) s.history
  called : Only (Entry.mayCall role) s.history
  idle : role = .passiveConsumer → s.control.phase = .idle
  unregistered : role = .passiveProducer → s.control.receivers = []

section

variable {role : Role} {x : Move}

/-- A consumer, for which no frame handler sets the phase, has no reason to leave the idle phase. -/
theorem Move.idle_left (bounded : x.found.Bounded role) (befits : x.task.Befits role)
    (consumer : role = .passiveConsumer) : x.left.control.phase = .idle := by
  obtain rfl := bounded.kept
  have idle := bounded.idle consumer
  by_contra moved
  obtain ⟨later, before, -, cause⟩ :=
    (x.account befits.suits).cause (by rw [idle]; exact Ne.symm moved)
  rw [idle] at cause
  generalize x.task = t at cause befits
  generalize x.left.control.phase = p at cause
  cases cause with
  | connect _ client | negotiate _ _ _ _ client =>
    rw [consumer] at client
    cases client
  | stop _ _ _ differ => exact differ rfl
  | setPhase => exact befits consumer

theorem Move.unregistered_left (bounded : x.found.Bounded role) (befits : x.task.Befits role)
    (producer : role = .passiveProducer) : x.left.control.receivers = [] := by
  obtain rfl := bounded.kept
  have none := bounded.unregistered producer
  cases stop : x.isStop with
  | true => exact (Move.registries_left_of_isStop stop).1
  | false =>
    have registered := (x.registries_left befits.suits (by simp [none]) stop).receivers
    rw [registered, none, List.nil_append]
    cases kind : x.task.request? with
    | none => simp only [Move.received, kind]
    | some mc =>
      obtain ⟨m, c⟩ := mc
      have hu := Task.aside_underway x.task x.found
      have refused : x.result? = some (.error (.wrongRole "get_track" .passiveProducer)) := by
        have ended := outcome_negotiate_of_producer (hu.role.trans producer)
          (by rw [hu.control, none]) m c
        simp only [Move.result?, kind, Option.map_some, ended]
      exact received_of_error refused

/-- What a role allows is not exceeded by what befits it. -/
theorem Session.Bounded.step (bounded : x.found.Bounded role) (befits : x.task.Befits role) :
    x.left.Bounded role ∧ ∀ t ∈ (x.task.step x.found).1, t.Befits role := by
  have idle := x.idle_left bounded befits
  have unregistered := x.unregistered_left bounded befits
  obtain rfl := bounded.kept
  have onward := Task.onward_step befits.suits
  have called : Adds (Entry.mayCall x.found.role) x.found x.left := by
    by_cases consumer : x.found.role = .passiveConsumer
    · exact Task.calls_of_consumer consumer befits
    · by_cases client : x.found.role = .activeProducer
      · rw [client]
        exact .of_onward Entry.mayCall_client onward
      · exact Task.calls_of_producer consumer (befits.event? client)
  have asked : Adds (Entry.mayAsk x.found.role) x.found x.left := by
    by_cases client : x.found.role = .activeProducer
    · rw [client]
      exact .of_onward Entry.mayAsk_client onward
    · exact Task.adds_of_effect (x.effect befits.suits) client befits bounded.idle
  have pending (server : x.found.role ≠ .activeProducer) : x.left.pending = [] :=
    x.pending_left_of_server befits.suits server (bounded.pending server)
  exact ⟨⟨onward.role, pending, asked.only bounded.asked,
    called.only bounded.called, idle, unregistered⟩, Task.befits_step befits bounded.pending⟩

/-- By itself only a client becomes connected, when it dials. -/
theorem Move.connects (suits : x.task.Suits x.found.role)
    (before : x.found.control.phase ≠ .connected) (after : x.left.control.phase = .connected) :
    x.task = .perform .frameHandler (.setPhase .connected) ∨
      x.found.role = .activeProducer ∧ ∃ caller, x.task = .perform caller .connect := by
  obtain ⟨later, earlier, -, cause⟩ := (x.account suits).cause (by rw [after]; exact before)
  rw [after] at cause
  generalize x.task = t at cause
  generalize x.found.control.phase = p at cause
  cases cause with
  | connect caller client => exact Or.inr ⟨client, caller, rfl⟩
  | setPhase => exact Or.inl rfl

end

/-- Whatever is asked of a connection, by callers and by handlers, it does no more than its role
allows: a server that receives media calls nobody and is always idle; one that sends media has no
inbound track, and refuses to connect, to reconnect, and to get a track; and only a client becomes
connected, unless a frame handler has it so. -/
theorem Course.bounded_by_role (r : Course) :
    r.session.Bounded r.role ∧
    ∀ x ∈ r.moves, x.found.Bounded r.role ∧ x.left.Bounded r.role ∧
      (r.role = .passiveProducer → x.Barred) ∧
      (x.found.control.phase ≠ .connected → x.left.control.phase = .connected →
        x.task = .perform .frameHandler (.setPhase .connected) ∨
          r.role = .activeProducer ∧ ∃ caller, x.task = .perform caller .connect) := by
  have opened : r.beginning.session.Bounded r.role :=
    ⟨rfl, fun _ => rfl, .nil, .nil, fun _ => rfl, fun _ => rfl⟩
  have waiting : ∀ ts ∈ r.beginning.waiting, ∀ t ∈ ts, t.Befits r.role := by
    intro ts hts t ht
    obtain ⟨ops, -, rfl⟩ := List.mem_map.mp hts
    obtain ⟨op, -, rfl⟩ := List.mem_map.mp ht
    trivial
  obtain ⟨moves, session⟩ := Scene.forall_moves (P := Session.Bounded r.role)
    (Q := Task.Befits r.role) (fun t s befits bounded => bounded.step (x := ⟨t, s⟩) befits)
    opened waiting r.schedule
  refine ⟨session, ?_⟩
  intro x hx
  obtain ⟨befits, found, left⟩ := moves x hx
  refine ⟨found, left, ?_, ?_⟩
  · intro producer
    exact x.barred (found.kept.trans producer) (found.kept ▸ befits.suits)
      (found.pending (by simp [producer])) (found.unregistered producer)
  · intro before after
    rw [← found.kept] at befits ⊢
    exact Move.connects befits.suits before after

end RtspControl
