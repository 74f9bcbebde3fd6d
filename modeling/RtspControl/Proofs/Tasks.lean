import RtspControl.Proofs.Negotiating
import RtspControl.Proofs.Lifecycle

/-!
# What single tasks do

A task is one piece of work under the connection's lock. Of the tasks that there are, only
seven kinds are about the connection: the operations `connect`, `stop`, `reconnect`,
`addSender` and `setPhase`, the passes of `start`, and the requests for a track, which come
from `getTrack` and from the rounds of `fill`. `Task.kinds` is the case distinction; the
lemmas named `step_` trace each kind back to the action that it consists of.
-/

namespace RtspControl

namespace Task

open Session

/-! ## Kinds of tasks -/

/-- The request for a track that a task makes, if it makes one. -/
def request? : Task → Option (MediaSection × Codec)
  | .perform _ (.getTrack m c) => some (m, c)
  | .fill m c next (_ + 1) _ => some (m, numbered c next)
  | _ => none

def reply : Task → Except Fault Track → Task
  | .fill m c next (left + 1) tracks, r => fillNext m c next left tracks r
  | _, r => .conclude (trackAnswer r)

/-- What `start` knows on the pass that a task is, if it is one: what the frame handler has
returned, unless the pass is the first. -/
def pass? : Task → Option (Option Outcome)
  | .perform _ .start => some none
  | .handled result => some (some result)
  | _ => none

/-- The event that a task delivers, if it delivers one. -/
def event? : Task → Option String
  | .react event => some event
  | _ => none

/-- Is a task about something other than the connection? -/
def isAside : Task → Bool
  | .perform _ op =>
    match op with
    | .connect | .start | .stop | .reconnect | .getTrack _ _ => false
    | .addSender _ _ | .setPhase _ => false
    | _ => true
  | .handled _ => false
  | .fill _ _ _ left _ => left == 0
  | _ => true

/-- The session in which a task does its work, once its beginning is on record. -/
def underway : Task → Session → Session
  | .perform _ op, s => s.log (.began op)
  | .handled result, s => s.log (.handled result)
  | .fill _ _ _ _ tracks, s => s.acquaintAll tracks
  | _, s => s

/-- What the history says about the beginning of a task. -/
def opening : Task → List Entry
  | .perform _ op => [.began op]
  | .handled result => [.handled result]
  | _ => []

@[elab_as_elim]
theorem kinds {motive : Task → Prop}
    (aside : ∀ t : Task, t.isAside = true → motive t)
    (connect : ∀ caller, motive (.perform caller .connect))
    (stop : ∀ caller, motive (.perform caller .stop))
    (reconnect : ∀ caller, motive (.perform caller .reconnect))
    (addSender : ∀ caller n times, motive (.perform caller (.addSender n times)))
    (setPhase : ∀ caller p, motive (.perform caller (.setPhase p)))
    (pass : ∀ t handled, t.pass? = some handled → motive t)
    (request : ∀ t m c, t.request? = some (m, c) → motive t)
    (t : Task) : motive t := by
  cases t with
  | perform caller op =>
    cases op with
    | connect => exact connect caller
    | start => exact pass _ none rfl
    | stop => exact stop caller
    | reconnect => exact reconnect caller
    | getTrack m c => exact request _ m c rfl
    | addSender n times => exact addSender caller n times
    | setPhase p => exact setPhase caller p
    | _ => exact aside _ rfl
  | handled result => exact pass _ _ rfl
  | fill m c next left tracks =>
    cases left with
    | zero => exact aside _ rfl
    | succ left => exact request _ m (numbered c next) rfl
  | _ => exact aside _ rfl

theorem request?_of_isAside {t : Task} (h : t.isAside = true) : t.request? = none := by
  cases t with
  | perform caller op =>
    cases op with
    | getTrack => simp only [isAside, Bool.false_eq_true] at h
    | _ => rfl
  | fill m c next left tracks =>
    cases left with
    | zero => rfl
    | succ left => simp [isAside] at h
  | _ => rfl

theorem request?_of_pass? {t : Task} {handled : Option Outcome}
    (h : t.pass? = some handled) : t.request? = none := by
  cases t with
  | perform caller op =>
    cases op with
    | getTrack => simp only [pass?, reduceCtorEq] at h
    | _ => rfl
  | fill => simp only [pass?, reduceCtorEq] at h
  | _ => rfl

theorem apart_underway (t : Task) (s : Session) : Apart s (t.underway s) := by
  cases t with
  | perform caller op => exact .log s rfl
  | handled result => exact .log s rfl
  | fill m c next left tracks => exact .acquaintAll tracks s
  | _ => exact .refl s

theorem aside_underway (t : Task) (s : Session) : Aside s (t.underway s) :=
  (apart_underway t s).toAside

theorem aside_opening (t : Task) : Only Entry.isAside t.opening := by
  cases t with
  | perform | handled => exact .cons rfl .nil
  | _ => exact .nil

theorem acquaintAll_eq (ts : List Track) (s : Session) :
    s.acquaintAll ts = { s with tracks := (s.acquaintAll ts).tracks } := by
  unfold acquaintAll
  induction ts generalizing s with
  | nil => rfl
  | cons t ts ih =>
    rw [List.foldl_cons, ih, acquaint]
    split <;> rfl

theorem history_underway (t : Task) (s : Session) :
    (t.underway s).history = t.opening ++ s.history := by
  cases t with
  | fill m c next left tracks =>
    rw [underway, acquaintAll_eq]
    rfl
  | _ => rfl

theorem peer_underway (t : Task) (s : Session) : (t.underway s).peer = s.peer := by
  cases t with
  | fill m c next left tracks => rw [underway, acquaintAll_eq]
  | _ => rfl

/-! ## From tasks to actions -/

theorem whole_eq (x : Action Unit) (s : Session) :
    whole x s = ([.conclude (.ofOutcome (outcome x s).1)], (outcome x s).2) := by
  simp only [whole, outcome]
  cases x s <;> rfl

theorem thenDeliver_eq {α : Type} (x : Action α) (next : Except Fault α → Task) (s : Session) :
    thenDeliver x next s = ([.deliver, next (outcome x s).1], (outcome x s).2) := by
  simp only [thenDeliver, outcome]
  cases x s <;> rfl

/-- Only a client goes on to deliver events when it has reconnected. -/
theorem step_reconnect (caller : Caller) (s : Session) :
    step (.perform caller .reconnect) s =
      ((if s.role = .activeProducer then [.deliver] else []) ++
        [.conclude (.ofOutcome (outcome reconnect (s.log (.began .reconnect))).1)],
      (outcome reconnect (s.log (.began .reconnect))).2) := by
  simp only [step, begin, role_log]
  cases s.role with
  | activeProducer => exact thenDeliver_eq ..
  | _ => exact whole_eq ..

theorem step_request {t : Task} {m : MediaSection} {c : Codec} (h : t.request? = some (m, c))
    (s : Session) : t.step s = thenDeliver (negotiate m c) t.reply (t.underway s) := by
  cases t with
  | perform caller op =>
    cases op <;> simp only [request?, Option.some.injEq, Prod.mk.injEq, reduceCtorEq] at h
    obtain ⟨rfl, rfl⟩ := h
    rfl
  | fill m c next left tracks =>
    cases left with
    | zero => simp only [request?, reduceCtorEq] at h
    | succ left =>
      simp only [request?, Option.some.injEq, Prod.mk.injEq] at h
      obtain ⟨rfl, rfl⟩ := h
      rfl
  | _ => simp only [request?, reduceCtorEq] at h

/-- What comes of a pass of `start` that has left `s`: the operation ends, or the frame handler is
called, for the first step that is left if there is one. -/
inductive Following (s : Session) : List Task × Session → Prop where
  | ended (a : Answer) (trackless : a.tracks = []) : Following s ([.conclude a], s)
  | unattended (a : Answer) (complaint : List Entry) (trackless : a.tracks = [])
      (steps : s.script.steps = [])
      (later : complaint = [] ∨ ∃ f, complaint = [.note (.handlerExited f)]) :
      Following s ([.conclude a], { s with history := complaint ++ .unattended :: s.history })
  | step (step : Step) (rest : List Step) (steps : s.script.steps = step :: rest) :
      Following s (step.operations.map (.perform .frameHandler) ++ [.handled step.result],
        { s with script := { s.script with steps := rest } }.log .handling)

/-- On a connection that has been stopped, a frame handler that fails ends `start` all the same. -/
theorem runPass_of_idle {s : Session} (idle : s.control.phase = .idle) (f : Fault) :
    runPass (some (.error f)) s =
      ([.conclude (.ofOutcome (.ok ()))], s.log (.note (.handlerExited f))) := by
  obtain ⟨_, _, _, _, ⟨p, _, _⟩, _, _, _, _, _⟩ := s
  obtain rfl : p = .idle := idle
  rfl

theorem runPass_of_playing {s : Session} (playing : s.control.phase = .playing)
    (result : Outcome) :
    runPass (some result) s = ([.conclude (.ofOutcome result)], s) := by
  obtain ⟨_, _, _, _, ⟨p, _, _⟩, _, _, _, _, _⟩ := s
  obtain rfl : p = .playing := playing
  rfl

/-- The frame handler is called for its next step. If it has none left it fails, and the pass that
comes after that is the last. -/
theorem following_callHandler {s : Session}
    (phase : s.control.phase = .idle ∨ s.control.phase = .playing) :
    Following s (callHandler s) := by
  cases steps : s.script.steps with
  | nil =>
    rw [callHandler_of_no_steps steps phase]
    rcases phase with idle | playing
    · rw [runPass_of_idle (s := s.log .unattended) idle]
      exact .unattended _ [_] rfl steps (.inr ⟨_, rfl⟩)
    · rw [runPass_of_playing (s := s.log .unattended) playing]
      exact .unattended _ [] rfl steps (.inl rfl)
  | cons step rest =>
    unfold callHandler
    rw [steps]
    exact .step step rest steps

/-- A pass that calls the frame handler leaves the connection as that may find it. -/
theorem phase_of_calling {handled : Option Outcome} {s s' : Session}
    (passing : Passing handled s (.ok none, s')) :
    s'.control.phase = .idle ∨ s'.control.phase = .playing := by
  cases passing with
  | first idle => exact .inl idle
  | played | served => exact .inr rfl

theorem following_runPass (handled : Option Outcome) (s : Session) :
    Following (outcome (pass handled) s).2 (runPass handled s) := by
  have passing := outcome_pass handled s
  simp only [runPass, outcome] at passing ⊢
  cases h : pass handled s with
  | ok r s' =>
    rcases r with _ | ⟨f | ⟨⟩⟩
    · rw [h] at passing
      exact following_callHandler (phase_of_calling passing)
    · exact .ended _ rfl
    · exact .ended _ rfl
  | error f s' => exact .ended _ rfl

/-- Once a pass is over nothing more happens to the connection, whether the frame handler is
called or `start` ends. -/
theorem apart_runPass (handled : Option Outcome) (s : Session) :
    Apart (outcome (pass handled) s).2 (runPass handled s).2 := by
  have following := following_runPass handled s
  generalize runPass handled s = r at following ⊢
  cases following with
  | ended => exact .refl _
  | unattended a complaint trackless steps later =>
    rcases later with rfl | ⟨f, rfl⟩
    · exact .log _ rfl
    · exact (Apart.log _ rfl).trans (.log _ rfl)
  | step step rest steps =>
    exact .trans (.unguarded _ _ _ (Nat.le_refl _) (List.Subset.refl _)) (.log _ rfl)

/-- A frame handler returns only to a role that has called one. -/
def Suits (role : Role) : Task → Prop
  | .handled _ => role ≠ .passiveConsumer
  | _ => True

/-- For a role that has no `start`, there is nothing but first passes. -/
theorem startless_pass {t : Task} {handled : Option Outcome} (h : t.pass? = some handled)
    {role : Role} (consumer : role = .passiveConsumer) (suits : t.Suits role) :
    t.pass? = some none := by
  cases t with
  | perform caller op =>
    cases op <;> simp only [pass?, Option.some.injEq, reduceCtorEq] at h
    rfl
  | handled result => exact absurd consumer suits
  | _ => simp only [pass?, reduceCtorEq] at h

/-- A pass looks at the phase, unless the role has no `start`. -/
theorem step_pass {t : Task} {handled : Option Outcome} (h : t.pass? = some handled)
    (s : Session) (suits : t.Suits s.role) :
    (s.role ≠ .passiveConsumer ∧ t.step s = runPass handled (t.underway s)) ∨
      (s.role = .passiveConsumer ∧
        t.step s = answer (.failed (.wrongRole "start" s.role)) (t.underway s)) := by
  cases t with
  | perform caller op =>
    cases op <;> simp only [pass?, Option.some.injEq, reduceCtorEq] at h
    subst h
    cases hr : s.role <;>
      simp only [step, begin, role_log, hr, underway, ne_eq, reduceCtorEq, not_true_eq_false,
        not_false_eq_true, true_and, false_and, false_or, or_false]
  | handled result =>
    simp only [pass?, Option.some.injEq] at h
    subst h
    exact Or.inl ⟨suits, rfl⟩
  | _ => simp only [pass?, reduceCtorEq] at h

/-- Tasks that are not about the connection leave it alone, and the events too, unless they are to
be delivered. -/
theorem apart_step {t : Task} (h : t.isAside = true) (other : t ≠ .deliver) (s : Session) :
    Apart s (t.step s).2 := by
  cases t with
  | deliver => exact absurd rfl other
  | perform caller op =>
    have hl : Apart s (s.log (.began op)) := .log s rfl
    refine hl.trans ?_
    cases op with
    | connect | start | stop | reconnect | getTrack | addSender | setPhase =>
      simp only [isAside, Bool.false_eq_true] at h
    | newTrack m c channel => exact .makeTrack m c channel _
    | closeTrack n =>
      simp only [step, begin]
      split
      · rw [whole_eq]
        exact .closeTrack _ _
      · exact .refl _
    | showControl =>
      simp only [step, begin, throughControl]
      split <;> exact .refl _
    | fill | showRole | showTimeout | showDescriptor => exact .refl _
    | _ =>
      simp only [step, begin]
      split
      · next h => exact .lockFree h
      · exact .refl _
  | conclude a => exact .conclude a false s
  | handled result => simp only [isAside, Bool.false_eq_true] at h
  | react event =>
    simp only [step, callReaction]
    have hl : Apart s ((s.acquaintAll (s.control.receivers ++ s.control.senders)).log
        (.reacting event s.control)) := (Apart.acquaintAll _ s).trans (.log _ rfl)
    refine hl.trans ?_
    split
    · exact .refl _
    · exact .unguarded _ _ _ (Nat.le_refl _) (List.Subset.refl _)
  | reacted => exact .log s rfl
  | fill m c next left tracks =>
    cases left with
    | zero => exact .acquaintAll tracks s
    | succ left => simp [isAside] at h

theorem aside_step {t : Task} (h : t.isAside = true) (s : Session) : Aside s (t.step s).2 := by
  by_cases deliver : t = .deliver
  · subst deliver
    exact ⟨rfl, rfl, rfl, rfl, Nat.le_refl _, List.Subset.refl _, [], rfl, List.forall_mem_nil _⟩
  · exact (apart_step h deliver s).toAside

/-! ## The remaining operations -/

theorem outcome_reconnect (s : Session) :
    (s.role ≠ .activeProducer ∧ (outcome reconnect s).2 = s) ∨
      ∃ r p es, s.role = .activeProducer ∧ (outcome reconnect s).2 = s.alerted.heard p es ∧
        Rebuilt (s.control.receivers ++ s.control.senders) r es := by
  unfold reconnect
  rw [outcome_bind_ok (outcome_get s), outcome_bind, outcome_require]
  by_cases client : s.role = .activeProducer
  · rw [if_pos client]
    obtain ⟨r, p, es, h, hes⟩ := outcome_rebuild s
    exact Or.inr ⟨r, p, es, client, congrArg Prod.snd h, hes⟩
  · rw [if_neg client]
    exact Or.inl ⟨client, rfl⟩

theorem step_addSender (caller : Caller) (n times : Nat) (s : Session) :
    (step (.perform caller (.addSender n times)) s).2 =
      match s.track? n with
      | some t => (outcome (addSenders t times) (s.log (.began (.addSender n times)))).2
      | none => s.log (.began (.addSender n times)) := by
  simp only [step, begin]
  have ht : (s.log (.began (.addSender n times))).track? n = s.track? n := rfl
  rw [ht]
  cases s.track? n with
  | some t => simp only [whole_eq]
  | none => rfl

/-- Only a frame handler moves a connection to a phase of its choice. -/
theorem step_setPhase (caller : Caller) (p : Phase) (s : Session) :
    (step (.perform caller (.setPhase p)) s).2 =
      if caller = .frameHandler then
        ((s.inPhase p).heard s.peer (moved s.control.phase p ++ [.began (.setPhase p)]))
      else s.log (.began (.setPhase p)) := by
  simp only [step, begin, throughControl]
  split
  · have h := outcome_enter (s.log (.began (.setPhase p))) p
    show after (enter p) (s.log (.began (.setPhase p))) = _
    rw [after_eq, h, log_eq_heard, inPhase_heard, heard_heard]
    rfl
  · rfl

/-! ## All that a task can do -/

/-- The ways in which a task can change a session. The proofs about runs argue by cases on
these, and each case is settled by the lists of `Connecting`, `Stopping` and so on. -/
inductive Effect (t : Task) (s : Session) : Session → Prop where
  | aside {s' : Session} (kind : t.isAside = true) (aside : Aside s s')
      (kept : t ≠ .deliver → s'.pending = s.pending) : Effect t s s'
  | connect {caller : Caller} {r : Except Fault Unit} {s' : Session}
      (kind : t = .perform caller .connect)
      (connecting : Connecting (s.log (.began .connect)) (r, s')) : Effect t s s'
  | stop {caller : Caller} {r : Except Fault Unit} {s' : Session}
      (kind : t = .perform caller .stop)
      (stopping : Stopping (s.log (.began .stop)) (r, s')) : Effect t s s'
  | unable {caller : Caller} (kind : t = .perform caller .reconnect)
      (server : s.role ≠ .activeProducer) : Effect t s (s.log (.began .reconnect))
  | reconnect {caller : Caller} {r : Except Fault Unit} {es : List Entry} (p : Peer)
      (kind : t = .perform caller .reconnect) (client : s.role = .activeProducer)
      (rebuilt : Rebuilt (s.control.receivers ++ s.control.senders) r es) :
      Effect t s ((s.log (.began .reconnect)).alerted.heard p es)
  | unknown {caller : Caller} {n times : Nat} (kind : t = .perform caller (.addSender n times))
      (unknown : s.track? n = none) : Effect t s (s.log (.began (.addSender n times)))
  | addSender {caller : Caller} {n times : Nat} (track : Track)
      (kind : t = .perform caller (.addSender n times)) (known : s.track? n = some track) :
      Effect t s ((s.sending (List.replicate times track)).heard s.peer
        (List.replicate times (.note (.senderRegistered track)) ++ [.began (.addSender n times)]))
  | barred {caller : Caller} {p : Phase} (kind : t = .perform caller (.setPhase p))
      (barred : caller ≠ .frameHandler) : Effect t s (s.log (.began (.setPhase p)))
  | setPhase {p : Phase} (kind : t = .perform .frameHandler (.setPhase p)) :
      Effect t s ((s.inPhase p).heard s.peer (moved s.control.phase p ++ [.began (.setPhase p)]))
  | startless (kind : t.pass? = some none) (consumer : s.role = .passiveConsumer) :
      Effect t s (t.underway s)
  | pass {handled : Option Outcome} {r : Except Fault (Option Outcome)} {s₁ s' : Session}
      (kind : t.pass? = some handled) (producer : s.role ≠ .passiveConsumer)
      (passing : Passing handled (t.underway s) (r, s₁)) (called : Aside s₁ s')
      (kept : s'.pending = s₁.pending) : Effect t s s'
  | request {m : MediaSection} {c : Codec} {r : Except Fault Track} {s' : Session}
      (kind : t.request? = some (m, c))
      (ended : outcome (negotiate m c) (t.underway s) = (r, s'))
      (negotiation : Negotiation m c (t.underway s) (r, s')) : Effect t s s'

/-- All that has happened in a pass when the frame handler is called or `start` ends. -/
theorem history_called {t : Task} {s s₁ s' : Session} (called : Aside s₁ s') :
    ∃ es, Only Entry.isAside es ∧ ∀ es₁, s₁.history = es₁ ++ (t.underway s).history →
      s'.history = (es ++ (es₁ ++ t.opening)) ++ s.history := by
  obtain ⟨es, he, hes⟩ := called.history
  refine ⟨es, hes, fun es₁ hh => ?_⟩
  rw [he, hh, history_underway, List.append_assoc, List.append_assoc]

/-- All that has happened when the tracks are closed that were registered before a stop. -/
theorem history_closed {s s₁ : Session} {op : Operation}
    (closed : Aside (s.log (.began op)).emptied s₁) :
    ∃ es, s₁.history = es ++ s.history ∧ Only Entry.isAside es := by
  obtain ⟨es, he, hes⟩ := closed.history
  refine ⟨es ++ [.began op], ?_, Only.append hes (.cons rfl .nil)⟩
  rw [he, List.append_assoc]
  rfl

theorem effect {t : Task} {s : Session} (suits : t.Suits s.role) : Effect t s (t.step s).2 := by
  induction t using kinds with
  | aside t h => exact .aside h (aside_step h s) fun other => (apart_step h other s).pending
  | connect caller =>
    have h : (step (.perform caller .connect) s).2 =
        (outcome Session.connect (s.log (.began .connect))).2 := by
      simp only [step, begin, whole_eq]
    rw [h]
    exact .connect rfl (outcome_connect _)
  | stop caller =>
    have h : (step (.perform caller .stop) s).2 =
        (outcome Session.stop (s.log (.began .stop))).2 := by
      simp only [step, begin, whole_eq]
    rw [h]
    exact .stop rfl (outcome_stop _)
  | reconnect caller =>
    rw [step_reconnect]
    obtain ⟨server, hr⟩ | ⟨r, p, es, client, hr, rebuilt⟩ :=
      outcome_reconnect (s.log (.began .reconnect))
    · rw [hr]
      exact .unable rfl server
    · rw [hr]
      exact .reconnect p rfl client rebuilt
  | addSender caller n times =>
    rw [step_addSender]
    cases h : s.track? n with
    | none => exact .unknown rfl h
    | some track =>
      simp only [outcome_addSenders]
      rw [sending_log, log_eq_heard, heard_heard]
      exact .addSender track rfl h
  | setPhase caller p =>
    rw [step_setPhase]
    split
    · next h =>
      subst h
      exact .setPhase rfl
    · next h => exact .barred rfl h
  | pass t handled h =>
    obtain ⟨producer, hs⟩ | ⟨consumer, hs⟩ := step_pass h s suits
    · rw [hs]
      have apart := apart_runPass handled (t.underway s)
      exact .pass h producer (outcome_pass _ _) apart.toAside apart.pending
    · rw [hs]
      exact .startless (startless_pass h consumer suits) consumer
  | request t m c h =>
    rw [step_request h, thenDeliver_eq]
    exact .request h rfl (outcome_negotiate _ _ _)

end Task

end RtspControl
