import RtspControl.Proofs.Calls

/-!
# Attempts to build a session anew

A client makes an attempt to build the session anew when it reconnects, and for a request that the
registry does not serve on a session that is playing. However it ends, it closes the old session and
raises an event: this is `Session.Renewing`. Whatever is no attempt does neither, unless it stops
the connection: this is `Session.Retaining`.

`Move.leads` says what every move does to the events that wait and what follows for the agenda of
its caller, and `Move.attempts_iff` that attempts can be told from what the peer is asked.
-/

namespace RtspControl

open Session

/-! ## Old sessions -/

/-- Does a request have the session built anew? A client needs that if the registry does not serve
the request and the session is playing. -/
def Session.RebuildsFor (s : Session) (m : MediaSection) (c : Codec) : Prop :=
  s.role = .activeProducer ∧ s.served? m c = none ∧ m.direction ≠ .sendReceive ∧
    s.control.phase = .playing

theorem Session.rebuildsFor_of_aside {s s' : Session} {m : MediaSection} {c : Codec}
    (h : Aside s s') : s'.RebuildsFor m c ↔ s.RebuildsFor m c := by
  rw [RebuildsFor, RebuildsFor, h.role, h.control, served?_of_control h.control]

/-- Is this about anything else than the closing of a session? -/
def Entry.keepsOpen (e : Entry) : Bool := e.call? != some (.request .close)

theorem Only.keepsOpen_of_silent {es : List Entry} (h : Silent es) : Only Entry.keepsOpen es := by
  refine h.mono ?_
  intro e he
  rw [Entry.isSilent, Option.isNone_iff_eq_none] at he
  simp [Entry.keepsOpen, he]

theorem mem_calls_of_rebuilt {ts : List Track} {r : Except Fault Unit} {es : List Entry}
    (h : Rebuilt ts r es) : Call.request .close ∈ calls es := by
  cases h with
  | undialled closing | undescribed closing | refused closing | done closing =>
    simp [calls_append, calls_cons, calls_of_dismissed closing]

/-- An old session is closed, and the event that a new one is built waits for its delivery. -/
structure Session.Renewing (s s' : Session) : Prop where
  pending : s'.pending = s.alerted.pending
  history : ∃ later es, s'.history = later ++ (es ++ s.history) ∧ Call.request .close ∈ calls es

/-- No session is closed, and no event is raised. -/
structure Session.Retaining (s s' : Session) : Prop where
  pending : s'.pending = s.pending
  history : ∃ es, s'.history = es ++ s.history ∧ Only Entry.keepsOpen es

namespace Session.Retaining

variable {s s₁ s' : Session}

theorem trans (h : Retaining s s₁) (h' : Retaining s₁ s') : Retaining s s' := by
  obtain ⟨es, he, hes⟩ := h.history
  obtain ⟨es', he', hes'⟩ := h'.history
  refine ⟨h'.pending.trans h.pending, es' ++ es, ?_, hes'.append hes⟩
  rw [he', he, List.append_assoc]

theorem of_aside (h : Aside s s') (kept : s'.pending = s.pending) : Retaining s s' := by
  obtain ⟨es, he, hes⟩ := h.history
  exact ⟨kept, es, he, .keepsOpen_of_silent (.of_isAside hes)⟩

theorem of_apart (h : Apart s s') : Retaining s s' := of_aside h.toAside h.pending

theorem of_connecting {o : Except Fault Unit × Session} (h : Connecting s o) :
    Retaining s o.2 := by
  cases h with
  | refused => exact ⟨rfl, [], rfl, .nil⟩
  | undialled => exact ⟨rfl, [_], rfl, .cons rfl .nil⟩
  | undescribed => exact ⟨rfl, [_, _, _], rfl, .cons rfl (.cons rfl (.cons rfl .nil))⟩
  | connected =>
    exact ⟨rfl, [_, _, _, _], rfl, .cons rfl (.cons rfl (.cons rfl (.cons rfl .nil)))⟩

theorem of_passing {handled : Option Outcome} {o : Except Fault (Option Outcome) × Session}
    (h : Passing handled s o) : Retaining s o.2 := by
  cases h with
  | stopped es idle result h aside => exact ⟨rfl, es, rfl, .keepsOpen_of_silent (.of_isAside aside)⟩
  | first | early | busy | broken => exact ⟨rfl, [], rfl, .nil⟩
  | unplayed | served => exact ⟨rfl, [_], rfl, .cons rfl .nil⟩
  | played => exact ⟨rfl, [_, _], rfl, .cons rfl (.cons rfl .nil)⟩

/-- Only stopping, reconnecting and requests can close a session, and only a delivery takes the
events that wait. -/
theorem of_effect {t : Task} (h : Task.Effect t s s') (request : t.request? = none)
    (reconnect : ∀ caller, t ≠ .perform caller .reconnect)
    (stop : ∀ caller, t ≠ .perform caller .stop) (deliver : t ≠ .deliver) : Retaining s s' := by
  have logged {e : Entry} (he : e.isAside = true) : Retaining s (s.log e) := of_apart (.log s he)
  have silent {es : List Entry} (hes : Silent es) (op : Operation) :
      Only Entry.keepsOpen (es ++ [.began op]) :=
    .keepsOpen_of_silent (hes.append (.cons rfl .nil))
  cases h with
  | aside _ aside kept => exact of_aside aside (kept deliver)
  | connect _ connecting => exact (logged rfl).trans (of_connecting connecting)
  | stop kind => exact absurd kind (stop _)
  | unable kind | reconnect p kind => exact absurd kind (reconnect _)
  | unknown | barred => exact logged rfl
  | @addSender caller n times track =>
    exact ⟨rfl, _, rfl, silent (Only.replicate times rfl) _⟩
  | setPhase => exact ⟨rfl, _, rfl, silent (.moved rfl) _⟩
  | startless => exact of_apart (Task.apart_underway t s)
  | pass _ _ passing called kept =>
    have underway := of_apart (Task.apart_underway t s)
    exact (underway.trans (of_passing passing)).trans (of_aside called kept)
  | request kind =>
    rw [request] at kind
    cases kind

end Session.Retaining

/-- Whatever hooks do when tracks are closed, they leave the events alone. -/
theorem Session.pending_of_stopping {s : Session} {o : Except Fault Unit × Session}
    (h : Stopping s o) : o.2.pending = s.pending := by
  obtain ⟨s', hc, apart⟩ := Apart.closeAll (s.control.receivers ++ s.control.senders) s.emptied
  cases h with
  | idle _ _ closing =>
    cases hc.symm.trans closing
    exact apart.pending
  | tornDown _ _ _ _ closing =>
    cases hc.symm.trans closing
    exact apart.pending

/-- A request has the session built anew if that is needed, however that ends. -/
theorem Session.renewing_of_negotiation {s : Session} {m : MediaSection} {c : Codec}
    {o : Except Fault Track × Session} (h : Negotiation m c s o) :
    s.RebuildsFor m c ∧ s.Renewing o.2 ∨ ¬ s.RebuildsFor m c ∧ s.Retaining o.2 := by
  -- What comes after the preparations asks for the section only.
  have prepared (later : List Entry) {s' s'' : Session} {es : List Entry}
      (miss : s.served? m c = none)
      (client : s.role = .activeProducer) (direction : m.direction ≠ .sendReceive)
      (h : Prepared s s' es) (pending : s''.pending = s'.pending)
      (history : s''.history = later ++ (es ++ s.history)) (open_ : Only Entry.keepsOpen later) :
      s.RebuildsFor m c ∧ s.Renewing s'' ∨ ¬ s.RebuildsFor m c ∧ s.Retaining s'' := by
    cases h with
    | ready resting =>
      exact Or.inr ⟨fun h => resting h.2.2.2, pending, later, history, open_⟩
    | rebuilt playing rebuilt =>
      exact Or.inl ⟨⟨client, miss, direction, playing⟩, pending, later, es, history,
        mem_calls_of_rebuilt rebuilt⟩
  cases h with
  | served t hit =>
    refine Or.inr ⟨?_, rfl, [_], rfl, .cons rfl .nil⟩
    rintro ⟨-, miss, -⟩
    rw [miss] at hit
    cases hit
  | refused f miss client => exact Or.inr ⟨fun h => h.2.2.1 (client h.1), rfl, [], rfl, .nil⟩
  | unbuilt f p miss client direction playing rebuilt =>
    exact Or.inl ⟨⟨client, miss, direction, playing⟩, rfl, [], _, rfl,
      mem_calls_of_rebuilt rebuilt⟩
  | unassigned f p miss client direction h =>
    refine prepared [.setUp m (.error f)] miss client direction h rfl ?_ (.cons rfl .nil)
    rw [history_heard, h.history]
    rfl
  | assigned channel p miss client direction h =>
    refine prepared (.note (.trackCreated (s.nextTrack m c channel)) ::
      .note (.mediaSetUp m channel) :: (moved s.control.phase .ready ++ [.setUp m (.ok channel)]))
        miss client direction h rfl ?_ (.cons rfl (.cons rfl ?_))
    · rw [history_heard, history_admitting, history_inPhase, h.history]
      simp only [List.cons_append, List.append_assoc]
      rfl
    · exact (Only.keepsOpen_of_silent (.moved rfl)).append (.cons rfl .nil)
  | allotted channel miss server =>
    refine Or.inr ⟨?_, rfl, [_], rfl, .cons rfl .nil⟩
    rintro ⟨client, -⟩
    rw [server] at client
    cases client

namespace Task

def reconnects : Task → Bool
  | .perform _ .reconnect => true
  | _ => false

theorem reconnects_iff {t : Task} :
    t.reconnects = true ↔ ∃ caller, t = .perform caller .reconnect := by
  constructor
  · intro h
    unfold reconnects at h
    split at h
    · exact ⟨_, rfl⟩
    · cases h
  · rintro ⟨caller, rfl⟩
    rfl

theorem event?_reply (t : Task) (r : Except Fault Track) : (t.reply r).event? = none := by
  cases t with
  | fill m c next left tracks => cases left <;> cases r <;> rfl
  | _ => rfl

end Task

namespace Move

/-- Is an attempt made to build the session anew? -/
def Attempts (x : Move) : Prop :=
  (x.found.role = .activeProducer ∧ ∃ caller, x.task = .perform caller .reconnect) ∨
    ∃ m c, x.task.request? = some (m, c) ∧ x.found.RebuildsFor m c

/-- How an operation that may raise events goes on when they are delivered: it returns, or asks
for the next of several tracks. -/
def reply? (x : Move) : Option Task :=
  match x.task with
  | .perform _ .reconnect =>
    some (.conclude (.ofOutcome (outcome reconnect (x.task.underway x.found)).1))
  | t => x.result?.map t.reply

/-- What a move does to the events that wait, and what it puts on the agenda of its caller. -/
inductive Leads (x : Move) : Prop where
  | attempt (attempts : x.Attempts) (t : Task) (reply : x.reply? = some t)
      (quiet : t.event? = none) (next : (x.task.step x.found).1 = [.deliver, t])
      (raised : x.left.pending = x.found.alerted.pending)
  | deliver (kind : x.task = .deliver)
      (next : (x.task.step x.found).1 = x.found.pending.map .react)
      (taken : x.left.pending = [])
  | idle (unattempted : ¬ x.Attempts) (kind : x.task ≠ .deliver)
      (quiet : ∀ t ∈ (x.task.step x.found).1, t.event? = none)
      (kept : x.left.pending = x.found.pending)

variable {x : Move} {m : MediaSection} {c : Codec}

/-- Only a client builds sessions anew. -/
theorem Attempts.client (h : x.Attempts) : x.found.role = .activeProducer := by
  rcases h with ⟨client, -⟩ | ⟨m, c, -, client, -⟩ <;> exact client

theorem not_attempts (hr : x.task.request? = none)
    (hn : ∀ caller, x.task ≠ .perform caller .reconnect) : ¬ x.Attempts := by
  rintro (⟨-, caller, ht⟩ | ⟨m, c, ht, -⟩)
  · exact hn caller ht
  · rw [hr] at ht
    cases ht

theorem attempts_iff_of_request (kind : x.task.request? = some (m, c)) :
    x.Attempts ↔ x.found.RebuildsFor m c := by
  constructor
  · rintro (⟨-, caller, ht⟩ | ⟨m', c', ht, h⟩)
    · rw [ht] at kind
      cases kind
    · obtain ⟨rfl, rfl⟩ := Prod.mk.inj (Option.some.inj (ht.symm.trans kind))
      exact h
  · intro h
    exact Or.inr ⟨m, c, kind, h⟩

theorem attempts_iff_of_reconnect {caller : Caller} (kind : x.task = .perform caller .reconnect) :
    x.Attempts ↔ x.found.role = .activeProducer := by
  constructor
  · rintro (⟨client, -⟩ | ⟨m, c, ht, -⟩)
    · exact client
    · rw [kind] at ht
      cases ht
  · intro client
    exact Or.inl ⟨client, caller, kind⟩

instance (s : Session) (m : MediaSection) (c : Codec) : Decidable (s.RebuildsFor m c) :=
  inferInstanceAs (Decidable (_ ∧ _ ∧ _ ∧ _))

instance (x : Move) : Decidable x.Attempts :=
  decidable_of_iff
    ((x.found.role = .activeProducer ∧ x.task.reconnects = true) ∨
      ∃ request ∈ x.task.request?, x.found.RebuildsFor request.1 request.2) (by
    rw [Attempts, Task.reconnects_iff, Prod.exists]
    rfl)

/-- An operation makes an attempt that raises the event, or neither. -/
def Raises (x : Move) : Prop :=
  x.Attempts ∧ (x.task.underway x.found).Renewing x.left ∨
    ¬ x.Attempts ∧ (x.task.underway x.found).Retaining x.left

theorem raises_of_reconnect {caller : Caller} (kind : x.task = .perform caller .reconnect) :
    x.Raises := by
  have hu := Task.aside_underway x.task x.found
  rw [Raises, attempts_iff_of_reconnect kind, ← hu.role, left_of_reconnect kind]
  obtain ⟨server, hr⟩ | ⟨r, p, es, client, hr, rebuilt⟩ :=
    Task.outcome_reconnect (x.task.underway x.found)
  · rw [hr]
    exact Or.inr ⟨server, rfl, [], rfl, .nil⟩
  · rw [hr]
    exact Or.inl ⟨client, rfl, [], es, rfl, mem_calls_of_rebuilt rebuilt⟩

theorem raises_of_request (kind : x.task.request? = some (m, c)) :
    x.Raises := by
  have hu := Task.aside_underway x.task x.found
  rw [Raises, attempts_iff_of_request kind, ← rebuildsFor_of_aside hu, left_of_request kind]
  exact renewing_of_negotiation (outcome_negotiate m _ c)

/-- An operation that may raise events goes on when those that wait are delivered. -/
theorem Leads.of_raises {t : Task} (h : x.Raises) (reply : x.reply? = some t)
    (quiet : t.event? = none) (kind : x.task ≠ .deliver)
    (next : (x.task.step x.found).1 = [.deliver, t] ∨
      ¬ x.Attempts ∧ (x.task.step x.found).1 = [t]) : x.Leads := by
  have hu := Task.apart_underway x.task x.found
  rcases h with ⟨attempts, renewing⟩ | ⟨unattempted, retaining⟩
  · refine .attempt attempts t reply quiet (next.resolve_right fun h => h.1 attempts) ?_
    rw [renewing.pending, alerted, alerted, hu.pending, hu.monitored]
  · refine .idle unattempted kind ?_ (retaining.pending.trans hu.pending)
    rcases next with next | ⟨-, next⟩
    · rw [next]
      exact List.forall_mem_cons.mpr ⟨rfl, List.forall_mem_singleton.mpr quiet⟩
    · rw [next]
      exact List.forall_mem_singleton.mpr quiet

theorem Leads.of_reconnect {caller : Caller} (kind : x.task = .perform caller .reconnect) :
    x.Leads := by
  obtain ⟨t, s⟩ := x
  obtain rfl : t = .perform caller .reconnect := kind
  have attempts := attempts_iff_of_reconnect (x := ⟨.perform caller .reconnect, s⟩) rfl
  have step := Task.step_reconnect caller s
  refine .of_raises (raises_of_reconnect rfl) rfl rfl nofun ?_
  by_cases client : s.role = .activeProducer
  · rw [if_pos client] at step
    exact .inl (congrArg Prod.fst step)
  · rw [if_neg client] at step
    exact .inr ⟨fun h => client (attempts.mp h), congrArg Prod.fst step⟩

theorem Leads.of_request (kind : x.task.request? = some (m, c)) : x.Leads := by
  have reply : x.reply? =
      some (x.task.reply (outcome (negotiate m c) (x.task.underway x.found)).1) := by
    unfold reply?
    split
    · next ht =>
      rw [ht] at kind
      cases kind
    · rw [result?, kind]
      rfl
  have other : x.task ≠ .deliver := by
    intro ht
    rw [ht] at kind
    cases kind
  have step := Task.step_request kind x.found
  rw [Task.thenDeliver_eq] at step
  exact .of_raises (raises_of_request kind) reply (Task.event?_reply x.task _) other
    (.inl (congrArg Prod.fst step))

/-- What neither makes an attempt nor takes the events leaves them alone. -/
theorem Leads.of_other (suits : x.task.Suits x.found.role) (request : x.task.request? = none)
    (reconnect : ∀ caller, x.task ≠ .perform caller .reconnect) (deliver : x.task ≠ .deliver) :
    x.Leads := by
  have quiet : ∀ t ∈ (x.task.step x.found).1, t.event? = none :=
    Task.forall_step (P := fun t => t.event? = none) (fun _ => rfl) (fun _ => rfl) rfl rfl
      (fun _ _ _ _ _ => rfl) suits (fun _ => ⟨fun _ => rfl, fun _ => rfl⟩)
      fun kind => absurd kind deliver
  refine .idle (not_attempts request reconnect) deliver quiet ?_
  by_cases stops : ∃ caller, x.task = .perform caller .stop
  · obtain ⟨caller, kind⟩ := stops
    obtain ⟨t, s⟩ := x
    obtain rfl : t = .perform caller .stop := kind
    simp only [left, Task.step, Task.begin, Task.whole_eq]
    exact (pending_of_stopping (outcome_stop (s.log (.began .stop)))).trans rfl
  · exact (Retaining.of_effect (x.effect suits) request reconnect (not_exists.mp stops)
      deliver).pending

/-- An attempt raises its event, which its caller delivers next unless somebody else has done so;
there are no other events. -/
theorem leads (suits : x.task.Suits x.found.role) : x.Leads := by
  by_cases deliver : x.task = .deliver
  · obtain ⟨t, s⟩ := x
    obtain rfl : t = .deliver := deliver
    exact .deliver rfl rfl rfl
  cases request : x.task.request? with
  | some mc => exact .of_request request
  | none =>
    by_cases reconnects : ∃ caller, x.task = .perform caller .reconnect
    · obtain ⟨caller, kind⟩ := reconnects
      exact .of_reconnect kind
    · exact .of_other suits request (not_exists.mp reconnects) deliver

/-! ### Attempts as the peer sees them -/

end Move

end RtspControl
