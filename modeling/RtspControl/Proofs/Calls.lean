import RtspControl.Proofs.Registries

/-!
# What the peer is asked

The peer hears of a connection by calls alone: the plain requests, and the negotiation of media
sections. `calls` reads them off a part of a history, the first one first. A call that the peer
does not grant ends the work it was made for, except that an old session need not be closed
properly; so among the calls of one piece of work only the last can be denied. `Explains` says
that a result and the calls go together in this way.

For a client that needs one more section the calls are known exactly (`Move.granted`): if the
session is playing it is built anew with all registered tracks, and then the section is negotiated.
-/

namespace RtspControl

open Session

/-! ## Calls and denials -/

/-- Something that the peer is asked. -/
inductive Call where
  | request (request : Request)
  | setUp (media : MediaSection)
  deriving DecidableEq

namespace Entry

def call? : Entry → Option Call
  | .requested r _ => some (.request r)
  | .setUp m _ => some (.setUp m)
  | _ => none

/-- The fault with which a call is denied. That an old session is not closed properly keeps
nobody from opening a new one, and does not count. -/
def denial? : Entry → Option Fault
  | .requested .close _ => none
  | .requested _ f => f
  | .setUp _ (.error f) => some f
  | _ => none

/-- Is this about something else than the peer? -/
def isSilent (e : Entry) : Bool := e.call?.isNone

/-- Is this not a call, or one that is granted? -/
def isGranted (e : Entry) : Bool := e.denial?.isNone

variable {e : Entry}

theorem isSilent_of_isAside (h : e.isAside = true) : e.isSilent = true := by
  cases e with
  | requested | setUp => simp [isAside] at h
  | _ => rfl

theorem isGranted_of_isSilent (h : e.isSilent = true) : e.isGranted = true := by
  cases e with
  | requested | setUp => simp [isSilent, call?] at h
  | _ => rfl

end Entry

/-- The calls that a part of a history tells of, the first one first. -/
def calls (es : List Entry) : List Call := es.reverse.filterMap Entry.call?

theorem calls_append (es es' : List Entry) : calls (es ++ es') = calls es' ++ calls es := by
  rw [calls, List.reverse_append, List.filterMap_append]
  rfl

theorem calls_cons (e : Entry) (es : List Entry) :
    calls (e :: es) = calls es ++ e.call?.toList := by
  rw [calls, List.reverse_cons, List.filterMap_append]
  cases h : e.call? <;> simp [calls, h]

abbrev Silent (es : List Entry) : Prop := Only Entry.isSilent es

abbrev Granted (es : List Entry) : Prop := Only Entry.isGranted es

/-- The last call is denied with a fault, and is the only one. -/
def Denied (f : Fault) (es : List Entry) : Prop :=
  ∃ e earlier, es = e :: earlier ∧ e.denial? = some f ∧ Granted earlier

/-- A result goes together with the calls: one that is denied gives its fault, and ends it all. -/
def Explains {α : Type} (es : List Entry) : Except Fault α → Prop
  | .ok _ => Granted es
  | .error f => Denied f es

section

variable {es es' : List Entry} {f : Fault}

theorem Silent.of_isAside (h : Only Entry.isAside es) : Silent es :=
  h.mono fun _ => Entry.isSilent_of_isAside

theorem Silent.opening (t : Task) : Silent t.opening := .of_isAside t.aside_opening

theorem Silent.granted (h : Silent es) : Granted es :=
  h.mono fun _ => Entry.isGranted_of_isSilent

theorem Silent.calls (h : Silent es) : calls es = [] := by
  refine List.filterMap_eq_nil_iff.mpr ?_
  intro e he
  exact Option.isNone_iff_eq_none.mp (h e (List.mem_reverse.mp he))

theorem Denied.head (e : Entry) (he : e.denial? = some f) (h : Granted es) : Denied f (e :: es) :=
  ⟨e, es, rfl, he, h⟩

theorem Denied.append (h : Denied f es) (h' : Granted es') : Denied f (es ++ es') := by
  obtain ⟨e, earlier, rfl, he, hes⟩ := h
  exact .head e he (hes.append h')

theorem Explains.append {α : Type} {r : Except Fault α} (h : Explains es r) (h' : Granted es') :
    Explains (es ++ es') r := by
  cases r with
  | ok a => exact Only.append h h'
  | error f => exact Denied.append h h'

end

/-! ## Building a session anew -/

namespace Control

/-- The registered tracks, the inbound ones first. -/
def registered (c : Control) : List Track := c.receivers ++ c.senders

/-- A connection that has got one more track, which is registered if it is inbound. -/
def granting (c : Control) (t : Track) : Control :=
  { c with
    phase := .ready
    receivers := c.receivers ++ if t.media.direction = .receiveOnly then [t] else [] }

end Control

/-- The calls with which a session is built anew for tracks. -/
def renewal (ts : List Track) : List Call :=
  [.request .close, .request .dial, .request .describe] ++ ts.map fun t => .setUp t.media

section

variable {ts : List Track} {es : List Entry}

theorem explains_of_replayed {r : Except Fault Unit} (h : Replayed ts r es) : Explains es r := by
  induction h with
  | done => exact Only.nil
  | refused t ts f => exact Denied.head _ rfl .nil
  | assigned channel later ih => exact ih.append (.cons rfl .nil)

theorem granted_of_dismissed (h : Dismissed es) : Granted es := by
  cases h with
  | closed => exact .cons rfl .nil
  | ignored f => exact .cons rfl (.cons rfl .nil)

theorem calls_of_dismissed (h : Dismissed es) : calls es = [.request .close] := by
  cases h <;> rfl

theorem explains_of_rebuilt {r : Except Fault Unit} (h : Rebuilt ts r es) : Explains es r := by
  have old {es : List Entry} (closing : Dismissed es) :
      Granted (es ++ [.note (.raised reconnectEvent)]) :=
    (granted_of_dismissed closing).append (.cons rfl .nil)
  cases h with
  | undialled closing f => exact Denied.head _ rfl (old closing)
  | undescribed closing f => exact Denied.head _ rfl (.cons rfl (old closing))
  | refused closing f replayed =>
    have h := explains_of_replayed replayed
    exact h.append (.cons rfl (.cons rfl (old closing)))
  | done closing receivers senders replayed =>
    have h := explains_of_replayed replayed
    exact Only.cons rfl (h.append (.cons rfl (.cons rfl (old closing))))

/-- Negotiating tracks again asks for all their sections, in order. -/
theorem calls_of_replayed {r : Except Fault Unit} (h : Replayed ts r es) (ok : r = .ok ()) :
    calls es = ts.map fun t => .setUp t.media := by
  induction h with
  | done => rfl
  | refused => cases ok
  | assigned channel later ih =>
    rw [calls_append, ih ok]
    rfl

theorem calls_of_rebuilt (h : Rebuilt ts (.ok ()) es) : calls es = renewal ts := by
  cases h with
  | done closing receivers senders replayed =>
    rw [calls_cons, calls_append, calls_of_replayed replayed rfl, calls_cons, calls_cons,
      calls_append, calls_of_dismissed closing]
    simp [calls, Entry.call?, renewal]

end

/-! ## One more section -/

section

variable {s s' : Session} {es : List Entry}

theorem granted_of_prepared (h : Prepared s s' es) : Granted es := by
  cases h with
  | ready => exact .nil
  | rebuilt playing rebuilt => exact explains_of_rebuilt rebuilt

theorem calls_of_prepared (h : Prepared s s' es) :
    calls es = if s.control.phase = .playing then renewal s.control.registered else [] := by
  cases h with
  | ready resting => rw [if_neg resting]; rfl
  | rebuilt playing rebuilt => rw [if_pos playing, calls_of_rebuilt rebuilt]; rfl

end

/-- What becomes of a connection when a client gets a track that was not registered. -/
theorem control_of_granted {m : MediaSection} {c : Codec} {t : Track}
    (h : Negotiation m c s (.ok t, s')) (client : s.role = .activeProducer)
    (miss : s.served? m c = none) :
    t.media = m ∧ t.codec = c ∧ s'.control = s.control.granting t := by
  cases h with
  | served t hit =>
    rw [miss] at hit
    cases hit
  | @assigned channel p s₁ es _ _ direction prepared =>
    refine ⟨rfl, rfl, ?_⟩
    show ((s₁.inPhase .ready).admitting (s.nextTrack m c channel)).control = _
    simp only [admitting, control_inPhase, prepared.control, Control.granting]
  | allotted channel _ server =>
    rw [client] at server
    cases server

namespace Move

variable {x : Move} {m : MediaSection} {c : Codec}

theorem entries_of_request {s' : Session} {es : List Entry} (hl : x.left = s')
    (hh : s'.history = es ++ (x.task.underway x.found).history) :
    x.entries = es ++ x.task.opening := by
  apply entries_of_history
  rw [hl, hh, Task.history_underway, List.append_assoc]

/-- The history of a request for which a channel is assigned. -/
theorem entries_of_assigned {channel : UInt8} {p : Peer} {s₁ : Session} {es : List Entry}
    (hl : x.left = (((s₁.inPhase .ready).admitting
      ((x.task.underway x.found).nextTrack m c channel)).heard p
        (.note (.trackCreated ((x.task.underway x.found).nextTrack m c channel)) ::
          .note (.mediaSetUp m channel) ::
            (moved (x.task.underway x.found).control.phase .ready ++
              .setUp m (.ok channel) :: es))))
    (prepared : Prepared (x.task.underway x.found) s₁ es) :
    ∃ later, Silent later ∧
      x.entries = later ++ .setUp m (.ok channel) :: (es ++ x.task.opening) := by
  refine ⟨.note (.trackCreated ((x.task.underway x.found).nextTrack m c channel)) ::
    .note (.mediaSetUp m channel) :: moved (x.task.underway x.found).control.phase .ready,
    .cons rfl (.cons rfl (.moved rfl)), ?_⟩
  rw [entries_of_request hl
    (by rw [history_heard, history_admitting, history_inPhase, prepared.history])]
  simp only [List.cons_append, List.append_assoc]

/-- A client's request that is granted by a negotiation: what the peer was asked for it, and what
became of the connection. -/
theorem granted (kind : x.task.request? = some (m, c)) (client : x.found.role = .activeProducer)
    (miss : x.found.served? m c = none) {t : Track} (ok : x.result? = some (.ok t)) :
    t.media = m ∧ t.codec = c ∧ x.left.control = x.found.control.granting t ∧
      calls x.entries =
        (if x.found.control.phase = .playing then renewal x.found.control.registered else [])
          ++ [.setUp m] := by
  obtain ⟨r, s', hr, hl, negotiation⟩ := x.negotiation kind
  obtain rfl : r = .ok t := Option.some.inj (hr.symm.trans ok)
  have hu := Task.aside_underway x.task x.found
  have hs := (served?_of_control (m := m) (c := c) hu.control).trans miss
  obtain ⟨hm, hc, control⟩ := control_of_granted negotiation (hu.role.trans client) hs
  rw [hu.control] at control
  refine ⟨hm, hc, by rw [hl, control], ?_⟩
  cases negotiation with
  | served t hit =>
    rw [hs] at hit
    cases hit
  | assigned channel p _ _ direction prepared =>
    obtain ⟨later, silent, he⟩ := entries_of_assigned hl prepared
    have asked := calls_of_prepared prepared
    rw [hu.control] at asked
    rw [he, calls_append, silent.calls, calls_cons, calls_append, (Silent.opening x.task).calls,
      asked]
    simp [Entry.call?]
  | allotted channel _ server =>
    rw [hu.role, client] at server
    cases server

end Move

end RtspControl
