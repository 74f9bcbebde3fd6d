import RtspControl.Proofs.Attempts
import RtspControl.Proofs.Joining

/-!
# Building a session anew, call by call

What the peer says to a call depends on the calls before it alone, so it can be said in advance
what it would answer to any list of calls (`Peer.replies`). A piece of work that makes the calls of
a list gets the beginning of these answers, up to and with the first failure that counts (`cutOff`),
and ends with this failure if there is one (`verdict`). That is `Exchange`; two pieces of work, one
after the other, make one whose list is that of both (`Exchange.bind`).

From the single calls this leads to the building of a session anew, by induction on the tracks that
are negotiated again (`Exchange.replay`, `Exchange.rebuild`), and to requests for a further track.
`Move.renewals_exchange` says both of a client in any state, and that reconnecting changes neither
the registries nor the phase nor any track.
-/

namespace RtspControl

open Session

/-! ## Replies -/

/-- A call, and the fault if the peer denied it. -/
abbrev Reply := Call × Option Fault

namespace Peer

/-- What the peer says to a call, and what it is then. -/
def hear (p : Peer) : Call → Option Fault × Peer
  | .request r => p.answer r
  | .setUp _ => ((p.answer .setUp).1,
      if (p.answer .setUp).1 = none then (p.answer .setUp).2.advance else (p.answer .setUp).2)

/-- What the peer says to calls, if all of them are made. -/
def replies (p : Peer) : List Call → List Reply
  | [] => []
  | c :: cs => (c, (p.hear c).1) :: (p.hear c).2.replies cs

/-- What the peer is after calls. -/
def after (p : Peer) (cs : List Call) : Peer := cs.foldl (fun q c => (q.hear c).2) p

section

variable (p : Peer) (cs ds : List Call)

theorem map_fst_replies : (p.replies cs).map Prod.fst = cs := by
  induction cs generalizing p with
  | nil => rfl
  | cons c cs ih => exact congrArg (c :: ·) (ih (p.hear c).2)

theorem replies_append : p.replies (cs ++ ds) = p.replies cs ++ (p.after cs).replies ds := by
  induction cs generalizing p with
  | nil => rfl
  | cons c cs ih => exact congrArg ((c, (p.hear c).1) :: ·) (ih (p.hear c).2)

theorem after_append : p.after (cs ++ ds) = (p.after cs).after ds := List.foldl_append

end

end Peer

/-- The fault that ends the work a call was made for. That an old session is not closed properly
ends nothing. -/
def Reply.fatal? (a : Reply) : Option Fault := if a.1 = .request .close then none else a.2

/-- The replies up to the first that ends it all, and that one. -/
def cutOff (as : List Reply) : List Reply :=
  as.take (as.findIdx (fun a => a.fatal?.isSome) + 1)

/-- How work ends that a fault may put an end to. -/
def ended : Option Fault → Except Fault Unit
  | some f => .error f
  | none => .ok ()

/-- How the work ends for which all the calls are made. -/
def verdict (as : List Reply) : Except Fault Unit := ended (as.findSome? Reply.fatal?)

namespace Reply

variable {a : Reply} {as : List Reply} {f : Fault}

theorem cons_of_harmless (h : a.fatal? = none) :
    verdict (a :: as) = verdict as ∧ cutOff (a :: as) = a :: cutOff as := by
  constructor
  · rw [verdict, List.findSome?_cons_of_isNone (by rw [h]; rfl), ← verdict]
  · rw [cutOff, List.findIdx_cons, h]
    rfl

theorem cons_of_fatal (h : a.fatal? = some f) :
    verdict (a :: as) = .error f ∧ cutOff (a :: as) = [a] := by
  constructor
  · rw [verdict, List.findSome?_cons, h]
    rfl
  · rw [cutOff, List.findIdx_cons, h]
    rfl

theorem append_of_ok (h : verdict as = .ok ()) (bs : List Reply) :
    verdict (as ++ bs) = verdict bs ∧ cutOff (as ++ bs) = as ++ cutOff bs := by
  induction as with
  | nil => exact ⟨rfl, rfl⟩
  | cons a as ih =>
    cases fatal : a.fatal? with
    | some f =>
      rw [(cons_of_fatal fatal).1] at h
      cases h
    | none =>
      rw [(cons_of_harmless fatal).1] at h
      obtain ⟨same, beginning⟩ := ih h
      rw [List.cons_append, (cons_of_harmless fatal).1, (cons_of_harmless fatal).2, beginning]
      exact ⟨same, rfl⟩

theorem append_of_error (h : verdict as = .error f) (bs : List Reply) :
    verdict (as ++ bs) = .error f ∧ cutOff (as ++ bs) = cutOff as := by
  induction as with
  | nil => cases h
  | cons a as ih =>
    cases fatal : a.fatal? with
    | some g =>
      rw [(cons_of_fatal fatal).1] at h
      rw [List.cons_append, (cons_of_fatal fatal).1, (cons_of_fatal fatal).2,
        (cons_of_fatal fatal).2]
      exact ⟨h, rfl⟩
    | none =>
      rw [(cons_of_harmless fatal).1] at h
      obtain ⟨same, beginning⟩ := ih h
      rw [List.cons_append, (cons_of_harmless fatal).1, (cons_of_harmless fatal).2,
        (cons_of_harmless fatal).2, beginning]
      exact ⟨same, rfl⟩

theorem cutOff_of_ok (h : verdict as = .ok ()) : cutOff as = as := by
  have whole := (append_of_ok h []).2
  rwa [List.append_nil, show cutOff [] = [] from rfl, List.append_nil] at whole

theorem singleton (a : Reply) : verdict [a] = ended a.fatal? ∧ cutOff [a] = [a] := by
  cases fatal : a.fatal? with
  | none => exact cons_of_harmless fatal
  | some f => exact cons_of_fatal fatal

end Reply

/-- The reply that an entry tells of. -/
def Entry.reply? : Entry → Option Reply
  | .requested r f => some (.request r, f)
  | .setUp m (.ok _) => some (.setUp m, none)
  | .setUp m (.error f) => some (.setUp m, some f)
  | _ => none

/-- The replies that a part of a history tells of, the first one first. -/
def replies (es : List Entry) : List Reply := es.reverse.filterMap Entry.reply?

theorem replies_append (es es' : List Entry) : replies (es ++ es') = replies es' ++ replies es := by
  rw [replies, List.reverse_append, List.filterMap_append]
  rfl

theorem Silent.replies {es : List Entry} (h : Silent es) : replies es = [] := by
  apply List.filterMap_eq_nil_iff.mpr
  intro e he
  have silent : e.isSilent = true := h e (List.mem_reverse.mp he)
  cases e with
  | requested | setUp => simp [Entry.isSilent, Entry.call?] at silent
  | _ => rfl

theorem map_fst_replies (es : List Entry) : (RtspControl.replies es).map Prod.fst = calls es := by
  rw [RtspControl.replies, calls, List.map_filterMap]
  congr 1
  funext e
  cases e with
  | setUp m r => cases r <;> rfl
  | _ => rfl

/-! ## Exchanges -/

/-- What comes of a piece of work that makes the calls of a list, in order, up to the first that
ends it. -/
structure Exchange {α : Type} (cs : List Call) (s : Session) (o : Except Fault α × Session) :
    Prop where
  result : o.1.map (fun _ => ()) = verdict (s.peer.replies cs)
  history : ∃ es, o.2.history = es ++ s.history ∧ replies es = cutOff (s.peer.replies cs)
  peer : o.2.peer = s.peer.after ((cutOff (s.peer.replies cs)).map Prod.fst)

namespace Exchange

variable {α β : Type} {cs ds : List Call} {s : Session}

/-- Work that has nothing to do with the peer. -/
theorem silent {a : α} {s' : Session} {es : List Entry} (peer : s'.peer = s.peer)
    (history : s'.history = es ++ s.history) (h : Silent es) : Exchange [] s (.ok a, s') :=
  ⟨rfl, ⟨es, history, h.replies⟩, peer⟩

/-- The second piece of work begins where the first one has ended well. -/
theorem bind {x : Action α} {f : α → Action β} (first : Exchange cs s (outcome x s))
    (next : ∀ a s', outcome x s = (.ok a, s') → Exchange ds s' (outcome (f a) s')) :
    Exchange (cs ++ ds) s (outcome (x >>= f) s) := by
  rw [outcome_bind]
  have split := s.peer.replies_append cs ds
  generalize hx : outcome x s = o at first next
  obtain ⟨f | a, s'⟩ := o
  · obtain ⟨result, ⟨es, history, replies⟩, peer⟩ := first
    obtain ⟨same, beginning⟩ := Reply.append_of_error result.symm ((s.peer.after cs).replies ds)
    rw [← split] at same beginning
    refine ⟨?_, ⟨es, history, ?_⟩, ?_⟩
    · rw [same]
      rfl
    · rw [beginning, replies]
    · rw [beginning, peer]
  · obtain ⟨result, ⟨es, history, replies⟩, peer⟩ := first
    obtain ⟨result', ⟨es', history', replies'⟩, peer'⟩ := next a s' rfl
    have whole := Reply.cutOff_of_ok result.symm
    rw [whole, Peer.map_fst_replies] at peer
    obtain ⟨same, beginning⟩ := Reply.append_of_ok result.symm ((s.peer.after cs).replies ds)
    dsimp only at peer
    rw [← split, ← peer] at same beginning
    refine ⟨?_, ⟨es' ++ es, ?_, ?_⟩, ?_⟩
    · rw [same, result']
    · rw [history', history, List.append_assoc]
    · rw [RtspControl.replies_append, replies, replies', whole, beginning]
    · rw [beginning, peer', List.map_append, Peer.map_fst_replies, Peer.after_append, ← peer]

/-- A single call, with all that the history says about it. -/
theorem single {c : Call} {fault : Option Fault} {p : Peer} {es : List Entry}
    {r : Except Fault α} (hear : s.peer.hear c = (fault, p)) (told : replies es = [(c, fault)])
    (result : r.map (fun _ => ()) = verdict [(c, fault)]) : Exchange [c] s (r, s.heard p es) := by
  have replies : s.peer.replies [c] = [(c, fault)] := by
    rw [Peer.replies, Peer.replies, hear]
  constructor
  · rw [replies]
    exact result
  · refine ⟨es, rfl, ?_⟩
    rw [replies, (Reply.singleton _).2, told]
  · rw [replies, (Reply.singleton _).2]
    show p = (s.peer.hear c).2
    rw [hear]

theorem outcome_request_eq (r : Request) (s : Session) :
    outcome (Session.request r) s = (ended (s.peer.answer r).1,
      s.heard (s.peer.answer r).2 [.requested r (s.peer.answer r).1]) := by
  simp only [outcome, Session.request]
  rcases s.peer.answer r with ⟨_ | f, p⟩ <;> rfl

theorem request {r : Request} (counts : r ≠ .close) (s : Session) :
    Exchange [.request r] s (outcome (request r) s) := by
  have fatal : Reply.fatal? (.request r, (s.peer.answer r).1) = (s.peer.answer r).1 :=
    if_neg fun same => counts (Call.request.inj same)
  have hear : s.peer.hear (.request r) = ((s.peer.answer r).1, (s.peer.answer r).2) := rfl
  rw [outcome_request_eq]
  refine single hear rfl ?_
  rw [(Reply.singleton _).1, fatal]
  cases (s.peer.answer r).1 <;> rfl

/-- That the old session is not closed properly is noted, and that is all. -/
theorem dismiss (s : Session) :
    Exchange [.request .close] s (outcome (tolerate (Session.request .close) .closeIgnored) s) := by
  rw [outcome_tolerate, outcome_request_eq]
  rcases h : s.peer.answer .close with ⟨_ | f, p⟩
  · have hear : s.peer.hear (.request .close) = (none, p) := h
    exact single hear rfl rfl
  · have hear : s.peer.hear (.request .close) = (some f, p) := h
    have told : replies [.note (.closeIgnored f), .requested .close (some f)] =
        [(.request .close, some f)] := rfl
    exact single hear told rfl

theorem setUp (m : MediaSection) (s : Session) :
    Exchange [.setUp m] s (outcome (setUp m) s) := by
  rcases h : s.peer.answer .setUp with ⟨_ | f, p⟩
  · have ends : outcome (Session.setUp m) s =
        (.ok p.nextChannel, s.heard p.advance [.setUp m (.ok p.nextChannel)]) := by
      simp only [outcome, Session.setUp, h]
      rfl
    have hear : s.peer.hear (.setUp m) = (none, p.advance) := by
      rw [Peer.hear, h]
      rfl
    rw [ends]
    exact single hear rfl rfl
  · have ends : outcome (Session.setUp m) s = (.error f, s.heard p [.setUp m (.error f)]) := by
      simp only [outcome, Session.setUp, h]
      rfl
    have hear : s.peer.hear (.setUp m) = (some f, p) := by
      rw [Peer.hear, h]
      rfl
    rw [ends]
    exact single hear rfl rfl

/-! ## Sequences of calls -/

theorem replay (ts : List Track) (s : Session) :
    Exchange (ts.map fun t => .setUp t.media) s (outcome (replay ts) s) := by
  induction ts generalizing s with
  | nil => exact silent rfl rfl (.nil : Silent [])
  | cons t ts ih =>
    show Exchange ([.setUp t.media] ++ ts.map fun t => .setUp t.media) s _
    exact (setUp t.media s).bind fun channel s' _ => ih s'

theorem raise (s : Session) : Exchange [] s (outcome (raise reconnectEvent) s) := by
  rw [outcome_raise]
  exact silent rfl rfl (.cons rfl .nil)

theorem note {n : Note} (h : (Entry.note n).isSilent = true) (s : Session) :
    Exchange [] s (outcome (note n) s) :=
  silent rfl rfl (.cons h .nil)

theorem control_of_request {r : Request} {s' : Session}
    (h : outcome (Session.request r) s = (.ok (), s')) : s'.control = s.control := by
  rw [outcome_request_eq] at h
  rw [← (Prod.mk.inj h).2]
  rfl

theorem control_of_dismiss {s' : Session}
    (h : outcome (tolerate (Session.request .close) .closeIgnored) s = (.ok (), s')) :
    s'.control = s.control := by
  obtain ⟨p, es, same, -⟩ := outcome_dismiss s
  rw [← (Prod.mk.inj (same.symm.trans h)).2]
  rfl

theorem rebuild (s : Session) :
    Exchange (renewal s.control.registered) s (outcome rebuild s) := by
  have script : renewal s.control.registered =
      [] ++ ([.request .close] ++ ([.request .dial] ++ ([.request .describe] ++
        ((s.control.registered.map fun t => .setUp t.media) ++ [])))) := by
    simp only [renewal, List.append_nil, List.nil_append, List.cons_append]
  rw [script]
  unfold Session.rebuild
  apply (raise s).bind
  intro _ s₁ raised
  have control₁ : s₁.control = s.control := by
    rw [← (Prod.mk.inj ((outcome_raise s).symm.trans raised)).2]
    rfl
  apply (dismiss s₁).bind
  intro _ s₂ dismissed
  have control₂ := (control_of_dismiss dismissed).trans control₁
  apply (request (by decide) s₂).bind
  intro _ s₃ dialled
  have control₃ := (control_of_request dialled).trans control₂
  apply (request (by decide) s₃).bind
  intro _ s₄ described
  have control₄ := (control_of_request described).trans control₃
  rw [outcome_bind_ok (outcome_get s₄), control₄]
  exact (replay _ s₄).bind fun _ s₅ _ => note rfl s₅

/-- A further section on a session that is playing: it is built anew first. -/
theorem assign {s : Session} (playing : s.control.phase = .playing) (m : MediaSection) :
    Exchange (renewal s.control.registered ++ [.setUp m]) s (outcome (assign m) s) := by
  have script : renewal s.control.registered ++ [.setUp m] =
      renewal s.control.registered ++ ([.setUp m] ++ ([] ++ ([] ++ []))) := rfl
  rw [script]
  unfold Session.assign
  rw [outcome_bind_ok (outcome_get s)]
  apply bind
  · rw [outcome_onlyIf, if_pos playing]
    exact rebuild s
  intro _ s₁ _
  apply (setUp m s₁).bind
  intro channel s₂ _
  have entered : Exchange [] s₂ (outcome (enter .ready) s₂) := by
    rw [outcome_enter]
    exact silent rfl rfl (.moved rfl)
  apply entered.bind
  intro _ s₃ _
  exact (note rfl s₃).bind fun _ s₄ _ => silent rfl rfl (.nil : Silent [])

theorem reconnect {s : Session} (client : s.role = .activeProducer) :
    Exchange (renewal s.control.registered) s (outcome reconnect s) ∧
      ∃ p es, (outcome Session.reconnect s).2 = s.alerted.heard p es := by
  have same : outcome Session.reconnect s = outcome Session.rebuild s := by
    unfold Session.reconnect
    rw [outcome_bind_ok (outcome_get s), outcome_bind, outcome_require, if_pos client]
  rw [same]
  obtain ⟨r, p, es, ends, -⟩ := outcome_rebuild s
  exact ⟨rebuild s, p, es, by rw [ends]⟩

/-- Once the section has its channel nothing more is asked. -/
theorem negotiate {s : Session} {m : MediaSection} {c : Codec} (h : s.RebuildsFor m c) :
    Exchange (renewal s.control.registered ++ [.setUp m]) s (outcome (negotiate m c) s) := by
  obtain ⟨client, miss, direction, playing⟩ := h
  have made {make : UInt8 → Action Track} (makes : Makes m c make) :
      Exchange (renewal s.control.registered ++ [.setUp m] ++ []) s
        (outcome (Session.assign m >>= make) s) := by
    apply (assign playing m).bind
    intro channel s' _
    rw [makes channel s']
    exact silent rfl rfl (.cons rfl .nil)
  rw [List.append_nil] at made
  unfold Session.negotiate
  rw [outcome_bind_ok (outcome_get s), miss]
  show Exchange _ s (outcome (makeFor m c) s)
  unfold makeFor
  rw [outcome_bind_ok (outcome_get s), client]
  cases inbound : m.direction with
  | receiveOnly => exact made (makes_receive m c inbound)
  | sendOnly => exact made (makes_makeTrack m c (by rw [inbound]; decide))
  | sendReceive => exact absurd inbound direction

end Exchange

/-! ## Moves -/

namespace Move

/-- What the peer is asked in the course of a move: the calls of a list, in order, up to the first
that fails and counts. -/
structure Exchanges (x : Move) (cs : List Call) : Prop where
  replies : replies x.entries = cutOff (x.found.peer.replies cs)
  peer : x.left.peer = x.found.peer.after (calls x.entries)

variable {x : Move}

theorem Exchanges.of_exchange {α : Type} {cs : List Call} {o : Except Fault α × Session}
    (h : Exchange cs (x.task.underway x.found) o) (left : x.left = o.2) :
    x.Exchanges cs := by
  obtain ⟨-, ⟨es, history, told⟩, peer⟩ := h
  rw [x.task.peer_underway] at told peer
  have entries : RtspControl.replies x.entries = RtspControl.replies es := by
    rw [entries_of_request left history, replies_append, (Silent.opening x.task).replies]
    rfl
  constructor
  · rw [entries, told]
  · rw [left, ← map_fst_replies, entries, told, ← peer]

/-- Reconnecting raises an event, and returns what the calls lead to once that is delivered. -/
theorem exchanges_of_reconnect {caller : Caller} (kind : x.task = .perform caller .reconnect)
    (client : x.found.role = .activeProducer) :
    x.Exchanges (renewal x.found.control.registered) ∧
      (x.task.step x.found).1 = [.deliver, .conclude (.ofOutcome
        (verdict (x.found.peer.replies (renewal x.found.control.registered))))] ∧
      x.left.pending = x.found.alerted.pending ∧
      x.left.control = x.found.control ∧ x.left.tracks = x.found.tracks := by
  have aside := Task.aside_underway x.task x.found
  obtain ⟨exchange, p, es, left⟩ := Exchange.reconnect (aside.role.trans client)
  rw [aside.control] at exchange
  have leaves := left_of_reconnect kind
  have result : (outcome reconnect (x.task.underway x.found)).1 =
      verdict (x.found.peer.replies (renewal x.found.control.registered)) := by
    rw [← x.task.peer_underway, ← exchange.result]
    cases (outcome reconnect (x.task.underway x.found)).1 <;> rfl
  refine ⟨.of_exchange exchange leaves, ?_, ?_, ?_, ?_⟩
  · rw [kind] at result ⊢
    rw [Task.step_reconnect, if_pos client, ← result]
    rfl
  · rw [leaves, left, kind]
    rfl
  · rw [leaves, left]
    exact aside.control
  · rw [leaves, left, kind]
    rfl

theorem exchanges_of_request {m : MediaSection} {c : Codec} (kind : x.task.request? = some (m, c))
    (rebuilds : x.found.RebuildsFor m c) :
    x.Exchanges (renewal x.found.control.registered ++ [.setUp m]) ∧
      ∃ r, x.result? = some r ∧ r.map (fun _ => ()) =
        verdict (x.found.peer.replies (renewal x.found.control.registered ++ [.setUp m])) := by
  have aside := Task.aside_underway x.task x.found
  have exchange := Exchange.negotiate ((rebuildsFor_of_aside aside).mpr rebuilds)
  rw [aside.control] at exchange
  refine ⟨.of_exchange exchange (left_of_request kind), _, ?_,
    x.task.peer_underway x.found ▸ exchange.result⟩
  rw [result?, kind]
  rfl

/-- A client builds a session anew by closing the old one, dialling, having the session described
and negotiating all registered tracks again, the inbound ones first. It does so when it reconnects,
which changes nothing about the connection but that an event waits; and it does so for a request
that needs it, and then negotiates the new section. In either case the first failure that counts
ends it all, wherever it strikes, and is what comes of it. -/
theorem renewals_exchange (x : Move) (client : x.found.role = .activeProducer) :
    (∀ caller, x.task = .perform caller .reconnect →
      x.Exchanges (renewal x.found.control.registered) ∧
      (x.task.step x.found).1 = [.deliver, .conclude (.ofOutcome
        (verdict (x.found.peer.replies (renewal x.found.control.registered))))] ∧
      x.left.pending = x.found.alerted.pending ∧
      x.left.control = x.found.control ∧ x.left.tracks = x.found.tracks) ∧
    ∀ m c, x.task.request? = some (m, c) → x.found.RebuildsFor m c →
      x.Exchanges (renewal x.found.control.registered ++ [.setUp m]) ∧
      ∃ r, x.result? = some r ∧ r.map (fun _ => ()) =
        verdict (x.found.peer.replies (renewal x.found.control.registered ++ [.setUp m])) := by
  constructor
  · intro caller kind
    exact exchanges_of_reconnect kind client
  · intro m c kind rebuilds
    exact exchanges_of_request kind rebuilds

end Move

/-- A client that plays, with a sender that is registered twice. Its peer is going to refuse the
closing of the session, and then the third section that it is asked for. -/
def Session.strained : Session :=
  { role := .activeProducer, descriptor := default, settings := default, monitored := true
    control := {
      phase := .playing
      receivers := [⟨0, videoSection, videoRequest, 0⟩]
      senders := [⟨1, talkSection, audioRequest, 2⟩, ⟨1, talkSection, audioRequest, 2⟩] }
    peer := { rules := [⟨.close, 0, .transport "broken"⟩, ⟨.setUp, 2, .transport "refused"⟩] } }

/-- Building its session anew gets as far as the sender's second time, whether that is what it wants
or it needs one more section. -/
theorem Session.strained_refused :
    replies (⟨.perform .outside .reconnect, strained⟩ : Move).entries =
        [(.request .close, some (.transport "broken")), (.request .dial, none),
          (.request .describe, none), (.setUp videoSection, none), (.setUp talkSection, none),
          (.setUp talkSection, some (.transport "refused"))] ∧
      (⟨.perform .outside .reconnect, strained⟩ : Move).left.control = strained.control ∧
      strained.RebuildsFor audioSection audioRequest ∧
      ∃ r, (⟨.perform .outside (.getTrack audioSection audioRequest), strained⟩ : Move).result? =
        some r ∧ r.map (fun _ => ()) = .error (.transport "refused") := by
  obtain ⟨exchange, -, -, control, -⟩ :=
    (Move.renewals_exchange ⟨.perform .outside .reconnect, strained⟩ rfl).1 .outside rfl
  have rebuilds : strained.RebuildsFor audioSection audioRequest := by
    refine ⟨rfl, ?_, ?_, rfl⟩ <;> decide
  obtain ⟨-, r, result, same⟩ :=
    (Move.renewals_exchange ⟨.perform .outside (.getTrack audioSection audioRequest), strained⟩
      rfl).2 audioSection audioRequest rfl rebuilds
  refine ⟨exchange.replies.trans ?_, control, rebuilds, r, result, same.trans ?_⟩ <;> decide

end RtspControl
