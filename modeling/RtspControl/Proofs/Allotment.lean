import RtspControl.Proofs.Irredundant
import RtspControl.Proofs.Failures
import RtspControl.Proofs.Joining

/-!
# Channels that a server hands out

A server that receives media has nobody to ask for channels: it gives each track the channel of the
place at which the track is going to be registered, and the track keeps it. For inbound tracks,
which are registered with the request, a channel so is twice a place, always. Outbound tracks are
registered by their callers, and so the same holds of them as long as callers keep up: whoever gets
a track registers it before anybody gets another one (`Punctual`).

The two directions do not interfere. `Reached.inbound` and `Reached.outbound` tell the tracks of
either from its own requests since the last stop, and `Course.allotted_by_place` has all of it.
-/

namespace RtspControl

open Session

/-! ## Channels and places -/

/-- Does every track have the channel of its place? -/
def InPlace (ts : List Track) : Prop := ∀ k, (h : k < ts.length) → ts[k].channel.toNat = 2 * k

section

variable {ts us : List Track} {t : Track}

theorem InPlace.nil : InPlace [] := by
  intro k hk
  cases hk

theorem InPlace.concat (h : InPlace ts) (place : t.channel.toNat = 2 * ts.length) :
    InPlace (ts ++ [t]) := by
  intro k hk
  by_cases old : k < ts.length
  · rw [List.getElem_append_left old]
    exact h k old
  · have last : k = ts.length := by
      rw [List.length_append, List.length_singleton] at hk
      omega
    subst last
    rw [List.getElem_concat_length rfl]
    exact place

theorem InPlace.of_append (h : InPlace (ts ++ us)) : InPlace ts := by
  intro k hk
  have place := h k (by rw [List.length_append]; omega)
  rwa [List.getElem_append_left hk] at place

theorem InPlace.of_mem (h : InPlace ts) (mem : t ∈ ts) :
    ∃ k < Channel.pairs, t.channel.toNat = 2 * k := by
  obtain ⟨k, hk, rfl⟩ := List.mem_iff_getElem.mp mem
  have place := h k hk
  have byte := ts[k].channel.toNat_lt
  exact ⟨k, by unfold Channel.pairs; omega, place⟩

/-- There are no more places than channels in pairs. -/
theorem InPlace.length_le (h : InPlace ts) : ts.length ≤ Channel.pairs := by
  by_contra more
  have last := h (ts.length - 1) (by omega)
  have byte := ts[ts.length - 1].channel.toNat_lt
  unfold Channel.pairs at more
  omega

/-- The channel of a place has another one beside it for control packets. -/
theorem paired_of_place {k : Nat} (h : t.channel.toNat = 2 * k) (room : k < Channel.pairs) :
    t.channel.toNat % 2 = 0 ∧ t.channel.toNat + 1 < UInt8.size := by
  unfold Channel.pairs at room
  simp only [UInt8.size]
  omega

end

/-! ## Requests to a server -/

/-- What a track was made for. -/
def Track.offer (t : Track) : MediaSection × Codec := (t.media, t.codec)

/-- The registered tracks by which the place of one more track is counted. -/
def Control.beside (c : Control) (m : MediaSection) : List Track :=
  if m.direction = .receiveOnly then c.receivers else c.senders

namespace Move

/-- What becomes of a request that needs a new track, with tracks `ts` beside it. -/
inductive Allots (x : Move) (m : MediaSection) (c : Codec) (ts : List Track) : Prop where
  | made (t : Track) (room : ts.length < Channel.pairs) (result : x.result? = some (.ok t))
      (offer : t.offer = (m, c)) (place : t.channel.toNat = 2 * ts.length)
      (fresh : x.found.tracks.made ≤ t.serial)
  | full (full : Channel.pairs ≤ ts.length)
      (result : x.result? = some (.error (.channelsExhausted ts.length)))

variable {x : Move} {m : MediaSection} {c : Codec} {t : Track}

theorem exhausted_of_refusal? {s : Session} {f : Fault} (server : s.role = .passiveConsumer)
    (h : s.refusal? m = some f) :
    Channel.pairs ≤ (s.control.beside m).length ∧
      f = .channelsExhausted (s.control.beside m).length := by
  have exhausted {ts : List Track} (h : refusal?.exhausted ts = some f) :
      Channel.pairs ≤ ts.length ∧ f = .channelsExhausted ts.length := by
    unfold refusal?.exhausted at h
    split at h
    · next full => exact ⟨full, (Option.some.inj h).symm⟩
    · cases h
  unfold refusal? at h
  unfold Control.beside
  cases hd : m.direction <;> simp only [server, hd] at h <;> exact exhausted h

theorem allots (server : x.found.role = .passiveConsumer) (kind : x.task.request? = some (m, c))
    (miss : x.found.served? m c = none) : x.Allots m c (x.found.control.beside m) := by
  obtain ⟨r, s', hr, -, negotiation⟩ := x.negotiation kind
  have hu := Task.aside_underway x.task x.found
  have other (client : (x.task.underway x.found).role = .activeProducer) :
      x.Allots m c (x.found.control.beside m) := by
    rw [hu.role, server] at client
    cases client
  have control : (x.task.underway x.found).control = x.found.control := hu.control
  cases negotiation with
  | served t hit =>
    rw [served?_of_control hu.control, miss] at hit
    cases hit
  | refused f miss' client =>
    have ho : (outcome (negotiate m c) (x.task.underway x.found)).1 = .error f := by
      rw [result?, kind] at hr
      exact Option.some.inj hr
    obtain ⟨full, rfl⟩ := exhausted_of_refusal? (hu.role.trans server)
      (refusal?_of_error miss' client ho)
    rw [control] at full hr
    exact .full full hr
  | unbuilt _ _ _ client | unassigned _ _ _ client | assigned _ _ _ client => exact other client
  | allotted channel _ _ free =>
    rw [control] at free
    have free : Channel.interleaved (x.found.control.beside m).length = .ok channel := by
      rwa [Control.beside, apply_ite List.length]
    obtain ⟨room, place⟩ := Channel.interleaved_eq_ok_iff.mp free
    exact .made _ room hr rfl place hu.made

/-- The outbound track that a request gets, to be registered by whoever has made it. -/
def lent (x : Move) : List Track :=
  match x.task.request?, x.result? with
  | some (m, _), some (.ok t) => if m.direction = .receiveOnly then [] else [t]
  | _, _ => []

theorem lent_cases (x : Move) : x.lent = [] ∨ ∃ t, x.lent = [t] := by
  rw [lent]
  split
  · next t _ _ =>
    split
    · exact .inl rfl
    · exact .inr ⟨t, rfl⟩
  · exact .inl rfl

theorem lent_of_request? (h : x.task.request? = none) : x.lent = [] := by
  simp only [lent, h]

theorem lent_of_inbound (kind : x.task.request? = some (m, c))
    (inbound : m.direction = .receiveOnly) : x.lent = [] := by
  obtain ⟨r, s', hr, -, -⟩ := x.negotiation kind
  cases r with
  | error f => simp only [lent, kind, hr]
  | ok t => simp only [lent, kind, hr, if_pos inbound]

theorem lent_of_error {f : Fault} (failed : x.result? = some (.error f)) : x.lent = [] := by
  unfold lent
  rw [failed]
  split
  · next h => cases h
  · rfl

theorem lent_of_outbound (kind : x.task.request? = some (m, c))
    (outbound : m.direction ≠ .receiveOnly) (ok : x.result? = some (.ok t)) : x.lent = [t] := by
  simp only [lent, kind, ok, if_neg outbound]

theorem received_of_made (kind : x.task.request? = some (m, c))
    (inbound : m.direction = .receiveOnly) (ok : x.result? = some (.ok t))
    (fresh : x.found.tracks.made ≤ t.serial) : x.received = [t] := by
  simp only [received, kind, ok, freshlyReceived, if_pos (And.intro inbound fresh)]

theorem received_of_hit (serials : ∀ t ∈ x.found.control.receivers, t.serial < x.found.tracks.made)
    (kind : x.task.request? = some (m, c)) (hit : x.found.served? m c = some t) :
    x.received = [] := by
  rcases x.received_cases serials with none | ⟨u, receives⟩
  · exact none
  · have same := Option.some.inj (kind.symm.trans receives.request)
    obtain ⟨rfl, rfl⟩ := Prod.mk.inj same
    rw [receives.miss] at hit
    cases hit

end Move

/-! ## Requests of one direction -/

namespace Move

def inboundRequest? (x : Move) : Option (MediaSection × Codec) :=
  x.task.request?.filter fun a => a.1.direction = .receiveOnly

def outboundRequest? (x : Move) : Option (MediaSection × Codec) :=
  x.task.request?.filter fun a => a.1.direction ≠ .receiveOnly

end Move

/-- The requests for tracks to receive on since the last stop. -/
def inboundRequests (past : List Move) : List (MediaSection × Codec) :=
  (sinceStop past).filterMap Move.inboundRequest?

/-- The requests for tracks to send on since the last stop. -/
def outboundRequests (past : List Move) : List (MediaSection × Codec) :=
  (sinceStop past).filterMap Move.outboundRequest?

/-- What there are inbound tracks for when one more request has been made: for that as well, unless
one of the tracks answers it or there are as many as there can be. -/
def enlist (offers : List (MediaSection × Codec)) (a : MediaSection × Codec) :
    List (MediaSection × Codec) :=
  if Channel.pairs ≤ offers.length ∨ ∃ b ∈ offers, b.1.sameAs a.1 ∧ b.2.satisfies a.2 then offers
  else offers ++ [a]

section

variable {offers : List (MediaSection × Codec)} {a : MediaSection × Codec}

theorem enlist_of_full (full : Channel.pairs ≤ offers.length) : enlist offers a = offers :=
  if_pos (Or.inl full)

theorem enlist_of_answered (answered : ∃ b ∈ offers, b.1.sameAs a.1 ∧ b.2.satisfies a.2) :
    enlist offers a = offers :=
  if_pos (Or.inr answered)

theorem enlist_of_needed (room : offers.length < Channel.pairs)
    (unanswered : ¬ ∃ b ∈ offers, b.1.sameAs a.1 ∧ b.2.satisfies a.2) :
    enlist offers a = offers ++ [a] := by
  apply if_neg
  rintro (full | answered)
  · exact Nat.not_le_of_lt room full
  · exact unanswered answered

end

section

variable {past : List Move} {x : Move} {m : MediaSection} {c : Codec} {ts : List Track}

theorem inboundRequests_concat (h : x.isStop = false) :
    inboundRequests (past ++ [x]) = inboundRequests past ++ x.inboundRequest?.toList := by
  rw [inboundRequests, sinceStop_concat h, List.filterMap_append]
  cases hx : x.inboundRequest? <;> simp [inboundRequests, hx]

theorem outboundRequests_concat (h : x.isStop = false) :
    outboundRequests (past ++ [x]) = outboundRequests past ++ x.outboundRequest?.toList := by
  rw [outboundRequests, sinceStop_concat h, List.filterMap_append]
  cases hx : x.outboundRequest? <;> simp [outboundRequests, hx]

theorem isSome_served?_iff_offer {s : Session} (inbound : m.direction = .receiveOnly) :
    (s.served? m c).isSome = true ↔ ∃ b ∈ s.control.receivers.map Track.offer,
      b.1.sameAs m = true ∧ b.2.satisfies c = true := by
  rw [isSome_served?_iff inbound]
  simp only [List.mem_map, exists_exists_and_eq_and, Track.offer]

end

/-! ## Inbound tracks -/

/-- The inbound tracks are those that the requests since the last stop need, in their places. -/
structure Inbound (past : List Move) (s : Session) : Prop where
  offers : s.control.receivers.map Track.offer = (inboundRequests past).foldl enlist []
  inPlace : InPlace s.control.receivers

/-- A move adds what its request needs to the inbound tracks, in its place. -/
theorem Inbound.received {past : List Move} {x : Move} (h : Inbound past x.found)
    (server : x.found.role = .passiveConsumer)
    (serials : ∀ t ∈ x.found.control.receivers, t.serial < x.found.tracks.made) :
    (x.found.control.receivers ++ x.received).map Track.offer =
        x.inboundRequest?.toList.foldl enlist (x.found.control.receivers.map Track.offer) ∧
      InPlace (x.found.control.receivers ++ x.received) := by
  -- A move that makes no inbound track, and asks for none that there could be.
  have still (none : x.received = [])
      (enlisted :
        x.inboundRequest?.toList.foldl enlist (x.found.control.receivers.map Track.offer) =
          x.found.control.receivers.map Track.offer) :
      (x.found.control.receivers ++ x.received).map Track.offer =
          x.inboundRequest?.toList.foldl enlist (x.found.control.receivers.map Track.offer) ∧
        InPlace (x.found.control.receivers ++ x.received) := by
    rw [none, List.append_nil, enlisted]
    exact ⟨rfl, h.inPlace⟩
  cases kind : x.task.request? with
  | none =>
    apply still
    · simp only [Move.received, kind]
    · simp only [Move.inboundRequest?, kind, Option.filter_none, Option.toList_none, List.foldl_nil]
  | some mc =>
    obtain ⟨m, c⟩ := mc
    by_cases inbound : m.direction = .receiveOnly
    case neg =>
      apply still (received_of_direction kind inbound)
      simp only [Move.inboundRequest?, kind, Option.filter_some, inbound, decide_false,
        Bool.false_eq_true, if_false, Option.toList_none, List.foldl_nil]
    have asked : x.inboundRequest? = some (m, c) := by
      simp only [Move.inboundRequest?, kind, Option.filter_some, inbound, decide_true, if_true]
    rw [asked] at still ⊢
    cases hit : x.found.served? m c with
    | some t =>
      apply still (Move.received_of_hit serials kind hit)
      apply enlist_of_answered
      exact (isSome_served?_iff_offer inbound).mp (by rw [hit]; rfl)
    | none =>
      have allots := x.allots server kind hit
      rw [Control.beside, if_pos inbound] at allots
      cases allots with
      | full full failed =>
        apply still (received_of_error failed)
        exact enlist_of_full (by rwa [List.length_map])
      | made t room ok offer place fresh =>
        rw [Move.received_of_made kind inbound ok fresh]
        refine ⟨?_, h.inPlace.concat place⟩
        rw [List.map_append, List.map_singleton, offer]
        symm
        apply enlist_of_needed
        · rwa [List.length_map]
        · rw [← isSome_served?_iff_offer inbound, hit]
          exact Bool.false_ne_true

theorem Inbound.step {past : List Move} {x : Move} (h : Inbound past x.found)
    (server : x.found.role = .passiveConsumer) (suits : x.task.Suits x.found.role)
    (serials : ∀ t ∈ x.found.control.receivers, t.serial < x.found.tracks.made)
    (unstopped : x.isStop = false) : Inbound (past ++ [x]) x.left := by
  have registered := (x.registries_left suits serials unstopped).receivers
  obtain ⟨offers, inPlace⟩ := h.received server serials
  rw [← registered] at offers inPlace
  refine ⟨?_, inPlace⟩
  rw [offers, h.offers, inboundRequests_concat unstopped, List.foldl_append]

theorem Reached.inbound {role : Role} {past : List Move} {s : Session} (h : Reached role past s)
    (server : role = .passiveConsumer) : Inbound past s := by
  induction h using Reached.induct with
  | opened => exact ⟨rfl, .nil⟩
  | moved past x earlier _ suits ih =>
    cases stop : x.isStop with
    | true =>
      have none := (Move.registries_left_of_isStop stop).1
      refine ⟨?_, none ▸ .nil⟩
      rw [none, inboundRequests, sinceStop_concat_of_isStop stop]
      rfl
    | false => exact ih.step (earlier.role_eq.trans server) suits earlier.serial_lt stop

/-! ## Outbound tracks -/

/-- Does a move hand out an outbound track, or register one? -/
def Move.isOutbound (x : Move) : Bool := !(x.lent ++ x.sent).isEmpty

/-- The outbound track that was handed out last, unless one has been registered since. -/
def owing (past : List Move) : List Track :=
  match past.reverse.find? Move.isOutbound with
  | some x => x.lent
  | none => []

/-- Is every outbound track that is handed out registered, once, before another one is handed out
and before the connection is stopped, and is nothing else registered for sending? -/
def Punctual (moves : List Move) : Prop :=
  ∀ k, (h : k < moves.length) →
    (moves[k].sent ≠ [] → moves[k].sent = owing (moves.take k)) ∧
      (moves[k].lent ≠ [] ∨ moves[k].isStop = true → owing (moves.take k) = [])

section

variable {past : List Move} {x : Move}

theorem Punctual.of_concat (h : Punctual (past ++ [x])) :
    Punctual past ∧ (x.sent ≠ [] → x.sent = owing past) ∧
      (x.lent ≠ [] ∨ x.isStop = true → owing past = []) :=
  forall_take_concat (R := fun (past : List Move) (x : Move) =>
    (x.sent ≠ [] → x.sent = owing past) ∧ (x.lent ≠ [] ∨ x.isStop = true → owing past = [])) h

theorem owing_concat (h : x.lent ≠ [] ∨ x.sent ≠ []) : owing (past ++ [x]) = x.lent := by
  have outbound : x.isOutbound = true := by
    rw [Move.isOutbound, Bool.not_eq_true', List.isEmpty_eq_false_iff]
    intro none
    obtain ⟨hl, hs⟩ := List.append_eq_nil_iff.mp none
    exact h.elim (· hl) (· hs)
  rw [owing, List.reverse_append, List.reverse_singleton, List.singleton_append,
    List.find?_cons_of_pos outbound]

theorem owing_concat_of_nil (hl : x.lent = []) (hs : x.sent = []) :
    owing (past ++ [x]) = owing past := by
  have aside : ¬ x.isOutbound = true := by simp [Move.isOutbound, hl, hs]
  rw [owing, List.reverse_append, List.reverse_singleton, List.singleton_append,
    List.find?_cons_of_neg aside, owing]

theorem owing_cases (past : List Move) : owing past = [] ∨ ∃ t, owing past = [t] := by
  rw [owing]
  split
  · next x _ => exact x.lent_cases
  · exact .inl rfl

theorem Move.lent_of_isStop (h : x.isStop = true) : x.lent = [] ∧ x.sent = [] := by
  obtain ⟨t, s⟩ := x
  cases t with
  | perform caller op =>
    cases op with
    | stop => exact ⟨lent_of_request? rfl, rfl⟩
    | _ => simp [isStop] at h
  | _ => simp [isStop] at h

end

/-- The outbound tracks, with the one that is still to be registered, are those that were asked for
since the last stop, in their places. -/
structure Outbound (past : List Move) (s : Session) : Prop where
  offers : (s.control.senders ++ owing past).map Track.offer =
    (outboundRequests past).take Channel.pairs
  inPlace : InPlace (s.control.senders ++ owing past)

theorem Outbound.step {past : List Move} {x : Move} (h : Outbound past x.found)
    (server : x.found.role = .passiveConsumer) (suits : x.task.Suits x.found.role)
    (serials : ∀ t ∈ x.found.control.receivers, t.serial < x.found.tracks.made)
    (unstopped : x.isStop = false) (settled : x.sent ≠ [] → x.sent = owing past)
    (punctual : x.lent ≠ [] → owing past = []) : Outbound (past ++ [x]) x.left := by
  have registered := (x.registries_left suits serials unstopped).senders
  have requests : outboundRequests (past ++ [x]) = _ := outboundRequests_concat unstopped
  -- A move that leaves the same tracks, be they registered or not.
  have still (same : x.left.control.senders ++ owing (past ++ [x]) =
        x.found.control.senders ++ owing past)
      (asked : (outboundRequests past ++ x.outboundRequest?.toList).take Channel.pairs =
        (outboundRequests past).take Channel.pairs) : Outbound (past ++ [x]) x.left := by
    refine ⟨?_, same ▸ h.inPlace⟩
    rw [same, requests, asked, h.offers]
  have idle (lent : x.lent = []) (sent : x.sent = []) :
      x.left.control.senders ++ owing (past ++ [x]) = x.found.control.senders ++ owing past := by
    rw [registered, sent, List.append_nil, owing_concat_of_nil lent sent]
  cases kind : x.task.request? with
  | none =>
    have lent := Move.lent_of_request? kind
    refine still ?_ (by simp [Move.outboundRequest?, kind])
    by_cases sent : x.sent = []
    · exact idle lent sent
    · rw [registered, settled sent, owing_concat (Or.inr sent), lent, List.append_nil]
  | some mc =>
    obtain ⟨m, c⟩ := mc
    have sent := Move.sent_of_request? kind
    by_cases inbound : m.direction = .receiveOnly
    case pos =>
      apply still (idle (Move.lent_of_inbound kind inbound) sent)
      simp [Move.outboundRequest?, kind, Option.filter_some, inbound]
    have asked : x.outboundRequest? = some (m, c) := by
      simp [Move.outboundRequest?, kind, inbound]
    rw [asked, Option.toList_some] at still requests
    have miss : x.found.served? m c = none := if_neg inbound
    have allots := x.allots server kind miss
    rw [Control.beside, if_neg inbound] at allots
    have counted := congrArg List.length h.offers
    rw [List.length_map, List.length_append, List.length_take] at counted
    cases allots with
    | full full failed =>
      refine still (idle (Move.lent_of_error failed) sent) ?_
      exact List.take_append_of_le_length (by omega)
    | made t room ok offer place fresh =>
      have lent := Move.lent_of_outbound kind inbound ok
      have paid : owing past = [] := punctual (by simp [lent])
      have offers := h.offers
      have inPlace := h.inPlace
      rw [paid, List.append_nil] at offers inPlace
      rw [paid, List.length_nil] at counted
      rw [List.take_of_length_le (by omega)] at offers
      have tracks : x.left.control.senders ++ owing (past ++ [x]) =
          x.found.control.senders ++ [t] := by
        rw [registered, sent, List.append_nil, owing_concat (Or.inl (by simp [lent])), lent]
      refine ⟨?_, tracks ▸ inPlace.concat place⟩
      rw [tracks, requests, List.map_append, offers, List.map_singleton, offer,
        List.take_of_length_le (by rw [List.length_append, List.length_singleton]; omega)]

theorem Reached.outbound {role : Role} {past : List Move} {s : Session} (h : Reached role past s)
    (server : role = .passiveConsumer) (punctual : Punctual past) : Outbound past s := by
  induction h using Reached.induct with
  | opened => exact ⟨rfl, .nil⟩
  | moved past x earlier _ suits ih =>
    obtain ⟨before, settled, paid⟩ := punctual.of_concat
    cases stop : x.isStop with
    | true =>
      obtain ⟨lent, sent⟩ := Move.lent_of_isStop stop
      have none : x.left.control.senders ++ owing (past ++ [x]) = [] := by
        rw [(Move.registries_left_of_isStop stop).2, owing_concat_of_nil lent sent,
          paid (Or.inr stop), List.nil_append]
      refine ⟨?_, none ▸ .nil⟩
      rw [none, outboundRequests, sinceStop_concat_of_isStop stop]
      rfl
    | false =>
      exact (ih before).step (earlier.role_eq.trans server) suits earlier.serial_lt stop settled
        fun lent => paid (Or.inl lent)

/-! ## Whole courses -/

/-- Whatever a server that receives media hands out is a channel of a place. -/
theorem Reached.place_of_ok {role : Role} {past : List Move} {x : Move} {t : Track}
    (h : Reached role past x.found) (server : role = .passiveConsumer)
    (ok : x.result? = some (.ok t)) : ∃ k < Channel.pairs, t.channel.toNat = 2 * k := by
  cases kind : x.task.request? with
  | none => simp [Move.result?, kind] at ok
  | some mc =>
    obtain ⟨m, c⟩ := mc
    cases hit : x.found.served? m c with
    | some u =>
      have served := Move.servedBy_of_hit kind hit
      obtain rfl : t = u := by simpa using ok.symm.trans served.result
      exact (h.inbound server).inPlace.of_mem (mem_receivers_of_served? hit)
    | none =>
      cases x.allots (h.role_eq.trans server) kind hit with
      | full _ failed => simp [failed] at ok
      | made u room result _ place =>
        obtain rfl : t = u := by simpa using ok.symm.trans result
        exact ⟨_, room, place⟩

/-- A server that receives media gives its inbound tracks the channels of their places, to the last
one that there is, and to the tracks that the requests for them need. If its callers keep up, it
does the same with outbound tracks; neither has to do with the other. -/
theorem Course.allotted_by_place (r : Course) (server : r.role = .passiveConsumer) :
    (InPlace r.session.control.receivers ∧ r.session.control.receivers.length ≤ Channel.pairs ∧
      r.session.control.receivers.map Track.offer = (inboundRequests r.moves).foldl enlist []) ∧
    (∀ x ∈ r.moves, ∀ m c, x.task.request? = some (m, c) → m.direction = .receiveOnly →
      x.found.served? m c = none →
      ((∃ t, x.result? = some (.ok t)) ↔ x.found.control.receivers.length < Channel.pairs) ∧
      (Channel.pairs ≤ x.found.control.receivers.length → x.result? =
        some (.error (.channelsExhausted x.found.control.receivers.length)))) ∧
    (∀ x ∈ r.moves, ∀ t, x.result? = some (.ok t) →
      t.channel.toNat % 2 = 0 ∧ t.channel.toNat + 1 < UInt8.size) ∧
    (Punctual r.moves → InPlace r.session.control.senders ∧
      (∀ t ∈ owing r.moves, t.channel.toNat = 2 * r.session.control.senders.length) ∧
      (r.session.control.senders ++ owing r.moves).map Track.offer =
        (outboundRequests r.moves).take Channel.pairs) := by
  have inbound := r.reached.inbound server
  refine ⟨⟨inbound.inPlace, inbound.inPlace.length_le, inbound.offers⟩, ?_, ?_, ?_⟩
  · intro x hx m c kind direction miss
    obtain ⟨_, _, -, found, -⟩ := Course.reached_found hx
    have allots := x.allots (found.role_eq.trans server) kind miss
    rw [Control.beside, if_pos direction] at allots
    cases allots with
    | made t room ok =>
      exact ⟨iff_of_true ⟨t, ok⟩ room, fun full => absurd room (Nat.not_lt_of_le full)⟩
    | full full failed =>
      refine ⟨iff_of_false ?_ (Nat.not_lt_of_le full), fun _ => failed⟩
      rintro ⟨t, ok⟩
      rw [failed] at ok
      cases ok
  · intro x hx t ok
    obtain ⟨_, _, -, found, -⟩ := Course.reached_found hx
    obtain ⟨k, room, place⟩ := found.place_of_ok server ok
    exact paired_of_place place room
  · intro punctual
    have outbound := r.reached.outbound server punctual
    refine ⟨outbound.inPlace.of_append, ?_, outbound.offers⟩
    rcases owing_cases r.moves with none | ⟨u, due⟩
    · simp [none]
    · intro t ht
      rw [due, List.mem_singleton] at ht
      subst ht
      have last := outbound.inPlace r.session.control.senders.length (by simp [due])
      simpa [due] using last

/-- A server to which media are sent and from which they are asked for. It receives a video stream,
asked for twice, and an audio stream; it has a track to send on, and one more that is not
registered yet. -/
def Course.talkingServer : Course :=
  { role := .passiveConsumer, descriptor := default, settings := default, monitored := false
    peer := {}, script := {}
    callers := [[.getTrack videoSection videoRequest, .getTrack talkSection audioRequest,
      .getTrack videoSection videoRequest, .addSender 1 1, .closeTrack 0,
      .getTrack audioSection audioRequest], [.getTrack talkSection audioRequest]]
    schedule := List.replicate 18 0 ++ [1, 1, 1] }

theorem Course.talkingServer_allotted :
    talkingServer.role = .passiveConsumer ∧ Punctual talkingServer.moves ∧
      talkingServer.session.control.receivers.map Track.offer =
        [(videoSection, videoRequest), (audioSection, audioRequest)] ∧
      ∃ t, owing talkingServer.moves = [t] ∧
        t.channel.toNat = 2 * talkingServer.session.control.senders.length := by
  obtain ⟨⟨-, -, offers⟩, -, -, outbound⟩ := Course.allotted_by_place talkingServer rfl
  have punctual : Punctual talkingServer.moves := by
    unfold Punctual
    decide +kernel
  obtain ⟨-, due, -⟩ := outbound punctual
  obtain ⟨t, ht⟩ := (owing_cases talkingServer.moves).resolve_left (by decide +kernel)
  refine ⟨rfl, punctual, ?_, t, ht, due t (by rw [ht]; exact List.mem_singleton_self t)⟩
  rw [offers]
  decide +kernel

end RtspControl
