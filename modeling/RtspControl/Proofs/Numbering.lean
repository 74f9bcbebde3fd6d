import RtspControl.Proofs.Overlooked
import Mathlib.Data.List.Perm.Basic
import Mathlib.Data.List.Nodup

/-!
# The numbers of channels

A track keeps the channel that it was given when its section was first negotiated. If the session
is built anew its section is negotiated once more, and the channel that the peer assigns then is
thrown away: nobody looks whether it is the same. With a peer that numbers the channels of each
session afresh it is the same only for tracks that are negotiated again in the order in which they
were negotiated first. But inbound tracks always come before outbound ones then, whatever the order
was in which they were registered.

`Numbered` is what holds between the moves of a client that does all it should, and with it
`Course.replayed_iff` says exactly when a session that is built anew has the same channels.
`Course.talkingClient` is a client that sends the media of one track on the channel of another.
-/

namespace RtspControl

open Session

/-! ## Channels that are assigned -/

def Entry.assigned? : Entry → Option (MediaSection × UInt8)
  | .setUp m (.ok c) => some (m, c)
  | _ => none

/-- The sections that are negotiated in a part of a history with their channels, the first one
first. -/
def assignments (es : List Entry) : List (MediaSection × UInt8) :=
  es.reverse.filterMap Entry.assigned?

/-- Does the peer number the channels of each session afresh, in pairs? -/
def Afresh : List Entry → Prop
  | [] => True
  | e :: es => (∀ a ∈ e.assigned?.toList, a.2.toNat = 2 * (negotiated es).length) ∧ Afresh es

instance decidableAfresh : DecidablePred Afresh
  | [] => inferInstanceAs (Decidable True)
  | _ :: es =>
    have := decidableAfresh es
    inferInstanceAs (Decidable (_ ∧ _))

section

variable {es es' : List Entry}

theorem Afresh.of_append (h : Afresh (es ++ es')) : Afresh es' := by
  induction es with
  | nil => exact h
  | cons e es ih => exact ih h.2

theorem assignments_append (es es' : List Entry) :
    assignments (es ++ es') = assignments es' ++ assignments es := by
  rw [assignments, List.reverse_append, List.filterMap_append]
  rfl

theorem assignments_of_silent (h : Silent es) : assignments es = [] := by
  refine List.filterMap_eq_nil_iff.mpr ?_
  intro e he
  have silent := h e (List.mem_reverse.mp he)
  cases e with
  | requested | setUp => simp [Entry.isSilent, Entry.call?] at silent
  | _ => rfl

/-- Assignments that the peer makes one after the other, when `n` have been made before. -/
structure Consecutive (n : Nat) (ts : List Track) (as : List (MediaSection × UInt8)) : Prop where
  medias : as.map Prod.fst = ts.map Track.media
  channels : as.map (fun a => a.2.toNat) = List.range' (2 * n) ts.length 2

theorem consecutive_of_replayed {ts : List Track} {r : Except Fault Unit} {rest : List Entry}
    (h : Replayed ts r es) (ok : r = .ok ()) (afresh : Afresh (es ++ rest)) :
    Consecutive (negotiated rest).length ts (assignments es) := by
  induction h generalizing rest with
  | done => exact ⟨rfl, rfl⟩
  | refused => cases ok
  | @assigned t ts r es channel later ih =>
    rw [List.append_assoc, List.singleton_append] at afresh
    obtain ⟨medias, channels⟩ := ih ok afresh
    have first : channel.toNat = 2 * (negotiated rest).length :=
      afresh.of_append.1 _ (List.mem_singleton_self _)
    have next : 2 * (negotiated (.setUp t.media (.ok channel) :: rest)).length =
        channel.toNat + 2 := by
      rw [first]
      rfl
    rw [assignments_append]
    refine ⟨congrArg (t.media :: ·) medias, ?_⟩
    rw [List.map_append, channels, next, List.length_cons, List.range'_succ, ← first]
    rfl

/-- A session that is built anew has channels from the first one on. -/
theorem consecutive_of_rebuilt {ts : List Track} {rest : List Entry} (h : Rebuilt ts (.ok ()) es)
    (afresh : Afresh (es ++ rest)) : Consecutive 0 ts (assignments es) := by
  cases h with
  | @done es es' closing receivers senders replayed =>
    rw [List.cons_append, List.append_assoc] at afresh
    have before : assignments (.requested .describe none :: .requested .dial none ::
        (es ++ [.note (.raised reconnectEvent)])) = [] := by
      cases closing <;> rfl
    have same : assignments (.note (.reestablished receivers senders) ::
        (es' ++ .requested .describe none :: .requested .dial none ::
          (es ++ [.note (.raised reconnectEvent)]))) = assignments es' := by
      rw [← List.singleton_append, assignments_append, assignments_append, before]
      exact List.append_nil _
    rw [same]
    exact consecutive_of_replayed replayed rfl afresh.2

theorem Consecutive.length_eq {n : Nat} {ts : List Track} {as : List (MediaSection × UInt8)}
    (h : Consecutive n ts as) : as.length = ts.length := by
  rw [← List.length_map Prod.fst, h.medias, List.length_map]

end

/-! ## What moves have assigned -/

namespace Move

/-- The tracks that a move hands out as new ones. -/
def handed (x : Move) : List Track := x.received ++ x.outbound

/-- What is assigned when a move builds the session anew, for the tracks that are registered. -/
def replayed (x : Move) : List (MediaSection × UInt8) :=
  (assignments x.entries).take x.found.control.registered.length

/-- A move has a channel assigned to a section for the track that it hands out, once the session
is prepared for it. -/
structure Assigns (x : Move) (m : MediaSection) (t : Track) : Prop where
  handed : x.handed = [t]
  prepared : ∃ later s es, Silent later ∧ Prepared (x.task.underway x.found) s es ∧
    x.entries = later ++ .setUp m (.ok t.channel) :: (es ++ x.task.opening)

variable {x : Move} {m : MediaSection} {t : Track}

theorem assigns (asked : x.asks? = some m) (client : x.found.role = .activeProducer)
    (sound : Faultless x.entries) : ∃ t, x.Assigns m t := by
  obtain ⟨c, kind, miss, direction⟩ := asks?_eq_some_iff.mp asked
  obtain ⟨t, ok⟩ := x.ok_of_faultless kind client direction sound
  obtain ⟨r, s', hr, hl, negotiation⟩ := x.negotiation kind
  obtain rfl : r = .ok t := Option.some.inj (hr.symm.trans ok)
  have hu := Task.aside_underway x.task x.found
  cases negotiation with
  | served t hit =>
    rw [served?_of_control hu.control, miss] at hit
    cases hit
  | assigned channel p _ _ _ prepared =>
    obtain ⟨later, silent, he⟩ := entries_of_assigned hl prepared
    refine ⟨(x.task.underway x.found).nextTrack m c channel, ?_, later, _, _, silent, prepared, he⟩
    simp only [handed, received, outbound, kind, ok, freshlyReceived_nextTrack m c channel hu.made]
    cases hd : m.direction with
    | sendReceive => exact absurd hd direction
    | _ => rfl
  | allotted channel _ server =>
    rw [hu.role, client] at server
    cases server

theorem handed_of_request? (h : x.task.request? = none) : x.handed = [] := by
  simp only [handed, received, outbound, h, List.append_nil]

theorem handed_of_unasked (unasked : x.asks? = none) (client : x.found.role = .activeProducer)
    (serials : ∀ t ∈ x.found.control.receivers, t.serial < x.found.tracks.made) :
    x.handed = [] := by
  cases kind : x.task.request? with
  | none => exact handed_of_request? kind
  | some mc =>
    obtain ⟨m, c⟩ := mc
    obtain ⟨r, s', hr, -, negotiation⟩ := x.negotiation kind
    have hu := Task.aside_underway x.task x.found
    have failed {f : Fault} (h : x.result? = some (.error f)) : x.handed = [] := by
      simp only [handed, received_of_error h, outbound, kind, h, List.append_nil]
    cases negotiation with
    | served t hit =>
      have known : t ∈ x.found.control.receivers := hu.control ▸ mem_receivers_of_served? hit
      have inbound : m.direction = .receiveOnly := by
        unfold served? at hit
        split at hit
        · assumption
        · cases hit
      simp only [handed, received_of_registered hr (serials t known), outbound, kind, hr, inbound]
      rfl
    | refused | unbuilt | unassigned => exact failed hr
    | assigned _ _ miss _ direction =>
      rw [served?_of_control hu.control] at miss
      rw [asks?_eq_some_iff.mpr ⟨c, kind, miss, direction⟩] at unasked
      cases unasked
    | allotted _ _ server =>
      rw [hu.role, client] at server
      cases server

/-- The channel that is assigned comes after those of all other sections of the session. -/
theorem Assigns.channel (h : x.Assigns m t) (suits : x.task.Suits x.found.role)
    (afresh : Afresh x.left.history) :
    t.channel.toNat + 2 = 2 * (negotiated x.left.history).length := by
  obtain ⟨later, s, es, silent, -, he⟩ := h.prepared
  rw [x.history_left suits, he, List.append_assoc, List.cons_append] at afresh ⊢
  have first : t.channel.toNat = _ := afresh.of_append.1 _ (List.mem_singleton_self _)
  rw [negotiated_append (Inert.of_silent silent), first]
  rfl

/-- A session that is built anew has channels from the first one on, for the registered tracks in
order. -/
theorem consecutive_replayed (rebuilds : x.Rebuilds) (suits : x.task.Suits x.found.role)
    (client : x.found.role = .activeProducer) (sound : Faultless x.entries)
    (afresh : Afresh x.left.history) :
    Consecutive 0 x.found.control.registered x.replayed := by
  have opening := assignments_of_silent (.opening x.task)
  rcases rebuilds with reconnects | ⟨playing, asks⟩
  · obtain ⟨es, hh, -, rebuilt⟩ := x.rebuilt_of_reconnects reconnects client sound
    have consecutive := consecutive_of_rebuilt rebuilt (hh ▸ afresh)
    rw [replayed, entries_of_history (hh.trans (List.append_assoc ..).symm), assignments_append,
      opening, List.nil_append, List.take_of_length_le (Nat.le_of_eq consecutive.length_eq)]
    exact consecutive
  · obtain ⟨m, asked⟩ := Option.isSome_iff_exists.mp asks
    obtain ⟨t, assigns⟩ := x.assigns asked client sound
    obtain ⟨later, s, es, silent, prepared, he⟩ := assigns.prepared
    have hu := Task.aside_underway x.task x.found
    cases prepared with
    | ready resting => exact absurd (hu.control ▸ playing) resting
    | rebuilt _ rebuilt =>
      rw [hu.control] at rebuilt
      rw [x.history_left suits, he, List.append_assoc, List.cons_append, List.append_assoc]
        at afresh
      have consecutive : Consecutive 0 x.found.control.registered (assignments es) :=
        consecutive_of_rebuilt rebuilt afresh.of_append.2
      rw [replayed, he, assignments_append, assignments_of_silent silent, List.append_nil,
        ← List.singleton_append, assignments_append, assignments_append, opening, List.nil_append,
        List.take_left' consecutive.length_eq]
      exact consecutive

/-- Without a stop a connection is idle only if it was. -/
theorem idle_found (suits : x.task.Suits x.found.role) (unset : x.task.setsPhase = false)
    (unstopped : x.isStop = false) (idle : x.left.control.phase = .idle) :
    x.found.control.phase = .idle := by
  by_contra busy
  have differ : x.found.control.phase ≠ x.left.control.phase := idle ▸ busy
  obtain ⟨_, _, -, cause⟩ := (x.account suits).cause differ
  rw [isStop] at unstopped
  generalize x.task = task at cause unset unstopped
  generalize x.found.control.phase = p at cause
  rw [idle] at cause
  cases cause with
  | stop => cases unstopped
  | setPhase => cases unset

/-- A client that is idle and makes no request is idle still, unless it dials. -/
theorem dials_of_idle (suits : x.task.Suits x.found.role) (unset : x.task.setsPhase = false)
    (request : x.task.request? = none) (idle : x.found.control.phase = .idle)
    (busy : x.left.control.phase ≠ .idle) : x.Dials := by
  have differ : x.found.control.phase ≠ x.left.control.phase := idle ▸ busy.symm
  obtain ⟨_, _, -, cause⟩ := (x.account suits).cause differ
  rw [Dials]
  generalize x.task = task at cause unset request ⊢
  generalize x.left.control.phase = p at cause
  rw [idle] at cause
  cases cause with
  | connect caller => exact ⟨⟨caller, rfl⟩, idle⟩
  | negotiate _ _ _ kind =>
    rw [request] at kind
    cases kind
  | stop _ _ _ differ => exact absurd rfl differ
  | setPhase => cases unset

end Move

/-! ## Tracks that are registered at once -/

/-- The tracks that have been registered since the last stop, in the order in which they were. -/
def enrolled (past : List Move) : List Track :=
  (sinceStop past).flatMap fun x => x.received ++ x.sent

/-- The tracks that have been handed out as new ones since the last stop. -/
def handedOut (past : List Move) : List Track := (sinceStop past).flatMap Move.handed

/-- The track that the last move about the connection has handed out to be registered. -/
def owed (past : List Move) : List Track :=
  match past.reverse.find? fun x => !x.task.isAside with
  | some x => x.outbound
  | none => []

/-- Is every track that is handed out for this registered at once, before anything else happens to
the connection, and is nothing else registered for sending? -/
def Prompt (moves : List Move) : Prop :=
  ∀ k, (h : k < moves.length) → moves[k].task.isAside = false →
    moves[k].sent = owed (moves.take k)

/-- Are tracks requested only when the client has connected? -/
def Begun (moves : List Move) : Prop :=
  ∀ x ∈ moves, x.task.request?.isSome = true → x.found.control.phase ≠ .idle

section

variable {past : List Move} {x : Move}

theorem Prompt.of_concat (h : Prompt (past ++ [x])) :
    Prompt past ∧ (x.task.isAside = false → x.sent = owed past) :=
  forall_take_concat
    (R := fun (past : List Move) (x : Move) => x.task.isAside = false → x.sent = owed past) h

theorem handedOut_concat (h : x.isStop = false) :
    handedOut (past ++ [x]) = handedOut past ++ x.handed := by
  rw [handedOut, sinceStop_concat h, List.flatMap_append, List.flatMap_singleton]
  rfl

theorem enrolled_concat (h : x.isStop = false) :
    enrolled (past ++ [x]) = enrolled past ++ (x.received ++ x.sent) := by
  rw [enrolled, sinceStop_concat h, List.flatMap_append, List.flatMap_singleton]
  rfl

theorem owed_concat (h : x.task.isAside = false) : owed (past ++ [x]) = x.outbound := by
  rw [owed, List.reverse_append, List.reverse_singleton, List.singleton_append,
    List.find?_cons_of_pos (by simp [h])]

theorem owed_concat_of_isAside (h : x.task.isAside = true) : owed (past ++ [x]) = owed past := by
  rw [owed, List.reverse_append, List.reverse_singleton, List.singleton_append,
    List.find?_cons_of_neg (by simp [h])]
  rfl

theorem Move.outbound_of_request? (h : x.task.request? = none) : x.outbound = [] := by
  simp only [outbound, h]

/-- What has been handed out is registered, but for the track that is owed. -/
theorem handedOut_eq (prompt : Prompt past) : handedOut past = enrolled past ++ owed past := by
  induction past using List.reverseRecOn with
  | nil => rfl
  | append_singleton past x ih =>
    obtain ⟨earlier, prompt⟩ := prompt.of_concat
    have ih := ih earlier
    cases aside : x.task.isAside with
    | true =>
      have request := Task.request?_of_isAside aside
      obtain ⟨unstopped, received, sent⟩ := x.unlogged (Move.isRegistering_of_isAside aside)
      rw [handedOut_concat unstopped, enrolled_concat unstopped, owed_concat_of_isAside aside,
        Move.handed_of_request? request, received, sent, ih]
      simp only [List.append_nil]
    | false =>
      have settled := prompt aside
      cases stop : x.isStop with
      | true =>
        have request : x.task.request? = none := by
          cases kind : x.task.request? with
          | none => rfl
          | some mc =>
            rw [Move.isStop_of_request? kind] at stop
            cases stop
        rw [owed_concat aside, Move.outbound_of_request? request, handedOut, enrolled,
          sinceStop_concat_of_isStop stop]
        rfl
      | false =>
        rw [handedOut_concat stop, enrolled_concat stop, owed_concat aside, ih, Move.handed]
        cases kind : x.task.request? with
        | some mc =>
          rw [← settled, Move.sent_of_request? kind]
          simp only [List.append_nil, List.append_assoc]
        | none =>
          have received : x.received = [] := by simp only [Move.received, kind]
          rw [settled, received, Move.outbound_of_request? kind]
          simp only [List.append_nil, List.nil_append]

/-- The tracks that are registered are those that have been, in some order. -/
theorem Reached.registered_perm {role : Role} {s : Session} (h : Reached role past s) :
    s.control.registered.Perm (enrolled past) := by
  rw [Control.registered, h.registries.1, h.registries.2]
  exact List.flatMap_append_perm _ _ _

end

/-! ## Compliant clients -/

/-- Moves in which no call fails and all callers keep to the rules, on a connection to a peer that
numbers the channels of each session afresh. -/
structure Compliant (moves : List Move) (history : List Entry) : Prop where
  sound : Faultless history
  afresh : Afresh history
  steady : Steady moves
  begun : Begun moves
  prompt : Prompt moves

/-- The tracks that were handed out since the last stop have the first channels, in order, and as
many sections are negotiated in the session. -/
structure Numbered (past : List Move) (s : Session) : Prop where
  channels : (handedOut past).map (fun t => t.channel.toNat) =
    List.range' 0 (handedOut past).length 2
  idle : s.control.phase = .idle → handedOut past = []
  busy : s.control.phase ≠ .idle → (negotiated s.history).length = (handedOut past).length

section

variable {role : Role} {past : List Move} {s : Session} {x : Move}

theorem Compliant.of_concat (h : Compliant (past ++ [x]) x.left.history)
    (suits : x.task.Suits x.found.role) :
    Compliant past x.found.history ∧ Faultless x.entries ∧ x.task.setsPhase = false ∧
      (x.task.request?.isSome = true → x.found.control.phase ≠ .idle) := by
  have sound := h.sound
  have afresh := h.afresh
  rw [x.history_left suits] at sound afresh
  have steady := h.steady.of_append
  have begun := List.forall_mem_append.mp h.begun
  exact ⟨⟨sound.of_append.2, afresh.of_append, steady.1, begun.1, h.prompt.of_concat.1⟩,
    sound.of_append.1, steady.2 x (List.mem_singleton_self x),
    begun.2 x (List.mem_singleton_self x)⟩

/-- Nothing is owed when the session is built anew. -/
theorem handedOut_of_rebuilds (prompt : Prompt (past ++ [x])) (rebuilds : x.Rebuilds) :
    handedOut past = enrolled past := by
  obtain ⟨earlier, prompt⟩ := prompt.of_concat
  have settled : owed past = [] := by
    rcases rebuilds with ⟨caller, kind⟩ | ⟨-, asks⟩
    · rw [← prompt (by rw [kind]; rfl), Move.sent, kind]
    · obtain ⟨m, asked⟩ := Option.isSome_iff_exists.mp asks
      obtain ⟨c, kind, -⟩ := Move.asks?_eq_some_iff.mp asked
      rw [← prompt, Move.sent_of_request? kind]
      by_contra aside
      rw [Bool.not_eq_false] at aside
      rw [Task.request?_of_isAside aside] at kind
      cases kind
  rw [handedOut_eq earlier, settled, List.append_nil]

/-- A move that leaves a session has a section negotiated if it asks for one, and has lost none. -/
theorem Numbered.length_left (h : Numbered past x.found) (earlier : Reached role past x.found)
    (client : role = .activeProducer) (suits : x.task.Suits x.found.role)
    (compliant : Compliant (past ++ [x]) x.left.history) (busy : x.left.control.phase ≠ .idle) :
    (negotiated x.left.history).length = (handedOut past).length + x.asks?.toList.length := by
  obtain ⟨-, sound, unset, begun⟩ := compliant.of_concat suits
  cases x.sections suits (earlier.role_eq.trans client) sound with
  | rebuilt rebuilds sections =>
    rw [sections, List.length_append, List.length_reverse, List.length_map,
      earlier.registered_perm.length_eq, handedOut_of_rebuilds compliant.prompt rebuilds,
      Nat.add_comm]
  | dialled dials _ unasked sections =>
    rw [sections, unasked, h.idle dials.2]
    rfl
  | kept unopened sections =>
    have connected : x.found.control.phase ≠ .idle := by
      intro idle
      cases kind : x.task.request? with
      | none => exact unopened (Or.inl (x.dials_of_idle suits unset kind idle busy))
      | some mc => exact begun (by rw [kind]; rfl) idle
    rw [sections, List.length_append, h.busy connected, Nat.add_comm]

theorem Numbered.step (h : Numbered past x.found) (earlier : Reached role past x.found)
    (client : role = .activeProducer) (suits : x.task.Suits x.found.role)
    (compliant : Compliant (past ++ [x]) x.left.history) : Numbered (past ++ [x]) x.left := by
  obtain ⟨-, sound, unset, begun⟩ := compliant.of_concat suits
  have length := h.length_left earlier client suits compliant
  have client := earlier.role_eq.trans client
  cases stop : x.isStop with
  | true =>
    have none : handedOut (past ++ [x]) = [] := by
      rw [handedOut, sinceStop_concat_of_isStop stop]
      rfl
    have idle : x.left.control.phase = .idle := by rw [(x.stops stop).control]
    exact ⟨by rw [none]; rfl, fun _ => none, fun busy => absurd idle busy⟩
  | false =>
    have resting := x.idle_found suits unset stop
    cases asked : x.asks? with
    | none =>
      have same : handedOut (past ++ [x]) = handedOut past := by
        rw [handedOut_concat stop, x.handed_of_unasked asked client earlier.serial_lt,
          List.append_nil]
      rw [asked] at length
      exact ⟨same ▸ h.channels, fun idle => same ▸ h.idle (resting idle), same ▸ length⟩
    | some m =>
      obtain ⟨c, kind, -⟩ := Move.asks?_eq_some_iff.mp asked
      have connected : x.found.control.phase ≠ .idle := begun (by rw [kind]; rfl)
      obtain ⟨t, assigns⟩ := x.assigns asked client sound
      have more : handedOut (past ++ [x]) = handedOut past ++ [t] := by
        rw [handedOut_concat stop, assigns.handed]
      have length : (negotiated x.left.history).length = (handedOut past).length + 1 := by
        rw [length (mt resting connected), asked]
        rfl
      have channel : t.channel.toNat = 2 * (handedOut past).length := by
        have := assigns.channel suits compliant.afresh
        omega
      refine ⟨?_, fun idle => absurd (resting idle) connected, fun _ => ?_⟩
      · rw [more, List.map_append, h.channels, List.length_append, List.length_singleton,
          List.range'_concat, Nat.zero_add, ← channel]
        rfl
      · rw [more, length, List.length_append, List.length_singleton]

theorem Reached.numbered (h : Reached role past s) (client : role = .activeProducer)
    (compliant : Compliant past s.history) : Numbered past s := by
  induction h using Reached.induct with
  | opened => exact ⟨rfl, fun _ => rfl, fun busy => absurd rfl busy⟩
  | moved past x earlier _ suits ih =>
    exact (ih (compliant.of_concat suits).1).step earlier client suits compliant

theorem Compliant.before {later : List Move} (h : Reached role (past ++ x :: later) s)
    (compliant : Compliant (past ++ x :: later) s.history) :
    Compliant (past ++ [x]) x.left.history := by
  induction later using List.reverseRecOn generalizing s with
  | nil =>
    obtain ⟨-, -, rfl⟩ := h.last
    exact compliant
  | append_singleton later y ih =>
    rw [← List.cons_append, ← List.append_assoc] at h compliant
    obtain ⟨found, suits, rfl⟩ := h.last
    exact ih found (compliant.of_concat (found.suits_task suits)).1

end

/-! ## Channels that are kept -/

section

variable {ts : List Track} {as : List (MediaSection × UInt8)}

theorem increasing_of_channels {n : Nat}
    (h : ts.map (fun t => t.channel.toNat) = List.range' 0 n 2) :
    ts.Pairwise fun t u => t.channel.toNat < u.channel.toNat := by
  rw [← List.pairwise_map (f := fun t : Track => t.channel.toNat), h]
  exact List.pairwise_lt_range' 2 (by decide)

/-- Assignments are the same again if the channels of the tracks go on from the first one. -/
theorem Consecutive.eq_iff (h : Consecutive 0 ts as) :
    as = ts.map (fun t => (t.media, t.channel)) ↔
      ts.map (fun t => t.channel.toNat) = List.range' 0 ts.length 2 := by
  constructor
  · intro same
    rw [← h.channels, same, List.map_map]
    rfl
  · intro channels
    have injective : Function.Injective fun a : MediaSection × UInt8 => (a.1, a.2.toNat) := by
      intro a b hab
      obtain ⟨media, channel⟩ := Prod.mk.inj hab
      exact Prod.ext media (UInt8.toNat_inj.mp channel)
    apply List.map_injective_iff.mpr injective
    rw [← List.zip_map', h.medias, h.channels, ← channels, List.zip_map', List.map_map]
    rfl

end

/-- When a compliant client builds its session anew, its registered tracks get the first channels,
the inbound tracks before the outbound ones; each of them gets its own channel again exactly if that
is the order in which they have been registered. -/
theorem Course.replayed_iff (r : Course) (client : r.role = .activeProducer)
    (compliant : Compliant r.moves r.session.history) {past later : List Move} {x : Move}
    (h : r.moves = past ++ x :: later) (rebuilds : x.Rebuilds) :
    Consecutive 0 x.found.control.registered x.replayed ∧
      (x.replayed = x.found.control.registered.map (fun t => (t.media, t.channel)) ↔
        x.found.control.registered = enrolled past) := by
  have hr : Reached r.role (past ++ x :: later) r.session := h ▸ r.reached
  obtain ⟨found, suits⟩ := hr.before
  have suits := found.suits_task suits
  have compliant : Compliant (past ++ [x]) x.left.history := .before hr (h ▸ compliant)
  obtain ⟨earlier, sound, -⟩ := compliant.of_concat suits
  have consecutive := x.consecutive_replayed rebuilds suits (found.role_eq.trans client) sound
    compliant.afresh
  have numbered := found.numbered client earlier
  have perm := found.registered_perm
  have channels := numbered.channels
  rw [handedOut_of_rebuilds compliant.prompt rebuilds] at channels
  refine ⟨consecutive, consecutive.eq_iff.trans ⟨?_, ?_⟩⟩
  · intro again
    refine perm.eq_of_pairwise ?_ (increasing_of_channels again) (increasing_of_channels channels)
    intro t u _ _ lt gt
    exact absurd gt (Nat.lt_asymm lt)
  · intro order
    rw [order]
    exact channels

/-- A client that registers a track to send on before it gets one to receive on, and plays both
until its handler reconnects. -/
def Course.talkingClient : Course :=
  { role := .activeProducer, descriptor := default, settings := default, monitored := false
    peer := {}, script := {}
    callers := [[.connect, .getTrack talkSection audioRequest, .addSender 0 1,
      .getTrack videoSection videoRequest,
      .pushStep [.setChannel 0, .reconnect, .showControl] (.ok ()), .start]]
    schedule := List.replicate 22 0 }

/-- The move with which the handler reconnects. -/
def talkingMove : Move := Course.talkingClient.moves.get ⟨15, by decide +kernel⟩

theorem talkingClient_compliant :
    Compliant Course.talkingClient.moves Course.talkingClient.session.history := by
  constructor
  · unfold Faultless
    decide +kernel
  · decide +kernel
  · unfold Steady
    decide +kernel
  · unfold Begun
    decide +kernel
  · unfold Prompt
    decide +kernel

/-- Tracks may have other channels in a session that is built anew. -/
theorem Course.talkingClient_misnumbered :
    ¬ ∀ r : Course, r.role = .activeProducer → Compliant r.moves r.session.history →
      ∀ x ∈ r.moves, x.Rebuilds →
        x.replayed = x.found.control.registered.map fun t => (t.media, t.channel) := by
  intro h
  have rebuilds : talkingMove.Rebuilds := Or.inl ⟨.frameHandler, rfl⟩
  have same := h talkingClient rfl talkingClient_compliant talkingMove (List.get_mem _ _) rebuilds
  have differ : talkingMove.replayed ≠
      talkingMove.found.control.registered.map fun t => (t.media, t.channel) := by decide +kernel
  exact differ same

/-- The video track takes the channel of the other one, which was registered before it. -/
theorem Course.talkingClient_replayed :
    talkingMove.left.control.phase = .playing ∧
      talkingMove.replayed = [(videoSection, 0), (talkSection, 2)] ∧
      enrolled (talkingClient.moves.take 15) =
        [⟨0, talkSection, audioRequest, 0⟩, ⟨1, videoSection, videoRequest, 2⟩] ∧
      talkingMove.found.control.registered ≠ enrolled (talkingClient.moves.take 15) := by
  have split : talkingClient.moves = talkingClient.moves.take 15 ++
      talkingMove :: talkingClient.moves.drop 16 := by
    rw [talkingMove, List.get_eq_getElem, ← List.drop_eq_getElem_cons, List.take_append_drop]
  obtain ⟨-, kept⟩ := Course.replayed_iff talkingClient rfl talkingClient_compliant split
    (Or.inl ⟨.frameHandler, rfl⟩)
  have differ : talkingMove.replayed ≠
      talkingMove.found.control.registered.map fun t => (t.media, t.channel) := by decide +kernel
  refine ⟨by decide +kernel, by decide +kernel, by decide +kernel, ?_⟩
  exact fun order => differ (kept.mpr order)

end RtspControl
