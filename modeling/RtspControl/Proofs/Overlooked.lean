import RtspControl.Proofs.Joining
import RtspControl.Proofs.Openings

/-!
# Sections that a new session leaves out

A track to send on is negotiated when somebody asks for it, and registered later, by whoever got
it. In between anybody else may have the session built anew, for the tracks that are registered
then: the one that waits to be registered is overlooked, and the new session does not know its
section, however soon it is registered afterwards.

`Move.sections` says what a client's move makes of the sections of the session. By it
`Course.negotiated_iff_not_overlooked` tells, for any track that a request has handed out, exactly
when the session knows its section, and `Course.belatedClient` is a course in which it does not
know that of a registered track.
-/

namespace RtspControl

open Session

/-! ## What moves make of the sections of the session -/

namespace Move

/-- The section that a client asks the peer for, on a request that the registry does not serve. -/
def asks? (x : Move) : Option MediaSection :=
  x.missed?.filter fun m => m.direction ≠ .sendReceive

/-- Is the session built anew, for all the tracks that are registered? -/
def Rebuilds (x : Move) : Prop :=
  x.Reconnects ∨ x.found.control.phase = .playing ∧ x.asks?.isSome = true

/-- Is a session opened? -/
def Opens (x : Move) : Prop := x.Dials ∨ x.Rebuilds

/-- Is a section negotiated, for a request or along with all registered tracks? -/
def Negotiates (x : Move) (m : MediaSection) : Prop :=
  x.asks? = some m ∨ x.Rebuilds ∧ ∃ t ∈ x.found.control.registered, t.media = m

/-- What a client's move without faults makes of the sections of the session. -/
inductive Sections (x : Move) : Prop where
  | rebuilt (rebuilds : x.Rebuilds) (sections : negotiated x.left.history =
      x.asks?.toList ++ (x.found.control.registered.map Track.media).reverse)
  | dialled (dials : x.Dials) (unbuilt : ¬ x.Rebuilds) (unasked : x.asks? = none)
      (sections : negotiated x.left.history = [])
  | kept (unopened : ¬ x.Opens)
      (sections : negotiated x.left.history = x.asks?.toList ++ negotiated x.found.history)

variable {x : Move}

theorem asks?_eq_some_iff {m : MediaSection} :
    x.asks? = some m ↔ ∃ c, x.task.request? = some (m, c) ∧ x.found.served? m c = none ∧
      m.direction ≠ .sendReceive := by
  rw [asks?, Option.filter_eq_some_iff, decide_eq_true_eq]
  constructor
  · rintro ⟨missed, direction⟩
    cases kind : x.task.request? with
    | none =>
      rw [missed?_of_request? kind] at missed
      cases missed
    | some mc =>
      rw [missed?_eq kind] at missed
      split at missed
      · next miss =>
        obtain rfl := Option.some.inj missed
        exact ⟨mc.2, rfl, miss, direction⟩
      · cases missed
  · rintro ⟨c, kind, miss, direction⟩
    exact ⟨by rw [missed?_eq kind, if_pos miss], direction⟩

theorem asks?_of_request? (h : x.task.request? = none) : x.asks? = none := by
  rw [asks?, missed?_of_request? h, Option.filter_none]

theorem asks?_of_reconnects (h : x.Reconnects) : x.asks? = none := by
  obtain ⟨caller, kind⟩ := h
  exact asks?_of_request? (by rw [kind]; rfl)

theorem not_opens_of_request? {m : MediaSection} {c : Codec} (h : x.task.request? = some (m, c))
    (resting : x.found.control.phase ≠ .playing) : ¬ x.Opens := by
  rintro (dials | reconnects | ⟨playing, -⟩)
  · exact not_dials_of_request? h dials
  · exact not_reconnects_of_request? h reconnects
  · exact resting playing

/-- A reconnect has all registered tracks negotiated again, in order. -/
theorem rebuilt_of_reconnects (h : x.Reconnects) (client : x.found.role = .activeProducer)
    (sound : Faultless x.entries) :
    ∃ es, x.left.history = es ++ (x.task.opening ++ x.found.history) ∧ Faultless es ∧
      Rebuilt x.found.control.registered (.ok ()) es := by
  obtain ⟨caller, kind⟩ := h
  have hu := Task.aside_underway x.task x.found
  obtain ⟨server, -⟩ | ⟨r, p, es, -, hr, rebuilt⟩ :=
    Task.outcome_reconnect (x.task.underway x.found)
  · exact absurd (hu.role.trans client) server
  · have hh : x.left.history = es ++ (x.task.opening ++ x.found.history) := by
      rw [left_of_reconnect kind, hr, history_heard, history_alerted, Task.history_underway]
    have faultless : Faultless es := by
      rw [entries_of_history (hh.trans (List.append_assoc ..).symm)] at sound
      exact sound.of_append.1
    rw [hu.control] at rebuilt
    cases r with
    | ok => exact ⟨es, hh, faultless, rebuilt⟩
    | error f => exact absurd faultless (not_faultless_of_rebuilt rebuilt)

/-- A client's move without faults does one of three things to the sections of the session. -/
theorem sections (suits : x.task.Suits x.found.role) (client : x.found.role = .activeProducer)
    (sound : Faultless x.entries) : x.Sections := by
  by_cases reconnects : x.Reconnects
  · obtain ⟨es, hh, faultless, rebuilt⟩ := x.rebuilt_of_reconnects reconnects client sound
    refine .rebuilt (Or.inl reconnects) ?_
    rw [asks?_of_reconnects reconnects, hh, negotiated_of_rebuilt rebuilt faultless]
    rfl
  cases asked : x.asks? with
  | some m =>
    obtain ⟨c, kind, miss, direction⟩ := asks?_eq_some_iff.mp asked
    obtain ⟨t, ok⟩ := x.ok_of_faultless kind client direction sound
    have sections := x.sections_of_granted kind client miss sound ok suits
    by_cases playing : x.found.control.phase = .playing
    · refine .rebuilt (Or.inr ⟨playing, by rw [asked]; rfl⟩) ?_
      rw [sections, if_pos playing, asked]
      rfl
    · refine .kept (not_opens_of_request? kind playing) ?_
      rw [sections, if_neg playing, asked]
      rfl
  | none =>
    have unbuilt : ¬ x.Rebuilds := by
      rintro (attempted | ⟨-, asks⟩)
      · exact reconnects attempted
      · rw [asked] at asks
        cases asks
    have unrenewed (m : MediaSection) : ¬ x.Renews m := by
      rintro (attempted | ⟨m', c, kind, miss, direction, -⟩)
      · exact reconnects attempted
      · rw [asks?_eq_some_iff.mpr ⟨c, kind, miss, direction⟩] at asked
        cases asked
    cases x.turn suits client sound with
    | dialled dials _ _ sections => exact .dialled dials unbuilt asked sections
    | kept undialled _ _ sections =>
      refine .kept (not_or.mpr ⟨undialled, unbuilt⟩) ?_
      rw [sections, asked]
      rfl
    | added m _ renews => exact absurd ((renews m).mpr rfl) (unrenewed m)
    | renewed _ renews => exact absurd (renews default) (unrenewed default)

/-- A section is negotiated in the session that a move leaves if the move has negotiated it, or has
not opened another session than the one in which it was. -/
theorem mem_negotiated_left (suits : x.task.Suits x.found.role)
    (client : x.found.role = .activeProducer) (sound : Faultless x.entries) (m : MediaSection) :
    m ∈ negotiated x.left.history ↔
      x.Negotiates m ∨ ¬ x.Opens ∧ m ∈ negotiated x.found.history := by
  cases x.sections suits client sound with
  | rebuilt rebuilds sections =>
    simp only [sections, Negotiates, Opens, rebuilds, List.mem_append, Option.mem_toList,
      List.mem_reverse, List.mem_map, or_true, not_true_eq_false, false_and, or_false, true_and]
  | dialled dials unbuilt unasked sections =>
    simp only [sections, Negotiates, Opens, dials, unbuilt, unasked, List.not_mem_nil, reduceCtorEq,
      false_and, not_true_eq_false, or_false]
  | kept unopened sections =>
    have unbuilt : ¬ x.Rebuilds := (not_or.mp unopened).2
    simp only [sections, Negotiates, unopened, unbuilt, List.mem_append, Option.mem_toList,
      false_and, or_false, not_false_eq_true, true_and]

theorem asks?_of_ok (client : x.found.role = .activeProducer) {t : Track}
    (ok : x.result? = some (.ok t)) :
    t ∈ x.found.control.receivers ∨ x.asks? = some t.media := by
  have hu := Task.aside_underway x.task x.found
  cases kind : x.task.request? with
  | none => simp [result?, kind] at ok
  | some mc =>
    obtain ⟨r, s', hr, -, negotiation⟩ := x.negotiation kind
    obtain rfl : r = .ok t := Option.some.inj (hr.symm.trans ok)
    cases negotiation with
    | served t hit => exact Or.inl (hu.control ▸ mem_receivers_of_served? hit)
    | assigned channel p miss _ direction =>
      rw [served?_of_control hu.control] at miss
      exact Or.inr (asks?_eq_some_iff.mpr ⟨mc.2, kind, miss, direction⟩)
    | allotted channel _ server =>
      rw [hu.role, client] at server
      cases server

theorem asks?_of_received (client : x.found.role = .activeProducer)
    (serials : ∀ t ∈ x.found.control.receivers, t.serial < x.found.tracks.made) {t : Track}
    (h : t ∈ x.received) : x.asks? = some t.media := by
  have ok := result?_of_received h
  refine (x.asks?_of_ok client ok).resolve_left fun registered => ?_
  rw [received_of_registered ok (serials t registered)] at h
  cases h

end Move

/-! ## Sections that are overlooked -/

/-- Was a section left out when the session was opened, and has it not been negotiated since? -/
def Overlooked (past : List Move) (m : MediaSection) : Prop :=
  Since (fun x => x.Opens ∧ ¬ x.Negotiates m) (fun x => ¬ x.Negotiates m) past

theorem overlooked_concat {past : List Move} {x : Move} {m : MediaSection} :
    Overlooked (past ++ [x]) m ↔ ¬ x.Negotiates m ∧ (x.Opens ∨ Overlooked past m) := by
  rw [Overlooked, since_concat, and_comm (a := x.Opens), ← and_or_left]
  rfl

section

variable {role : Role} {past : List Move} {s : Session}

/-- A section that the session does not know was overlooked, or never negotiated at all. -/
theorem Reached.not_mem_negotiated_iff (h : Reached role past s) (client : role = .activeProducer)
    (sound : Faultless s.history) (m : MediaSection) :
    m ∉ negotiated s.history ↔ Overlooked past m ∨ ∀ x ∈ past, ¬ x.Negotiates m := by
  induction h using Reached.induct with
  | opened => exact iff_of_true List.not_mem_nil (Or.inr (List.forall_mem_nil _))
  | moved past x earlier _ suits ih =>
    rw [x.history_left suits] at sound
    rw [x.mem_negotiated_left suits (earlier.role_eq.trans client) sound.of_append.1, not_or,
      not_and_or, not_not, ih sound.of_append.2, overlooked_concat, List.forall_mem_append,
      List.forall_mem_singleton, ← or_assoc, and_or_left, and_comm (b := ∀ x ∈ past, _)]

/-- What requests hand out has been negotiated, by them or by an earlier one. -/
theorem Reached.negotiates_of_ok (h : Reached role past s) (client : role = .activeProducer)
    {y : Move} (hy : y ∈ past) {t : Track} (ok : y.result? = some (.ok t)) :
    ∃ x ∈ past, x.Negotiates t.media := by
  obtain ⟨before, later, rfl⟩ := List.append_of_mem hy
  have found := h.before.1
  rcases y.asks?_of_ok (found.role_eq.trans client) ok with registered | asked
  · rw [found.registries.1] at registered
    obtain ⟨x, hx, ht⟩ := List.mem_flatMap.mp registered
    have hx : x ∈ before := (List.rtakeWhile_suffix _ _).subset hx
    obtain ⟨earlier, between, rfl⟩ := List.append_of_mem hx
    have found := found.before.1
    have asked := x.asks?_of_received (found.role_eq.trans client) found.serial_lt ht
    exact ⟨x, List.mem_append_left _ hx, Or.inl asked⟩
  · exact ⟨y, by simp, Or.inl asked⟩

end

/-- Between any two moves of a client without faults, the present session knows the section of a
track that was handed out, registered or not, unless the section has been overlooked. -/
theorem Course.negotiated_iff_not_overlooked (r : Course) (client : r.role = .activeProducer)
    (sound : Faultless r.session.history) {past later : List Move} {x : Move}
    (h : r.moves = past ++ x :: later) {y : Move} (hy : y ∈ past ++ [x]) {t : Track}
    (ok : y.result? = some (.ok t)) :
    t.media ∈ negotiated x.left.history ↔ ¬ Overlooked (past ++ [x]) t.media := by
  have hr : Reached r.role (past ++ x :: later) r.session := h ▸ r.reached
  have faultless : Faultless x.left.history := by
    have hs := hr.after.history_subset (List.append_cons past x later ▸ hr)
    intro e he
    exact sound e (hs he)
  obtain ⟨z, hz, negotiates⟩ := hr.after.negotiates_of_ok client hy ok
  have missing := hr.after.not_mem_negotiated_iff client faultless t.media
  rw [or_iff_left fun never => never z hz negotiates] at missing
  exact (not_iff_comm.mp missing).symm

/-! ## Tracks that are registered too late -/

/-- The track that a move hands out for its caller to register: the one that a request for a section
to send on gets. -/
def Move.outbound (x : Move) : List Track :=
  match x.task.request?, x.result? with
  | some (m, _), some (.ok t) => if m.direction = .sendOnly then [t] else []
  | _, _ => []

/-- Is every track that is handed out for this registered once, sooner or later, but before the
next stop? -/
def Pledged : List Move → Prop
  | [] => True
  | x :: later => (∀ t ∈ x.outbound,
      ((later.takeWhile fun y => !y.isStop).flatMap Move.sent).count t = 1) ∧ Pledged later

instance decidablePledged : DecidablePred Pledged
  | [] => inferInstanceAs (Decidable True)
  | _ :: later =>
    have := decidablePledged later
    inferInstanceAs (Decidable (_ ∧ _))

/-- A client that plays a video stream. Handlers get a track to send on, and when the client plays
again an audio track, before they register the first one. -/
def Course.belatedClient : Course :=
  { role := .activeProducer, descriptor := default, settings := default, monitored := false
    peer := {}, script := {}
    callers := [[.connect, .getTrack videoSection videoRequest,
      .pushStep [.getTrack talkSection audioRequest] (.ok ()),
      .pushStep [.getTrack audioSection audioRequest, .addSender 1 1] (.ok ()),
      .pushStep [.showControl] (.ok ()), .start]]
    schedule := List.replicate 26 0 }

/-- The move with which it plays for the last time. -/
def belatedPlay : Move := Course.belatedClient.moves.get ⟨21, by decide +kernel⟩

/-- A playing session may not know the section of a track that is registered for sending. -/
theorem Course.belatedClient_unnegotiated :
    ¬ ∀ r : Course, r.role = .activeProducer → Faultless r.session.history → Steady r.moves →
      Pledged r.moves → ∀ x ∈ r.moves, x.left.control.phase = .playing →
        ∀ t ∈ x.left.control.senders, t.media ∈ negotiated x.left.history := by
  intro h
  have sound : Faultless belatedClient.session.history := by
    unfold Faultless
    decide +kernel
  have steady : Steady belatedClient.moves := by
    unfold Steady
    decide +kernel
  have playing : belatedPlay.left.control.phase = .playing := by decide +kernel
  have registered : ⟨1, talkSection, audioRequest, 4⟩ ∈ belatedPlay.left.control.senders := by
    decide +kernel
  have missing : talkSection ∉ negotiated belatedPlay.left.history := by decide +kernel
  exact missing (h belatedClient rfl sound steady (by decide +kernel) belatedPlay
    (List.get_mem _ _) playing _ registered)

/-- It is the track to send on whose section was overlooked; that of the video track was not. -/
theorem Course.belatedClient_overlooked :
    Faultless belatedClient.session.history ∧
      Overlooked (belatedClient.moves.take 21 ++ [belatedPlay]) talkSection ∧
      ¬ Overlooked (belatedClient.moves.take 21 ++ [belatedPlay]) videoSection := by
  have sound : Faultless belatedClient.session.history := by
    unfold Faultless
    decide +kernel
  have split : belatedClient.moves = belatedClient.moves.take 21 ++
      belatedPlay :: belatedClient.moves.drop 22 := by
    rw [belatedPlay, List.get_eq_getElem, ← List.drop_eq_getElem_cons, List.take_append_drop]
  have early (n : Nat) (hn : n < belatedClient.moves.length) (h : n < 21) :
      belatedClient.moves.get ⟨n, hn⟩ ∈ belatedClient.moves.take 21 ++ [belatedPlay] :=
    List.mem_append_left _ (List.mem_take_iff_getElem.mpr ⟨n, by omega, rfl⟩)
  have talk := Course.negotiated_iff_not_overlooked belatedClient rfl sound split
    (early 12 (by decide +kernel) (by decide)) (t := ⟨1, talkSection, audioRequest, 4⟩)
    (by decide +kernel)
  have video := Course.negotiated_iff_not_overlooked belatedClient rfl sound split
    (early 2 (by decide +kernel) (by decide)) (t := ⟨0, videoSection, videoRequest, 0⟩)
    (by decide +kernel)
  have missing : talkSection ∉ negotiated belatedPlay.left.history := by decide +kernel
  have known : videoSection ∈ negotiated belatedPlay.left.history := by decide +kernel
  exact ⟨sound, not_not.mp fun spared => missing (talk.mpr spared), video.mp known⟩

end RtspControl
