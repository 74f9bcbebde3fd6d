import RtspControl.Proofs.Failures

/-!
# Tracks that join a playing session

While the frame handler blocks its caller, others may get tracks, register senders and do anything
to tracks. The first of them whose request the registry does not serve has the session built anew,
for all the tracks that are registered then; those that come later only have their own section
negotiated, since the connection has not played since. When the frame handler returns, `start`
finds the connection ready and plays it again.

`Course.played_with_all` says this for any such stretch of a course without faults, and that the
peer knows the section of every track that it then plays: `Move.Joining` lists what one move can
do, and `Rejoined` is what every move keeps once the session is built anew.
-/

namespace RtspControl

open Session

/-! ## What others may do -/

/-- Is a task one of a companion of the frame handler: a request for a track that flows in one
direction, the registration of a sender, or nothing that is about the connection? -/
def Task.isCompanion (t : Task) : Bool :=
  match t with
  | .perform _ (.addSender _ _) => true
  | t => t.isAside || t.request?.any fun mc => mc.1.direction ≠ .sendReceive

theorem Task.isCompanion_cases {t : Task} (h : t.isCompanion = true) :
    (∃ caller n times, t = .perform caller (.addSender n times)) ∨ t.isAside = true ∨
      ∃ m c, t.request? = some (m, c) ∧ m.direction ≠ .sendReceive := by
  unfold isCompanion at h
  split at h
  · next caller n times => exact Or.inl ⟨caller, n, times, rfl⟩
  · rw [Bool.or_eq_true] at h
    rcases h with aside | request
    · exact Or.inr (Or.inl aside)
    · cases kind : t.request? with
      | none => simp [kind] at request
      | some mc => exact Or.inr (Or.inr ⟨mc.1, mc.2, rfl, by simpa [kind] using request⟩)

/-- The section of a request that the registry does not serve. -/
def Move.missed? (x : Move) : Option MediaSection :=
  match x.task.request? with
  | some (m, c) => if x.found.served? m c = none then some m else none
  | none => none

/-! ## What one move does -/

/-- What a companion's move without faults does. -/
inductive Move.Joining (x : Move) : Prop
  | quiet (served : x.missed? = none) (asked : calls x.entries = [])
      (phase : x.left.control.phase = x.found.control.phase)
      (receivers : x.left.control.receivers = x.found.control.receivers)
      (sections : negotiated x.left.history = negotiated x.found.history)
  | joined (m : MediaSection) (missed : x.missed? = some m)
      (asked : calls x.entries =
        (if x.found.control.phase = .playing then renewal x.found.control.registered else [])
          ++ [.setUp m])
      (phase : x.left.control.phase = .ready)
      (receivers : ∀ t ∈ x.left.control.receivers,
        t ∈ x.found.control.receivers ∨ t.media = m)
      (sections : negotiated x.left.history = m ::
        if x.found.control.phase = .playing then
          (x.found.control.registered.map Track.media).reverse
        else negotiated x.found.history)

theorem Inert.of_silent {es : List Entry} (h : Silent es) : Inert es := by
  refine h.mono ?_
  intro e he
  cases e with
  | requested | setUp => simp [Entry.isSilent, Entry.call?] at he
  | _ => rfl

theorem not_faultless_of_denied {es : List Entry} {f : Fault} (h : Denied f es) :
    ¬ Faultless es := by
  obtain ⟨e, earlier, rfl, he, -⟩ := h
  refine not_faultless List.mem_cons_self ?_
  unfold Entry.denial? at he
  split at he
  · cases he
  · rw [he]; rfl
  · rfl
  · cases he

namespace Move

variable {x : Move} {m : MediaSection} {c : Codec}

theorem missed?_of_request? (h : x.task.request? = none) : x.missed? = none := by
  simp only [missed?, h]

theorem missed?_eq (h : x.task.request? = some (m, c)) :
    x.missed? = if x.found.served? m c = none then some m else none := by
  simp only [missed?, h]

/-- A move of which the peer hears nothing. -/
theorem Joining.of_silent {es : List Entry} (served : x.missed? = none)
    (hh : x.left.history = es ++ x.found.history) (silent : Silent es)
    (phase : x.left.control.phase = x.found.control.phase)
    (receivers : x.left.control.receivers = x.found.control.receivers) : x.Joining := by
  refine .quiet served ?_ phase receivers ?_
  · rw [entries_of_history hh, silent.calls]
  · rw [hh, negotiated_append (Inert.of_silent silent)]

theorem Joining.of_aside (aside : x.task.isAside = true) : x.Joining := by
  have h : Aside x.found x.left := Task.aside_step aside x.found
  obtain ⟨es, he, hes⟩ := h.history
  exact of_silent (missed?_of_request? (Task.request?_of_isAside aside)) he (.of_isAside hes)
    (by rw [h.control]) (by rw [h.control])

theorem Joining.of_addSender {caller : Caller} {n times : Nat}
    (kind : x.task = .perform caller (.addSender n times)) : x.Joining := by
  have served : x.missed? = none := missed?_of_request? (by rw [kind]; rfl)
  have hs := Task.step_addSender caller n times x.found
  rw [← kind] at hs
  change x.left = _ at hs
  cases known : x.found.track? n with
  | none =>
    rw [known] at hs
    have hh : x.left.history = [.began (.addSender n times)] ++ x.found.history := by
      rw [hs]
      rfl
    exact of_silent served hh (.cons rfl .nil) (by rw [hs]; rfl) (by rw [hs]; rfl)
  | some t =>
    rw [known] at hs
    simp only [outcome_addSenders] at hs
    have silent : Silent (List.replicate times (.note (.senderRegistered t)) ++
        [.began (.addSender n times)]) := (Only.replicate times rfl).append (.cons rfl .nil)
    refine of_silent served ?_ silent (by rw [hs]; rfl) (by rw [hs]; rfl)
    rw [hs, history_heard, history_sending, history_log, List.append_assoc]
    rfl

/-- A request that the registry serves. -/
theorem Joining.of_hit (kind : x.task.request? = some (m, c)) {t : Track}
    (hit : x.found.served? m c = some t) : x.Joining := by
  obtain ⟨r, s', hr, hl, negotiation⟩ := x.negotiation kind
  have hu := Task.aside_underway x.task x.found
  have served : x.missed? = none := by rw [missed?_eq kind, hit]; rfl
  have hs := (served?_of_control (m := m) (c := c) hu.control).trans hit
  cases negotiation with
  | served t' hit' =>
    have hh : x.left.history =
        ([.note (.servedFromRegistry t')] ++ x.task.opening) ++ x.found.history := by
      rw [hl, history_log, Task.history_underway]
      rfl
    have hc : x.left.control = x.found.control := by
      rw [hl, control_log, hu.control]
    exact of_silent served hh (Only.append (.cons rfl .nil) (Silent.opening x.task)) (by rw [hc])
      (by rw [hc])
  | refused _ miss | unbuilt _ _ miss | unassigned _ _ miss | assigned _ _ miss
  | allotted _ miss =>
    rw [miss] at hs
    cases hs

/-- A client gets a track in one direction unless a call is denied. -/
theorem ok_of_faultless (kind : x.task.request? = some (m, c))
    (client : x.found.role = .activeProducer) (direction : m.direction ≠ .sendReceive)
    (sound : Faultless x.entries) : ∃ t, x.result? = some (.ok t) := by
  obtain ⟨r, s', hr, -, -⟩ := x.negotiation kind
  cases r with
  | ok t => exact ⟨t, hr⟩
  | error f =>
    rcases (x.failsWith kind hr).cause with denied | ⟨-, refused⟩
    · exact absurd sound (not_faultless_of_denied denied)
    · cases hd : m.direction <;> simp_all [refusal?]

theorem sections_of_granted (kind : x.task.request? = some (m, c))
    (client : x.found.role = .activeProducer) (miss : x.found.served? m c = none)
    (sound : Faultless x.entries) {t : Track} (ok : x.result? = some (.ok t))
    (suits : x.task.Suits x.found.role) :
    negotiated x.left.history = m ::
      if x.found.control.phase = .playing then
        (x.found.control.registered.map Track.media).reverse
      else negotiated x.found.history := by
  obtain ⟨r, s', hr, hl, negotiation⟩ := x.negotiation kind
  obtain rfl : r = .ok t := Option.some.inj (hr.symm.trans ok)
  have hu := Task.aside_underway x.task x.found
  have hs := (served?_of_control (m := m) (c := c) hu.control).trans miss
  cases negotiation with
  | served t' hit =>
    rw [hs] at hit
    cases hit
  | @assigned channel p s₁ es _ _ direction prepared =>
    obtain ⟨later, silent, he⟩ := entries_of_assigned hl prepared
    have hn : negotiated x.left.history =
        m :: negotiated (es ++ (x.task.opening ++ x.found.history)) := by
      rw [x.history_left suits, he, List.append_assoc, negotiated_append (Inert.of_silent silent),
        List.cons_append, List.append_assoc]
      rfl
    rw [hn, ← hu.control]
    cases prepared with
    | ready resting =>
      rw [if_neg resting, List.nil_append,
        negotiated_append (Inert.of_silent (Silent.opening x.task))]
    | rebuilt playing rebuilt =>
      have faultless : Faultless es := by
        intro e hm
        exact sound e (by simp [he, hm])
      rw [if_pos playing, negotiated_of_rebuilt rebuilt faultless]
      rfl
  | allotted channel _ server =>
    rw [hu.role, client] at server
    cases server

theorem Joining.of_miss (kind : x.task.request? = some (m, c))
    (client : x.found.role = .activeProducer) (direction : m.direction ≠ .sendReceive)
    (miss : x.found.served? m c = none) (sound : Faultless x.entries)
    (suits : x.task.Suits x.found.role) : x.Joining := by
  obtain ⟨t, ok⟩ := x.ok_of_faultless kind client direction sound
  obtain ⟨hm, -, control, asked⟩ := x.granted kind client miss ok
  refine .joined m (by rw [missed?_eq kind, if_pos miss]) asked (by rw [control]; rfl) ?_
    (x.sections_of_granted kind client miss sound ok suits)
  intro t' ht
  rw [control] at ht
  rcases List.mem_append.mp ht with ht | ht
  · exact Or.inl ht
  · split at ht
    · exact Or.inr (List.mem_singleton.mp ht ▸ hm)
    · cases ht

/-- A companion's move without faults does one of two things. -/
theorem joining (suits : x.task.Suits x.found.role) (client : x.found.role = .activeProducer)
    (companion : x.task.isCompanion = true) (sound : Faultless x.entries) : x.Joining := by
  rcases Task.isCompanion_cases companion with ⟨caller, n, times, kind⟩ | aside |
    ⟨m, c, kind, direction⟩
  · exact .of_addSender kind
  · exact .of_aside aside
  · cases hit : x.found.served? m c with
    | some t => exact .of_hit kind hit
    | none => exact .of_miss kind client direction hit sound suits

/-- A client that is ready plays when the frame handler returns. -/
theorem played {handled : Option Outcome} (kind : x.task.pass? = some handled)
    (suits : x.task.Suits x.found.role) (client : x.found.role = .activeProducer)
    (ready : x.found.control.phase = .ready) (sound : Faultless x.entries) :
    calls x.entries = [.request .play] ∧ x.left.control.phase = .playing := by
  have hu := Task.aside_underway x.task x.found
  have producer : x.found.role ≠ .passiveConsumer := by simp [client]
  obtain ⟨-, hs⟩ := (Task.step_pass kind x.found suits).resolve_right fun h => producer h.1
  have called : Aside (outcome (pass handled) (x.task.underway x.found)).2 x.left := by
    rw [left, hs]
    exact (Task.apart_runPass _ _).toAside
  have passing := outcome_pass handled (x.task.underway x.found)
  obtain ⟨es, hes, history⟩ := Task.history_called (t := x.task) (s := x.found) called
  generalize outcome (pass handled) (x.task.underway x.found) = o at called passing history
  rw [← hu.control] at ready
  cases passing with
  | first idle | stopped _ idle | early idle | busy idle | broken idle =>
    rw [ready] at idle
    cases idle
  | unplayed f p =>
    rw [entries_of_history (history [.requested .play (some f)] rfl)] at sound
    exact absurd sound (not_faultless (List.mem_append_right _ List.mem_cons_self) rfl)
  | played p =>
    have he := entries_of_history
      (history [.note (.transition .ready .playing), .requested .play none] rfl)
    refine ⟨?_, by rw [called.control]; rfl⟩
    rw [he, calls_append, calls_append, (Silent.of_isAside hes).calls,
      (Silent.opening x.task).calls]
    rfl
  | served _ server =>
    rw [hu.role] at server
    exact absurd client server

end Move

/-! ## Stretches of moves -/

/-- A session that has been built anew for tracks, and has not been played since. -/
structure Rejoined (ts : List Track) (s : Session) : Prop where
  phase : s.control.phase = .ready
  tracks : ∀ t ∈ ts, t.media ∈ negotiated s.history
  receivers : ∀ t ∈ s.control.receivers, t.media ∈ negotiated s.history

theorem Rejoined.of_renewal {x : Move} (joining : x.Joining) (missed : x.missed? ≠ none)
    (playing : x.found.control.phase = .playing) :
    Rejoined x.found.control.registered x.left := by
  cases joining with
  | quiet served => exact absurd served missed
  | joined m _ asked phase receivers sections =>
    rw [if_pos playing] at sections
    have known : ∀ t ∈ x.found.control.registered, t.media ∈ negotiated x.left.history := by
      intro t ht
      rw [sections]
      exact List.mem_cons_of_mem _ (List.mem_reverse.mpr (List.mem_map_of_mem ht))
    refine ⟨phase, known, ?_⟩
    intro t ht
    rcases receivers t ht with ht | rfl
    · exact known t (List.mem_append_left _ ht)
    · rw [sections]
      exact List.mem_cons_self

/-- Until the session is played again, nothing that was negotiated is lost. -/
theorem Rejoined.step {ts : List Track} {x : Move} (h : Rejoined ts x.found)
    (joining : x.Joining) : Rejoined ts x.left := by
  cases joining with
  | quiet _ asked phase receivers sections =>
    exact ⟨phase.trans h.phase, sections ▸ h.tracks, sections ▸ receivers ▸ h.receivers⟩
  | joined m missed asked phase receivers sections =>
    have resting : x.found.control.phase ≠ .playing := by simp [h.phase]
    rw [if_neg resting] at sections
    refine ⟨phase, ?_, ?_⟩
    · intro t ht
      rw [sections]
      exact List.mem_cons_of_mem m (h.tracks t ht)
    · intro t ht
      rw [sections]
      rcases receivers t ht with ht | rfl
      · exact List.mem_cons_of_mem m (h.receivers t ht)
      · exact List.mem_cons_self

/-- The moves of a stretch are those of companions, and no call is denied in them. -/
def Accompanied (moves : List Move) : Prop :=
  ∀ x ∈ moves, x.task.isCompanion = true ∧ Faultless x.entries

section

variable {role : Role} {past stretch : List Move} {x : Move} {s : Session}

theorem Reached.joining (h : Reached role (past ++ x :: stretch) s)
    (client : role = .activeProducer) (accompanied : Accompanied stretch) {y : Move}
    (hy : y ∈ stretch) : y.Joining := by
  obtain ⟨before, after, rfl⟩ := List.append_of_mem hy
  rw [← List.cons_append, ← List.append_assoc] at h
  obtain ⟨found, suits⟩ := h.before
  obtain ⟨companion, sound⟩ := accompanied y hy
  exact y.joining (found.suits_task suits) (found.role_eq.trans client) companion sound

/-- As long as all requests are served, a playing client goes on playing. -/
theorem Reached.phase_of_served (h : Reached role (past ++ x :: stretch) s)
    (client : role = .activeProducer) (accompanied : Accompanied stretch)
    (served : ∀ y ∈ stretch, y.missed? = none) :
    s.control.phase = x.left.control.phase := by
  induction stretch using List.reverseRecOn generalizing s with
  | nil => rw [h.last.2.2]
  | append_singleton stretch y ih =>
    have last : y ∈ stretch ++ [y] := by simp
    have joining := h.joining client accompanied last
    rw [← List.cons_append, ← List.append_assoc] at h
    obtain ⟨found, -, rfl⟩ := h.last
    cases joining with
    | quiet _ _ phase =>
      rw [phase]
      exact ih found (List.forall_mem_append.mp accompanied).1 (List.forall_mem_append.mp served).1
    | joined m missed =>
      rw [served y last] at missed
      cases missed

theorem Reached.rejoined {ts : List Track} (h : Reached role (past ++ x :: stretch) s)
    (client : role = .activeProducer) (accompanied : Accompanied stretch)
    (hx : Rejoined ts x.left) : Rejoined ts s := by
  induction stretch using List.reverseRecOn generalizing s with
  | nil =>
    rw [h.last.2.2]
    exact hx
  | append_singleton stretch y ih =>
    have joining := h.joining client accompanied (y := y) (by simp)
    rw [← List.cons_append, ← List.append_assoc] at h
    obtain ⟨found, -, rfl⟩ := h.last
    exact (ih found (List.forall_mem_append.mp accompanied).1).step joining

/-- Once the session is built anew, later requests have their own sections negotiated only. -/
theorem Reached.calls_of_rejoined {ts : List Track} (h : Reached role (past ++ x :: stretch) s)
    (client : role = .activeProducer) (accompanied : Accompanied stretch)
    (hx : Rejoined ts x.left) :
    ∀ y ∈ stretch, calls y.entries = y.missed?.toList.map .setUp := by
  intro y hy
  have joining := h.joining client accompanied hy
  obtain ⟨before, after, rfl⟩ := List.append_of_mem hy
  rw [← List.cons_append, ← List.append_assoc] at h
  have rejoined : Rejoined ts y.found :=
    h.before.1.rejoined client (List.forall_mem_append.mp accompanied).1 hx
  cases joining with
  | quiet served asked => rw [asked, served]; rfl
  | joined m missed asked =>
    have resting : y.found.control.phase ≠ .playing := by simp [rejoined.phase]
    rw [if_neg resting] at asked
    rw [asked, missed]
    rfl

end

/-! ## Playing with all tracks -/

/-- Moves of which the first that misses the registry has the session built anew, for the tracks
that are registered then, and the later ones have only what they ask for negotiated. -/
structure Joined (meanwhile : List Move) (before : List Move) (x : Move) (m : MediaSection)
    (after : List Move) : Prop where
  moves : meanwhile = before ++ x :: after
  served : ∀ y ∈ before, y.missed? = none ∧ calls y.entries = []
  missed : x.missed? = some m
  renewed : calls x.entries = renewal x.found.control.registered ++ [.setUp m]
  later : ∀ y ∈ after, calls y.entries = y.missed?.toList.map .setUp

section

variable {role : Role} {past meanwhile : List Move} {w : Move} {s : Session}

/-- A stretch of a playing client's course in which a request misses the registry. -/
theorem Reached.joined (h : Reached role (past ++ w :: meanwhile) s)
    (client : role = .activeProducer) (playing : w.left.control.phase = .playing)
    (accompanied : Accompanied meanwhile) (miss : ∃ y ∈ meanwhile, y.missed? ≠ none) :
    ∃ before x m after, Joined meanwhile before x m after ∧
      Rejoined x.found.control.registered s := by
  obtain ⟨y, hy, missed⟩ := miss
  have first : (meanwhile.find? fun y => y.missed?.isSome).isSome := by
    rw [List.find?_isSome]
    exact ⟨y, hy, Option.isSome_iff_ne_none.mpr missed⟩
  obtain ⟨x, hx⟩ := Option.isSome_iff_exists.mp first
  obtain ⟨hm, before, after, rfl, earlier⟩ := List.find?_eq_some_iff_append.mp hx
  obtain ⟨m, hm⟩ := Option.isSome_iff_exists.mp hm
  have served : ∀ y ∈ before, y.missed? = none := by
    intro y hy
    simpa using earlier y hy
  have joining {y : Move} : y ∈ before ++ x :: after → y.Joining := h.joining client accompanied
  obtain ⟨accompaniedBefore, rest⟩ := List.forall_mem_append.mp accompanied
  have accompaniedAfter : Accompanied after := (List.forall_mem_cons.mp rest).2
  rw [← List.cons_append, ← List.append_assoc] at h
  -- Until then every request is served, so the client is still playing.
  have still : x.found.control.phase = .playing := by
    rw [h.before.1.phase_of_served client accompaniedBefore served, playing]
  have hx : x.Joining := joining (List.mem_append_right _ List.mem_cons_self)
  have renewed : Rejoined x.found.control.registered x.left := .of_renewal hx (by simp [hm]) still
  refine ⟨before, x, m, after, ⟨rfl, ?_, hm, ?_, ?_⟩, h.rejoined client accompaniedAfter renewed⟩
  · intro y hy
    refine ⟨served y hy, ?_⟩
    cases joining (List.mem_append_left _ hy) with
    | quiet _ asked => exact asked
    | joined m missed =>
      rw [served y hy] at missed
      cases missed
  · cases hx with
    | quiet served => simp [hm] at served
    | joined m' missed asked =>
      obtain rfl : m = m' := Option.some.inj (hm.symm.trans missed)
      rw [asked, if_pos still]
  · exact h.calls_of_rejoined client accompaniedAfter renewed

end

/-- Companions of a frame handler that a playing client has called get tracks, at least one of
which the registry does not have: the session is built anew once, for the first of these, and when
the handler returns it is played again. The peer has then negotiated the sections of all inbound
tracks, and of those that were registered for sending before. -/
theorem Course.played_with_all {r : Course} {past meanwhile later : List Move} {w z : Move}
    {result : Outcome} (client : r.role = .activeProducer)
    (h : r.moves = past ++ w :: (meanwhile ++ z :: later))
    (playing : w.left.control.phase = .playing) (returns : z.task.pass? = some (some result))
    (accompanied : Accompanied meanwhile) (sound : Faultless z.entries)
    (miss : ∃ x ∈ meanwhile, x.missed? ≠ none) :
    ∃ before x m after, Joined meanwhile before x m after ∧
      calls z.entries = [.request .play] ∧ z.left.control.phase = .playing ∧
      ∀ t ∈ z.found.control.receivers ++ x.found.control.senders,
        t.media ∈ negotiated z.found.history := by
  have hr : Reached r.role ((past ++ w :: meanwhile) ++ z :: later) r.session := by
    have := h ▸ r.reached
    rwa [List.append_assoc, List.cons_append]
  obtain ⟨found, suits⟩ := hr.before
  obtain ⟨before, x, m, after, joined, rejoined⟩ := found.joined client playing accompanied miss
  obtain ⟨asked, again⟩ := z.played returns (found.suits_task suits)
    (found.role_eq.trans client) rejoined.phase sound
  refine ⟨before, x, m, after, joined, asked, again, ?_⟩
  intro t ht
  rcases List.mem_append.mp ht with inbound | outbound
  · exact rejoined.receivers t inbound
  · exact rejoined.tracks t (List.mem_append_right _ outbound)

/-- An audio stream that is sent. -/
def talkSection : MediaSection := ⟨⟨"audio", .sendOnly, [audioRequest], "trackID=2"⟩, 2⟩

/-- While a handler of a client that plays a video stream blocks its caller, another caller is
served the video track, gets an audio track, closes the video track, registers the audio track
twice for sending, and gets a track to send on. Then the handler fails. -/
def Course.sharedClient : Course :=
  { role := .activeProducer, descriptor := default, settings := default, monitored := true
    peer := {}, script := {}
    callers := [[.connect, .getTrack videoSection videoRequest, .addSender 0 1,
        .pushStep [] (.error (.io "broken pipe")), .start],
      [.getTrack videoSection videoRequest, .getTrack audioSection audioRequest, .closeTrack 0,
        .addSender 1 2, .getTrack talkSection audioRequest]]
    schedule := List.replicate 10 0 ++ List.replicate 15 1 ++ [0] }

/-- The client plays on, with a session that was built anew for the audio track. -/
theorem Course.sharedClient_played :
    Accompanied ((sharedClient.moves.drop 10).take 15) ∧
      ∃ before x m after, Joined ((sharedClient.moves.drop 10).take 15) before x m after ∧
        ∃ z, sharedClient.moves[25]? = some z ∧ calls z.entries = [.request .play] ∧
          z.left.control.phase = .playing ∧
            ∀ t ∈ z.found.control.receivers ++ x.found.control.senders,
              t.media ∈ negotiated z.found.history := by
  have accompanied : Accompanied ((sharedClient.moves.drop 10).take 15) := by
    unfold Accompanied Faultless
    decide +kernel
  have sound : Faultless (sharedClient.moves.get ⟨25, by decide +kernel⟩).entries := by
    unfold Faultless
    decide +kernel
  have split (l : List Move) (h₉ : 9 < l.length) (h₂₅ : 25 < l.length) :
      l = l.take 9 ++ l.get ⟨9, h₉⟩ ::
        ((l.drop 10).take 15 ++ l.get ⟨25, h₂₅⟩ :: l.drop 26) := by
    simp only [List.get_eq_getElem]
    rw [← List.drop_eq_getElem_cons, ← List.drop_drop (i := 15) (j := 10), List.take_append_drop,
      ← List.drop_eq_getElem_cons, List.take_append_drop]
  have h := split sharedClient.moves (by decide +kernel) (by decide +kernel)
  obtain ⟨before, x, m, after, joined, played⟩ := Course.played_with_all rfl h
    (by decide +kernel) (by decide +kernel : _ = some (some (.error (.io "broken pipe"))))
    accompanied sound (by decide +kernel)
  have hz : sharedClient.moves[25]? = some (sharedClient.moves.get ⟨25, by decide +kernel⟩) :=
    List.getElem?_eq_some_iff.mpr ⟨by decide +kernel, rfl⟩
  exact ⟨accompanied, before, x, m, after, joined, _, hz, played⟩

end RtspControl
