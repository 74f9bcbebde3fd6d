import RtspControl.Proofs.Aside

/-!
# How negotiations end

`Rebuilt` lists the ways in which building a session anew can end, and `Negotiation` those in
which a request for a track can. Each way comes with everything that it does to the session:
what the history says, in order, and what becomes of the phase and the registries. Later
proofs argue by cases on these ways and do not look into the actions again.

A negotiation that fails leaves the phase and the registries as they were, wherever it fails;
one that succeeds adds its track to the inbound ones if it is new and inbound, and does
nothing else to the registries.
-/

namespace RtspControl

/-- Is an entry one of those that are made while a session is built anew? -/
def Entry.isRenewal : Entry → Bool
  | .requested r _ => r != .play
  | .setUp _ _ => true
  | .note (.raised _) => true
  | .note (.closeIgnored _) => true
  | .note (.reestablished _ _) => true
  | _ => false

namespace Session

/-! ## Building a session anew -/

/-- The ways in which negotiating tracks again can end, with the entries made on the way. -/
inductive Replayed : List Track → Except Fault Unit → List Entry → Prop where
  | done : Replayed [] (.ok ()) []
  | refused (t : Track) (ts : List Track) (f : Fault) :
      Replayed (t :: ts) (.error f) [.setUp t.media (.error f)]
  | assigned {t : Track} {ts : List Track} {r : Except Fault Unit} {es : List Entry}
      (channel : UInt8) (later : Replayed ts r es) :
      Replayed (t :: ts) r (es ++ [.setUp t.media (.ok channel)])

theorem outcome_replay (ts : List Track) (s : Session) :
    ∃ r p es, outcome (replay ts) s = (r, s.heard p es) ∧ Replayed ts r es := by
  induction ts generalizing s with
  | nil => exact ⟨.ok (), s.peer, [], rfl, .done⟩
  | cons t ts ih =>
    unfold replay
    obtain ⟨p, ⟨c, h⟩ | ⟨f, h⟩⟩ := outcome_setUp s t.media
    · obtain ⟨r, q, es, hr, hes⟩ := ih (s.heard p [.setUp t.media (.ok c)])
      refine ⟨r, q, es ++ [.setUp t.media (.ok c)], ?_, .assigned c hes⟩
      rw [outcome_bind_ok h, hr, heard_heard]
    · exact ⟨.error f, p, _, outcome_bind_error h _, .refused t ts f⟩

/-- What the history says about the closing of an old session, which may fail. -/
inductive Dismissed : List Entry → Prop where
  | closed : Dismissed [.requested .close none]
  | ignored (f : Fault) : Dismissed [.note (.closeIgnored f), .requested .close (some f)]

theorem outcome_dismiss (s : Session) :
    ∃ p es, outcome (tolerate (request .close) .closeIgnored) s = (.ok (), s.heard p es) ∧
      Dismissed es := by
  rw [outcome_tolerate]
  obtain ⟨p, h | ⟨f, h⟩⟩ := outcome_request s .close
  · exact ⟨p, _, by rw [h], .closed⟩
  · exact ⟨p, _, by rw [h]; rfl, .ignored f⟩

/-- The ways in which building a session anew can end for tracks `ts`, with the entries made
on the way. The first failure after that of closing the old session is the result. -/
inductive Rebuilt (ts : List Track) : Except Fault Unit → List Entry → Prop where
  | undialled {es : List Entry} (closing : Dismissed es) (f : Fault) :
      Rebuilt ts (.error f)
        (.requested .dial (some f) :: (es ++ [.note (.raised reconnectEvent)]))
  | undescribed {es : List Entry} (closing : Dismissed es) (f : Fault) :
      Rebuilt ts (.error f)
        (.requested .describe (some f) :: .requested .dial none ::
          (es ++ [.note (.raised reconnectEvent)]))
  | refused {es es' : List Entry} (closing : Dismissed es) (f : Fault)
      (replayed : Replayed ts (.error f) es') :
      Rebuilt ts (.error f)
        (es' ++ .requested .describe none :: .requested .dial none ::
          (es ++ [.note (.raised reconnectEvent)]))
  | done {es es' : List Entry} (closing : Dismissed es) (receivers senders : Nat)
      (replayed : Replayed ts (.ok ()) es') :
      Rebuilt ts (.ok ())
        (.note (.reestablished receivers senders) ::
          (es' ++ .requested .describe none :: .requested .dial none ::
            (es ++ [.note (.raised reconnectEvent)])))

section

variable {ts : List Track} {r : Except Fault Unit} {es : List Entry}

theorem Replayed.renewal (h : Replayed ts r es) : Only Entry.isRenewal es := by
  induction h with
  | done => exact .nil
  | refused => exact .cons rfl .nil
  | assigned channel later ih => exact ih.append (.cons rfl .nil)

theorem Dismissed.renewal (h : Dismissed es) : Only Entry.isRenewal es := by
  cases h with
  | closed => exact .cons rfl .nil
  | ignored f => exact .cons rfl (.cons rfl .nil)

theorem Rebuilt.renewal (h : Rebuilt ts r es) : Only Entry.isRenewal es := by
  have old {es : List Entry} (closing : Dismissed es) :
      Only Entry.isRenewal (es ++ [.note (.raised reconnectEvent)]) :=
    closing.renewal.append (.cons rfl .nil)
  cases h with
  | undialled closing => exact .cons rfl (old closing)
  | undescribed closing => exact .cons rfl (.cons rfl (old closing))
  | refused closing f replayed =>
    exact replayed.renewal.append (.cons rfl (.cons rfl (old closing)))
  | done closing receivers senders replayed =>
    exact .cons rfl (replayed.renewal.append (.cons rfl (.cons rfl (old closing))))

end

/-- A session in which the event that it is built anew waits for somebody to hear it. -/
def alerted (s : Session) : Session :=
  { s with pending := s.pending ++ if s.monitored then [reconnectEvent] else [] }

section

variable (s : Session)

@[simp] theorem role_alerted : s.alerted.role = s.role := rfl
@[simp] theorem control_alerted : s.alerted.control = s.control := rfl
@[simp] theorem tracks_alerted : s.alerted.tracks = s.tracks := rfl
@[simp] theorem history_alerted : s.alerted.history = s.history := rfl

theorem outcome_raise :
    outcome (raise reconnectEvent) s =
      (.ok (), s.alerted.heard s.peer [.note (.raised reconnectEvent)]) := by
  unfold raise
  simp only [outcome_bind, outcome_note, outcome_modify]
  congr 1
  cases h : s.monitored <;> simp [log, heard, alerted, h]

theorem outcome_rebuild :
    ∃ r p es, outcome rebuild s = (r, s.alerted.heard p es) ∧
      Rebuilt (s.control.receivers ++ s.control.senders) r es := by
  unfold rebuild
  rw [outcome_bind_ok (outcome_raise s)]
  obtain ⟨p, es, hc, hes⟩ :=
    outcome_dismiss (s.alerted.heard s.peer [.note (.raised reconnectEvent)])
  rw [outcome_bind_ok hc, heard_heard]
  obtain ⟨p, hd | ⟨f, hd⟩⟩ :=
    outcome_request (s.alerted.heard p (es ++ [.note (.raised reconnectEvent)])) .dial
  · rw [outcome_bind_ok hd, heard_heard]
    obtain ⟨p, hs | ⟨f, hs⟩⟩ := outcome_request (s.alerted.heard p
      ([.requested .dial none] ++ (es ++ [.note (.raised reconnectEvent)]))) .describe
    · rw [outcome_bind_ok hs, heard_heard, outcome_bind_ok (outcome_get _)]
      simp only [control_heard, control_alerted]
      obtain ⟨r, p, es', hr, hes'⟩ :=
        outcome_replay (s.control.receivers ++ s.control.senders) (s.alerted.heard p
          ([.requested .describe none] ++
            ([.requested .dial none] ++ (es ++ [.note (.raised reconnectEvent)]))))
      rcases r with f | ⟨⟩
      · exact ⟨_, p, _, by rw [outcome_bind_error hr, heard_heard]; rfl, .refused hes f hes'⟩
      · exact ⟨_, p, _, by rw [outcome_bind_ok hr, heard_heard, outcome_note]; rfl,
          .done hes _ _ hes'⟩
    · exact ⟨_, p, _, by rw [outcome_bind_error hs, heard_heard]; rfl, .undescribed hes f⟩
  · exact ⟨_, p, _, by rw [outcome_bind_error hd, heard_heard]; rfl, .undialled hes f⟩

end

/-! ## Finding or making a track -/

/-- `s'` comes from `s` by preparing for one more media section, which the history tells by
`es`: only a session that is playing has to be built anew. -/
inductive Prepared (s : Session) : Session → List Entry → Prop where
  | ready (resting : s.control.phase ≠ .playing) : Prepared s s []
  | rebuilt (playing : s.control.phase = .playing) {es : List Entry}
      (rebuilt : Rebuilt (s.control.receivers ++ s.control.senders) (.ok ()) es) :
      Prepared s s.alerted es

section

variable {s s' : Session} {es : List Entry}

theorem Prepared.role (h : Prepared s s' es) : s'.role = s.role := by
  cases h <;> rfl

theorem Prepared.descriptor (h : Prepared s s' es) : s'.descriptor = s.descriptor := by
  cases h <;> rfl

theorem Prepared.monitored (h : Prepared s s' es) : s'.monitored = s.monitored := by
  cases h <;> rfl

theorem Prepared.control (h : Prepared s s' es) : s'.control = s.control := by
  cases h <;> rfl

theorem Prepared.tracks (h : Prepared s s' es) : s'.tracks = s.tracks := by
  cases h <;> rfl

theorem Prepared.history (h : Prepared s s' es) : s'.history = s.history := by
  cases h <;> rfl

theorem Prepared.renewal (h : Prepared s s' es) : Only Entry.isRenewal es := by
  cases h with
  | ready => exact .nil
  | rebuilt playing rebuilt => exact rebuilt.renewal

end

/-- The ways in which a request for a track can end. -/
inductive Negotiation (m : MediaSection) (c : Codec) (s : Session) :
    Except Fault Track × Session → Prop where
  | served (t : Track) (hit : s.served? m c = some t) :
      Negotiation m c s (.ok t, s.log (.note (.servedFromRegistry t)))
  | refused (f : Fault) (miss : s.served? m c = none)
      (client : s.role = .activeProducer → m.direction = .sendReceive) :
      Negotiation m c s (.error f, s)
  | unbuilt (f : Fault) (p : Peer) {es : List Entry} (miss : s.served? m c = none)
      (client : s.role = .activeProducer) (direction : m.direction ≠ .sendReceive)
      (playing : s.control.phase = .playing)
      (rebuilt : Rebuilt (s.control.receivers ++ s.control.senders) (.error f) es) :
      Negotiation m c s (.error f, s.alerted.heard p es)
  | unassigned (f : Fault) (p : Peer) {s' : Session} {es : List Entry}
      (miss : s.served? m c = none) (client : s.role = .activeProducer)
      (direction : m.direction ≠ .sendReceive) (prepared : Prepared s s' es) :
      Negotiation m c s (.error f, s'.heard p (.setUp m (.error f) :: es))
  | assigned (channel : UInt8) (p : Peer) {s' : Session} {es : List Entry}
      (miss : s.served? m c = none) (client : s.role = .activeProducer)
      (direction : m.direction ≠ .sendReceive) (prepared : Prepared s s' es) :
      Negotiation m c s (.ok (s.nextTrack m c channel),
        ((s'.inPhase .ready).admitting (s.nextTrack m c channel)).heard p
          (.note (.trackCreated (s.nextTrack m c channel)) :: .note (.mediaSetUp m channel) ::
            (moved s.control.phase .ready ++ .setUp m (.ok channel) :: es)))
  | allotted (channel : UInt8) (miss : s.served? m c = none)
      (server : s.role = .passiveConsumer)
      (free : Channel.interleaved
        (if m.direction = .receiveOnly then s.control.receivers.length
          else s.control.senders.length) = .ok channel) :
      Negotiation m c s (.ok (s.nextTrack m c channel),
        (s.admitting (s.nextTrack m c channel)).log
          (.note (.trackCreated (s.nextTrack m c channel))))

section

variable (m : MediaSection) (s : Session)

theorem outcome_prepare :
    ∃ p es,
      (∃ s', outcome (onlyIf (s.control.phase = .playing) rebuild) s = (.ok (), s'.heard p es) ∧
        Prepared s s' es) ∨
      ∃ f, s.control.phase = .playing ∧
        outcome (onlyIf (s.control.phase = .playing) rebuild) s =
          (.error f, s.alerted.heard p es) ∧
        Rebuilt (s.control.receivers ++ s.control.senders) (.error f) es := by
  rw [outcome_onlyIf]
  by_cases h : s.control.phase = .playing
  · rw [if_pos h]
    obtain ⟨f | ⟨⟩, p, es, hr, hes⟩ := outcome_rebuild s
    · exact ⟨p, es, Or.inr ⟨f, h, hr, hes⟩⟩
    · exact ⟨p, es, Or.inl ⟨s.alerted, hr, .rebuilt h hes⟩⟩
  · rw [if_neg h]
    exact ⟨s.peer, [], Or.inl ⟨s, rfl, .ready h⟩⟩

/-- Having a channel assigned fails in building the session anew, or in the request for the
channel, or not at all. -/
theorem outcome_assign :
    ∃ p es,
      (∃ f, s.control.phase = .playing ∧
        outcome (assign m) s = (.error f, s.alerted.heard p es) ∧
        Rebuilt (s.control.receivers ++ s.control.senders) (.error f) es) ∨
      ∃ s', Prepared s s' es ∧
        ((∃ f, outcome (assign m) s = (.error f, s'.heard p (.setUp m (.error f) :: es))) ∨
          ∃ channel, outcome (assign m) s =
            (.ok channel, (s'.inPhase .ready).heard p (.note (.mediaSetUp m channel) ::
              (moved s.control.phase .ready ++ .setUp m (.ok channel) :: es)))) := by
  unfold assign
  rw [outcome_bind_ok (outcome_get s)]
  obtain ⟨p, es, ⟨s', hp, prepared⟩ | ⟨f, playing, hp, rebuilt⟩⟩ := outcome_prepare s
  · rw [outcome_bind_ok hp]
    obtain ⟨q, ⟨channel, hm⟩ | ⟨f, hm⟩⟩ := outcome_setUp (s'.heard p es) m
    · refine ⟨q, es, Or.inr ⟨s', prepared, Or.inr ⟨channel, ?_⟩⟩⟩
      rw [outcome_bind_ok hm, outcome_bind_ok (outcome_enter _ _),
        outcome_bind_ok (outcome_note _ _), outcome_pure]
      simp only [heard_heard, control_heard, prepared.control, inPhase_heard, peer_heard,
        log_heard, List.singleton_append]
    · refine ⟨q, es, Or.inr ⟨s', prepared, Or.inl ⟨f, ?_⟩⟩⟩
      rw [outcome_bind_error hm, heard_heard]
      rfl
  · exact ⟨p, es, Or.inl ⟨f, playing, outcome_bind_error hp _, rebuilt⟩⟩

variable (c : Codec)

/-- Once the channel is known nothing can fail. -/
def Makes (make : UInt8 → Action Track) : Prop :=
  ∀ (channel : UInt8) (s : Session), outcome (make channel) s =
    (.ok (s.nextTrack m c channel),
      (s.admitting (s.nextTrack m c channel)).log
        (.note (.trackCreated (s.nextTrack m c channel))))

theorem makes_receive (h : m.direction = .receiveOnly) : Makes m c (receive m c) :=
  fun channel s => outcome_receive s m c channel h

theorem makes_makeTrack (h : m.direction ≠ .receiveOnly) : Makes m c (makeTrack m c) :=
  fun channel s => outcome_makeTrack s m c channel h

variable {m c}

theorem negotiation_of_assign {s : Session} {make : UInt8 → Action Track} (makes : Makes m c make)
    (miss : s.served? m c = none) (client : s.role = .activeProducer)
    (direction : m.direction ≠ .sendReceive) :
    Negotiation m c s (outcome (assign m >>= make) s) := by
  obtain ⟨p, es, ⟨f, playing, h, rebuilt⟩ | ⟨s', prepared, ⟨f, h⟩ | ⟨channel, h⟩⟩⟩ :=
    outcome_assign m s
  · rw [outcome_bind_error h]
    exact .unbuilt f p miss client direction playing rebuilt
  · rw [outcome_bind_error h]
    exact .unassigned f p miss client direction prepared
  · have hn : ((s'.inPhase .ready).heard p (.note (.mediaSetUp m channel) ::
        (moved s.control.phase .ready ++ .setUp m (.ok channel) :: es))).nextTrack m c channel =
        s.nextTrack m c channel := by
      simp only [nextTrack, tracks_heard, tracks_inPhase, prepared.tracks]
    rw [outcome_bind_ok h, makes, hn, admitting_heard, log_heard]
    exact .assigned channel p miss client direction prepared

theorem negotiation_of_interleaved {s : Session} {make : UInt8 → Action Track}
    (makes : Makes m c make) (miss : s.served? m c = none) (server : s.role = .passiveConsumer)
    {count : Nat} (hc : count = if m.direction = .receiveOnly then s.control.receivers.length
      else s.control.senders.length) :
    Negotiation m c s
      (outcome (MonadExcept.ofExcept (Channel.interleaved count) >>= make) s) := by
  cases h : Channel.interleaved count with
  | error f =>
    rw [outcome_bind_error (outcome_ofExcept _ s)]
    exact .refused f miss (by simp [server])
  | ok channel =>
    rw [outcome_bind_ok (outcome_ofExcept _ s), makes]
    exact .allotted channel miss server (hc ▸ h)

variable (m c)

/-- Every request for a track ends in one of the ways of `Negotiation`. -/
theorem outcome_negotiate : Negotiation m c s (outcome (negotiate m c) s) := by
  unfold negotiate
  rw [outcome_bind_ok (outcome_get s)]
  cases hit : s.served? m c with
  | some t => exact .served t hit
  | none =>
    show Negotiation m c s (outcome (makeFor m c) s)
    unfold makeFor
    rw [outcome_bind_ok (outcome_get s)]
    cases hr : s.role <;> cases hd : m.direction <;> simp only [outcome_throw]
    case activeProducer.receiveOnly =>
      exact negotiation_of_assign (makes_receive m c hd) hit hr (by simp [hd])
    case activeProducer.sendOnly =>
      exact negotiation_of_assign (makes_makeTrack m c (by simp [hd])) hit hr (by simp [hd])
    case passiveConsumer.receiveOnly =>
      exact negotiation_of_interleaved (makes_receive m c hd) hit hr (by simp [hd])
    case passiveConsumer.sendOnly | passiveConsumer.sendReceive =>
      exact negotiation_of_interleaved (makes_makeTrack m c (by simp [hd])) hit hr (by simp [hd])
    -- What is left is refused: the combinations that have no meaning.
    all_goals exact .refused _ hit (by simp [hr, hd])

end

end Session

end RtspControl
