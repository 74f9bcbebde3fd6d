import RtspControl.Session.Lifecycle

/-!
# How actions end

An action ends with a result or a fault, and leaves a session either way. `outcome` has both
in one pair, so that a sequence of actions can be followed by rewriting: each action of the
connection has an equation for its outcome here, and `outcome_bind` puts them together.

What the connection says to its peer, and what it notes on the way, changes two fields of a
session only. `heard` is a session after such an exchange.
-/

namespace RtspControl.Session

/-! ## Sessions after an exchange -/

/-- A session after an exchange with the peer, which is `p` by then; `es` is what the history
says about it, the newest first. -/
def heard (s : Session) (p : Peer) (es : List Entry) : Session :=
  { s with peer := p, history := es ++ s.history }

/-- A session moved to a phase, with no word of it in the history. -/
def inPhase (s : Session) (p : Phase) : Session :=
  { s with control := { s.control with phase := p } }

section

variable (s : Session) (p q : Peer) (es es' : List Entry) (e : Entry) (ph : Phase)

@[simp] theorem role_heard : (s.heard p es).role = s.role := rfl
@[simp] theorem monitored_heard : (s.heard p es).monitored = s.monitored := rfl
@[simp] theorem control_heard : (s.heard p es).control = s.control := rfl
@[simp] theorem pending_heard : (s.heard p es).pending = s.pending := rfl
@[simp] theorem tracks_heard : (s.heard p es).tracks = s.tracks := rfl
@[simp] theorem peer_heard : (s.heard p es).peer = p := rfl
@[simp] theorem history_heard : (s.heard p es).history = es ++ s.history := rfl

@[simp] theorem role_inPhase : (s.inPhase ph).role = s.role := rfl
@[simp] theorem control_inPhase : (s.inPhase ph).control = { s.control with phase := ph } := rfl
@[simp] theorem pending_inPhase : (s.inPhase ph).pending = s.pending := rfl
@[simp] theorem tracks_inPhase : (s.inPhase ph).tracks = s.tracks := rfl
@[simp] theorem history_inPhase : (s.inPhase ph).history = s.history := rfl

@[simp] theorem role_log : (s.log e).role = s.role := rfl
@[simp] theorem monitored_log : (s.log e).monitored = s.monitored := rfl
@[simp] theorem control_log : (s.log e).control = s.control := rfl
@[simp] theorem pending_log : (s.log e).pending = s.pending := rfl
@[simp] theorem tracks_log : (s.log e).tracks = s.tracks := rfl
@[simp] theorem history_log : (s.log e).history = e :: s.history := rfl

theorem log_eq_heard : s.log e = s.heard s.peer [e] := rfl

@[simp] theorem log_heard : (s.heard p es).log e = s.heard p (e :: es) := rfl

@[simp] theorem heard_heard : (s.heard p es).heard q es' = s.heard q (es' ++ es) := by
  simp [heard]

@[simp] theorem inPhase_heard : (s.heard p es).inPhase ph = (s.inPhase ph).heard p es := rfl

end

/-! ## Outcomes -/

section

variable {α β : Type}

/-- How an action ends: its result, and the session that it leaves in either case. -/
def outcome (x : Action α) (s : Session) : Except Fault α × Session :=
  match x s with
  | .ok a s' => (.ok a, s')
  | .error f s' => (.error f, s')

theorem after_eq (x : Action α) (s : Session) : after x s = (outcome x s).2 := by
  simp only [after, outcome]
  cases x s <;> rfl

@[simp] theorem outcome_pure (a : α) (s : Session) : outcome (pure a) s = (.ok a, s) := rfl

@[simp] theorem outcome_throw (f : Fault) (s : Session) :
    outcome (throw f : Action α) s = (.error f, s) := rfl

@[simp] theorem outcome_get (s : Session) : outcome get s = (.ok s, s) := rfl

@[simp] theorem outcome_modify (f : Session → Session) (s : Session) :
    outcome (modify f) s = (.ok (), f s) := rfl

/-- The second part of a sequence starts where the first one has ended well. -/
theorem outcome_bind (x : Action α) (f : α → Action β) (s : Session) :
    outcome (x >>= f) s =
      match outcome x s with
      | (.ok a, s') => outcome (f a) s'
      | (.error e, s') => (.error e, s') := by
  show outcome (EStateM.bind x f) s = _
  simp only [outcome, EStateM.bind]
  cases x s <;> rfl

theorem outcome_bind_ok {x : Action α} {s s' : Session} {a : α} (h : outcome x s = (.ok a, s'))
    (f : α → Action β) : outcome (x >>= f) s = outcome (f a) s' := by
  rw [outcome_bind, h]

theorem outcome_bind_error {x : Action α} {s s' : Session} {e : Fault}
    (h : outcome x s = (.error e, s')) (f : α → Action β) :
    outcome (x >>= f) s = (.error e, s') := by
  rw [outcome_bind, h]

theorem outcome_ofExcept (x : Except Fault α) (s : Session) :
    outcome (MonadExcept.ofExcept x : Action α) s = (x, s) := by
  cases x <;> rfl

end

/-! ## Elementary actions -/

section

variable (s : Session)

@[simp] theorem outcome_note (n : Note) : outcome (note n) s = (.ok (), s.log (.note n)) := rfl

theorem outcome_onlyIf (c : Prop) [Decidable c] (x : Action Unit) :
    outcome (onlyIf c x) s = if c then outcome x s else (.ok (), s) := by
  unfold onlyIf
  split <;> rfl

theorem outcome_require (c : Prop) [Decidable c] (f : Fault) :
    outcome (require c f) s = (if c then .ok () else .error f, s) := by
  unfold require
  split <;> rfl

/-- A tolerated action ends well, with one more note if it did not. -/
theorem outcome_tolerate (x : Action Unit) (complaint : Fault → Note) :
    outcome (tolerate x complaint) s =
      match outcome x s with
      | (.ok (), s') => (.ok (), s')
      | (.error f, s') => (.ok (), s'.log (.note (complaint f))) := by
  simp only [outcome, tolerate]
  cases x s <;> rfl

/-- What the history says about going from one phase to another: nothing if they are the same. -/
def moved (old new : Phase) : List Entry :=
  if old = new then [] else [.note (.transition old new)]

theorem outcome_enter (p : Phase) :
    outcome (enter p) s = (.ok (), (s.inPhase p).heard s.peer (moved s.control.phase p)) := by
  unfold enter
  rw [outcome_bind_ok (outcome_get s), outcome_bind, outcome_onlyIf]
  by_cases h : s.control.phase = p
  · rw [if_neg (not_not_intro h), moved, if_pos h]
    rfl
  · rw [if_pos h, moved, if_neg h]
    rfl

/-- The peer grants a request or denies it, and the history says which. -/
theorem outcome_request (r : Request) :
    ∃ p, outcome (request r) s = (.ok (), s.heard p [.requested r none]) ∨
      ∃ f, outcome (request r) s = (.error f, s.heard p [.requested r (some f)]) := by
  rcases h : s.peer.answer r with ⟨_ | f, p⟩
  · exact ⟨p, Or.inl (by simp only [outcome, request, h]; rfl)⟩
  · exact ⟨p, Or.inr ⟨f, by simp only [outcome, request, h]; rfl⟩⟩

/-- The peer assigns a channel to a media section or refuses it one. -/
theorem outcome_setUp (m : MediaSection) :
    ∃ p, (∃ c, outcome (setUp m) s = (.ok c, s.heard p [.setUp m (.ok c)])) ∨
      ∃ f, outcome (setUp m) s = (.error f, s.heard p [.setUp m (.error f)]) := by
  rcases h : s.peer.answer .setUp with ⟨_ | f, p⟩
  · exact ⟨p.advance, Or.inl ⟨p.nextChannel, by simp only [outcome, setUp, h]; rfl⟩⟩
  · exact ⟨p, Or.inr ⟨f, by simp only [outcome, setUp, h]; rfl⟩⟩

/-! ## Registering senders -/

def sending (ts : List Track) : Session :=
  { s with control := { s.control with senders := s.control.senders ++ ts } }

@[simp] theorem role_sending (ts : List Track) : (s.sending ts).role = s.role := rfl
@[simp] theorem control_sending (ts : List Track) :
    (s.sending ts).control = { s.control with senders := s.control.senders ++ ts } := rfl
@[simp] theorem pending_sending (ts : List Track) : (s.sending ts).pending = s.pending := rfl
@[simp] theorem tracks_sending (ts : List Track) : (s.sending ts).tracks = s.tracks := rfl
@[simp] theorem history_sending (ts : List Track) : (s.sending ts).history = s.history := rfl

theorem sending_log (ts : List Track) (e : Entry) :
    (s.log e).sending ts = (s.sending ts).log e := rfl

theorem outcome_addSenders (t : Track) (n : Nat) :
    outcome (addSenders t n) s =
      (.ok (), (s.sending (List.replicate n t)).heard s.peer
        (List.replicate n (.note (.senderRegistered t)))) := by
  induction n generalizing s with
  | zero =>
    show (Except.ok (), s) = _
    simp [sending, heard]
  | succ n ih =>
    have hs : outcome (addSender t) s =
        (.ok (), (s.sending [t]).heard s.peer [.note (.senderRegistered t)]) := rfl
    unfold addSenders
    rw [outcome_bind_ok hs, ih]
    -- The entries are alike, so the first one may as well come last.
    have he (e : Entry) : List.replicate n e ++ e :: s.history =
        List.replicate (n + 1) e ++ s.history := by
      rw [List.append_cons, ← List.replicate_succ']
    simp [sending, heard, he, List.replicate_succ]

/-! ## Making tracks -/

/-- The track that a session makes next. -/
def nextTrack (m : MediaSection) (c : Codec) (channel : UInt8) : Track :=
  ⟨s.tracks.made, m, c, channel⟩

/-- A session with one more track, which is registered if it is inbound. -/
def admitting (t : Track) : Session :=
  { s with
    control := { s.control with
      receivers := s.control.receivers ++
        if t.media.direction = .receiveOnly then [t] else [] }
    tracks := { s.tracks with made := s.tracks.made + 1 } }

theorem admitting_inbound {t : Track} (h : t.media.direction = .receiveOnly) :
    s.admitting t =
      { s with
        control := { s.control with receivers := s.control.receivers ++ [t] }
        tracks := { s.tracks with made := s.tracks.made + 1 } } := by
  rw [admitting, if_pos h]

theorem admitting_outbound {t : Track} (h : t.media.direction ≠ .receiveOnly) :
    s.admitting t = { s with tracks := { s.tracks with made := s.tracks.made + 1 } } := by
  rw [admitting, if_neg h, List.append_nil]

@[simp] theorem role_admitting (t : Track) : (s.admitting t).role = s.role := rfl
@[simp] theorem pending_admitting (t : Track) : (s.admitting t).pending = s.pending := rfl
@[simp] theorem history_admitting (t : Track) : (s.admitting t).history = s.history := rfl

@[simp] theorem admitting_heard (t : Track) (p : Peer) (es : List Entry) :
    (s.heard p es).admitting t = (s.admitting t).heard p es := rfl

section

variable (m : MediaSection) (c : Codec) (channel : UInt8)

theorem outcome_receive (h : m.direction = .receiveOnly) :
    outcome (receive m c channel) s =
      (.ok (s.nextTrack m c channel),
        (s.admitting (s.nextTrack m c channel)).log
          (.note (.trackCreated (s.nextTrack m c channel)))) := by
  rw [s.admitting_inbound (t := s.nextTrack m c channel) h]
  rfl

theorem outcome_makeTrack (h : m.direction ≠ .receiveOnly) :
    outcome (makeTrack m c channel) s =
      (.ok (s.nextTrack m c channel),
        (s.admitting (s.nextTrack m c channel)).log
          (.note (.trackCreated (s.nextTrack m c channel)))) := by
  rw [s.admitting_outbound (t := s.nextTrack m c channel) h]
  rfl

end

end

end RtspControl.Session
