import RtspControl.History
import RtspControl.Settings

/-!
# Sessions

A session is a control connection with all that surrounds it: the tracks made so far,
the peer, what the frame handler and the event handler are going to do, and the history
of what has happened. This module has the state and the elementary actions on it.

An `Action` changes a session and either gives a result or fails with a fault; what it
changed before it failed stays changed. An action runs as one piece: nothing else happens
to the session while it runs, which is what the connection's lock is for.
-/

namespace RtspControl

/-- What a session knows about tracks. -/
structure TrackTable where
  made : Nat := 0
  /-- The tracks that callers have seen, in the order in which they first saw them. A track
  is referred to by its position here. -/
  known : List Track := []
  /-- The serial numbers of the closed tracks. -/
  closed : List Nat := []
  /-- The hooks that wait for their track to be closed, in the order of registration. -/
  hooks : List (Nat × Hook) := []
  deriving Inhabited

/-- What the frame handler and the event handler are going to do, call after call. -/
structure Script where
  steps : List Step := []
  reactions : List (List Operation) := []
  deriving Inhabited

/-- A control connection and all that surrounds it. -/
structure Session where
  role : Role
  descriptor : Descriptor
  settings : Settings
  /-- Is there an event handler? -/
  monitored : Bool
  control : Control := {}
  /-- Events that have been raised and not yet taken for delivery, the oldest first. -/
  pending : List String := []
  tracks : TrackTable := {}
  peer : Peer := {}
  script : Script := {}
  /-- What has happened, the newest first. -/
  history : List Entry := []

/-- Changes a session, and gives a result or fails. -/
abbrev Action := EStateM Fault Session

namespace Session

def opened (role : Role) (descriptor : Descriptor) (settings : Settings) (monitored : Bool) :
    Session :=
  { role, descriptor, settings, monitored }

/-- The session that an action leaves, whether it succeeds or fails. -/
def after {α : Type} (x : Action α) (s : Session) : Session :=
  match x s with
  | .ok _ s' => s'
  | .error _ s' => s'

/-- The document of a connection is that of its descriptor. -/
def snapshot (s : Session) : String := s.descriptor.toJson.toText

/-! ### Tracks -/

def isClosed (s : Session) (t : Track) : Bool := s.tracks.closed.contains t.serial

def track? (s : Session) (n : Nat) : Option Track := s.tracks.known[n]?

def number? (s : Session) (t : Track) : Option Nat :=
  s.tracks.known.findIdx? fun k => k.serial == t.serial

def acquaint (s : Session) (t : Track) : Session :=
  if s.tracks.known.any fun k => k.serial == t.serial then s
  else { s with tracks := { s.tracks with known := s.tracks.known ++ [t] } }

def acquaintAll (s : Session) (ts : List Track) : Session := ts.foldl acquaint s

/-! ### History -/

def log (e : Entry) (s : Session) : Session := { s with history := e :: s.history }

/-- What can be seen of a session, from outside or while the connection is locked. -/
def view (s : Session) (locked : Bool) : View :=
  ⟨s.tracks.known.filter s.isClosed, if locked then none else some s.control⟩

/-- Ends an operation with its answer. Who asked sees the answer's tracks and then those of
the connection, unless it is locked. -/
def conclude (a : Answer) (locked : Bool) (s : Session) : Session :=
  let s := s.acquaintAll
    (a.tracks ++ if locked then [] else s.control.receivers ++ s.control.senders)
  s.log (.ended a (s.view locked))

/-! ### Elementary actions -/

def note (n : Note) : Action Unit := modify (log (.note n))

/-- Does something only if there is a reason to. -/
def onlyIf (reason : Prop) [Decidable reason] (x : Action Unit) : Action Unit :=
  if reason then x else pure ()

/-- Fails unless a condition holds. -/
def require (condition : Prop) [Decidable condition] (otherwise : Fault) : Action Unit :=
  if condition then pure () else throw otherwise

/-- Goes on after an action even if it failed, and notes the failure. -/
def tolerate (x : Action Unit) (complaint : Fault → Note) : Action Unit := fun s =>
  match x s with
  | .ok () s' => .ok () s'
  | .error f s' => note (complaint f) s'

/-- Moves to a phase; only a change is noted. -/
def enter (p : Phase) : Action Unit := do
  let s ← get
  onlyIf (s.control.phase ≠ p) (note (.transition s.control.phase p))
  modify fun s => { s with control := { s.control with phase := p } }

/-- Sends the peer a request other than that for a media section. -/
def request (r : Request) : Action Unit := fun s =>
  match s.peer.answer r with
  | (none, peer) => .ok () ({ s with peer }.log (.requested r none))
  | (some f, peer) => .error f ({ s with peer }.log (.requested r (some f)))

/-- Negotiates a media section with the peer, which assigns its channel. -/
def setUp (m : MediaSection) : Action UInt8 := fun s =>
  match s.peer.answer .setUp with
  | (none, peer) =>
    .ok peer.nextChannel
      ({ s with peer := peer.advance }.log (.setUp m (.ok peer.nextChannel)))
  | (some f, peer) => .error f ({ s with peer }.log (.setUp m (.error f)))

/-- Raises an event, which waits until the connection is free to deliver it. Without an
event handler there is nobody to deliver it to. -/
def raise (event : String) : Action Unit := do
  note (.raised event)
  modify fun s => if s.monitored then { s with pending := s.pending ++ [event] } else s

/-- Makes a track; the connection does not know of it yet. -/
def makeTrack (m : MediaSection) (c : Codec) (channel : UInt8) : Action Track := do
  let s ← get
  let t : Track := ⟨s.tracks.made, m, c, channel⟩
  set { s with tracks := { s.tracks with made := s.tracks.made + 1 } }
  note (.trackCreated t)
  return t

def register (t : Track) : Action Unit :=
  modify fun s =>
    { s with control := { s.control with receivers := s.control.receivers ++ [t] } }

/-- Registers an outbound track, to be negotiated again with every new session and closed
at its end. -/
def addSender (t : Track) : Action Unit := do
  note (.senderRegistered t)
  modify fun s => { s with control := { s.control with senders := s.control.senders ++ [t] } }

end Session

end RtspControl
