import RtspControl.Operation
import RtspControl.Track.Listing
import RtspControl.Descriptor
import RtspControl.Duration

/-!
# The history of a session

Everything that happens in a session is an entry of its history, the newest first:
operations as they begin and end, requests to the peer, calls of the frame handler, of
the event handler and of close hooks, and the notes that the connection keeps about its
own doings. What happens within an operation or a call stands between the entries for
its beginning and its end, so the history is flat and the nesting can be read off it.
-/

namespace RtspControl

/-- The part of a connection that its lock guards. -/
structure Control where
  phase : Phase := .idle
  receivers : List Track := []
  senders : List Track := []
  deriving DecidableEq, Repr, Inhabited

/-! ### Notes -/

/-- Something that a connection or a track notes about its own doings. -/
inductive Note where
  | transition (old new : Phase)
  | connected
  | senderRegistered (track : Track)
  /-- The frame handler failed, but the connection had been stopped. -/
  | handlerExited (fault : Fault)
  | closeFailed (track : Track) (fault : Fault)
  | stopped
  | raised (event : String)
  | servedFromRegistry (track : Track)
  | mediaSetUp (media : MediaSection) (channel : UInt8)
  | trackCreated (track : Track)
  | trackClosed (track : Track)
  /-- The old session could not be closed; a new one is opened all the same. -/
  | closeIgnored (fault : Fault)
  | reestablished (receivers senders : Nat)
  deriving DecidableEq, Repr

/-- How much a note matters. -/
inductive Level where
  | trace
  | debug
  | info
  | warn
  deriving DecidableEq, Repr

def Level.text : Level → String
  | .trace => "TRACE"
  | .debug => "DEBUG"
  | .info => "INFO"
  | .warn => "WARN"

namespace Note

/-- How much each note matters. -/
def level : Note → Level
  | .connected => .info
  | .closeFailed _ _ => .warn
  | .stopped => .info
  | .servedFromRegistry _ => .trace
  | .reestablished _ _ => .info
  | _ => .debug

def message : Note → String
  | .transition _ _ => "state transition"
  | .connected => "connected"
  | .senderRegistered _ => "sender registered"
  | .handlerExited _ => "handler exited after stop"
  | .closeFailed _ _ => "track close failed"
  | .stopped => "connection stopped"
  | .raised _ => "event"
  | .servedFromRegistry _ => "track served from cache"
  | .mediaSetUp _ _ => "media set up"
  | .trackCreated _ => "track created"
  | .trackClosed _ => "track closed"
  | .closeIgnored _ => "ignoring close error before reconnect"
  | .reestablished _ _ => "session re-established"

/-- Does a note say which connection it is about? Notes of tracks and of the phase do
not. -/
def namesConnection : Note → Bool
  | .transition _ _ => false
  | .trackCreated _ => false
  | .trackClosed _ => false
  | _ => true

/-- The particulars of a note of the connection with descriptor `d`. -/
def particulars (d : Descriptor) : Note → List (String × String)
  | .transition old new => [("old_state", old.text), ("new_state", new.text)]
  | .connected => [("url", Listing.optionalText d.url)]
  | .senderRegistered t => [channel t.channel]
  | .handlerExited f => [("error", f.message)]
  | .closeFailed t f => [channel t.channel, ("error", f.message)]
  | .stopped => []
  | .raised event => [("event", event)]
  | .servedFromRegistry t => [channel t.channel]
  | .mediaSetUp m c => [channel c, ("media", m.summary)]
  | .trackCreated t =>
    [channel t.channel, ("media", t.media.summary), ("codec", t.codec.name)]
  | .trackClosed t => [channel t.channel]
  | .closeIgnored f => [("error", f.message)]
  | .reestablished receivers senders =>
    [("receivers", toString receivers), ("senders", toString senders)]
where
  channel (c : UInt8) : String × String := ("channel", toString c.toNat)

/-- All fields of a note: the connection, if it is named, the particulars, the wording. -/
def fields (d : Descriptor) (n : Note) : List (String × String) :=
  (if n.namesConnection then [("conn_id", toString d.id.toNat)] else [])
    ++ n.particulars d ++ [("message", n.message)]

end Note

/-! ### Answers -/

/-- What an operation answers. -/
inductive Answer where
  | done
  | failed (fault : Fault)
  /-- The operation names a track that is not known. -/
  | noTrack
  /-- The operation is not to be had where it was asked for. -/
  | notAllowed
  | track (track : Track)
  /-- The tracks that were handed out, and why there were no more. -/
  | filled (tracks : List Track) (stopped : Option Fault)
  | listing (text : String)
  | role (role : Role) (nextChannel : UInt8)
  | timeout (duration : Duration)
  | snapshot (document : String)
  | control (control : Control)
  deriving DecidableEq, Repr

namespace Answer

def ofOutcome : Outcome → Answer
  | .ok () => .done
  | .error f => .failed f

def tracks : Answer → List Track
  | .track t => [t]
  | .filled ts _ => ts
  | _ => []

end Answer

/-- What can be seen of a session when an operation has ended. -/
structure View where
  closed : List Track
  /-- The connection, unless it is locked at that moment. -/
  control : Option Control
  deriving DecidableEq, Repr

/-! ### Entries -/

/-- One entry of the history. -/
inductive Entry where
  | began (operation : Operation)
  | ended (answer : Answer) (view : View)
  /-- A request other than that for a media section. -/
  | requested (request : Request) (fault : Option Fault)
  | setUp (media : MediaSection) (channel : Except Fault UInt8)
  /-- The frame handler starts its next step. -/
  | handling
  | handled (result : Outcome)
  /-- The frame handler was called, and had no step left. -/
  | unattended
  | reacting (event : String) (control : Control)
  | reacted
  | hookBegan
  | hookEnded (label : String)
  | note (note : Note)

namespace Entry

/-- Does something begin here whose end has an entry of its own? -/
def opens : Entry → Bool
  | .began _ => true
  | .handling => true
  | .reacting _ _ => true
  | .hookBegan => true
  | _ => false

/-- Does something end here? -/
def closes : Entry → Bool
  | .ended _ _ => true
  | .handled _ => true
  | .reacted => true
  | .hookEnded _ => true
  | _ => false

def isNote : Entry → Bool
  | .note _ => true
  | _ => false

end Entry

end RtspControl
