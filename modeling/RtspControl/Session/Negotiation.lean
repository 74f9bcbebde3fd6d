import RtspControl.Session
import RtspControl.Channel

/-!
# Negotiating tracks

`negotiate` finds or makes the track for a request on a media section. A receive-only
section that has a fitting track is served from the registry. Otherwise a client asks
the peer for a channel, while a server that receives media hands out the channels
itself.

A playing session takes no further section, so a client first builds it anew: `rebuild`
closes the old one, dials again, and negotiates every registered track once more on the
media section it was made for.
-/

namespace RtspControl.Session

/-! ### Building a session anew -/

/-- The event that a session is built anew. -/
def reconnectEvent : String := "RTSP reconnect"

/-- Negotiates again the media sections of tracks, in order, up to the first failure. -/
def replay : List Track → Action Unit
  | [] => pure ()
  | t :: ts => do
    let _ ← setUp t.media
    replay ts

/-- Closes the old session and builds a new one for all registered tracks. That the old one
cannot be closed is no obstacle; the first failure after that ends the attempt. The
phase and the registries stay as they are. -/
def rebuild : Action Unit := do
  raise reconnectEvent
  -- The old session may be broken already.
  tolerate (request .close) .closeIgnored
  request .dial
  request .describe
  let s ← get
  replay (s.control.receivers ++ s.control.senders)
  note (.reestablished s.control.receivers.length s.control.senders.length)

/-- Builds the session anew on demand, as only a client can. -/
def reconnect : Action Unit := do
  let s ← get
  require (s.role = .activeProducer) (.wrongRole "reconnect" s.role)
  rebuild

/-! ### Finding or making a track -/

/-- The inbound track that serves a request, the oldest of several. -/
def served? (s : Session) (m : MediaSection) (request : Codec) : Option Track :=
  if m.direction = .receiveOnly then s.control.receivers.find? (·.serves m request) else none

/-- Has the peer assign a channel to a media section, on a session that is not playing. -/
def assign (m : MediaSection) : Action UInt8 := do
  let s ← get
  onlyIf (s.control.phase = .playing) rebuild
  let channel ← setUp m
  enter .ready
  note (.mediaSetUp m channel)
  return channel

def receive (m : MediaSection) (c : Codec) (channel : UInt8) : Action Track := do
  let t ← makeTrack m c channel
  register t
  return t

/-- Makes the track for a request that the registry does not serve. Outbound tracks are not
registered: that is left to the caller. -/
def makeFor (m : MediaSection) (c : Codec) : Action Track := do
  let s ← get
  match s.role, m.direction with
  | .activeProducer, .receiveOnly => do receive m c (← assign m)
  | .activeProducer, .sendOnly => do makeTrack m c (← assign m)
  | .activeProducer, .sendReceive =>
    throw (.internal ("get_track: unsupported mode/direction "
      ++ s.role.text ++ "/" ++ m.direction.keyword))
  | .passiveConsumer, .receiveOnly => do
    receive m c (← MonadExcept.ofExcept (Channel.interleaved s.control.receivers.length))
  | .passiveConsumer, _ => do
    makeTrack m c (← MonadExcept.ofExcept (Channel.interleaved s.control.senders.length))
  | .passiveProducer, _ => throw (.wrongRole "get_track" s.role)

/-- The track for a request on a media section. -/
def negotiate (m : MediaSection) (request : Codec) : Action Track := do
  let s ← get
  match s.served? m request with
  | some t =>
    note (.servedFromRegistry t)
    return t
  | none => makeFor m request

end RtspControl.Session
