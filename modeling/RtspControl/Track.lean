import RtspControl.Media

/-!
# Tracks

A track is one negotiated media channel. All that a track is made with stays as it is:
its media section, its codec and its interleaved channel. Whether it is closed is not a
part of the track but of the session that knows it, so two tracks made alike are told
apart by a serial number, and a track is the same value for as long as it lives.
-/

namespace RtspControl

/-- A negotiated media channel. -/
structure Track where
  /-- The number of the track among those made in its session. -/
  serial : Nat
  media : MediaSection
  codec : Codec
  /-- The interleaved channel; its control packets use the one after it. -/
  channel : UInt8
  deriving DecidableEq, Repr, Inhabited

namespace Track

/-- Can this track be handed out for a request on a media section? It has to be a track
of that very section, and its codec has to answer the request. -/
def serves (t : Track) (m : MediaSection) (request : Codec) : Bool :=
  t.media.sameAs m && t.codec.satisfies request

end Track

end RtspControl
