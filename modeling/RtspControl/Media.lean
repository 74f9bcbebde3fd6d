import RtspControl.Codec

/-!
# Media sections

A session description has one section for each media stream (RFC 4566 §5.14). Of a
section the connection uses the direction, the codecs on offer and the control
address. Two sections with the same content are still two sections, so a section that
is negotiated on carries its position in the description, and `MediaSection.sameAs`
compares positions only.
-/

namespace RtspControl

/-- Which way media flows, seen from the local side. -/
inductive Direction where
  | receiveOnly
  | sendOnly
  | sendReceive
  deriving DecidableEq, Repr, Inhabited

def Direction.keyword : Direction → String
  | .receiveOnly => "recvonly"
  | .sendOnly => "sendonly"
  | .sendReceive => "sendrecv"

/-- What a session description says about one media stream. -/
structure Media where
  kind : String
  direction : Direction
  /-- The codecs on offer, the preferred ones first. -/
  codecs : List Codec
  /-- The control address, empty if there is none. -/
  control : String := ""
  deriving DecidableEq, Repr, Inhabited

namespace Media

def firstMatch? (m : Media) (request : Codec) : Option Codec :=
  m.codecs.find? (·.satisfies request)

def firstMatchIndex? (m : Media) (request : Codec) : Option Nat :=
  m.codecs.findIdx? (·.satisfies request)

/-- The summary of a media stream: its type, its direction and the names on offer. -/
def summary (m : Media) : String :=
  ", ".intercalate (m.kind :: m.direction.keyword :: m.codecs.map Codec.name)

def toJson (m : Media) : Json.Value :=
  .record [("kind", .text m.kind),
           ("direction", .text m.direction.keyword),
           ("codecs", .list (m.codecs.map Codec.toJson)),
           ("control", .text m.control)]

end Media

/-- A media stream at its place in the session description. -/
structure MediaSection extends Media where
  /-- The place; no two sections of a description share one. -/
  index : Nat
  deriving DecidableEq, Repr, Inhabited

/-- Are these the same section of the description? Equal content is not enough. -/
def MediaSection.sameAs (a b : MediaSection) : Bool :=
  a.index == b.index

end RtspControl
