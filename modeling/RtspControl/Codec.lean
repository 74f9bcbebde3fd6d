import RtspControl.Json.Value

/-!
# Codecs and codec requests

A codec is what a session description says about one encoding of a media section
(RFC 4566 §6). The same type serves as a request for a codec, and `Codec.satisfies`
says when an offered codec answers a request: a request may leave the name, the clock
rate or the channel count open, an offer may not.
-/

namespace RtspControl

/-- One encoding of a media section. -/
structure Codec where
  /-- The encoding name, compared byte for byte. -/
  name : String
  /-- The clock rate in Hz; zero is unspecified. -/
  clockRate : UInt32
  /-- The number of audio channels; zero is unspecified. -/
  channels : UInt16 := 0
  /-- The payload type of its packets (RFC 3551). -/
  payloadType : UInt8 := 0
  /-- Parameters particular to the format, if any are given. -/
  fmtp : Option String := none
  deriving DecidableEq, Repr, Inhabited

namespace Codec

/-! ### Well-known names -/

def h264 : String := "H264"
def h265 : String := "H265"
def pcma : String := "PCMA"
def pcmu : String := "PCMU"
def opus : String := "OPUS"
def aac : String := "MPEG4-GENERIC"

/-- As the name of a request, answered by every codec. -/
def anyName : String := "ANY"

def allName : String := "ALL"

/-! ### Requests -/

/-- A request whose name is a wildcard asks for nothing in particular. -/
def isOpenRequest (request : Codec) : Bool :=
  request.name == anyName || request.name == allName

/-- Does `offer` answer `request`? Every codec answers a wildcard name; otherwise the
names are equal, and so are the clock rate and the channel count wherever the request
gives one. -/
def satisfies (offer request : Codec) : Bool :=
  request.isOpenRequest
    || (offer.name == request.name
        && (request.clockRate == 0 || offer.clockRate == request.clockRate)
        && (request.channels == 0 || offer.channels == request.channels))

/-! ### The document of a codec -/

def toJson (c : Codec) : Json.Value :=
  .record ([("name", .text c.name),
            ("clock_rate", .number c.clockRate.toNat),
            ("channels", .number c.channels.toNat),
            ("payload_type", .number c.payloadType.toNat)]
           ++ Json.optional "fmtp" c.fmtp)

end Codec

end RtspControl
