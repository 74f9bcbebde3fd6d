import RtspControl.Json.Value

/-!
# Connection descriptors

What a connection tells about itself: an identifier, the protocol, and whatever is
known of its peer and its content. The document of a descriptor has its fields in a
fixed order and leaves out what is not known, so an absent field and an empty one are
written differently.
-/

namespace RtspControl

/-- What a connection tells about itself. -/
structure Descriptor where
  id : UInt64
  formatName : String := "rtsp"
  protocol : String
  remoteAddr : Option String := none
  /-- The stream source that the connection was opened for. -/
  source : Option String := none
  url : Option String := none
  userAgent : Option String := none
  sdp : Option String := none
  deriving DecidableEq, Repr, Inhabited

namespace Descriptor

/-- The protocol of a connection that is given none. -/
def defaultProtocol : String := "rtsp+tcp"

/-- What can be filled in after a descriptor has been created. -/
inductive Detail where
  | remoteAddr
  | source
  | url
  | userAgent
  | sdp
  deriving DecidableEq, Repr

def fill (d : Descriptor) (detail : Detail) (text : String) : Descriptor :=
  match detail with
  | .remoteAddr => { d with remoteAddr := some text }
  | .source => { d with source := some text }
  | .url => { d with url := some text }
  | .userAgent => { d with userAgent := some text }
  | .sdp => { d with sdp := some text }

@[simp] theorem id_fill (d : Descriptor) (detail : Detail) (text : String) :
    (d.fill detail text).id = d.id := by
  cases detail <;> rfl

def toJson (d : Descriptor) : Json.Value :=
  .record ([("id", .number d.id.toNat),
            ("format_name", .text d.formatName),
            ("protocol", .text d.protocol)]
           ++ Json.optional "remote_addr" d.remoteAddr
           ++ Json.optional "source" d.source
           ++ Json.optional "url" d.url
           ++ Json.optional "user_agent" d.userAgent
           ++ Json.optional "sdp" d.sdp)

end Descriptor

end RtspControl
