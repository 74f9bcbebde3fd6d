import RtspControl.Json.Record
import RtspControl.Duration
import RtspControl.Fault

/-!
# Stream settings

Settings shared by connections: for how long the backchannel may stay silent before its
track counts as inactive. They are read from a JSON record whose field `backchannel` is
a record with a field `inactivity_timeout`, a number of seconds. Either may be left out,
and other fields are passed over.
-/

namespace RtspControl

/-- Settings shared by connections. -/
structure Settings where
  /-- The silence allowed on the backchannel, in seconds. -/
  inactivityTimeout : Binary64 := .zero
  deriving DecidableEq, Repr, Inhabited

namespace Settings

/-- The silence that is allowed where no positive number is set; it stands for no limit. -/
def defaultTimeout : Duration := .zero

/-- The silence allowed on the backchannel; zero where there is no limit. -/
def backchannelTimeout (s : Settings) : Duration := .ofSeconds s.inactivityTimeout

/-- Reads the part of the settings that is about the backchannel. -/
def backchannel : Json.Reader Binary64 :=
  Json.record "inactivity_timeout".toList .zero Json.double

def read (text : List Char) : Except Json.Defect Settings := do
  let seconds ← Json.whole (Json.record "backchannel".toList .zero backchannel) text
  .ok ⟨seconds⟩

def ofText (text : String) : Except Fault Settings :=
  (read text.toList).mapError .unreadable

end Settings

end RtspControl
