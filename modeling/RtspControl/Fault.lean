import RtspControl.Role
import RtspControl.Json.Defect

/-!
# Faults

Every way in which an operation can fail, as a cause with its data; the wording is in
one function. A fault of the peer's side (`io`, `transport`, or anything else a
peer reports) is handed on as it is, so a fault is a value that operations pass along
and never inspect.
-/

namespace RtspControl

/-- Why an operation failed. -/
inductive Fault where
  | io (text : String)
  | transport (text : String)
  /-- The role does not have this operation. -/
  | wrongRole (operation : String) (role : Role)
  /-- The phase does not allow this operation. -/
  | wrongPhase (operation : String) (phase : Phase)
  /-- A combination that has no meaning. -/
  | internal (text : String)
  /-- The next interleaved channel does not fit in a byte. -/
  | channelsExhausted (tracks : Nat)
  /-- The track on this channel is closed already. -/
  | trackClosed (channel : UInt8)
  /-- A JSON text could not be read. -/
  | unreadable (defect : Json.Defect)
  deriving DecidableEq, Repr

namespace Fault

def message : Fault → String
  | .io text => "I/O error: " ++ text
  | .transport text => "transport error: " ++ text
  | .wrongRole operation role => "wrong mode for " ++ operation ++ ": " ++ role.text
  | .wrongPhase operation phase => "cannot " ++ operation ++ " from " ++ phase.text ++ " state"
  | .internal text => "internal error: " ++ text
  | .channelsExhausted tracks =>
    "interleaved channels exhausted (" ++ toString tracks ++ " tracks registered)"
  | .trackClosed channel => "track on channel " ++ toString channel.toNat ++ " already closed"
  | .unreadable _ => "JSON error: "

/-- The message of the underlying failure, where there is one below the fault. -/
def source? : Fault → Option String
  | .io text => some text
  | _ => none

end Fault

/-- How an operation without a result ends. -/
abbrev Outcome := Except Fault Unit

end RtspControl
