/-!
# Roles and phases of a control connection

A control connection plays one of three roles, fixed when it is opened, and is at
every moment in one of four phases (RFC 2326 §A.1, §A.2). The legal moves between
the phases belong to the operations; this module only names both and gives their
two spellings: the wording of messages and the keyword of machine-readable output.
-/

namespace RtspControl

/-- The part the local side plays on a control connection. -/
inductive Role where
  /-- A client: dials the server, pulls media and may push a backchannel. -/
  | activeProducer
  /-- A server that pushes media to a connected client. -/
  | passiveProducer
  /-- A server that receives media from a connected client. -/
  | passiveConsumer
  deriving DecidableEq, Repr

def Role.text : Role → String
  | .activeProducer => "active producer"
  | .passiveProducer => "passive producer"
  | .passiveConsumer => "passive consumer"

/-- The keyword of a role in machine-readable output. -/
def Role.keyword : Role → String
  | .activeProducer => "active_producer"
  | .passiveProducer => "passive_producer"
  | .passiveConsumer => "passive_consumer"

/-- How far a control connection has come. -/
inductive Phase where
  | idle
  /-- The server is dialled and its session is described. -/
  | connected
  /-- At least one track is negotiated; the session can be played. -/
  | ready
  /-- Media is flowing. -/
  | playing
  deriving DecidableEq, Repr

def Phase.text : Phase → String
  | .idle => "NONE"
  | .connected => "CONN"
  | .ready => "SETUP"
  | .playing => "PLAY"

instance : Inhabited Phase := ⟨.idle⟩

end RtspControl
