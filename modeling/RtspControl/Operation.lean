import RtspControl.Track
import RtspControl.Request
import RtspControl.Agenda

/-!
# Operations

What can be done with a session: the operations of the connection itself, those on its
tracks, and those that arrange what is to happen later. Frame handlers, reactions to
events and close hooks do nothing but run operations in their turn, so an operation that
arranges one of these carries further operations.

`Operation.weight` bounds how much work an operation can still cause, with all that it
arranges. Every run of a session is finite because this bound goes down.
-/

namespace RtspControl

/-- Something to do with a session. -/
inductive Operation where
  | connect
  | start
  | stop
  | reconnect
  /-- A track for a request on a media section, negotiated if need be. -/
  | getTrack (media : MediaSection) (request : Codec)
  /-- So many tracks, for requests whose names are numbered. -/
  | fill (media : MediaSection) (request : Codec) (count : Nat)
  | newTrack (media : MediaSection) (codec : Codec) (channel : UInt8)
  /-- Registers a track, as often as said, for sending. -/
  | addSender (track : Nat) (times : Nat)
  | describeTrack (track : Nat)
  | listTrack (track : Nat)
  | closeTrack (track : Nat)
  /-- Leaves operations with a track, to be run when it is closed. -/
  | onClose (track : Nat) (label : String) (operations : List Operation)
  /-- Gives the peer one more failure to come. -/
  | expectFault (rule : Rule)
  | setChannel (next : UInt8)
  /-- Gives the frame handler one more step: what it does while it blocks the caller, and
  how it then returns. -/
  | pushStep (operations : List Operation) (result : Outcome)
  /-- Gives the event handler one more reaction. -/
  | pushReaction (operations : List Operation)
  | showRole
  | showTimeout
  | showDescriptor
  /-- Moves the connection to a phase, as only a frame handler may. -/
  | setPhase (phase : Phase)
  | showControl

mutual

/-- How much work an operation can cause. -/
def Operation.weight : Operation → Nat
  | .fill _ _ count => 8 + 8 * count
  | .onClose _ _ operations => 8 + weightAll operations
  | .pushStep operations _ => 8 + weightAll operations
  | .pushReaction operations => 8 + weightAll operations
  | _ => 8

/-- How much work operations can cause, one after the other. -/
def weightAll : List Operation → Nat
  | [] => 0
  | operation :: rest => operation.weight + weightAll rest

end

theorem Operation.weight_pos (op : Operation) : 8 ≤ op.weight := by
  cases op <;> simp [Operation.weight]

@[simp] theorem totalOf_weight (ops : List Operation) :
    totalOf Operation.weight ops = weightAll ops := by
  induction ops with
  | nil => rfl
  | cons op ops ih => simp only [totalOf_cons, ih, weightAll]

/-- One call of the frame handler. -/
structure Step where
  operations : List Operation
  result : Outcome

/-- What a track does when it is closed. -/
structure Hook where
  label : String
  operations : List Operation

def Step.weight (s : Step) : Nat := 1 + weightAll s.operations

def Hook.weight (h : Hook) : Nat := 2 + weightAll h.operations

end RtspControl
