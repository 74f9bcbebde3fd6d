import RtspControl.Session.Closing

/-!
# The life of a connection

A client's connection comes to life by `connect`, which leaves it connected; the first
negotiated track makes it ready, `start` plays it, and `stop` ends it from any phase:

    connect     idle ─▶ connected
    negotiate   idle, connected, playing ─▶ ready
    start       ready ─▶ playing
    stop        any ─▶ idle

`start` runs in passes. A pass looks at the phase, plays the session if it is ready, and
hands over to the frame handler; when that returns, the phase it has left behind decides
whether there is a further pass. `pass` is the first half of one, up to the handler.
-/

namespace RtspControl.Session

/-- Dials the server and has it describe its session, as only a client can. -/
def connect : Action Unit := do
  let s ← get
  require (s.role = .activeProducer) (.wrongRole "connect" s.role)
  require (s.control.phase = .idle) (.wrongPhase "connect" s.control.phase)
  request .dial
  -- A server that is dialled is connected to, even if it then fails to describe.
  enter .connected
  request .describe
  note .connected

/-- Ends a session that is not idle. -/
def tearDown : Action Unit := do
  enter .idle
  note .stopped
  request .close

def clearRegistries : Action Unit :=
  modify fun s => { s with control := { s.control with receivers := [], senders := [] } }

/-- Closes every registered track, the inbound ones first, and ends the session if there is
one. The connection is locked all the while, so no track is registered in between. -/
def stop : Action Unit := do
  let s ← get
  clearRegistries
  closeAll (s.control.receivers ++ s.control.senders)
  onlyIf (s.control.phase ≠ .idle) tearDown

def addSenders (t : Track) : Nat → Action Unit
  | 0 => pure ()
  | n + 1 => do
    addSender t
    addSenders t n

/-! ### Passes of `start` -/

/-- How `start` ends when it finds the connection stopped: a failure of the frame handler is
noted, and is none of `start`. -/
def excuse : Outcome → Action Unit
  | .ok () => pure ()
  | .error f => note (.handlerExited f)

/-- Looks at the phase, on the first pass or with what the frame handler returned. Gives
nothing if the frame handler is to be called, else the result of `start`. -/
def pass (handled : Option Outcome) : Action (Option Outcome) := do
  let s ← get
  match s.control.phase, handled with
  | .idle, none => pure none
  | .idle, some result => do
    excuse result
    pure (some (.ok ()))
  | .connected, _ => throw (.wrongPhase "start" .connected)
  | .ready, _ => do
    -- A server plays on its client's word and asks nobody.
    onlyIf (s.role = .activeProducer) (request .play)
    enter .playing
    pure none
  | .playing, none => throw (.internal "start called on a playing connection")
  | .playing, some result => pure (some result)

/-- The fault of a frame handler that has nothing left to do. -/
def noStepsLeft : Fault := .transport "no steps left"

/-- How `start` ends after a pass whose frame handler had nothing left to do. It did not
touch the phase, so that is still idle or playing. -/
def passUnattended : Action Unit := do
  modify (log .unattended)
  let s ← get
  match s.control.phase with
  | .idle => excuse (.error noStepsLeft)
  | _ => throw noStepsLeft

/-! ### Work in store -/

namespace Grows

theorem connect : Grows Session.connect 0 :=
  get.andThen fun _ => (require _ _).andThen fun _ => (require _ _).andThen fun _ =>
    (request _).andThen fun _ => (enter _).andThen fun _ => (request _).andThen fun _ => note _

theorem tearDown : Grows Session.tearDown 0 :=
  (enter _).andThen fun _ => (note _).andThen fun _ => request _

theorem clearRegistries : Grows Session.clearRegistries 0 := modify fun _ => Nat.le_refl _

theorem stop : Grows Session.stop 0 :=
  get.andThen fun _ => clearRegistries.andThen fun _ => (closeAll _).andThen fun _ =>
    onlyIf _ tearDown

theorem addSenders (t : Track) : ∀ n : Nat, Grows (Session.addSenders t n) 0
  | 0 => pure _
  | n + 1 => (addSender t).andThen fun _ => addSenders t n

theorem excuse (r : Outcome) : Grows (Session.excuse r) 0 := by
  cases r
  · exact note _
  · exact pure _

theorem pass (handled : Option Outcome) : Grows (Session.pass handled) 0 := by
  refine get.andThen fun s => ?_
  split
  · exact pure _
  · exact (excuse _).andThen fun _ => pure _
  · exact throw _
  · exact (onlyIf _ (request _)).andThen fun _ => (enter _).andThen fun _ => pure _
  · exact throw _
  · exact pure _

theorem passUnattended : Grows Session.passUnattended 0 := by
  refine (modify (f := log .unattended) fun _ => Nat.le_refl _).andThen fun _ =>
    get.andThen fun s => ?_
  split
  · exact excuse _
  · exact throw _

end Grows

end RtspControl.Session
