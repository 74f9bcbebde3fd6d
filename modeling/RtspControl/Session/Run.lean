import RtspControl.Session.Lifecycle

/-!
# Running operations

Operations run one after the other, and some run others inside: `start` calls the frame
handler, whose steps are operations, and an event that is delivered makes the event
handler run operations. Between two elementary pieces of an operation, and only there,
others can come in; so a run is an agenda of tasks, each of which acts on the session in
one piece.

Events have a lock of their own. They are raised under that of the connection, and taken
for delivery in a piece by itself, when that has been released: whoever comes first takes
all that wait by then.

Every run comes to an end: what is left to do, with all that the session keeps in store,
becomes less with every task.
-/

namespace RtspControl

/-- Who asks for an operation. -/
inductive Caller where
  | outside
  | frameHandler
  | eventHandler
  deriving DecidableEq, Repr

/-- A piece of work on a session. -/
inductive Task where
  | perform (caller : Caller) (operation : Operation)
  | conclude (answer : Answer)
  /-- The frame handler returns to the `start` that called it. -/
  | handled (result : Outcome)
  /-- Take all events that wait, whoever has raised them, and deliver them. -/
  | deliver
  | react (event : String)
  | reacted
  /-- Get so many more tracks, for requests numbered from `next`. -/
  | fill (media : MediaSection) (request : Codec) (next left : Nat) (tracks : List Track)

namespace Task

open Session

/-- What a task costs at most, with all that it leads to. -/
def cost : Task → Nat
  | .perform _ op => op.weight
  | .conclude _ => 1
  | .handled _ => 2
  | .deliver => 1
  | .react _ => 2
  | .reacted => 1
  | .fill _ _ _ left _ => 2 + 4 * left

/-! ### Pieces of operations -/

/-- An action that is all there is to an operation. -/
def whole (x : Action Unit) (s : Session) : List Task × Session :=
  match x s with
  | .ok () s' => ([.conclude .done], s')
  | .error f s' => ([.conclude (.failed f)], s')

/-- An action that may raise events, which are delivered next; what follows then depends on
the result. -/
def thenDeliver {α : Type} (x : Action α) (next : Except Fault α → Task) (s : Session) :
    List Task × Session :=
  match x s with
  | .ok a s' => ([.deliver, next (.ok a)], s')
  | .error f s' => ([.deliver, next (.error f)], s')

/-- Calls the frame handler: its next step is run, and then it returns. -/
def callHandler (s : Session) : List Task × Session :=
  match s.script.steps with
  | [] => whole passUnattended s
  | step :: steps =>
    (step.operations.map (.perform .frameHandler) ++ [.handled step.result],
      { s with script := { s.script with steps := steps } }.log .handling)

def runPass (handled : Option Outcome) (s : Session) : List Task × Session :=
  match pass handled s with
  | .ok none s' => callHandler s'
  | .ok (some result) s' => ([.conclude (.ofOutcome result)], s')
  | .error f s' => ([.conclude (.failed f)], s')

/-- A frame handler without a step left is one that fails: `start` goes on as it does after
any other failure. -/
theorem callHandler_of_no_steps {s : Session} (steps : s.script.steps = [])
    (phase : s.control.phase = .idle ∨ s.control.phase = .playing) :
    callHandler s = runPass (some (.error noStepsLeft)) (s.log .unattended) := by
  obtain ⟨_, _, _, _, ⟨p, _, _⟩, _, _, _, ⟨left, _⟩, _⟩ := s
  obtain rfl : left = [] := steps
  -- In either phase `start` ends here, so both sides are computed.
  obtain rfl | rfl : p = .idle ∨ p = .playing := phase <;> rfl

/-- Calls the event handler: its next reaction, if there is one, is run. -/
def callReaction (event : String) (s : Session) : List Task × Session :=
  let s := (s.acquaintAll (s.control.receivers ++ s.control.senders)).log
    (.reacting event s.control)
  match s.script.reactions with
  | [] => ([.reacted], s)
  | ops :: reactions =>
    (ops.map (.perform .eventHandler) ++ [.reacted],
      { s with script := { s.script with reactions := reactions } })

/-- A request whose name carries a number. -/
def numbered (request : Codec) (n : Nat) : Codec :=
  { request with name := request.name ++ "#" ++ toString n }

/-- What follows when one of several tracks has been asked for. -/
def fillNext (m : MediaSection) (request : Codec) (next left : Nat) (tracks : List Track) :
    Except Fault Track → Task
  | .ok t => .fill m request (next + 1) left (tracks ++ [t])
  | .error f => .conclude (.filled tracks (some f))

def answer (a : Answer) (s : Session) : List Task × Session := ([.conclude a], s)

def trackAnswer : Except Fault Track → Answer
  | .ok t => .track t
  | .error f => .failed f

/-- What a frame handler asks of the connection through the control it was given. -/
def throughControl (caller : Caller) (x : Action Unit) (s : Session) : List Task × Session :=
  if caller = .frameHandler then
    let s' := after x s
    answer (.control s'.control) s'
  else answer .notAllowed s

/-! ### Tasks -/

def begin (caller : Caller) (op : Operation) (s : Session) : List Task × Session :=
  match op with
  | .connect => whole connect s
  | .start =>
    match s.role with
    | .passiveConsumer => answer (.failed (.wrongRole "start" s.role)) s
    | _ => runPass none s
  | .stop => whole stop s
  | .reconnect =>
    -- A server is told at once that it cannot, and delivers nothing.
    match s.role with
    | .activeProducer => thenDeliver reconnect (fun r => .conclude (.ofOutcome r)) s
    | _ => whole reconnect s
  | .getTrack m request => thenDeliver (negotiate m request) (fun r => .conclude (trackAnswer r)) s
  | .fill m request count => ([.fill m request 0 count []], s)
  | .newTrack m c channel =>
    match makeTrack m c channel s with
    | .ok t s' => answer (.track t) s'
    | .error f s' => answer (.failed f) s'
  | .addSender n times =>
    match s.track? n with
    | some t => whole (addSenders t times) s
    | none => answer .noTrack s
  | .closeTrack n =>
    match s.track? n with
    | some t => whole (closeTrack t) s
    | none => answer .noTrack s
  | .showRole => answer (.role s.role s.peer.nextChannel) s
  | .showTimeout => answer (.timeout s.settings.backchannelTimeout) s
  | .showDescriptor => answer (.snapshot s.snapshot) s
  | .setPhase p => throughControl caller (enter p) s
  | .showControl => throughControl caller (pure ()) s
  | op =>
    match s.lockFree? op with
    | some (a, s') => answer a s'
    | none => answer .notAllowed s

def step : Task → Session → List Task × Session
  | .perform caller op, s => begin caller op (s.log (.began op))
  | .conclude a, s => ([], s.conclude a false)
  | .handled result, s => runPass (some result) (s.log (.handled result))
  | .deliver, s => (s.pending.map .react, { s with pending := [] })
  | .react event, s => callReaction event s
  | .reacted, s => ([], s.log .reacted)
  | .fill m request next left tracks, s =>
    let s := s.acquaintAll tracks
    match left with
    | 0 => answer (.filled tracks none) s
    | left + 1 =>
      thenDeliver (negotiate m (numbered request next)) (fillNext m request next left tracks) s

/-! ### Every run comes to an end -/

/-- The work that a task leaves: what it puts in front, and what the session keeps in
store. -/
def remaining (r : List Task × Session) : Nat := totalOf cost r.1 + r.2.load

@[simp] theorem remaining_answer (a : Answer) (s : Session) :
    remaining (answer a s) = 1 + s.load := by
  simp [remaining, answer, cost]

@[simp] theorem totalOf_cost_perform (caller : Caller) (ops : List Operation) :
    totalOf cost (ops.map (Task.perform caller)) = weightAll ops := by
  rw [totalOf_map, ← totalOf_weight]
  rfl

@[simp] theorem totalOf_cost_react (events : List String) :
    totalOf cost (events.map Task.react) = 2 * events.length := by
  induction events with
  | nil => rfl
  | cons e events ih =>
    simp only [List.map_cons, totalOf_cons, ih, cost, List.length_cons]
    omega

theorem remaining_whole_le {x : Action Unit} {k : Nat} (h : Grows x k) (s : Session) :
    remaining (whole x s) ≤ 1 + s.load + k := by
  have := h s
  simp only [after] at this
  unfold whole
  cases hx : x s <;> simp only [hx] at this <;> simp [remaining, cost] <;> omega

theorem remaining_thenDeliver_le {α : Type} {x : Action α} {k c : Nat} (h : Grows x k)
    (next : Except Fault α → Task) (hnext : ∀ r, (next r).cost ≤ c) (s : Session) :
    remaining (thenDeliver x next s) ≤ 1 + c + s.load + k := by
  have := h s
  have hd : cost .deliver = 1 := rfl
  simp only [after] at this
  unfold thenDeliver
  cases hx : x s with
  | ok a s' =>
    have hc := hnext (.ok a)
    simp only [hx] at this
    simp only [remaining, totalOf_cons, totalOf_nil, hd]
    omega
  | error f s' =>
    have hc := hnext (.error f)
    simp only [hx] at this
    simp only [remaining, totalOf_cons, totalOf_nil, hd]
    omega

theorem remaining_deliver (s : Session) :
    remaining (s.pending.map .react, { s with pending := [] }) = s.load := by
  simp only [remaining, totalOf_cost_react, load, List.length_nil]
  omega

theorem cost_fillNext_le (m : MediaSection) (request : Codec) (next left : Nat)
    (tracks : List Track) (r : Except Fault Track) :
    (fillNext m request next left tracks r).cost ≤ 2 + 4 * left := by
  cases r with
  | ok t => exact Nat.le_refl _
  | error f =>
    simp only [fillNext, cost]
    omega

theorem remaining_callHandler_le (s : Session) : remaining (callHandler s) ≤ 1 + s.load := by
  unfold callHandler
  split
  · exact remaining_whole_le Grows.passUnattended s
  · next step steps h =>
    simp only [remaining, totalOf_append, totalOf_cost_perform, totalOf_cons, totalOf_nil,
      load_log, cost]
    simp only [load, h, totalOf_cons, Step.weight]
    omega

theorem remaining_runPass_le (handled : Option Outcome) (s : Session) :
    remaining (runPass handled s) ≤ 1 + s.load := by
  have := Grows.pass handled s
  simp only [after] at this
  unfold runPass
  cases hx : pass handled s with
  | ok r s' =>
    simp only [hx] at this
    cases r with
    | none => exact Nat.le_trans (remaining_callHandler_le s') (by omega)
    | some result => simp [remaining, cost]; omega
  | error f s' =>
    simp only [hx] at this
    simp [remaining, cost]
    omega

theorem remaining_callReaction_le (event : String) (s : Session) :
    remaining (callReaction event s) ≤ 1 + s.load := by
  unfold callReaction
  -- Making tracks known changes nothing that is in store.
  have hl := load_acquaintAll (s.control.receivers ++ s.control.senders) s
  generalize s.acquaintAll (s.control.receivers ++ s.control.senders) = s₁ at *
  dsimp only
  split
  · simp [remaining, cost]
    omega
  · next ops reactions h =>
    simp only [remaining, totalOf_append, totalOf_cost_perform, totalOf_cons, totalOf_nil, cost]
    simp only [load, log] at h hl ⊢
    simp only [h, totalOf_cons] at hl
    omega

theorem remaining_throughControl_le {x : Action Unit} (h : Grows x 0) (caller : Caller)
    (s : Session) : remaining (throughControl caller x s) ≤ 1 + s.load := by
  have := h s
  unfold throughControl
  split
  · simp
    omega
  · simp

/-- An operation leaves less work than it weighs, because no piece of one leaves more than
seven units beyond what the session keeps in store. -/
theorem remaining_begin_lt (caller : Caller) (op : Operation) (s : Session) :
    remaining (begin caller op s) < op.weight + s.load := by
  have hop := op.weight_pos
  -- Most operations leave a bounded amount of work, which any weight exceeds.
  have short {n : Nat} (h : n ≤ 7 + s.load) : n < op.weight + s.load := by omega
  have lockFree : remaining (match s.lockFree? op with
      | some (a, s') => answer a s'
      | none => answer .notAllowed s) < op.weight + s.load := by
    split
    · next a s' h =>
      have : s'.load + 1 < s.load + op.weight := load_lockFree_lt h
      simp only [remaining_answer]
      omega
    · simp only [remaining_answer]
      omega
  cases op with
  | connect => exact short (Nat.le_trans (remaining_whole_le Grows.connect s) (by omega))
  | start =>
    simp only [begin]
    split
    · exact short (by rw [remaining_answer]; omega)
    · exact short (Nat.le_trans (remaining_runPass_le _ s) (by omega))
  | stop => exact short (Nat.le_trans (remaining_whole_le Grows.stop s) (by omega))
  | reconnect =>
    simp only [begin]
    split
    · exact short (Nat.le_trans
        (remaining_thenDeliver_le (c := 1) Grows.reconnect _ (fun _ => Nat.le_refl _) s)
        (by omega))
    · exact short (Nat.le_trans (remaining_whole_le Grows.reconnect s) (by omega))
  | getTrack m request =>
    exact short (Nat.le_trans
      (remaining_thenDeliver_le (c := 1) (Grows.negotiate m request) _ (fun _ => Nat.le_refl _) s)
      (by omega))
  | fill m request count =>
    simp only [begin, remaining, cost, Operation.weight, totalOf_cons, totalOf_nil]
    omega
  | newTrack m c channel =>
    have := Grows.makeTrack m c channel s
    simp only [after] at this
    simp only [begin]
    split <;> (next h => simp only [h] at this; exact short (by rw [remaining_answer]; omega))
  | addSender n times =>
    simp only [begin]
    split
    · exact short (Nat.le_trans (remaining_whole_le (Grows.addSenders _ _) s) (by omega))
    · exact short (by rw [remaining_answer]; omega)
  | closeTrack n =>
    simp only [begin]
    split
    · exact short (Nat.le_trans (remaining_whole_le (Grows.closeTrack _) s) (by omega))
    · exact short (by rw [remaining_answer]; omega)
  | showRole | showTimeout | showDescriptor =>
    exact short (by simp only [begin, remaining_answer]; omega)
  | setPhase p =>
    exact short (Nat.le_trans (remaining_throughControl_le (Grows.enter p) _ s) (by omega))
  | showControl =>
    exact short (Nat.le_trans (remaining_throughControl_le (Grows.pure ()) _ s) (by omega))
  | describeTrack | listTrack | onClose | expectFault | setChannel | pushStep | pushReaction =>
    exact lockFree

/-- Whatever a task arranges is less than what it was itself. -/
theorem spends (t : Task) (s : Session) :
    totalOf cost (t.step s).1 + (t.step s).2.load < t.cost + s.load := by
  show remaining (t.step s) < t.cost + s.load
  cases t with
  | perform caller op => exact remaining_begin_lt caller op (s.log (.began op))
  | conclude a => simp [step, remaining, cost]
  | handled result =>
    have := remaining_runPass_le (some result) (s.log (.handled result))
    simp only [step, cost, load_log] at this ⊢
    omega
  | deliver =>
    simp only [step, remaining_deliver, cost]
    omega
  | react event =>
    have := remaining_callReaction_le event s
    simp only [step, cost]
    omega
  | reacted => simp [step, remaining, cost]
  | fill m request next left tracks =>
    have hl := load_acquaintAll tracks s
    simp only [step]
    generalize s.acquaintAll tracks = s₁ at *
    cases left with
    | zero =>
      simp only [remaining_answer, cost]
      omega
    | succ left =>
      have := remaining_thenDeliver_le (c := 2 + 4 * left)
        (Grows.negotiate m (numbered request next))
        (fillNext m request next left tracks)
        (cost_fillNext_le m request next left tracks) s₁
      simp only [cost]
      omega

def agenda : Agenda Task Session := ⟨step, cost, load, spends⟩

end Task

namespace Session

def perform (ops : List Operation) (s : Session) : Session :=
  Task.agenda.run (ops.map (.perform .outside)) s

end Session

end RtspControl
