import RtspControl.Proofs.Joining

/-!
# What one call of `start` does

A task that is worked off leads to other tasks, and those to others still. Between them, and between
the turns of a caller, anything may happen to the connection. What a call of `start` does itself are
the moves by which its caller comes back to it: `Scene.own` finds them by the number of tasks that
wait beneath, and by `Scene.own_working` each of them is the task that the one before has left for
the end.

`Move.Passes` lists what one pass of `start` can do, by the phase that it finds and by what it knows
of the frame handler; `Starting` puts passes in a row. `Course.start_passes` is the main result:
whoever calls `start`, from outside or in a handler, and whatever happens while the frame handler is
busy, the moves of the call are a row of such passes.
-/

namespace RtspControl

open Session

/-! ## The moves that belong to a task -/

namespace Scene

/-- How many tasks a caller has before itself. -/
def depth (scene : Scene) (k : Nat) : Nat := (scene.waiting[k]?.getD []).length

/-- The moves with which caller `k` works on what is above the lowest `below` of its tasks, as
often as there is only one such task, until there is none. -/
def own (k below : Nat) (scene : Scene) : List Nat → List Move
  | [] => []
  | j :: js =>
    if scene.depth k ≤ below then []
    else (if j = k ∧ scene.depth k = below + 1 then (scene.next? k).toList else []) ++
      own k below (scene.turn j) js

theorem own_subset (k below : Nat) (scene : Scene) (schedule : List Nat) :
    scene.own k below schedule ⊆ scene.moves schedule := by
  induction schedule generalizing scene with
  | nil => exact List.Subset.refl _
  | cons j js ih =>
    unfold own moves
    split
    · exact List.nil_subset _
    · refine List.append_subset.mpr ⟨?_, List.subset_append_of_subset_right _ (ih _)⟩
      split
      · next h =>
        rw [h.1]
        exact List.subset_append_left _ _
      · exact List.nil_subset _

end Scene

/-- The moves in which a task is worked off: its own one, and then those of the task that it leaves
for the end of all that it leads to. -/
inductive Working : Task → List Move → Prop where
  | paused (t : Task) : Working t []
  | done (x : Move) (leads : (x.task.step x.found).1 = []) : Working x.task [x]
  | on (x : Move) (above : List Task) (t : Task) (xs : List Move)
      (leads : (x.task.step x.found).1 = above ++ [t]) (later : Working t xs) :
      Working x.task (x :: xs)

/-- What waits above a task is worked off before it, whoever else has his turn in between. -/
theorem Scene.own_working {scene : Scene} {k : Nat} {above rest : List Task} {t : Task}
    (h : scene.waiting[k]? = some (above ++ t :: rest)) (schedule : List Nat) :
    Working t (scene.own k rest.length schedule) := by
  induction schedule generalizing scene above t with
  | nil => exact .paused t
  | cons j js ih =>
    have depth : scene.depth k = above.length + 1 + rest.length := by
      simp only [Scene.depth, h, Option.getD_some, List.length_append, List.length_cons]
      omega
    unfold Scene.own
    rw [if_neg (by omega)]
    by_cases same : j = k
    · subst same
      cases above with
      | cons u above =>
        -- Something else is to be done first.
        rw [List.cons_append] at h
        rw [if_neg (by simp only [depth, List.length_cons]; omega)]
        have turn := Scene.waiting_turn_self h
        rw [← List.append_assoc] at turn
        exact ih turn
      | nil =>
        have turn := Scene.waiting_turn_self h
        rw [if_pos ⟨rfl, by simp only [depth, List.length_nil]; omega⟩, Scene.next?_of_waiting h]
        rcases List.eq_nil_or_concat (t.step scene.session).1 with leads | ⟨above, u, leads⟩
        · have finished : (scene.turn j).own j rest.length js = [] := by
            cases js with
            | nil => rfl
            | cons => simp only [Scene.own, Scene.depth, turn, leads, Option.getD_some,
                List.nil_append, Nat.le_refl, if_true]
          rw [finished]
          exact .done ⟨t, scene.session⟩ leads
        · rw [List.concat_eq_append] at leads
          rw [leads, List.append_assoc, List.singleton_append] at turn
          exact .on ⟨t, scene.session⟩ above u _ leads (ih turn)
    · rw [if_neg fun h => same h.1]
      exact ih ((Scene.waiting_turn_of_ne same).trans h)

namespace Course

variable (r : Course)

/-- At some point of a course it is up to a caller to perform an operation, from outside or in a
handler, and `xs` are the moves in which it does so. -/
def Invokes (op : Operation) (xs : List Move) : Prop :=
  ∃ past later k caller rest, r.schedule = past ++ later ∧
    (r.beginning.play past).waiting[k]? = some (.perform caller op :: rest) ∧
    xs = (r.beginning.play past).own k rest.length later

end Course

theorem Course.Invokes.working {r : Course} {op : Operation} {xs : List Move}
    (h : r.Invokes op xs) : ∃ caller, Working (.perform caller op) xs ∧ xs ⊆ r.moves := by
  obtain ⟨past, later, k, caller, rest, schedule, waiting, rfl⟩ := h
  rw [← List.nil_append (_ :: rest)] at waiting
  refine ⟨caller, Scene.own_working waiting later, ?_⟩
  rw [Course.moves, schedule, Scene.moves_append]
  exact List.subset_append_of_subset_right _ (Scene.own_subset _ _ _ _)

/-! ## One pass -/

namespace Entry

/-- Is the frame handler called here? -/
def isHandling : Entry → Bool
  | .handling => true
  | .unattended => true
  | _ => false

end Entry

/-- How often the frame handler is called. -/
def handlings (es : List Entry) : Nat := es.countP Entry.isHandling

theorem handlings_append (es es' : List Entry) :
    handlings (es ++ es') = handlings es + handlings es' :=
  List.countP_append

theorem handlings_opening (t : Task) : handlings t.opening = 0 := by
  cases t <;> rfl

namespace Move

/-- The passes of `start` that call the frame handler. -/
inductive Admits (x : Move) : Option Outcome → Prop where
  /-- Before the first call of the frame handler, nothing need have been negotiated. -/
  | idle (idle : x.found.control.phase = .idle) (asked : calls x.entries = [])
      (control : x.left.control = x.found.control) : Admits x none
  | played (handled : Option Outcome) (ready : x.found.control.phase = .ready)
      (client : x.found.role = .activeProducer) (asked : calls x.entries = [.request .play])
      (granted : Granted x.entries)
      (control : x.left.control = { x.found.control with phase := .playing }) : Admits x handled
  | served (handled : Option Outcome) (ready : x.found.control.phase = .ready)
      (server : x.found.role = .passiveProducer) (asked : calls x.entries = [])
      (control : x.left.control = { x.found.control with phase := .playing }) : Admits x handled

/-- The passes with which `start` ends, and how. -/
inductive Ends (x : Move) : Option Outcome → Answer → Prop where
  | early (handled : Option Outcome) (connected : x.found.control.phase = .connected)
      (asked : calls x.entries = []) : Ends x handled (.failed (.wrongPhase "start" .connected))
  | busy (playing : x.found.control.phase = .playing) (asked : calls x.entries = []) :
      Ends x none (.failed (.internal "start called on a playing connection"))
  | unplayed (handled : Option Outcome) (f : Fault) (ready : x.found.control.phase = .ready)
      (client : x.found.role = .activeProducer) (asked : calls x.entries = [.request .play])
      (denied : Denied f x.entries) : Ends x handled (.failed f)
  | stopped (result : Outcome) (idle : x.found.control.phase = .idle)
      (asked : calls x.entries = []) : Ends x (some result) .done
  | broken (result : Outcome) (playing : x.found.control.phase = .playing)
      (asked : calls x.entries = []) : Ends x (some result) (.ofOutcome result)

/-- The pass is the last one, and the call ends with an answer. A frame handler that has no step
left fails at once, and then the pass that follows is part of the same move. -/
inductive Finishes (x : Move) (handled : Option Outcome) : Answer → Prop where
  | ended (a : Answer) (ends : x.Ends handled a) (control : x.left.control = x.found.control)
      (unhandled : handlings x.entries = 0) : Finishes x handled a
  | unattended (admits : x.Admits handled) (once : handlings x.entries = 1)
      (none : x.found.script.steps = []) :
      Finishes x handled (if x.left.control.phase = .idle then .done else .failed noStepsLeft)

/-- The pass calls the frame handler, which takes its next step. -/
structure Hands (x : Move) (handled : Option Outcome) (step : Step) : Prop where
  admits : x.Admits handled
  once : handlings x.entries = 1
  next : x.found.script.steps.head? = some step

/-- What a pass of `start` can do, by what it knows of the frame handler, and the tasks that it
leads to. -/
inductive Passes (x : Move) (handled : Option Outcome) : List Task → Prop where
  | last (a : Answer) (finishes : x.Finishes handled a) : Passes x handled [.conclude a]
  | on (step : Step) (hands : x.Hands handled step) :
      Passes x handled (step.operations.map (.perform .frameHandler) ++ [.handled step.result])

end Move

/-- After its last pass `start` gives its answer, and does nothing else. -/
inductive Replies (a : Answer) : List Move → Prop where
  | paused : Replies a []
  | given (x : Move) (kind : x.task = .conclude a) (control : x.left.control = x.found.control)
      (asked : calls x.entries = []) (unhandled : handlings x.entries = 0) : Replies a [x]

/-- A call of `start` from a pass on, by what it knows on that pass of the frame handler. The course
of events may end before the call does. -/
inductive Starting : Option Outcome → List Move → Prop where
  | paused (handled : Option Outcome) : Starting handled []
  | last (x : Move) (handled : Option Outcome) (a : Answer) (xs : List Move)
      (kind : x.task.pass? = some handled) (finishes : x.Finishes handled a)
      (conclusion : Replies a xs) : Starting handled (x :: xs)
  | on (x : Move) (handled : Option Outcome) (step : Step) (xs : List Move)
      (kind : x.task.pass? = some handled) (hands : x.Hands handled step)
      (later : Starting (some step.result) xs) : Starting handled (x :: xs)

theorem Starting.kind {handled : Option Outcome} {x : Move} {xs : List Move}
    (h : Starting handled (x :: xs)) : x.task.pass? = some handled := by
  cases h with
  | last _ _ _ _ kind => exact kind
  | on _ _ _ _ kind => exact kind

/-! ## From tasks to passes -/

section

variable {s s' : Session} {handled : Option Outcome}

theorem runPass_of_call (h : outcome (pass handled) s = (.ok none, s')) :
    Task.runPass handled s = Task.callHandler s' := by
  unfold outcome at h
  unfold Task.runPass
  cases hp : pass handled s with
  | ok r s₁ =>
    simp only [hp, Prod.mk.injEq, Except.ok.injEq] at h
    obtain ⟨rfl, rfl⟩ := h
    rfl
  | error f s₁ => simp only [hp, Prod.mk.injEq, reduceCtorEq, false_and] at h

theorem runPass_of_result {result : Outcome}
    (h : outcome (pass handled) s = (.ok (some result), s')) :
    Task.runPass handled s = ([.conclude (.ofOutcome result)], s') := by
  unfold outcome at h
  unfold Task.runPass
  cases hp : pass handled s with
  | ok r s₁ =>
    simp only [hp, Prod.mk.injEq, Except.ok.injEq] at h
    obtain ⟨rfl, rfl⟩ := h
    rfl
  | error f s₁ => simp only [hp, Prod.mk.injEq, reduceCtorEq, false_and] at h

theorem runPass_of_fault {f : Fault} (h : outcome (pass handled) s = (.error f, s')) :
    Task.runPass handled s = ([.conclude (.failed f)], s') := by
  unfold outcome at h
  unfold Task.runPass
  cases hp : pass handled s with
  | ok r s₁ => simp only [hp, Prod.mk.injEq, reduceCtorEq, false_and] at h
  | error f' s₁ =>
    simp only [hp, Prod.mk.injEq, Except.error.injEq] at h
    obtain ⟨rfl, rfl⟩ := h
    rfl

/-- Calling the frame handler is one call, and touches neither the connection nor its peer. -/
theorem callHandler_cases (s : Session)
    (phase : s.control.phase = .idle ∨ s.control.phase = .playing) :
    ∃ es, (Task.callHandler s).2.history = es ++ s.history ∧
      (Task.callHandler s).2.control = s.control ∧ Silent es ∧ handlings es = 1 ∧
      ((∃ step, s.script.steps.head? = some step ∧ (Task.callHandler s).1 =
          step.operations.map (.perform .frameHandler) ++ [.handled step.result]) ∨
        (s.script.steps = [] ∧ (Task.callHandler s).1 =
          [.conclude (if s.control.phase = .idle then .done else .failed noStepsLeft)])) := by
  cases steps : s.script.steps with
  | cons step rest =>
    refine ⟨[.handling], ?_, ?_, .cons rfl .nil, rfl, Or.inl ⟨step, rfl, ?_⟩⟩ <;>
      simp only [Task.callHandler, steps] <;> rfl
  | nil =>
    rw [Task.callHandler_of_no_steps steps phase]
    rcases phase with idle | playing
    · rw [Task.runPass_of_idle (s := s.log .unattended) idle, if_pos idle]
      exact ⟨[.note (.handlerExited noStepsLeft), .unattended], rfl, rfl,
        .cons rfl (.cons rfl .nil), rfl, Or.inr ⟨rfl, rfl⟩⟩
    · rw [Task.runPass_of_playing (s := s.log .unattended) playing,
        if_neg (by rw [playing]; decide)]
      exact ⟨[.unattended], rfl, rfl, .cons rfl .nil, rfl, Or.inr ⟨rfl, rfl⟩⟩

end

theorem handlings_of_notes {es : List Entry} (h : ∀ e ∈ es, e.isNote = true) :
    handlings es = 0 := by
  refine List.countP_eq_zero.mpr fun e he => ?_
  have note := h e he
  cases e <;> simp [Entry.isNote, Entry.isHandling] at note ⊢

theorem Task.script_underway (t : Task) (s : Session) : (t.underway s).script = s.script := by
  cases t with
  | fill m c next left tracks => rw [underway, acquaintAll_eq]
  | _ => rfl

namespace Move

variable {x : Move} {handled : Option Outcome}

/-- A move is a pass, and `s` is the session in which that begins. -/
structure Begun (x : Move) (handled : Option Outcome) (s : Session) : Prop where
  role : s.role = x.found.role
  control : s.control = x.found.control
  script : s.script = x.found.script
  history : s.history = x.task.opening ++ x.found.history
  step : x.task.step x.found = Task.runPass handled s

theorem begun (kind : x.task.pass? = some handled) (suits : x.task.Suits x.found.role)
    (producer : x.found.role ≠ .passiveConsumer) : x.Begun handled (x.task.underway x.found) := by
  have aside := Task.aside_underway x.task x.found
  refine ⟨aside.role, aside.control, Task.script_underway _ _, Task.history_underway _ _, ?_⟩
  rcases Task.step_pass kind x.found suits with ⟨-, step⟩ | ⟨consumer, -⟩
  · exact step
  · exact absurd consumer producer

namespace Begun

variable {s : Session}

theorem left (h : x.Begun handled s) : x.left = (Task.runPass handled s).2 := by
  rw [Move.left, h.step]

/-- A pass ends the call if it finds out how. -/
theorem ends {a : Answer} {p : Peer} {es : List Entry} (h : x.Begun handled s)
    (run : Task.runPass handled s = ([.conclude a], s.heard p es)) (unhandled : handlings es = 0)
    (ends : x.entries = es ++ x.task.opening → x.Ends handled a) :
    x.Passes handled (x.task.step x.found).1 := by
  have entries : x.entries = es ++ x.task.opening := by
    apply entries_of_history
    rw [h.left, run, history_heard, h.history, List.append_assoc]
  rw [h.step, run]
  refine .last a (.ended a (ends entries) ?_ ?_)
  · rw [h.left, run, control_heard, h.control]
  · rw [entries, handlings_append, unhandled, handlings_opening]

/-- Otherwise it calls the frame handler, in a session that is idle or plays. -/
theorem admits {s' : Session} {es : List Entry} (h : x.Begun handled s)
    (run : Task.runPass handled s = Task.callHandler s') (script : s'.script = s.script)
    (history : s'.history = es ++ s.history)
    (phase : s'.control.phase = .idle ∨ s'.control.phase = .playing) (unhandled : handlings es = 0)
    (admits : ∀ called, Silent called → x.entries = called ++ (es ++ x.task.opening) →
      x.left.control = s'.control → x.Admits handled) :
    x.Passes handled (x.task.step x.found).1 := by
  obtain ⟨called, hc, control, silent, once, leads⟩ := callHandler_cases s' phase
  have entries : x.entries = called ++ (es ++ x.task.opening) := by
    apply entries_of_history
    rw [h.left, run, hc, history, h.history]
    simp only [List.append_assoc]
  have kept : x.left.control = s'.control := by rw [h.left, run, control]
  have once : handlings x.entries = 1 := by
    rw [entries, handlings_append, handlings_append, once, unhandled, handlings_opening]
  rw [h.step, run]
  rw [script, h.script] at leads
  rcases leads with ⟨step, next, leads⟩ | ⟨none, leads⟩
  · rw [leads]
    exact .on step ⟨admits called silent entries kept, once, next⟩
  · rw [leads, ← kept]
    exact .last _ (.unattended (admits called silent entries kept) once none)

end Begun

/-- Every pass of `start` is one of those that are listed. -/
theorem passes (kind : x.task.pass? = some handled) (suits : x.task.Suits x.found.role)
    (producer : x.found.role ≠ .passiveConsumer) : x.Passes handled (x.task.step x.found).1 := by
  have h := begun kind suits producer
  have quiet := (Silent.opening x.task).calls
  generalize x.task.underway x.found = s at h
  have passing := outcome_pass handled s
  generalize ho : outcome (pass handled) s = o at passing
  cases passing with
  | first idle first =>
    subst first
    refine h.admits (runPass_of_call ho) rfl (List.nil_append _).symm (Or.inl idle) rfl ?_
    intro called silent entries control
    refine .idle (h.control ▸ idle) ?_ (control.trans h.control)
    rw [entries, List.nil_append, calls_append, silent.calls, quiet, List.nil_append]
  | stopped es idle result last aside notes =>
    subst last
    refine h.ends (runPass_of_result ho) (handlings_of_notes notes) fun entries => ?_
    refine .stopped result (h.control ▸ idle) ?_
    rw [entries, calls_append, quiet, (Silent.of_isAside aside).calls, List.nil_append]
  | early connected =>
    have run : Task.runPass _ s = (_, s.heard s.peer []) := runPass_of_fault ho
    refine h.ends run rfl fun entries => ?_
    exact .early handled (h.control ▸ connected) (by rw [entries, List.nil_append, quiet])
  | unplayed f p ready client =>
    refine h.ends (runPass_of_fault ho) rfl fun entries => ?_
    refine .unplayed handled f (h.control ▸ ready) (h.role ▸ client) ?_ ?_
    · rw [entries, calls_append, quiet]
      rfl
    · rw [entries]
      exact .head _ rfl (Silent.opening x.task).granted
  | played p ready client =>
    refine h.admits (runPass_of_call ho) rfl rfl (Or.inr rfl) rfl ?_
    intro called silent entries control
    refine .played handled (h.control ▸ ready) (h.role ▸ client) ?_ ?_ ?_
    · rw [entries, calls_append, calls_append, silent.calls, quiet]
      rfl
    · rw [entries]
      exact silent.granted.append (.append (.cons rfl (.cons rfl .nil))
        (Silent.opening x.task).granted)
    · rw [control, control_heard, control_inPhase, h.control]
  | served ready server =>
    refine h.admits (runPass_of_call ho) rfl rfl (Or.inr rfl) rfl ?_
    intro called silent entries control
    refine .served handled (h.control ▸ ready) ?_ ?_ ?_
    · rw [h.role] at server
      cases role : x.found.role with
      | activeProducer => exact absurd role server
      | passiveProducer => rfl
      | passiveConsumer => exact absurd role producer
    · rw [entries, calls_append, calls_append, silent.calls, quiet]
      rfl
    · rw [control, control_heard, control_inPhase, h.control]
  | busy playing first =>
    subst first
    have run : Task.runPass _ s = (_, s.heard s.peer []) := runPass_of_fault ho
    refine h.ends run rfl fun entries => ?_
    exact .busy (h.control ▸ playing) (by rw [entries, List.nil_append, quiet])
  | broken playing result last =>
    subst last
    have run : Task.runPass _ s = (_, s.heard s.peer []) := runPass_of_result ho
    refine h.ends run rfl fun entries => ?_
    exact .broken result (h.control ▸ playing) (by rw [entries, List.nil_append, quiet])

end Move

/-! ## All passes -/

theorem Working.replies {t : Task} {a : Answer} {xs : List Move} (h : Working t xs)
    (kind : t = .conclude a) : Replies a xs := by
  cases h with
  | paused => exact .paused
  | done x leads =>
    have left : x.left = x.found.conclude a false := by rw [Move.left, kind]; rfl
    obtain ⟨view, history⟩ : ∃ view, (x.found.conclude a false).history =
        [.ended a view] ++ x.found.history := by
      simp only [Session.conclude, history_log]
      refine ⟨_, congrArg (List.cons _) ?_⟩
      rw [Task.acquaintAll_eq]
      rfl
    have entries : x.entries = [.ended a view] := Move.entries_of_history (left ▸ history)
    refine .given x kind ?_ ?_ ?_
    · rw [left]
      exact (Apart.conclude a false x.found).control
    · rw [entries]
      rfl
    · rw [entries]
      rfl
  | on x above t xs leads =>
    rw [kind] at leads
    exact absurd leads.symm (List.append_ne_nil_of_right_ne_nil _ (List.cons_ne_nil _ _))

/-- The moves in which a pass is worked off are that pass, and those that follow from how it
ends. -/
theorem Working.starting {role : Role} (producer : role ≠ .passiveConsumer) {t : Task}
    {handled : Option Outcome} {xs : List Move} (h : Working t xs) (kind : t.pass? = some handled)
    (suits : ∀ x ∈ xs, x.task.Suits x.found.role ∧ x.found.role = role) : Starting handled xs := by
  induction h generalizing handled with
  | paused => exact .paused handled
  | done x leads =>
    obtain ⟨hs, rfl⟩ := suits x (List.mem_singleton_self x)
    have passes := Move.passes kind hs producer
    rw [leads] at passes
    generalize hn : ([] : List Task) = ts at passes
    cases passes with
    | last => cases hn
    | on => exact absurd hn.symm (List.append_ne_nil_of_right_ne_nil _ (List.cons_ne_nil _ _))
  | on x above t xs leads later ih =>
    obtain ⟨⟨hs, rfl⟩, others⟩ := List.forall_mem_cons.mp suits
    have passes := Move.passes kind hs producer
    rw [leads] at passes
    generalize hl : above ++ [t] = ts at passes
    cases passes with
    | last a finishes =>
      obtain ⟨-, last⟩ := List.append_inj' (hl.trans (List.nil_append _).symm) rfl
      exact .last x handled a xs kind finishes (later.replies (List.cons.inj last).1)
    | on step hands =>
      obtain ⟨-, last⟩ := List.append_inj' hl rfl
      obtain rfl := (List.cons.inj last).1
      exact .on x handled step xs kind hands (ih rfl others)

/-- Whoever calls `start` on a connection whose role has it, from outside or in a handler: the moves
of that call are passes, each one as it is listed for what it finds and knows. -/
theorem Course.start_passes (r : Course) (producer : r.role ≠ .passiveConsumer) (xs : List Move)
    (invokes : r.Invokes .start xs) : Starting none xs := by
  obtain ⟨caller, working, moves⟩ := invokes.working
  refine working.starting producer rfl fun x hx => ?_
  obtain ⟨past, later, -, reached, suits⟩ := Course.reached_found (moves hx)
  exact ⟨suits, reached.role_eq⟩

/-- A client that plays again after its handler has got one more track, and is stopped by somebody
else while the handler is busy for the second time. -/
def Course.interruptedClient : Course :=
  { role := .activeProducer, descriptor := default, settings := default, monitored := false
    peer := {}
    script := ⟨[⟨[.getTrack audioSection audioRequest], .error (.transport "renegotiated")⟩,
      ⟨[.showControl], .error (.transport "connection reset")⟩], []⟩
    callers := [[.connect, .getTrack videoSection videoRequest, .start], [.stop]]
    schedule := [0, 0, 0, 0, 0, 0, 0, 0, 0, 0, 1, 1, 0, 0, 0, 0] }

/-- The moves of its call of `start`, which comes after five others. -/
def interruptedStart : List Move :=
  (Course.interruptedClient.beginning.play [0, 0, 0, 0, 0]).own 0 0
    [0, 0, 0, 0, 0, 1, 1, 0, 0, 0, 0]

/-- It plays twice, and is asked to go on a third time when it has been stopped. -/
theorem Course.interruptedClient_starting :
    interruptedClient.role ≠ .passiveConsumer ∧
      interruptedClient.Invokes .start interruptedStart ∧ Starting none interruptedStart ∧
      interruptedStart.map (fun x => x.found.control.phase) = [.ready, .ready, .idle, .idle] ∧
      interruptedStart.map (fun x => calls x.entries) =
        [[.request .play], [.request .play], [], []] := by
  have invokes : interruptedClient.Invokes .start interruptedStart :=
    ⟨[0, 0, 0, 0, 0], _, 0, .outside, [], rfl, rfl, rfl⟩
  exact ⟨by decide, invokes, interruptedClient.start_passes (by decide) _ invokes,
    by decide +kernel, by decide +kernel⟩

end RtspControl
