import RtspControl.Proofs.Course

/-!
# Runs in full

The run of an agenda gives its last state only. `Agenda.trace` gives all that was done on the way:
every task in order, with the state that it found. It is the run of the same agenda on states that
keep a record, so that the laws of runs are its laws too.

`Task.trace` are the moves of one caller's tasks, from the first to the last; nobody else comes in
between. `Reached.trace` says that what holds of all sessions that can be reached holds all the way,
and `Scene.works_off` that on a scene these moves are what comes of one caller having turn after
turn.
-/

namespace RtspControl

/-! ## Keeping a record -/

namespace Agenda

variable {τ σ : Type} (A : Agenda τ σ)

/-- The same agenda on states with a record of what was done, the newest first. -/
def recorded : Agenda τ (List (τ × σ) × σ) where
  step t r := ((A.step t r.2).1, (t, r.2) :: r.1, (A.step t r.2).2)
  cost := A.cost
  load r := A.load r.2
  spends t r := A.spends t r.2

/-- The tasks of a run in order, each with the state that it finds. -/
def trace (ts : List τ) (s : σ) : List (τ × σ) := (A.recorded.run ts ([], s)).1.reverse

/-- A record changes nothing, and what is on it already stays at its end. -/
theorem run_recorded (ts : List τ) (past : List (τ × σ)) (s : σ) :
    A.recorded.run ts (past, s) = ((A.trace ts s).reverse ++ past, A.run ts s) := by
  have shift : ∃ new, ∀ past, A.recorded.run ts (past, s) = (new ++ past, A.run ts s) := by
    clear past
    induction ts, s using A.run_induction with
    | nil s =>
      refine ⟨[], ?_⟩
      intro past
      rw [run_nil, run_nil]
      rfl
    | cons t ts s ih =>
      obtain ⟨new, h⟩ := ih
      refine ⟨new ++ [(t, s)], ?_⟩
      intro past
      rw [run_cons, run_cons, List.append_assoc]
      exact h ((t, s) :: past)
  obtain ⟨new, h⟩ := shift
  rw [trace, h, h, List.append_nil, List.reverse_reverse]

@[simp] theorem trace_nil (s : σ) : A.trace [] s = [] := by
  rw [trace, run_nil]
  rfl

theorem trace_cons (t : τ) (ts : List τ) (s : σ) :
    A.trace (t :: ts) s = (t, s) :: A.trace ((A.step t s).1 ++ ts) (A.step t s).2 := by
  have h : A.recorded.run (t :: ts) ([], s) =
      A.recorded.run ((A.step t s).1 ++ ts) ([(t, s)], (A.step t s).2) :=
    A.recorded.run_cons t ts ([], s)
  rw [trace, h, run_recorded, List.reverse_append, List.reverse_reverse]
  rfl

end Agenda

/-! ## The moves of a run -/

namespace Task

/-- The moves with which one caller works off tasks. -/
def trace (ts : List Task) (s : Session) : List Move :=
  (agenda.trace ts s).map fun p => ⟨p.1, p.2⟩

@[simp] theorem trace_nil (s : Session) : trace [] s = [] := by
  rw [trace, agenda.trace_nil]
  rfl

theorem trace_cons (t : Task) (ts : List Task) (s : Session) :
    trace (t :: ts) s = ⟨t, s⟩ :: trace ((t.step s).1 ++ ts) (t.step s).2 := by
  rw [trace, agenda.trace_cons]
  rfl

end Task

/-- All the moves of a run can be made in the session that they find. -/
theorem Reached.trace {role : Role} {past : List Move} {s : Session} {ts : List Task}
    (h : Reached role past s) (suits : ∀ t ∈ ts, t.Suits role) :
    Reached role (past ++ Task.trace ts s) (Task.agenda.run ts s) := by
  induction ts, s using Task.agenda.run_induction generalizing past with
  | nil s =>
    rw [Task.agenda.run_nil, Task.trace_nil, List.append_nil]
    exact h
  | cons t ts s ih =>
    obtain ⟨ht, hts⟩ := List.forall_mem_cons.mp suits
    have next : ∀ t' ∈ (t.step s).1 ++ ts, t'.Suits role := by
      intro t' hm
      rcases List.mem_append.mp hm with hm | hm
      · exact h.role_eq ▸ Task.suits_step (h.suits_task ht) t' hm
      · exact hts t' hm
    have := ih (h.moved t ht) next
    rw [Task.agenda.run_cons, Task.trace_cons]
    rwa [List.append_assoc] at this

/-! ## Runs as courses -/

namespace Scene

/-- A caller who has one turn after the other works off its tasks as an agenda, in no more turns
than there is work. -/
theorem works_off {scene : Scene} {k : Nat} {ts rest : List Task}
    (h : scene.waiting[k]? = some (ts ++ rest)) :
    ∃ n ≤ Task.agenda.total ts scene.session,
      scene.moves (List.replicate n k) = Task.trace ts scene.session ∧
      scene.play (List.replicate n k) =
        ⟨scene.waiting.set k rest, Task.agenda.run ts scene.session⟩ := by
  obtain ⟨waiting, s⟩ := scene
  induction ts, s using Task.agenda.run_induction generalizing waiting with
  | nil s =>
    refine ⟨0, Nat.zero_le _, ?_, ?_⟩
    · rw [Task.trace_nil]
      rfl
    · obtain ⟨bound, same⟩ := List.getElem?_eq_some_iff.mp h
      subst same
      rw [Agenda.run_nil]
      exact congrArg (Scene.mk · s) (List.set_getElem_self bound).symm
  | cons t ts s ih =>
    rw [List.cons_append] at h
    have turn := turn_of_waiting h
    have next := waiting_turn_self h
    rw [turn, ← List.append_assoc] at next
    obtain ⟨n, less, moves, play⟩ := ih _ next
    refine ⟨n + 1, Nat.lt_of_le_of_lt less (Task.agenda.total_step_lt t ts s), ?_, ?_⟩
    · rw [List.replicate_succ, Scene.moves, next?_of_waiting h, turn, Task.trace_cons,
        ← List.append_assoc]
      exact congrArg (List.cons _) moves
    · rw [Agenda.run_cons]
      show ((⟨waiting, s⟩ : Scene).turn k).play (List.replicate n k) = _
      rw [turn, ← List.append_assoc]
      exact play.trans (congrArg (Scene.mk · _) (List.set_set ..))

theorem play_alone (ts : List Task) (s : Session) :
    ∃ n ≤ Task.agenda.total ts s,
      (⟨[ts], s⟩ : Scene).play (List.replicate n 0) = ⟨[[]], Task.agenda.run ts s⟩ := by
  have waiting : (⟨[ts], s⟩ : Scene).waiting[0]? = some (ts ++ []) := by
    rw [List.append_nil]
    rfl
  obtain ⟨n, less, -, play⟩ := works_off waiting
  exact ⟨n, less, play⟩

end Scene

/-- The run of a single caller's operations is a course, whatever they are. -/
theorem Course.exists_perform (role : Role) (descriptor : Descriptor) (settings : Settings)
    (monitored : Bool) (ops : List Operation) :
    ∃ r : Course, r.callers = [ops] ∧
      r.session = Session.perform ops (Session.opened role descriptor settings monitored) := by
  obtain ⟨n, -, hn⟩ := Scene.play_alone (ops.map (.perform .outside))
    (Session.opened role descriptor settings monitored)
  refine ⟨⟨role, descriptor, settings, monitored, {}, {}, [ops], List.replicate n 0⟩, rfl, ?_⟩
  exact congrArg Scene.session hn

end RtspControl
