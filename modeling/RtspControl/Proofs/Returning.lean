import RtspControl.Proofs.Nesting
import RtspControl.Proofs.Traces

/-!
# Operations return

Operations, steps of the frame handler, reactions to events and close hooks run inside each other to
any depth, and may arrange more of each while they run. For all that every one of them comes to an
end. `Session.operations_return` says so of all runs: a run makes no more moves than the operations
and the session have work for, and its history tells, for each operation in turn, of a part that has
returned with everything inside.

A piece of an operation is calm, and leads to what ends the operation, after a delivery of events if
it may have raised any (`Task.Piece`). The exception are the passes of `start`, which call the frame
handler: `Task.Calling` lists how. From both `Task.finishes` follows by induction on the work that
is left.
-/

namespace RtspControl

open Session

/-! ## Pieces of work without handlers -/

namespace Calmly

variable {s s' : Session}

theorem of_history (h : s'.history = s.history) : Calmly s s' :=
  ⟨[], h, List.forall_mem_nil _⟩

theorem logged {e : Entry} (h : e.isInstant = true) (s : Session) : Calmly s (s.log e) :=
  of_instant rfl (.cons h .nil : Only _ [e])

theorem connect (s : Session) : Calmly s (outcome connect s).2 := by
  have h := outcome_connect s
  generalize outcome Session.connect s = o at h
  cases h with
  | refused => exact refl s
  | undialled f p => exact of_instant rfl (.cons rfl .nil : Only _ [_])
  | undescribed f p =>
    exact of_instant rfl (.cons rfl (.cons rfl (.cons rfl .nil)) : Only _ [_, _, _])
  | connected p =>
    exact of_instant rfl (.cons rfl (.cons rfl (.cons rfl (.cons rfl .nil))) : Only _ [_, _, _, _])

theorem stop (s : Session) : Calmly s (outcome stop s).2 := by
  have h := outcome_stop s
  have closings := closeAll (s.control.receivers ++ s.control.senders) s.emptied
  generalize outcome Session.stop s = o at h
  have emptied : Calmly s s.emptied := of_history rfl
  cases h with
  | idle _ _ closing =>
    rw [closing] at closings
    exact emptied.trans closings
  | tornDown fault p _ _ closing =>
    rw [closing] at closings
    exact (emptied.trans closings).trans
      (of_instant rfl (.cons rfl (.cons rfl (.cons rfl .nil)) : Only _ [_, _, _]))

theorem instant_of_renewal {es : List Entry} (h : Only Entry.isRenewal es) :
    Only Entry.isInstant es :=
  h.mono fun _ => Entry.isInstant_of_isRenewal

theorem reconnect (s : Session) : Calmly s (outcome reconnect s).2 := by
  obtain ⟨-, h⟩ | ⟨r, p, es, -, h, rebuilt⟩ := Task.outcome_reconnect s
  · rw [h]
    exact refl s
  · rw [h]
    exact of_instant rfl (instant_of_renewal rebuilt.renewal)

theorem negotiate (m : MediaSection) (c : Codec) (s : Session) :
    Calmly s (outcome (negotiate m c) s).2 := by
  have h := outcome_negotiate m s c
  generalize outcome (Session.negotiate m c) s = o at h
  cases h with
  | served => exact logged rfl s
  | refused => exact refl s
  | unbuilt f p _ _ _ _ rebuilt => exact of_instant rfl (instant_of_renewal rebuilt.renewal)
  | unassigned f p _ _ _ prepared =>
    refine of_instant (by rw [history_heard, prepared.history]) ?_
    exact .cons rfl (instant_of_renewal prepared.renewal)
  | assigned channel p _ _ _ prepared =>
    refine of_instant
      (by rw [history_heard, history_admitting, history_inPhase, prepared.history]) ?_
    exact .cons rfl (.cons rfl
      ((Only.moved rfl).append (.cons rfl (instant_of_renewal prepared.renewal))))
  | allotted => exact of_instant rfl (.cons rfl .nil : Only _ [_])

theorem addSenders (t : Track) (n : Nat) (s : Session) :
    Calmly s (outcome (addSenders t n) s).2 := by
  rw [outcome_addSenders]
  exact of_instant rfl (Only.replicate n rfl)

theorem enter (p : Phase) (s : Session) : Calmly s (after (enter p) s) := by
  rw [after_eq, outcome_enter]
  exact of_instant rfl (.moved rfl)

end Calmly

/-! ## Parts in which handlers run -/

/-- A part that has returned, and is no call of the frame handler. -/
def Node.Idle (n : Node) : Prop := n.Returned ∧ n.isCall = false

theorem Node.Calm.idle {n : Node} (h : n.Calm) : n.Idle := ⟨h.returned, h.isCall⟩

/-- Everything but a `start` returns if nothing inside calls the frame handler. -/
theorem Node.Returned.of_idle {first last : Entry} {inner : List Node} (ends : first.Ends last)
    (other : first ≠ .began .start) (idle : ∀ n ∈ inner, n.Idle) :
    (Node.span first inner last).Returned :=
  .span ends (fun n hn => (idle n hn).1) (fun start => absurd start other)
    fun _ n hn => (idle n hn).2

/-- The parts in which a `start` tells of its passes, or of the last ones of them. -/
structure Passed (ns : List Node) : Prop where
  returned : ∀ n ∈ ns, n.Returned
  attends : Attends ns

namespace Passed

variable {ns own : List Node}

/-- Before its calls a pass may do anything else. -/
theorem append (idle : ∀ n ∈ own, n.Idle) (h : Passed ns) : Passed (own ++ ns) := by
  constructor
  · exact List.forall_mem_append.mpr ⟨fun n hn => (idle n hn).1, h.returned⟩
  · exact h.attends.append fun n hn => (idle n hn).2

theorem of_idle (idle : ∀ n ∈ ns, n.Idle) : Passed ns :=
  ⟨fun n hn => (idle n hn).1, .of_uncalled fun n hn => (idle n hn).2⟩

/-- A call that takes a step lasts as long as the operations of the step do. -/
theorem call (result : Outcome) (idle : ∀ n ∈ own, n.Idle) (h : Passed ns) :
    Passed (.span .handling own (.handled result) :: ns) := by
  constructor
  · refine List.forall_mem_cons.mpr ⟨.of_idle (.step result) ?_ idle, h.returned⟩
    intro start
    cases start
  · refine h.attends.cons ?_
    intro same
    cases same

/-- A call that finds no step is the last one. -/
theorem unattended {complaint : List Entry}
    (later : complaint = [] ∨ ∃ f, complaint = [.note (.handlerExited f)]) :
    Passed (.entry .unattended :: complaint.reverse.map .entry) := by
  constructor
  · refine List.forall_mem_cons.mpr ⟨.entry rfl rfl, ?_⟩
    rcases later with rfl | ⟨f, rfl⟩
    · exact List.forall_mem_nil _
    · exact List.forall_mem_singleton.mpr (.entry rfl rfl)
  · apply Attends.unattended
    rcases later with rfl | ⟨f, rfl⟩
    · exact .inl rfl
    · exact .inr ⟨f, rfl⟩

end Passed

namespace Task

/-- Does a task do nothing but bring an operation to its end? -/
def isLast : Task → Bool
  | .conclude _ => true
  | .fill _ _ _ _ _ => true
  | _ => false

/-- One piece of an operation: no handler is called, and what follows brings the operation to its
end, at once or when the events that wait are delivered. -/
structure Piece (s : Session) (r : List Task × Session) : Prop where
  calm : Calmly s r.2
  next : ∃ t : Task, t.isLast = true ∧ (r.1 = [t] ∨ r.1 = [.deliver, t])

namespace Piece

variable {s s' : Session}

theorem answer (a : Answer) (calm : Calmly s s') : Piece s (answer a s') :=
  ⟨calm, _, rfl, .inl rfl⟩

theorem whole {x : Action Unit} (calm : Calmly s (outcome x s).2) : Piece s (whole x s) := by
  rw [whole_eq]
  exact answer _ calm

theorem thenDeliver {α : Type} {x : Action α} {next : Except Fault α → Task}
    (calm : Calmly s (outcome x s).2) (last : ∀ r, (next r).isLast = true) :
    Piece s (thenDeliver x next s) := by
  rw [thenDeliver_eq]
  exact ⟨calm, _, last _, .inr rfl⟩

/-- All operations but `start` begin with such a piece. -/
theorem begin (caller : Caller) {op : Operation} (h : op ≠ .start) (s : Session) :
    Piece s (begin caller op s) := by
  have throughControl {x : Action Unit} (calm : Calmly s (after x s)) :
      Piece s (throughControl caller x s) := by
    unfold Task.throughControl
    split
    · exact answer _ calm
    · exact answer _ (.refl s)
  cases op with
  | start => exact absurd rfl h
  | connect => exact whole (.connect s)
  | stop => exact whole (.stop s)
  | reconnect =>
    have last (r : Except Fault Unit) : isLast (.conclude (.ofOutcome r)) = true := rfl
    simp only [Task.begin]
    split
    · exact thenDeliver (.reconnect s) last
    · exact whole (.reconnect s)
  | getTrack m c =>
    have last (r : Except Fault Track) : isLast (.conclude (trackAnswer r)) = true := rfl
    exact thenDeliver (.negotiate m c s) last
  | fill m c count => exact ⟨.refl s, _, rfl, .inl rfl⟩
  | newTrack m c channel => exact answer _ (.of_instant rfl (.cons rfl .nil : Only _ [_]))
  | addSender n times =>
    simp only [Task.begin]
    split
    · exact whole (.addSenders _ times s)
    · exact answer _ (.refl s)
  | closeTrack n =>
    simp only [Task.begin]
    split
    · exact whole (.closeTrack _ s)
    · exact answer _ (.refl s)
  | showRole | showTimeout | showDescriptor => exact answer _ (.refl s)
  | setPhase p => exact throughControl (.enter p s)
  | showControl => exact throughControl (.refl s)
  | _ =>
    simp only [Task.begin]
    split
    · next known => exact answer _ (.of_history (closes_lockFree known).history)
    · exact answer _ (.refl s)

theorem fill (m : MediaSection) (c : Codec) (next left : Nat) (tracks : List Track) (s : Session) :
    Piece s (step (.fill m c next left tracks) s) := by
  have known : Calmly s (s.acquaintAll tracks) := .of_history (by rw [acquaintAll_eq])
  cases left with
  | zero => exact answer _ known
  | succ left =>
    have piece : Piece (s.acquaintAll tracks) (step (.fill m c next (left + 1) tracks) s) :=
      thenDeliver (.negotiate m (numbered c next) _) fun r => by cases r <;> rfl
    exact ⟨known.trans piece.calm, piece.next⟩

end Piece

/-! ## Passes -/

/-- How a pass of `start` ends: it calls the frame handler, which takes the first step that is left
if there is one, or it calls nobody. -/
inductive Calling (s : Session) : List Task × Session → Prop where
  | uncalled (a : Answer) {s' : Session} (calm : Calmly s s') : Calling s ([.conclude a], s')
  | unattended (a : Answer) (complaint : List Entry) {s₁ s' : Session} (steps : s.script.steps = [])
      (calm : Calmly s s₁) (later : complaint = [] ∨ ∃ f, complaint = [.note (.handlerExited f)])
      (history : s'.history = complaint ++ .unattended :: s₁.history) :
      Calling s ([.conclude a], s')
  | step (step : Step) {s₁ s' : Session} (steps : s.script.steps = step :: s'.script.steps)
      (calm : Calmly s s₁) (history : s'.history = .handling :: s₁.history) :
      Calling s (step.operations.map (.perform .frameHandler) ++ [.handled step.result], s')

theorem calmly_passing {handled : Option Outcome} {s : Session}
    {o : Except Fault (Option Outcome) × Session} (h : Passing handled s o) :
    o.2.script = s.script ∧ Calmly s o.2 := by
  cases h with
  | first | early | busy | broken => exact ⟨rfl, .refl s⟩
  | stopped es _ _ _ _ notes =>
    exact ⟨rfl, .of_instant rfl fun e he => Entry.isInstant_of_isNote (notes e he)⟩
  | unplayed | served => exact ⟨rfl, .of_instant rfl (.cons rfl .nil : Only _ [_])⟩
  | played => exact ⟨rfl, .of_instant rfl (.cons rfl (.cons rfl .nil) : Only _ [_, _])⟩

theorem calling_runPass (handled : Option Outcome) (s : Session) :
    Calling s (runPass handled s) := by
  obtain ⟨script, calm⟩ := calmly_passing (outcome_pass handled s)
  have following := following_runPass handled s
  generalize runPass handled s = r at following ⊢
  cases following with
  | ended a => exact .uncalled a calm
  | unattended a complaint trackless steps later =>
    exact .unattended a complaint (script ▸ steps) calm later rfl
  | step step rest steps => exact .step step (script ▸ steps) calm rfl

/-- All that is done by `start` is done in passes, for any role and in any phase. -/
theorem calling_step {t : Task} (h : t.pass?.isSome = true) (s : Session) :
    Calling (t.underway s) (t.step s) := by
  cases t with
  | perform caller op =>
    cases op with
    | start =>
      simp only [step, begin]
      split
      · exact .uncalled _ (.refl _)
      · exact calling_runPass none _
    | _ => cases h
  | handled result => exact calling_runPass (some result) _
  | _ => cases h

/-! ## Whole tasks -/

/-- The part of a history that tells of a task, from its beginning to its end. -/
inductive Spans : Task → Node → Prop where
  | operation {caller : Caller} {op : Operation} {inner : List Node} {a : Answer} {v : View}
      (returned : (Node.span (.began op) inner (.ended a v)).Returned) :
      Spans (.perform caller op) (.span (.began op) inner (.ended a v))
  | delivery {event : String} {control : Control} {inner : List Node}
      (returned : (Node.span (.reacting event control) inner .reacted).Returned) :
      Spans (.react event) (.span (.reacting event control) inner .reacted)

/-- An operation ends in `s'`, when parts of it have been told since `s`. -/
def Concludes (s s' : Session) (inner : List Node) : Prop :=
  ∃ a v, s'.history = .ended a v :: (entriesAll inner ++ s.history)

/-- What becomes of a session when a task has been worked off with all that it leads to. -/
inductive Finishes (s s' : Session) : Task → Prop where
  | whole {t : Task} {n : Node} (spans : t.Spans n) (tells : Tells s s' [n]) : Finishes s s' t
  | last {t : Task} {inner : List Node} (last : t.isLast = true) (idle : ∀ n ∈ inner, n.Idle)
      (concludes : Concludes s s' inner) : Finishes s s' t
  | handled {result : Outcome} {inner : List Node} (passed : Passed inner)
      (concludes : Concludes (s.log (.handled result)) s' inner) : Finishes s s' (.handled result)
  | delivered {inner : List Node} (idle : ∀ n ∈ inner, n.Idle) (tells : Tells s s' inner) :
      Finishes s s' .deliver
  | reacted (history : s'.history = .reacted :: s.history) : Finishes s s' .reacted

/-- All tasks with less to do than `bound` finish. -/
def FinishesBelow (bound : Nat) : Prop :=
  ∀ t s, agenda.total [t] s < bound → Finishes s (agenda.run [t] s) t

/-- Is a task told of as a whole? -/
def isWhole : Task → Bool
  | .perform _ _ => true
  | .react _ => true
  | _ => false

theorem isWhole_of_mem_map {caller : Caller} {ops : List Operation} :
    ∀ t ∈ ops.map (Task.perform caller), t.isWhole = true :=
  List.forall_mem_map.mpr fun _ _ => rfl

theorem run_conclude (a : Answer) (s : Session) :
    agenda.run [.conclude a] s = s.conclude a false :=
  Agenda.run_singleton_of_step rfl

theorem run_reacted (s : Session) : agenda.run [.reacted] s = s.log .reacted :=
  Agenda.run_singleton_of_step rfl

section

variable {bound : Nat} {s s₁ s' : Session} {own inner : List Node} {r : List Task × Session}

theorem Concludes.of_conclude (a : Answer) (s : Session) :
    Concludes s (s.conclude a false) [] :=
  ⟨a, _, (closes_conclude a false s).history⟩

theorem Concludes.after (tells : Tells s s₁ own) (h : Concludes s₁ s' inner) :
    Concludes s s' (own ++ inner) := by
  obtain ⟨a, v, history⟩ := h
  refine ⟨a, v, ?_⟩
  rw [history, tells, entriesAll_append, List.append_assoc]

theorem Concludes.of_tells (a : Answer) (tells : Tells s s₁ own) :
    Concludes s (agenda.run [.conclude a] s₁) own := by
  have concludes := (Concludes.of_conclude a s₁).after tells
  rwa [run_conclude, ← List.append_nil own]

theorem Concludes.tells {first : Entry} (h : Concludes (s.log first) s' inner) :
    ∃ a v, Tells s s' [.span first inner (.ended a v)] := by
  obtain ⟨a, v, history⟩ := h
  exact ⟨a, v, .of_ended history⟩

/-- Tasks of which each is told as a whole are told of one after the other. -/
theorem FinishesBelow.tells (h : FinishesBelow bound) {ts : List Task}
    (whole : ∀ t ∈ ts, t.isWhole = true) (less : agenda.total ts s < bound) :
    ∃ ns, List.Forall₂ Spans ts ns ∧ Tells s (agenda.run ts s) ns := by
  refine agenda.tells_run ?_ less
  intro t ht s hs
  have whole := whole t ht
  cases h t s hs with
  | whole spans tells => exact ⟨_, spans, tells⟩
  | last last => cases t <;> cases last <;> cases whole
  | handled | delivered | reacted => cases whole

theorem idle_of_spans {ts : List Task} {ns : List Node} (h : List.Forall₂ Spans ts ns) :
    ∀ n ∈ ns, n.Idle := by
  induction h with
  | nil => exact List.forall_mem_nil _
  | cons spans _ ih =>
    refine List.forall_mem_cons.mpr ⟨?_, ih⟩
    cases spans with
    | operation returned | delivery returned => exact ⟨returned, rfl⟩

/-- Tasks that are told of as a whole, and then one more. -/
theorem FinishesBelow.before (h : FinishesBelow bound) {ts : List Task} {t : Task}
    (whole : ∀ t ∈ ts, t.isWhole = true) (less : agenda.total (ts ++ [t]) s < bound) :
    ∃ ns s₁, (∀ n ∈ ns, n.Idle) ∧ Tells s s₁ ns ∧
      Finishes s₁ (agenda.run (ts ++ [t]) s) t := by
  have fewer : agenda.total ts s < bound := by
    refine Nat.lt_of_le_of_lt ?_ less
    simp only [Agenda.total, totalOf_append]
    omega
  obtain ⟨ns, spans, tells⟩ := h.tells whole fewer
  rw [agenda.run_append]
  exact ⟨ns, _, idle_of_spans spans, tells,
    h t _ (Nat.lt_of_le_of_lt (agenda.total_run_le ts [t] s) less)⟩

theorem FinishesBelow.of_last (h : FinishesBelow bound) {t : Task} (last : t.isLast = true)
    (less : agenda.total [t] s < bound) :
    ∃ inner, (∀ n ∈ inner, n.Idle) ∧ Concludes s (agenda.run [t] s) inner := by
  cases h t s less with
  | whole spans => cases spans <;> cases last
  | last _ idle concludes => exact ⟨_, idle, concludes⟩
  | handled | delivered | reacted => cases last

theorem FinishesBelow.of_delivery (h : FinishesBelow bound) {t : Task} (last : t.isLast = true)
    (less : agenda.total [.deliver, t] s < bound) :
    ∃ inner, (∀ n ∈ inner, n.Idle) ∧ Concludes s (agenda.run [.deliver, t] s) inner := by
  have later := agenda.total_run_le [.deliver] [t] s
  have fewer : agenda.total [.deliver] s < bound := by
    refine Nat.lt_of_le_of_lt ?_ less
    simp only [Agenda.total, totalOf_cons, totalOf_nil]
    omega
  have split : agenda.run [.deliver, t] s = agenda.run [t] (agenda.run [.deliver] s) :=
    agenda.run_append [.deliver] [t] s
  rw [split]
  cases h .deliver s fewer with
  | whole spans => cases spans
  | last last => cases last
  | @delivered ns idle tells =>
    obtain ⟨inner, idle', concludes⟩ := h.of_last last (Nat.lt_of_le_of_lt later less)
    exact ⟨ns ++ inner, List.forall_mem_append.mpr ⟨idle, idle'⟩, concludes.after tells⟩

/-- An operation that begins with a piece of work without handlers comes to its end. -/
theorem FinishesBelow.of_piece (h : FinishesBelow bound) (piece : Piece s r)
    (less : agenda.total r.1 r.2 < bound) :
    ∃ inner, (∀ n ∈ inner, n.Idle) ∧ Concludes s (agenda.run r.1 r.2) inner := by
  obtain ⟨own, tells, calm⟩ := piece.calm
  obtain ⟨t, last, next⟩ := piece.next
  have rest : ∃ inner, (∀ n ∈ inner, n.Idle) ∧ Concludes r.2 (agenda.run r.1 r.2) inner := by
    rcases next with next | next
    · rw [next] at less ⊢
      exact h.of_last last less
    · rw [next] at less ⊢
      exact h.of_delivery last less
  obtain ⟨inner, idle, concludes⟩ := rest
  refine ⟨own ++ inner, List.forall_mem_append.mpr ⟨?_, idle⟩, concludes.after tells⟩
  exact fun n hn => (calm n hn).idle

/-- So does one that begins with a pass. -/
theorem FinishesBelow.of_calling (h : FinishesBelow bound) (calling : Calling s r)
    (less : agenda.total r.1 r.2 < bound) :
    ∃ inner, Passed inner ∧ Concludes s (agenda.run r.1 r.2) inner := by
  cases calling with
  | uncalled a calm =>
    obtain ⟨own, tells, calm⟩ := calm
    exact ⟨own, .of_idle fun n hn => (calm n hn).idle, .of_tells a tells⟩
  | @unattended a complaint s₁ s' steps calm later history =>
    obtain ⟨own, tells, calm⟩ := calm
    have called : Tells s₁ s' (.entry .unattended :: complaint.reverse.map .entry) := by
      have tells : Tells s₁ s' ((complaint ++ [Entry.unattended]).reverse.map .entry) :=
        .of_entries (by rw [history, List.append_assoc]; rfl)
      rwa [List.reverse_append, List.map_append] at tells
    exact ⟨_, .append (fun n hn => (calm n hn).idle) (.unattended later),
      .of_tells a (tells.trans called)⟩
  | @step step s₁ s' steps calm history =>
    obtain ⟨own, tells, calm⟩ := calm
    obtain ⟨ns, s₂, idle, tells', finishes⟩ := h.before isWhole_of_mem_map less
    cases finishes with
    | whole spans => cases spans
    | last last => cases last
    | @handled _ inner passed concludes =>
      have began : Tells (s₁.log .handling) s₂ ns := by
        rw [Tells, tells', history]
        rfl
      have call : Tells s₁ (s₂.log (.handled step.result))
          [.span .handling ns (.handled step.result)] := began.span _ rfl
      exact ⟨own ++ .span .handling ns (.handled step.result) :: inner,
        .append (fun n hn => (calm n hn).idle) (.call step.result idle passed),
        (concludes.after call).after tells⟩

/-- A reaction is made up of operations. -/
theorem callReaction_eq (event : String) (s : Session) :
    ∃ ops : List Operation,
      (callReaction event s).1 = ops.map (.perform .eventHandler) ++ [.reacted] ∧
      (callReaction event s).2.history = .reacting event s.control :: s.history := by
  unfold callReaction
  rw [acquaintAll_eq]
  dsimp only
  split
  · exact ⟨[], rfl, rfl⟩
  · exact ⟨_, rfl, rfl⟩

/-- Every task finishes, whatever it leads to. -/
theorem finishes (t : Task) (s : Session) : Finishes s (agenda.run [t] s) t := by
  induction hb : agenda.total [t] s using Nat.strongRecOn generalizing t s with
  | _ bound ih =>
    subst hb
    have below : FinishesBelow (agenda.total [t] s) := fun t' s' less => ih _ less t' s' rfl
    have less : agenda.total (t.step s).1 (t.step s).2 < agenda.total [t] s := by
      have less := agenda.total_step_lt t [] s
      rwa [List.append_nil] at less
    have run : agenda.run [t] s = agenda.run (t.step s).1 (t.step s).2 := by
      rw [agenda.run_cons, List.append_nil]
      rfl
    cases t with
    | perform caller op =>
      rw [run]
      by_cases start : op = .start
      · subst start
        obtain ⟨inner, passed, concludes⟩ := below.of_calling (calling_step rfl s) less
        obtain ⟨a, v, tells⟩ := concludes.tells
        refine .whole (.operation (.span (.operation ..) passed.returned ?_ ?_)) tells
        · exact fun _ => passed.attends
        · exact fun other => absurd rfl other
      · obtain ⟨inner, idle, concludes⟩ := below.of_piece (Piece.begin caller start _) less
        obtain ⟨a, v, tells⟩ := concludes.tells
        refine .whole (.operation (.of_idle (.operation ..) ?_ idle)) tells
        intro same
        exact start (Entry.began.inj same)
    | conclude a =>
      rw [run_conclude]
      exact .last rfl (List.forall_mem_nil _) (.of_conclude a s)
    | handled result =>
      rw [run]
      obtain ⟨inner, passed, concludes⟩ := below.of_calling (calling_step rfl s) less
      exact .handled passed concludes
    | deliver =>
      rw [run]
      obtain ⟨ns, spans, tells⟩ := below.tells (List.forall_mem_map.mpr fun _ _ => rfl) less
      exact .delivered (idle_of_spans spans) tells
    | react event =>
      rw [run]
      obtain ⟨ops, next, history⟩ := callReaction_eq event s
      change agenda.total (callReaction event s).1 (callReaction event s).2 < _ at less
      show Finishes s (agenda.run (callReaction event s).1 (callReaction event s).2) _
      rw [next] at less ⊢
      obtain ⟨ns, s₁, idle, tells, finishes⟩ := below.before isWhole_of_mem_map less
      have began : Tells (s.log (.reacting event s.control)) s₁ ns := by
        rw [Tells, tells, history]
        rfl
      cases finishes with
      | whole spans => cases spans
      | last last => cases last
      | reacted history =>
        refine .whole (.delivery (.of_idle (.delivery ..) ?_ idle)) (began.span _ history)
        intro start
        cases start
    | reacted =>
      rw [run_reacted]
      exact .reacted rfl
    | fill m c next left tracks =>
      rw [run]
      obtain ⟨inner, idle, concludes⟩ := below.of_piece (Piece.fill m c next left tracks s) less
      exact .last rfl idle concludes

end

end Task

/-! ## Runs -/

/-- Every run ends, after no more moves than the operations and the session have work for; for each
operation in turn its history tells of a part that has returned, and so has all that is inside.
The frame handler is called by passes of `start` only, in whatever session they find: such a call
takes the first step that is left, or ends the `start` at once if there is none. -/
theorem Session.operations_return :
    (∀ (t : Task) (s : Session), t.pass?.isSome = true →
      Task.Calling (t.underway s) (t.step s)) ∧
    ∀ (ops : List Operation) (s : Session),
      (∃ n ≤ weightAll ops + s.load, (⟨[ops.map (.perform .outside)], s⟩ : Scene).play
        (List.replicate n 0) = ⟨[[]], perform ops s⟩) ∧
      ∃ es, (perform ops s).history = es ++ s.history ∧
        List.Forall₂ (fun op n => Task.Spans (.perform .outside op) n) ops (outline es) := by
  refine ⟨fun t s pass => Task.calling_step pass s, ?_⟩
  intro ops s
  constructor
  · obtain ⟨n, less, ended⟩ := Scene.play_alone (ops.map (.perform .outside)) s
    refine ⟨n, ?_, ended⟩
    rwa [Agenda.total, Task.agenda, Task.totalOf_cost_perform] at less
  · have below : Task.FinishesBelow (Task.agenda.total (ops.map (.perform .outside)) s + 1) :=
      fun t s _ => Task.finishes t s
    obtain ⟨ns, spans, tells⟩ := below.tells Task.isWhole_of_mem_map (Nat.lt_succ_self _)
    have returned : ∀ n ∈ ns, n.Returned := fun n hn => (Task.idle_of_spans spans n hn).1
    refine ⟨entriesAll ns, tells, ?_⟩
    rw [outline_entriesAll returned]
    exact List.forall₂_map_left_iff.mp spans

end RtspControl
