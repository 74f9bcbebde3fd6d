import RtspControl.Proofs.Closings

/-!
# Calls of the event handler

Only the history knows how often the event handler has been called: `Session.reactions` counts it.
Nothing that is done under the lock calls it, neither the work of the connection, nor the closing of
tracks with all hooks that run, nor a frame handler that is called or returns. `Task.reactions_step`
puts this together: no task does that is not a delivery.
-/

namespace RtspControl

open Session

/-! ## Work of the connection -/

namespace Session

/-- How often the event handler has been called. -/
def reactions (s : Session) : Nat := s.history.countP fun e => !e.isCalm

section

variable {s s' : Session} {es : List Entry}

theorem reactions_of_history (h : s'.history = es ++ s.history) (calm : Only Entry.isCalm es) :
    s'.reactions = s.reactions := by
  have none : es.countP (fun e => !e.isCalm) = 0 := by
    rw [List.countP_eq_zero]
    intro e he
    simp [calm e he]
  rw [reactions, h, List.countP_append, none, Nat.zero_add]
  rfl

theorem reactions_log {e : Entry} (h : e.isCalm = true) (s : Session) :
    (s.log e).reactions = s.reactions := by
  have history : (s.log e).history = [e] ++ s.history := rfl
  exact reactions_of_history history (.cons h .nil)

theorem calm_of_renewal (h : Only Entry.isRenewal es) : Only Entry.isCalm es := by
  refine h.mono ?_
  intro e he
  cases e with
  | reacting => cases he
  | _ => rfl

theorem reactions_of_connecting {o : Except Fault Unit × Session} (h : Connecting s o) :
    o.2.reactions = s.reactions := by
  cases h <;> rfl

theorem reactions_of_passing {handled : Option Outcome}
    {o : Except Fault (Option Outcome) × Session} (h : Passing handled s o) :
    o.2.reactions = s.reactions := by
  cases h with
  | stopped es idle result h aside notes =>
    refine reactions_of_history rfl ?_
    intro e he
    have := notes e he
    cases e with
    | reacting => cases this
    | _ => rfl
  | _ => rfl

theorem reactions_of_stopping {o : Except Fault Unit × Session} (h : Stopping s o) :
    o.2.reactions = s.reactions := by
  obtain ⟨s', es, hc, all⟩ := closesAll (s.control.receivers ++ s.control.senders) s.emptied
  have still : s'.reactions = s.reactions :=
    (reactions_of_history all.closes.history all.closes.calm).trans rfl
  cases h with
  | idle _ _ closing =>
    cases hc.symm.trans closing
    exact still
  | tornDown fault p _ _ closing =>
    cases hc.symm.trans closing
    exact still

theorem reactions_of_negotiation {m : MediaSection} {c : Codec}
    {o : Except Fault Track × Session} (h : Negotiation m c s o) :
    o.2.reactions = s.reactions := by
  cases h with
  | served | refused | allotted => rfl
  | unbuilt f p _ _ _ _ rebuilt => exact reactions_of_history rfl (calm_of_renewal rebuilt.renewal)
  | unassigned f p _ _ _ prepared =>
    refine reactions_of_history (by rw [history_heard, prepared.history]) ?_
    exact .cons rfl (calm_of_renewal prepared.renewal)
  | assigned channel p _ _ _ prepared =>
    refine reactions_of_history
      (by rw [history_heard, history_admitting, history_inPhase, prepared.history]) ?_
    exact .cons rfl (.cons rfl
      ((Only.moved rfl).append (.cons rfl (calm_of_renewal prepared.renewal))))

theorem reactions_closeTrack (t : Track) (s : Session) :
    (outcome (closeTrack t) s).2.reactions = s.reactions := by
  cases h : s.isClosed t with
  | true => rw [outcome_closeTrack_of_closed h]
  | false =>
    obtain ⟨s', es, inner, ended, closes, -⟩ := closes_closeTrack h
    rw [ended]
    exact reactions_of_history closes.history closes.calm

end

end Session

/-! ## Tasks -/

namespace Task

theorem reactions_conclude (a : Answer) (locked : Bool) (s : Session) :
    (s.conclude a locked).reactions = s.reactions :=
  reactions_of_history (closes_conclude a locked s).history (closes_conclude a locked s).calm

theorem reactions_underway (t : Task) (s : Session) :
    (t.underway s).reactions = s.reactions := by
  refine reactions_of_history (history_underway t s) ?_
  cases t with
  | perform | handled => exact .cons rfl .nil
  | _ => exact .nil

/-- A task that is not about the connection calls the event handler only to deliver an event. -/
theorem reactions_of_aside {t : Task} (h : t.isAside = true) (quiet : t.event? = none)
    (s : Session) : (t.step s).2.reactions = s.reactions := by
  cases t with
  | perform caller op =>
    have began : (s.log (.began op)).reactions = s.reactions := reactions_log rfl s
    refine Eq.trans ?_ began
    cases op with
    | connect | start | stop | reconnect | getTrack | addSender | setPhase =>
      simp only [isAside, Bool.false_eq_true] at h
    | closeTrack n =>
      simp only [step, begin]
      split
      · rw [whole_eq]
        exact reactions_closeTrack _ _
      · rfl
    | showControl =>
      simp only [step, begin, throughControl]
      split <;> rfl
    | newTrack | fill | showRole | showTimeout | showDescriptor => rfl
    | _ =>
      simp only [step, begin]
      split
      · next known => exact reactions_of_history (closes_lockFree known).history .nil
      · rfl
  | conclude a => exact reactions_conclude a false s
  | handled result => simp only [isAside, Bool.false_eq_true] at h
  | deliver => rfl
  | react event => cases quiet
  | reacted => exact reactions_log rfl s
  | fill m c next left tracks =>
    cases left with
    | zero => exact reactions_underway (.fill m c next 0 tracks) s
    | succ left => simp [isAside] at h

theorem reactions_runPass (handled : Option Outcome) (s : Session) :
    (runPass handled s).2.reactions = s.reactions := by
  refine Eq.trans ?_ (reactions_of_passing (outcome_pass handled s))
  have following := following_runPass handled s
  generalize runPass handled s = r at following ⊢
  cases following with
  | unattended a complaint trackless steps later => rcases later with rfl | ⟨f, rfl⟩ <;> rfl
  | _ => rfl

/-- Nothing but a delivery calls the event handler. -/
theorem reactions_step {t : Task} (quiet : t.event? = none) {s : Session}
    (suits : t.Suits s.role) : (t.step s).2.reactions = s.reactions := by
  have underway := reactions_underway t s
  induction t using kinds with
  | aside t h => exact reactions_of_aside h quiet s
  | connect caller =>
    simp only [step, begin, whole_eq]
    exact (reactions_of_connecting (outcome_connect _)).trans underway
  | stop caller =>
    simp only [step, begin, whole_eq]
    exact (reactions_of_stopping (outcome_stop _)).trans underway
  | reconnect caller =>
    rw [step_reconnect]
    refine Eq.trans ?_ underway
    obtain ⟨-, hr⟩ | ⟨r, p, es, -, hr, rebuilt⟩ := outcome_reconnect (s.log (.began .reconnect))
    · rw [hr]
      rfl
    · rw [hr]
      exact reactions_of_history rfl (calm_of_renewal rebuilt.renewal)
  | addSender caller n times =>
    rw [step_addSender]
    split
    · simp only [outcome_addSenders]
      exact (reactions_of_history rfl (Only.replicate times rfl)).trans underway
    · exact underway
  | setPhase caller p =>
    rw [step_setPhase]
    split
    · exact reactions_of_history rfl ((Only.moved rfl).append (.cons rfl .nil))
    · exact underway
  | pass t handled h =>
    obtain ⟨-, hs⟩ | ⟨-, hs⟩ := step_pass h s suits
    · rw [hs]
      exact (reactions_runPass handled _).trans underway
    · rw [hs]
      exact underway
  | request t m c h =>
    rw [step_request h, thenDeliver_eq]
    exact (reactions_of_negotiation (outcome_negotiate m _ c)).trans underway

end Task

end RtspControl
