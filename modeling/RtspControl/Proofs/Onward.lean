import RtspControl.Proofs.Tasks

/-!
# What all tasks have in common

Some things hold of every task, whatever it is about. `Onward` is what becomes of a session
with time: its role and its descriptor stay, tracks are never unmade and never opened again, and the
history is never forgotten. `forall_step` is about the tasks that a task leads to, and `suits_step`,
which follows from it, says that a frame handler returns to nobody who has not called one.
-/

namespace RtspControl

namespace Task

open Session

/-! ## As time goes on -/

/-- `s'` comes from `s` as time goes on: nothing is unmade or forgotten. -/
structure Onward (s s' : Session) : Prop where
  role : s'.role = s.role
  descriptor : s'.descriptor = s.descriptor
  monitored : s'.monitored = s.monitored
  made : s.tracks.made ≤ s'.tracks.made
  closed : s.tracks.closed ⊆ s'.tracks.closed
  history : ∃ es, s'.history = es ++ s.history

namespace Onward

theorem trans {s₁ s₂ s₃ : Session} (h : Onward s₁ s₂) (h' : Onward s₂ s₃) : Onward s₁ s₃ := by
  obtain ⟨es, he⟩ := h.history
  obtain ⟨es', he'⟩ := h'.history
  refine ⟨h'.role.trans h.role, h'.descriptor.trans h.descriptor, h'.monitored.trans h.monitored,
    Nat.le_trans h.made h'.made, List.Subset.trans h.closed h'.closed, es' ++ es, ?_⟩
  rw [he', he, List.append_assoc]

theorem of_aside {s s' : Session} (h : Aside s s') : Onward s s' := by
  obtain ⟨es, he, -⟩ := h.history
  exact ⟨h.role, h.descriptor, h.monitored, h.made, h.closed, es, he⟩

/-- The registries and the phase may change in any way. -/
theorem guarded (s : Session) (control : Control) : Onward s { s with control } :=
  ⟨rfl, rfl, rfl, Nat.le_refl _, List.Subset.refl _, [], rfl⟩

theorem heard (s : Session) (p : Peer) (es : List Entry) : Onward s (s.heard p es) :=
  ⟨rfl, rfl, rfl, Nat.le_refl _, List.Subset.refl _, es, rfl⟩

theorem of_connecting {s : Session} {o : Except Fault Unit × Session} (h : Connecting s o) :
    Onward s o.2 := by
  cases h with
  | refused f h => exact of_aside (.refl s)
  | undialled f p => exact heard s p _
  | undescribed f p => exact (guarded s _).trans (heard _ p _)
  | connected p => exact (guarded s _).trans (heard _ p _)

theorem of_stopping {s : Session} {o : Except Fault Unit × Session} (h : Stopping s o) :
    Onward s o.2 := by
  cases h with
  | idle h closed => exact (guarded s _).trans (of_aside closed)
  | @tornDown fault p s' h closed =>
    exact ((guarded s _).trans (of_aside closed)).trans ((guarded s' _).trans (heard _ p _))

theorem of_passing {handled : Option Outcome} {s : Session}
    {o : Except Fault (Option Outcome) × Session} (h : Passing handled s o) : Onward s o.2 := by
  cases h with
  | stopped es => exact heard s _ es
  | unplayed f p => exact heard s p _
  | played p => exact (guarded s _).trans (heard _ p _)
  | served => exact (guarded s _).trans (heard _ _ _)
  | _ => exact of_aside (.refl s)

theorem of_negotiation {m : MediaSection} {c : Codec} {s : Session}
    {o : Except Fault Track × Session} (h : Negotiation m c s o) : Onward s o.2 := by
  cases h with
  | served t => exact ⟨rfl, rfl, rfl, Nat.le_refl _, List.Subset.refl _, [_], rfl⟩
  | refused f => exact ⟨rfl, rfl, rfl, Nat.le_refl _, List.Subset.refl _, [], rfl⟩
  | unbuilt f p => exact ⟨rfl, rfl, rfl, Nat.le_refl _, List.Subset.refl _, _, rfl⟩
  | unassigned f p miss client direction prepared =>
    refine ⟨prepared.role, prepared.descriptor, prepared.monitored, ?_, ?_, ?_⟩
    · exact Nat.le_of_eq (congrArg TrackTable.made prepared.tracks.symm)
    · rw [tracks_heard, prepared.tracks]
      exact List.Subset.refl _
    · rw [history_heard, prepared.history]
      exact ⟨_, rfl⟩
  | @assigned channel p s' es miss client direction prepared =>
    refine ⟨prepared.role, prepared.descriptor, prepared.monitored, ?_, ?_, ?_⟩
    · have hm : s'.tracks.made = s.tracks.made := congrArg TrackTable.made prepared.tracks
      exact Nat.le_succ_of_le (Nat.le_of_eq hm.symm)
    · show s.tracks.closed ⊆ s'.tracks.closed
      rw [prepared.tracks]
      exact List.Subset.refl _
    · rw [history_heard, history_admitting, history_inPhase, prepared.history]
      exact ⟨_, rfl⟩
  | allotted channel =>
    exact ⟨rfl, rfl, rfl, Nat.le_succ _, List.Subset.refl _, [_], rfl⟩

theorem of_effect {t : Task} {s s' : Session} (h : Effect t s s') : Onward s s' := by
  cases h with
  | aside _ h => exact of_aside h
  | connect _ h => exact (heard s _ [_]).trans (of_connecting h)
  | stop _ h => exact (heard s _ [_]).trans (of_stopping h)
  | unable => exact heard s _ [_]
  | @reconnect _ _ es =>
    exact ⟨rfl, rfl, rfl, Nat.le_refl _, List.Subset.refl _, es ++ [.began .reconnect], by simp⟩
  | unknown => exact heard s _ [_]
  | addSender => exact (guarded s _).trans (heard _ _ _)
  | barred => exact heard s _ [_]
  | setPhase => exact (guarded s _).trans (heard _ _ _)
  | startless => exact of_aside (aside_underway t s)
  | pass _ _ h called =>
    exact ((of_aside (aside_underway t s)).trans (of_passing h)).trans (of_aside called)
  | request _ _ h => exact (of_aside (aside_underway t s)).trans (of_negotiation h)

end Onward

theorem onward_step {t : Task} {s : Session} (suits : t.Suits s.role) : Onward s (t.step s).2 :=
  .of_effect (effect suits)

/-! ## Tasks that lead to further tasks -/

theorem suits_of_producer {role : Role} (h : role ≠ .passiveConsumer) (t : Task) :
    t.Suits role := by
  cases t with
  | handled => exact h
  | _ => trivial

theorem suits_perform {role : Role} (caller : Caller) (ops : List Operation) :
    ∀ t ∈ ops.map (perform caller), t.Suits role := by
  intro t ht
  obtain ⟨op, -, rfl⟩ := List.mem_map.mp ht
  trivial

/-- What is not about the connection leads to operations, answers and the delivery of the events
that wait: it does not bring the frame handler back. -/
theorem forall_of_aside {P : Task → Prop} (performed : ∀ op, P (.perform .eventHandler op))
    (concluded : ∀ a, P (.conclude a)) (reacted : P .reacted)
    (filled : ∀ m c next left tracks, P (.fill m c next left tracks)) {t : Task}
    (h : t.isAside = true) {s : Session}
    (raised : t = .deliver → ∀ event ∈ s.pending, P (.react event)) :
    ∀ t' ∈ (t.step s).1, P t' := by
  have answered (a : Answer) (s : Session) : ∀ t' ∈ (answer a s).1, P t' :=
    List.forall_mem_singleton.mpr (concluded a)
  cases t with
  | perform caller op =>
    cases op with
    | connect | start | stop | reconnect | getTrack | addSender | setPhase =>
      simp only [isAside, Bool.false_eq_true] at h
    | fill m c count => exact List.forall_mem_singleton.mpr (filled ..)
    | newTrack m c channel => exact answered _ _
    | closeTrack n =>
      simp only [step, begin]
      split
      · rw [whole_eq]
        exact answered _ s
      · exact answered _ _
    | showControl =>
      simp only [step, begin, throughControl]
      split <;> exact answered _ _
    | showRole | showTimeout | showDescriptor => exact answered _ _
    | _ =>
      simp only [step, begin]
      split <;> exact answered _ _
  | conclude | reacted => exact List.forall_mem_nil _
  | handled result => simp only [isAside, Bool.false_eq_true] at h
  | deliver =>
    intro t' ht
    obtain ⟨event, he, rfl⟩ := List.mem_map.mp ht
    exact raised rfl event he
  | react event =>
    simp only [step, callReaction]
    split
    · exact List.forall_mem_singleton.mpr reacted
    · refine List.forall_mem_append.mpr ⟨?_, List.forall_mem_singleton.mpr reacted⟩
      intro t' ht
      obtain ⟨op, -, rfl⟩ := List.mem_map.mp ht
      exact performed op
  | fill m c next left tracks =>
    cases left with
    | zero => exact answered _ _
    | succ left => simp [isAside] at h

/-- A pass leads to what the frame handler does, or to an answer. -/
theorem forall_runPass {P : Task → Prop} (concluded : ∀ a, P (.conclude a))
    (performed : ∀ op, P (.perform .frameHandler op)) (handled : ∀ result, P (.handled result))
    (result : Option Outcome) (s : Session) : ∀ t ∈ (runPass result s).1, P t := by
  have following := following_runPass result s
  generalize runPass result s = r at following ⊢
  cases following with
  | ended a | unattended a => exact List.forall_mem_singleton.mpr (concluded a)
  | step step =>
    refine List.forall_mem_append.mpr ⟨?_, List.forall_mem_singleton.mpr (handled _)⟩
    intro t ht
    obtain ⟨op, -, rfl⟩ := List.mem_map.mp ht
    exact performed op

/-- What holds of all that a task can lead to. Only a pass calls the frame handler, for which the
role has to have a `start`; and only events that wait are delivered. -/
theorem forall_step {P : Task → Prop} (performed : ∀ op, P (.perform .eventHandler op))
    (concluded : ∀ a, P (.conclude a)) (reacted : P .reacted) (delivering : P .deliver)
    (filled : ∀ m c next left tracks, P (.fill m c next left tracks)) {t : Task} {s : Session}
    (suits : t.Suits s.role)
    (called : s.role ≠ .passiveConsumer →
      (∀ op, P (.perform .frameHandler op)) ∧ ∀ result, P (.handled result))
    (raised : t = .deliver → ∀ event ∈ s.pending, P (.react event)) :
    ∀ t' ∈ (t.step s).1, P t' := by
  have answered (a : Answer) (s₁ : Session) : ∀ t' ∈ (answer a s₁).1, P t' :=
    List.forall_mem_singleton.mpr (concluded a)
  induction t using kinds with
  | aside t h => exact forall_of_aside performed concluded reacted filled h raised
  | connect caller | stop caller =>
    simp only [step, begin, whole_eq]
    exact answered _ s
  | reconnect caller =>
    rw [step_reconnect]
    refine List.forall_mem_append.mpr ⟨?_, List.forall_mem_singleton.mpr (concluded _)⟩
    split
    · exact List.forall_mem_singleton.mpr delivering
    · exact List.forall_mem_nil _
  | addSender caller n times =>
    simp only [step, begin]
    split
    · rw [whole_eq]
      exact answered _ s
    · exact answered _ _
  | setPhase caller p =>
    simp only [step, begin, throughControl]
    split <;> exact answered _ _
  | pass t handled h =>
    obtain ⟨producer, hs⟩ | ⟨-, hs⟩ := step_pass h s suits
    · rw [hs]
      exact forall_runPass concluded (called producer).1 (called producer).2 handled _
    · rw [hs]
      exact answered _ _
  | request t m c h =>
    rw [step_request h, thenDeliver_eq]
    refine List.forall_mem_cons.mpr ⟨delivering, List.forall_mem_singleton.mpr ?_⟩
    cases t with
    | fill m c next left tracks =>
      cases left with
      | zero => exact concluded _
      | succ left =>
        cases (outcome (negotiate _ _) _).1 with
        | ok t => exact filled ..
        | error f => exact concluded _
    | _ => exact concluded _

/-- Only a pass calls the frame handler, so no other task leads to its return. -/
theorem suits_step {t : Task} {s : Session} (suits : t.Suits s.role) :
    ∀ t' ∈ (t.step s).1, t'.Suits s.role :=
  forall_step (fun _ => trivial) (fun _ => trivial) trivial trivial (fun _ _ _ _ _ => trivial)
    suits (fun producer => ⟨fun _ => trivial, fun _ => producer⟩) fun _ _ _ => trivial

end Task

end RtspControl
