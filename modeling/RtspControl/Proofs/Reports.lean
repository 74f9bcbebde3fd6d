import RtspControl.Proofs.Starts

/-!
# Failures of the frame handler

When the frame handler fails, `start` tells by the phase whether that is news: a connection that has
been stopped is expected to fail, one that plays is not. `Course.failures_reported` says what comes
of a failure that nobody else has had a hand in. `start` reports it if there was a session to break;
if the handler was called before anything had been negotiated, the connection looks as if it had
been stopped, and `start` ends as if all were well. `Course.unluckyClient` sees both.
-/

namespace RtspControl

open Session

/-! ## What remains of a call -/

namespace Starting

variable {handled : Option Outcome} {before later : List Move} {x : Move}

/-- What remains of a call after some of its moves is the call from another pass on, unless only the
answer is left. -/
theorem suffix (h : Starting handled (before ++ x :: later)) :
    (∃ handled', Starting handled' (x :: later) ∧
        (handled' = none → handled = none ∧ before = [])) ∨
      ∃ a, Replies a (x :: later) := by
  induction before generalizing handled with
  | nil => exact Or.inl ⟨handled, h, fun none => ⟨none, rfl⟩⟩
  | cons y before ih =>
    cases h with
    | last _ _ a _ _ _ conclusion =>
      cases before with
      | nil => exact Or.inr ⟨a, conclusion⟩
      | cons z before => cases before <;> cases conclusion
    | on _ _ step _ _ _ next =>
      rcases ih next with ⟨handled', h, first⟩ | last
      · exact Or.inl ⟨handled', h, fun none => nomatch (first none).1⟩
      · exact Or.inr last

end Starting

/-! ## What a failure comes to -/

namespace Move

variable {x : Move} {handled : Option Outcome}

/-- The frame handler is called on a session that plays, unless nothing has been negotiated. -/
theorem Admits.phases (h : x.Admits handled) :
    (x.found.control.phase = .ready ∧ x.left.control.phase = .playing) ∨
      (x.found.control.phase = .idle ∧ x.left.control.phase = .idle ∧ handled = none) := by
  cases h with
  | idle idle _ control => exact Or.inr ⟨idle, control ▸ idle, rfl⟩
  | played _ ready _ _ _ control => exact Or.inl ⟨ready, by rw [control]⟩
  | served _ ready _ _ control => exact Or.inl ⟨ready, by rw [control]⟩

/-- With a session that plays, or has been stopped, a pass that is not the first is the last one. -/
theorem Finishes.of_starting {result : Outcome} {later : List Move}
    (starting : Starting (some result) (x :: later))
    (phase : x.found.control.phase = .idle ∨ x.found.control.phase = .playing) :
    Replies (if x.found.control.phase = .idle then .done else .ofOutcome result) later := by
  have resting : ¬ x.Admits (some result) := by
    intro admits
    rcases admits.phases with ⟨ready, -⟩ | ⟨-, -, first⟩
    · rw [ready] at phase
      exact absurd phase (by decide)
    · cases first
  cases starting with
  | on _ _ step _ _ hands => exact absurd hands.admits resting
  | last _ _ a _ _ finishes conclusion =>
    cases finishes with
    | unattended admits => exact absurd admits resting
    | ended _ ends =>
      cases ends with
      | stopped _ idle => rwa [if_pos idle]
      | broken _ playing => rwa [if_neg (by rw [playing]; decide)]
      | early _ connected => exact absurd (connected ▸ phase) (by decide)
      | unplayed _ f ready => exact absurd (ready ▸ phase) (by decide)

/-- How `start` ends after `x` has called the frame handler and that has failed, where nobody has
touched the phase meanwhile: `before` are the earlier moves of the call and `later` those to come.
The failure is reported if the session was ready for the pass; if nothing had been negotiated, which
can only be so on the first pass, it is taken for the consequence of a stop. -/
structure Reports (before : List Move) (x : Move) (e : Fault) (later : List Move) : Prop where
  answer : Replies (if x.found.control.phase = .ready then .failed e else .done) later
  first : x.found.control.phase ≠ .ready → before = [] ∧ x.found.control.phase = .idle

theorem Reports.of_phases {before later : List Move} {e : Fault} {phase : Phase}
    (admits : x.Admits handled) (first : handled = none → before = [])
    (quiet : phase = x.left.control.phase)
    (answer : Replies (if phase = .idle then .done else .failed e) later) :
    Reports before x e later := by
  rcases admits.phases with ⟨ready, playing⟩ | ⟨idle, still, none⟩
  · rw [quiet, if_neg (by rw [playing]; decide)] at answer
    exact ⟨by rwa [if_pos ready], fun h => absurd ready h⟩
  · rw [quiet, if_pos still] at answer
    exact ⟨by rwa [if_neg (by rw [idle]; decide)], fun _ => ⟨first none, idle⟩⟩

end Move

/-- If the frame handler fails and nothing has touched the phase meanwhile, `start` answers with the
fault, unless it was called before anything had been negotiated. A handler without a step left fails
as well. -/
theorem Course.failures_reported (r : Course) (producer : r.role ≠ .passiveConsumer)
    (xs : List Move) (invokes : r.Invokes .start xs) :
    (∀ before x y later e, xs = before ++ x :: y :: later → y.task = .handled (.error e) →
      y.found.control.phase = x.left.control.phase → Move.Reports before x e later) ∧
    (∀ before x later, xs = before ++ x :: later → handlings x.entries = 1 →
      x.found.script.steps = [] → Move.Reports before x noStepsLeft later) := by
  have starting := r.start_passes producer xs invokes
  constructor
  · rintro before x y later e rfl failed quiet
    rcases starting.suffix with ⟨handled, starting, first⟩ | ⟨a, conclusion⟩
    · cases starting with
      | last _ _ a _ _ _ conclusion =>
        cases conclusion with
        | given _ kind => exact nomatch failed.symm.trans kind
      | on _ _ step _ _ hands next =>
        have result : step.result = .error e := by
          have kind := next.kind
          rw [failed] at kind
          exact (Option.some.inj (Option.some.inj kind)).symm
        rw [result] at next
        refine .of_phases hands.admits (fun none => (first none).2) quiet ?_
        refine Move.Finishes.of_starting next ?_
        rw [quiet]
        rcases hands.admits.phases with ⟨-, playing⟩ | ⟨-, idle, -⟩
        · exact Or.inr playing
        · exact Or.inl idle
    · cases conclusion
  · rintro before x later rfl once none
    rcases starting.suffix with ⟨handled, starting, first⟩ | ⟨a, conclusion⟩
    · cases starting with
      | on _ _ step _ _ hands next =>
        have next := hands.next
        rw [none] at next
        cases next
      | last _ _ a _ _ finishes conclusion =>
        cases finishes with
        | ended _ _ _ unhandled => exact absurd (once.symm.trans unhandled) (by decide)
        | unattended admits =>
          exact .of_phases admits (fun none => (first none).2) rfl conclusion
    · cases conclusion with
      | given _ _ _ _ unhandled => exact absurd (once.symm.trans unhandled) (by decide)

/-- A client whose frame handler fails twice: before anything has been negotiated, and after. -/
def Course.unluckyClient : Course :=
  { role := .activeProducer, descriptor := default, settings := default, monitored := false
    peer := {}
    script := ⟨[⟨[], .error (.io "broken pipe")⟩, ⟨[], .error (.transport "timed out")⟩], []⟩
    callers := [[.start, .getTrack videoSection videoRequest, .start]]
    schedule := List.replicate 9 0 }

/-- Only the second failure is reported. -/
theorem Course.unluckyClient_reports :
    unluckyClient.role ≠ .passiveConsumer ∧
      (∃ x y z, unluckyClient.Invokes .start [x, y, z] ∧ x.found.control.phase = .idle ∧
        y.task = .handled (.error (.io "broken pipe")) ∧
        y.found.control.phase = x.left.control.phase ∧ z.task = .conclude .done ∧
        Move.Reports [] x (.io "broken pipe") [z]) ∧
      ∃ x y z, unluckyClient.Invokes .start [x, y, z] ∧ x.found.control.phase = .ready ∧
        y.task = .handled (.error (.transport "timed out")) ∧
        y.found.control.phase = x.left.control.phase ∧
        z.task = .conclude (.failed (.transport "timed out")) ∧
        Move.Reports [] x (.transport "timed out") [z] := by
  have producer : unluckyClient.role ≠ .passiveConsumer := by decide
  refine ⟨producer, ?_, ?_⟩
  · have invokes : unluckyClient.Invokes .start _ :=
      ⟨[], List.replicate 9 0, 0, .outside,
        [.perform .outside (.getTrack videoSection videoRequest), .perform .outside .start],
        rfl, rfl, rfl⟩
    exact ⟨_, _, _, invokes, rfl, rfl, rfl, rfl,
      (unluckyClient.failures_reported producer _ invokes).1 [] _ _ _ _ rfl rfl rfl⟩
  · have invokes : unluckyClient.Invokes .start _ :=
      ⟨List.replicate 6 0, List.replicate 3 0, 0, .outside, [], rfl, rfl, rfl⟩
    exact ⟨_, _, _, invokes, rfl, rfl, rfl, rfl,
      (unluckyClient.failures_reported producer _ invokes).1 [] _ _ _ _ rfl rfl rfl⟩

/-- A failure that nobody has caused is not always reported. -/
theorem Course.unluckyClient_unreported :
    ¬ ∀ r : Course, r.role ≠ .passiveConsumer → ∀ xs, r.Invokes .start xs →
      ∀ before x y later e, xs = before ++ x :: y :: later → y.task = .handled (.error e) →
        y.found = x.left → Replies (.failed e) later := by
  intro h
  have conclusion := h unluckyClient (by decide) _
    ⟨[], List.replicate 9 0, 0, .outside, _, rfl, rfl, rfl⟩ [] _ _ _ _ rfl rfl rfl
  cases conclusion with
  | given _ kind => exact nomatch kind

end RtspControl
