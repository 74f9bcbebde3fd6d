import RtspControl.Proofs.Provenance

/-!
# Tracks that are handed out closed

The registry is searched by section and codec, and not by whether a track is still open: a track
that somebody has closed goes on being served until the connection is stopped. This is the only
way in which a request can be granted with a closed track. `Course.granted_closed_iff` says which
requests these are, from the moves alone: those that the registry serves with a track that has been
discarded, by a caller or by a hook, since the last stop. A track that a negotiation has just made
is open, because its number is one that nothing closed can have (`Course.accounted`).
-/

namespace RtspControl

open Session

/-! ## Moves that close tracks -/

/-- Is a task the closing of a single track? -/
def Task.isDiscard : Task → Bool
  | .perform _ (.closeTrack _) => true
  | _ => false

/-- A track is closed by somebody who closes a single track: that one, or another one, in the hooks
of which it is closed. -/
def Move.Discards (x : Move) (t : Track) : Prop :=
  x.task.isDiscard = true ∧ ∃ c ∈ closings x.entries, c.1.serial = t.serial

theorem Closes.closed_of_nil {s s' : Session} {es : List Entry} (h : Closes s s' es)
    (none : closings es = []) (n : Nat) : n ∈ s'.tracks.closed ↔ n ∈ s.tracks.closed := by
  simpa [none] using h.closed n

namespace Task

variable {t : Task} {s : Session}

theorem tracks_runPass (handled : Option Outcome) (s : Session) :
    (runPass handled s).2.tracks = s.tracks := by
  have passing : (outcome (pass handled) s).2.tracks = s.tracks := by
    have passing := outcome_pass handled s
    generalize outcome (pass handled) s = o at passing
    cases passing <;> rfl
  refine Eq.trans ?_ passing
  have following := following_runPass handled s
  generalize runPass handled s = r at following ⊢
  cases following <;> rfl

theorem closed_underway (t : Task) (s : Session) :
    (t.underway s).tracks.closed = s.tracks.closed := by
  cases t with
  | fill m c next left tracks => exact closed_acquaintAll tracks s
  | _ => rfl

theorem closed_of_negotiation {m : MediaSection} {c : Codec} {o : Except Fault Track × Session}
    (h : Negotiation m c s o) : o.2.tracks.closed = s.tracks.closed := by
  cases h with
  | unassigned f p miss client direction prepared =>
    exact congrArg TrackTable.closed prepared.tracks
  | @assigned channel p s' es miss client direction prepared =>
    show s'.tracks.closed = _
    rw [prepared.tracks]
  | _ => rfl

theorem closed_of_aside (kind : t.isAside = true) (other : t.isDiscard = false) (n : Nat) :
    n ∈ (t.step s).2.tracks.closed ↔ n ∈ s.tracks.closed := by
  have shown (ts : List Track) : n ∈ (s.acquaintAll ts).tracks.closed ↔ n ∈ s.tracks.closed := by
    rw [closed_acquaintAll]
  cases t with
  | perform caller op =>
    cases op with
    | connect | start | stop | reconnect | getTrack | addSender | setPhase =>
      simp only [isAside, Bool.false_eq_true] at kind
    | closeTrack => cases other
    | fill | newTrack | showRole | showTimeout | showDescriptor => exact Iff.rfl
    | showControl =>
      simp only [step, begin, throughControl]
      split <;> exact Iff.rfl
    | _ =>
      simp only [step, begin]
      split
      · next free => exact (closes_lockFree free).closed_of_nil rfl n
      · exact Iff.rfl
  | conclude a => exact (closes_conclude a false s).closed_of_nil rfl n
  | handled result => simp only [isAside, Bool.false_eq_true] at kind
  | deliver => exact Iff.rfl
  | react event =>
    simp only [step, callReaction]
    split <;> exact shown _
  | reacted => exact Iff.rfl
  | fill m c next left tracks =>
    cases left with
    | zero => exact shown tracks
    | succ left => simp [isAside] at kind

/-- No other task closes anything. -/
theorem closed_step {t : Task} (suits : t.Suits s.role) (discard : t.isDiscard = false)
    (stop : ∀ caller, t ≠ .perform caller .stop) (n : Nat) :
    n ∈ (t.step s).2.tracks.closed ↔ n ∈ s.tracks.closed := by
  induction t using kinds with
  | aside t kind => exact closed_of_aside kind discard n
  | stop caller => exact absurd rfl (stop caller)
  | connect caller =>
    simp only [step, begin, whole_eq]
    have connecting := outcome_connect (s.log (.began .connect))
    generalize outcome Session.connect (s.log (.began .connect)) = o at connecting
    cases connecting <;> exact Iff.rfl
  | reconnect caller =>
    rw [step_reconnect]
    obtain ⟨-, hr⟩ | ⟨r, p, es, -, hr, -⟩ := outcome_reconnect (s.log (.began .reconnect)) <;>
      · rw [hr]
        exact Iff.rfl
  | addSender caller k times =>
    rw [step_addSender]
    split
    · rw [outcome_addSenders]
      exact Iff.rfl
    · exact Iff.rfl
  | setPhase caller p =>
    rw [step_setPhase]
    split <;> exact Iff.rfl
  | pass t handled kind =>
    rw [← closed_underway t s]
    obtain ⟨-, hs⟩ | ⟨-, hs⟩ := step_pass kind s suits
    · rw [hs, tracks_runPass]
    · rw [hs]
      exact Iff.rfl
  | request t m c kind =>
    rw [step_request kind, thenDeliver_eq, closed_of_negotiation (outcome_negotiate m _ c),
      closed_underway]

end Task

namespace Move

variable {x : Move}

theorem isStop_of_discards {t : Track} (h : x.Discards t) : x.isStop = false := by
  have discard := h.1
  unfold Task.isDiscard at discard
  split at discard
  · next kind => rw [isStop, kind]
  · cases discard

theorem not_stop (h : x.isStop = false) (caller : Caller) : x.task ≠ .perform caller .stop := by
  intro kind
  rw [isStop, kind] at h
  cases h

/-- The history tells of all that is closed with a single track. -/
theorem closes_of_discard (h : x.task.isDiscard = true) : Closes x.found x.left x.entries := by
  have told {s' : Session} {es : List Entry} (hl : x.left = s') (closes : Closes x.found s' es) :
      Closes x.found x.left x.entries := by
    subst hl
    rw [entries_of_history closes.history]
    exact closes
  unfold Task.isDiscard at h
  split at h
  · next caller n kind =>
    have began : Closes x.found (x.found.log (.began (.closeTrack n))) [.began (.closeTrack n)] :=
      .of_quiet rfl (.cons rfl .nil) rfl rfl
    have hl : x.left = (Task.step (.perform caller (.closeTrack n)) x.found).2 := by
      rw [left, kind]
    simp only [Task.step, Task.begin, Task.whole_eq] at hl
    split at hl
    · next t known =>
      cases hc : (x.found.log (.began (.closeTrack n))).isClosed t with
      | true =>
        rw [outcome_closeTrack_of_closed hc] at hl
        exact told hl began
      | false =>
        obtain ⟨s', es, inner, ended, closes, -⟩ := closes_closeTrack hc
        rw [ended] at hl
        exact told hl (began.trans closes)
    · exact told hl began
  · cases h

theorem made_le_of_received {t : Track} (h : t ∈ x.received) : x.found.tracks.made ≤ t.serial := by
  unfold received at h
  split at h
  · next m c r _ _ =>
    cases r with
    | error f => cases h
    | ok u =>
      simp only [freshlyReceived] at h
      split at h
      · next fresh =>
        rw [List.mem_singleton.mp h]
        exact fresh.2
      · cases h
  · cases h

/-- Other than by a stop, tracks are closed one at a time. -/
theorem isClosed_left (suits : x.task.Suits x.found.role) (unstopped : x.isStop = false)
    (t : Track) : x.left.isClosed t = true ↔ x.found.isClosed t = true ∨ x.Discards t := by
  cases discard : x.task.isDiscard with
  | true =>
    rw [(closes_of_discard discard).isClosed_iff, Discards, and_iff_right discard]
  | false =>
    have same := Task.closed_step suits discard (not_stop unstopped) t.serial
    have kept : ¬ x.Discards t := by
      rintro ⟨h, -⟩
      rw [discard] at h
      cases h
    rw [or_iff_left kept, isClosed, isClosed, List.contains_iff_mem, List.contains_iff_mem]
    exact same

end Move

/-! ## Whole courses -/

namespace Reached

variable {role : Role} {past : List Move} {s : Session} {t : Track}

/-- What has been discarded is closed, and stays so. -/
theorem isClosed_of_since (h : Reached role past s)
    (discarded : Since (·.Discards t) (·.isStop = false) past) : s.isClosed t = true := by
  induction h using Reached.induct with
  | opened => exact absurd discarded not_since_nil
  | moved past x earlier _ suits ih =>
    rcases since_concat.mp discarded with now | ⟨unstopped, before⟩
    · exact (x.isClosed_left suits (Move.isStop_of_discards now) t).mpr (.inr now)
    · exact (x.isClosed_left suits unstopped t).mpr (.inl (ih before))

/-- A registered track is open until it is discarded. -/
theorem isClosed_iff_since (h : Reached role past s) (accounted : ∀ x ∈ past, x.found.Accounted)
    (ht : t ∈ s.control.receivers) :
    s.isClosed t = true ↔ Since (·.Discards t) (·.isStop = false) past := by
  refine ⟨?_, h.isClosed_of_since⟩
  induction h using Reached.induct with
  | opened => cases ht
  | moved past x earlier _ suits ih =>
    intro closed
    obtain ⟨before, now⟩ := List.forall_mem_append.mp accounted
    cases stop : x.isStop with
    | true =>
      rw [(Move.registries_left_of_isStop stop).1] at ht
      cases ht
    | false =>
      rw [since_concat, stop, eq_self, true_and]
      rw [(x.registries_left suits earlier.serial_lt stop).receivers] at ht
      refine ((x.isClosed_left suits stop t).mp closed).symm.imp_right fun closed => ?_
      rcases List.mem_append.mp ht with ht | ht
      · exact ih before ht closed
      -- The number of a track that the move has made was not given to any track before.
      · have made := now x (List.mem_singleton_self x)
        exact absurd (made.closed_lt closed) (Nat.not_lt.mpr (x.made_le_of_received ht))

end Reached

/-- What is handed out comes from the registry, or it is the next track that is made. -/
theorem served_or_next {m : MediaSection} {c : Codec} {s s' : Session} {t : Track}
    (h : Negotiation m c s (.ok t, s')) :
    s.served? m c = some t ∨ t.serial = s.tracks.made := by
  cases h with
  | served t hit => exact .inl hit
  | assigned | allotted => exact .inr rfl

/-- A request is granted with a closed track exactly if the registry serves it with a track that
somebody has discarded since the last stop. -/
theorem Course.granted_closed_iff (r : Course) (past later : List Move) (x : Move) (t : Track)
    (moves : r.moves = past ++ x :: later) (granted : x.result? = some (.ok t)) :
    x.left.isClosed t = true ↔
      x.ServedBy t ∧ Since (·.Discards t) (·.isStop = false) past := by
  obtain ⟨found, -⟩ := (moves ▸ r.reached).before
  have accounted : ∀ y ∈ past ++ x :: later, y.found.Accounted := by
    intro y hy
    exact (r.accounted y (moves ▸ hy)).1
  obtain ⟨⟨m, c⟩, kind, -⟩ := Option.map_eq_some_iff.mp granted
  obtain ⟨o, s', hr, hl, negotiation⟩ := x.negotiation kind
  obtain rfl := Option.some.inj (granted.symm.trans hr)
  have same : x.left.isClosed t = x.found.isClosed t := by
    rw [hl, isClosed, Task.closed_of_negotiation negotiation,
      Task.closed_underway, isClosed]
  have hu := Task.aside_underway x.task x.found
  rw [same]
  refine ⟨fun closed => ?_, fun h => found.isClosed_of_since h.2⟩
  rcases served_or_next negotiation with hit | next
  · rw [served?_of_control hu.control] at hit
    refine ⟨Move.servedBy_of_hit kind hit, ?_⟩
    have before : ∀ y ∈ past, y.found.Accounted :=
      fun y hy => accounted y (List.mem_append_left _ hy)
    exact (found.isClosed_iff_since before (mem_receivers_of_served? hit)).mp closed
  · have now := accounted x (List.mem_append_right _ List.mem_cons_self)
    have fresh : x.found.tracks.made ≤ t.serial := next ▸ hu.made
    exact absurd (now.closed_lt closed) (Nat.not_lt.mpr fresh)

/-- A server of two callers that share a track. One of them closes it, and the other one asks for
it after that. -/
def Course.sharedServer : Course :=
  { role := .passiveConsumer, descriptor := default, settings := default, monitored := false
    peer := {}, script := {}
    callers := [[.getTrack videoSection videoRequest, .closeTrack 0],
      [.getTrack videoSection videoRequest]]
    schedule := [0, 0, 0, 0, 0, 1] }

/-- The move with which the other one asks. -/
def sharedServerRequest : Move := Course.sharedServer.moves.get ⟨5, by decide +kernel⟩

/-- Requests can be granted with tracks that are closed already. -/
theorem Course.sharedServer_granted_closed :
    ¬ ∀ r : Course, ∀ x ∈ r.moves, ∀ t, x.result? = some (.ok t) → x.left.isClosed t = false := by
  intro all
  have opened := all sharedServer sharedServerRequest (List.get_mem _ _)
    ⟨0, videoSection, videoRequest, 0⟩ (by decide +kernel)
  exact absurd opened (by decide +kernel)

theorem Course.sharedServer_granted_discarded :
    ∃ past later, sharedServer.moves = past ++ sharedServerRequest :: later ∧
      sharedServerRequest.ServedBy ⟨0, videoSection, videoRequest, 0⟩ ∧
      Since (·.Discards ⟨0, videoSection, videoRequest, 0⟩) (·.isStop = false) past := by
  have split : sharedServer.moves =
      sharedServer.moves.take 5 ++ sharedServerRequest :: sharedServer.moves.drop 6 := by
    have rest : sharedServer.moves.drop 5 = sharedServerRequest :: sharedServer.moves.drop 6 :=
      List.drop_eq_getElem_cons (by decide +kernel)
    rw [← rest, List.take_append_drop]
  have closed : sharedServerRequest.left.isClosed ⟨0, videoSection, videoRequest, 0⟩ = true := by
    decide +kernel
  exact ⟨_, _, split, (granted_closed_iff sharedServer _ _ sharedServerRequest _ split
    (by decide +kernel)).mp closed⟩

end RtspControl
