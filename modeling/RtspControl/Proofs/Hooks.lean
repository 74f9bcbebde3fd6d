import RtspControl.Proofs.Doings

/-!
# Tracks that close each other

Hooks may close any tracks, in cycles too, and leave further hooks with any, while a track is being
closed and its own hooks run. Whatever they are, and whatever is done to tracks from outside, every
operation returns, and what happens to the tracks keeps the laws of `Ledger`:
`Session.closings_lawful`.

An operation either leaves an answer at once, or it closes a track that is open, and then it is the
hooks of that track that come first (`Performs`). A hook has less work before it than the operation
that led to it, so that its own operations may be taken to have a ledger already
(`Chore.does_operation`).
-/

namespace RtspControl

open Session

/-- Of tasks in a row neither the first one nor the others, when it is their turn, have more work
before them than there is. -/
theorem Agenda.total_lt_of_cons {τ σ : Type} (A : Agenda τ σ) {bound : Nat} {t : τ} {ts : List τ}
    {s : σ} (h : A.total (t :: ts) s < bound) :
    A.total [t] s < bound ∧ A.total ts (A.run [t] s) < bound := by
  have later := A.load_run_le [t] s
  simp only [total, totalOf_cons, totalOf_nil] at h later ⊢
  omega

/-! ## Parts of a history and their ledgers -/

/-- Parts of a history tell what has come after `s`, and there is a ledger of what happens to tracks
in them, while `closing` runs its hooks. -/
structure Does (closing : Option Track) (s s' : Session) (ns : List Node) : Prop where
  tells : Tells s s' ns
  calm : ∀ n ∈ ns, n.Calm
  ungranted : ∀ n ∈ ns, n.granted? = none
  ledger : ∀ known, s'.tracks.known <+: known →
    Ledger (closing.map Track.serial) s.tracks s'.tracks (doingsAll known closing ns)

namespace Does

variable {closing : Option Track} {s s₁ s' : Session} {ns ms : List Node}

theorem known (h : Does closing s s' ns) : s.tracks.known <+: s'.tracks.known :=
  (h.ledger _ List.prefix_rfl).known

theorem nil (s : Session) : Does none s s [] :=
  ⟨rfl, List.forall_mem_nil _, List.forall_mem_nil _, fun _ _ => .nil _⟩

theorem append (h : Does closing s s₁ ns) (h' : Does closing s₁ s' ms) :
    Does closing s s' (ns ++ ms) := by
  refine ⟨h.tells.trans h'.tells, List.forall_mem_append.mpr ⟨h.calm, h'.calm⟩,
    List.forall_mem_append.mpr ⟨h.ungranted, h'.ungranted⟩, fun known more => ?_⟩
  rw [doingsAll_append h.ungranted]
  exact (h.ledger known (h'.known.trans more)).trans (h'.ledger known more)

end Does

/-! ## Looking at tracks -/

theorem known_acquaintAll (ts : List Track) (s : Session) :
    s.tracks.known <+: (s.acquaintAll ts).tracks.known := by
  unfold Session.acquaintAll
  induction ts generalizing s with
  | nil => exact List.prefix_rfl
  | cons t ts ih =>
    refine List.IsPrefix.trans ?_ (ih (s.acquaint t))
    unfold acquaint
    split
    · exact List.prefix_rfl
    · exact List.prefix_append _ _

theorem hooks_acquaintAll (ts : List Track) (s : Session) :
    (s.acquaintAll ts).tracks.hooks = s.tracks.hooks := by
  unfold Session.acquaintAll
  induction ts generalizing s with
  | nil => rfl
  | cons t ts ih =>
    rw [List.foldl_cons, ih, acquaint]
    split <;> rfl

/-- Who has asked for something sees afterwards which of the tracks are closed. -/
theorem ledger_conclude (a : Answer) (locked : Bool) (s : Session) :
    ∃ v, (s.conclude a locked).history = .ended a v :: s.history ∧
      s.tracks.known <+: (s.conclude a locked).tracks.known ∧
      Ledger none s.tracks (s.conclude a locked).tracks [.saw v.closed] := by
  have more := known_acquaintAll (a.tracks ++ if locked then [] else
    s.control.receivers ++ s.control.senders) s
  refine ⟨_, (closes_conclude a locked s).history, more,
    .of_seen more (closed_acquaintAll _ s) (hooks_acquaintAll _ s) ?_⟩
  intro t ht
  simp only [Session.view, List.mem_filter, isClosed, closed_acquaintAll, List.contains_iff_mem]
  exact and_iff_right (more.subset ht)

/-! ## Operations -/

/-- What an operation has done when there is nothing left to do but to answer `a`. -/
structure Performs (op : Operation) (s s' : Session) (a : Answer) (inner : List Node) : Prop where
  tells : Tells s s' inner
  calm : ∀ n ∈ inner, n.Calm
  ledger : ∀ known, s'.tracks.known <+: known → Ledger none s.tracks s'.tracks
    (op.begun known a ++ doingsAll known none inner ++ op.finished known a)

namespace Performs

variable {op : Operation} {s s' : Session} {a : Answer} {inner : List Node}

theorem concluded (h : Performs op (s.log (.began op)) s' a inner) (locked : Bool) :
    ∃ v, Does none s (s'.conclude a locked) [.span (.began op) inner (.ended a v)] := by
  obtain ⟨v, history, more, seen⟩ := ledger_conclude a locked s'
  refine ⟨v, h.tells.span _ history, List.forall_mem_singleton.mpr (.operation op a v h.calm),
    List.forall_mem_singleton.mpr rfl, fun known longer => ?_⟩
  rw [doingsAll_singleton, Node.doings]
  exact (h.ledger known (more.trans longer)).trans seen

/-- What does nothing to any track. -/
theorem of_idle (history : s'.history = s.history) (tracks : s'.tracks = s.tracks)
    (begun : ∀ known, op.begun known a = []) (finished : ∀ known, op.finished known a = []) :
    Performs op s s' a [] := by
  refine ⟨history, List.forall_mem_nil _, fun known _ => ?_⟩
  rw [begun, finished, tracks]
  exact .nil _

/-- What is named is no track that is known. -/
theorem of_missed {n : Nat} (ht : s.track? n = none)
    (begun : ∀ known, op.begun known .noTrack = [.missed n]) : Performs op s s .noTrack [] := by
  refine ⟨rfl, List.forall_mem_nil _, fun known _ => ?_⟩
  have finished : op.finished known .noTrack = [] := by cases op <;> rfl
  rw [begun, finished]
  exact .of_missed (List.getElem?_eq_none_iff.mp ht)

theorem getElem?_of_track? {known : List Track} {n : Nat} {t : Track}
    (ht : s.track? n = some t) (more : s.tracks.known <+: known) : known[n]? = some t := by
  obtain ⟨later, rfl⟩ := more
  exact (List.getElem?_append_left (List.getElem?_eq_some_iff.mp ht).1).trans ht

/-- Operations that need no lock do nothing to tracks but to leave hooks with them. -/
theorem of_lockFree {r : Answer × Session} (free : s.lockFree? op = some r) :
    Performs op s r.2 r.1 [] := by
  cases op <;> simp only [lockFree?, Option.some.injEq, reduceCtorEq] at free <;> subst free
  case describeTrack n | listTrack n =>
    unfold withTrack
    split <;> exact of_idle rfl rfl (fun _ => rfl) fun _ => rfl
  case onClose n label ops =>
    unfold withTrack
    split
    · next t ht =>
      refine ⟨rfl, List.forall_mem_nil _, fun known more => ?_⟩
      have place := getElem?_of_track? ht more
      simp only [Operation.begun, Operation.finished, place]
      exact .of_hooked List.prefix_rfl rfl rfl
    · next ht => exact of_missed ht fun _ => rfl
  case expectFault | setChannel | pushStep | pushReaction =>
    exact of_idle rfl rfl (fun _ => rfl) fun _ => rfl

/-- A track that is closed already. -/
theorem of_closed {n : Nat} {t : Track} (ht : s.track? n = some t) (closed : s.isClosed t = true) :
    Performs (.closeTrack n) s s (.failed (.trackClosed t.channel)) [] := by
  refine ⟨rfl, List.forall_mem_nil _, fun known more => ?_⟩
  have place := getElem?_of_track? ht more
  simp only [Operation.begun, Operation.finished, place]
  exact .refused (List.contains_iff_mem.mp closed)

end Performs

/-! ## Hooks -/

/-- While `t` is being closed, these hooks of it run, one after the other. -/
structure Runs (t : Track) (hooks : List Hook) (s s' : Session) (ns : List Node) : Prop
    extends Does (some t) s s' ns where
  ran : ∀ known, s'.tracks.known <+: known →
    runsIn t.serial (doingsAll known (some t) ns) = runsOf t hooks

theorem grants_markClosed {t : Track} {s : Session} (opened : s.isClosed t = false) :
    s.tracks.Grants (s.markClosed t).tracks t := by
  refine ⟨?_, rfl, rfl, ?_⟩
  · intro closed
    rw [isClosed, List.contains_iff_mem.mpr closed] at opened
    cases opened
  · intro m other
    refine congrArg (List.map Prod.snd) ?_
    rw [markClosed, List.filter_filter]
    refine List.filter_congr fun h _ => ?_
    rw [Bool.and_eq_left_iff_imp]
    intro same
    simpa [beq_iff_eq.mp same] using other

theorem Performs.of_open {n : Nat} {t : Track} {s s' : Session} {ns : List Node}
    (ht : s.track? n = some t) (opened : s.isClosed t = false)
    (runs : Runs t (s.hooksOf t) ((s.markClosed t).log (.note (.trackClosed t))) s' ns) :
    Performs (.closeTrack n) s s' .done (.entry (.note (.trackClosed t)) :: ns) := by
  have noted : Tells s ((s.markClosed t).log (.note (.trackClosed t)))
      [.entry (.note (.trackClosed t))] := rfl
  refine ⟨noted.trans runs.tells, List.forall_mem_cons.mpr ⟨.entry rfl, runs.calm⟩, ?_⟩
  intro known more
  have place := getElem?_of_track? ht (runs.known.trans more)
  simp only [Operation.begun, Operation.finished, place]
  exact Ledger.closing (grants_markClosed opened) (runs.ledger known more) (runs.ran known more)

namespace Chore

/-- An operation of a hook returns, and there is a ledger of it. -/
def OperationDoes (op : Operation) (s : Session) : Prop :=
  ∃ inner a v, Does none s (agenda.run [.operation op] s) [.span (.began op) inner (.ended a v)]

theorem does_operations {bound : Nat}
    (each : ∀ op s, agenda.total [.operation op] s < bound → OperationDoes op s)
    (ops : List Operation) (s : Session) (h : agenda.total (ops.map .operation) s < bound) :
    ∃ ns, Does none s (agenda.run (ops.map .operation) s) ns ∧
      ns.filterMap Node.operation? = ops := by
  induction ops generalizing s with
  | nil =>
    rw [List.map_nil, agenda.run_nil]
    exact ⟨[], .nil s, rfl⟩
  | cons op ops ih =>
    rw [List.map_cons] at h ⊢
    obtain ⟨single, others⟩ := agenda.total_lt_of_cons h
    obtain ⟨inner, a, v, first⟩ := each op s single
    obtain ⟨ns, later, told⟩ := ih _ others
    rw [← List.singleton_append, agenda.run_append]
    exact ⟨_, first.append later, congrArg (op :: ·) told⟩

/-- A hook runs its operations from its beginning to its end. -/
theorem runs_hook {bound : Nat}
    (each : ∀ op s, agenda.total [.operation op] s < bound → OperationDoes op s) {t : Track}
    (hook : Hook) (s : Session) (closed : t.serial ∈ s.tracks.closed)
    (h : agenda.total [.beginHook hook] s < bound) :
    ∃ ns, Runs t [hook] s (agenda.run [.beginHook hook] s) ns := by
  have less : agenda.total (hook.operations.map .operation) (s.log .hookBegan) < bound := by
    refine Nat.lt_trans (Nat.lt_of_le_of_lt ?_ (agenda.total_step_lt (.beginHook hook) [] s)) h
    simp only [Agenda.total, agenda, step, totalOf_append]
    omega
  obtain ⟨ns, does, told⟩ := does_operations each hook.operations (s.log .hookBegan) less
  have run : agenda.run [.beginHook hook] s =
      (agenda.run (hook.operations.map .operation) (s.log .hookBegan)).log
        (.hookEnded hook.label) := by
    rw [agenda.run_cons, List.append_nil]
    exact (agenda.run_append _ _ _).trans (run_endHook _ _)
  have doings (known : List Track) : doingsAll known (some t)
      [.span .hookBegan ns (.hookEnded hook.label)] =
        [.began (some t) hook] ++ (doingsAll known none ns ++ [.ended (some t) hook]) := by
    rw [doingsAll_singleton, Node.doings, told]
    rfl
  rw [run]
  refine ⟨[.span .hookBegan ns (.hookEnded hook.label)],
    ⟨does.tells.span _ rfl, List.forall_mem_singleton.mpr (.hook hook.label does.calm),
      List.forall_mem_singleton.mpr rfl, fun known more => ?_⟩, fun known more => ?_⟩
  · have ledger := does.ledger known more
    rw [doings]
    exact (Ledger.of_run closed (.inl rfl)).trans
      ((ledger.weaken closed).trans (.of_run (ledger.mem_of_mem closed) (.inr rfl)))
  · have ledger := does.ledger known more
    have idle := ledger.idle t.serial (ledger.not_granted_of_mem closed)
      (Option.some_ne_none _).symm
    rw [doings, runsIn_append, runsIn_append, idle]
    simp [runsIn, Doing.isRunOf, runsOf]

theorem runs_hooks {bound : Nat}
    (each : ∀ op s, agenda.total [.operation op] s < bound → OperationDoes op s) {t : Track}
    (hooks : List Hook) (s : Session) (closed : t.serial ∈ s.tracks.closed)
    (h : agenda.total (hooks.map .beginHook) s < bound) :
    ∃ ns, Runs t hooks s (agenda.run (hooks.map .beginHook) s) ns := by
  induction hooks generalizing s with
  | nil =>
    rw [List.map_nil, agenda.run_nil]
    refine ⟨[], ⟨rfl, List.forall_mem_nil _, List.forall_mem_nil _, fun _ _ => ?_⟩, fun _ _ => rfl⟩
    exact (Ledger.nil _).weaken closed
  | cons hook hooks ih =>
    rw [List.map_cons] at h ⊢
    obtain ⟨single, others⟩ := agenda.total_lt_of_cons h
    obtain ⟨ns, first⟩ := runs_hook each hook s closed single
    have still := (first.ledger _ List.prefix_rfl).mem_of_mem closed
    obtain ⟨ms, later⟩ := ih _ still others
    have run := agenda.run_append [.beginHook hook] (hooks.map .beginHook) s
    rw [List.singleton_append] at run
    rw [run]
    refine ⟨ns ++ ms, first.toDoes.append later.toDoes, fun known more => ?_⟩
    rw [doingsAll_append first.ungranted, runsIn_append,
      first.ran known (later.known.trans more), later.ran known more]
    rfl

/-- An operation of a hook leaves an answer, or the hooks of a track come first that it closes. -/
theorem perform_does {bound : Nat}
    (each : ∀ op s, agenda.total [.operation op] s < bound → OperationDoes op s) (op : Operation)
    (s : Session) (h : agenda.total (perform op s).1 (perform op s).2 < bound) :
    ∃ a s' inner, Performs op s s' a inner ∧
      agenda.run (perform op s).1 (perform op s).2 = s'.conclude a true := by
  cases op with
  | closeTrack n =>
    simp only [perform] at h ⊢
    cases known : s.track? n with
    | none => exact ⟨_, s, [], .of_missed known fun _ => rfl, run_conclude _ s⟩
    | some t =>
      cases closed : s.isClosed t with
      | true =>
        simp only [shut_of_closed closed]
        exact ⟨_, s, [], .of_closed known closed, run_conclude _ s⟩
      | false =>
        simp only [known, shut_of_open closed] at h ⊢
        -- The answer waits until the hooks have run, and only they have operations.
        have less : agenda.total ((s.hooksOf t).map .beginHook)
            ((s.markClosed t).log (.note (.trackClosed t))) < bound := by
          refine Nat.lt_of_le_of_lt ?_ h
          simp only [Agenda.total, totalOf_append]
          omega
        obtain ⟨ns, runs⟩ := runs_hooks each (s.hooksOf t) _ List.mem_cons_self less
        rw [agenda.run_append]
        exact ⟨_, _, _, .of_open known closed runs, run_conclude _ _⟩
  | onClose n label ops =>
    exact ⟨_, _, [], .of_lockFree (r := (_, _)) rfl, run_conclude _ _⟩
  | _ =>
    simp only [perform]
    split
    · next a s' free => exact ⟨a, s', [], .of_lockFree free, run_conclude a s'⟩
    · exact ⟨_, s, [], .of_idle rfl rfl (fun _ => rfl) fun _ => rfl, run_conclude _ s⟩

/-- Whatever an operation of a hook leads to, there is a ledger of it. -/
theorem does_operation (op : Operation) (s : Session) : OperationDoes op s := by
  induction hb : agenda.total [.operation op] s using Nat.strongRecOn generalizing op s with
  | _ bound ih =>
    subst hb
    -- Whatever the operation leads to has less before it than the operation itself.
    have less := agenda.total_step_lt (.operation op) [] s
    rw [List.append_nil] at less
    obtain ⟨a, s', inner, performs, run⟩ := perform_does
      (fun op' s' h => ih _ h op' s' rfl) op (s.log (.began op)) less
    obtain ⟨v, does⟩ := performs.concluded true
    refine ⟨inner, a, v, ?_⟩
    rw [agenda.run_cons, List.append_nil]
    exact run ▸ does

end Chore

/-! ## Operations from outside -/

/-- Can this be done without the connection, by a hook too? -/
def Operation.needsNoLock : Operation → Bool
  | .describeTrack _ | .listTrack _ | .closeTrack _ | .onClose _ _ _ => true
  | .expectFault _ | .setChannel _ | .pushStep _ _ | .pushReaction _ => true
  | _ => false

namespace Task

theorem performs_begin (caller : Caller) {op : Operation} (h : op.needsNoLock = true)
    (s : Session) :
    ∃ a s' inner, begin caller op s = ([.conclude a], s') ∧ Performs op s s' a inner := by
  cases op with
  | closeTrack n =>
    simp only [begin]
    cases known : s.track? n with
    | none => exact ⟨_, s, [], rfl, .of_missed known fun _ => rfl⟩
    | some t =>
      simp only [whole_eq]
      cases closed : s.isClosed t with
      | true =>
        rw [outcome_closeTrack_of_closed closed]
        exact ⟨_, s, [], rfl, .of_closed known closed⟩
      | false =>
        obtain ⟨ns, runs⟩ := Chore.runs_hooks (fun op s _ => Chore.does_operation op s)
          (s.hooksOf t) ((s.markClosed t).log (.note (.trackClosed t))) List.mem_cons_self
          (Nat.lt_succ_self _)
        rw [outcome_closeTrack_of_open closed]
        exact ⟨_, _, _, rfl, .of_open known closed runs⟩
  | describeTrack | listTrack | onClose | expectFault | setChannel | pushStep | pushReaction =>
    exact ⟨_, _, [], rfl, .of_lockFree (r := (_, _)) rfl⟩
  | _ => cases h

/-- An operation that needs no lock returns, and there is a ledger of it. -/
theorem does_perform (caller : Caller) {op : Operation} (h : op.needsNoLock = true)
    (s : Session) :
    ∃ inner a v, Does none s (agenda.run [.perform caller op] s)
      [.span (.began op) inner (.ended a v)] := by
  obtain ⟨a, s', inner, begun, performs⟩ := performs_begin caller h (s.log (.began op))
  obtain ⟨v, does⟩ := performs.concluded false
  have stepped : agenda.step (.perform caller op) s = ([.conclude a], s') := begun
  have run : agenda.run [.perform caller op] s = s'.conclude a false := by
    rw [agenda.run_cons, List.append_nil, stepped]
    exact Agenda.run_singleton_of_step rfl
  exact ⟨inner, a, v, run ▸ does⟩

end Task

/-! ## Runs -/

namespace Session

/-- What has happened since a session was `s`, as far as the history tells. -/
def entriesSince (s s' : Session) : List Entry :=
  s'.history.take (s'.history.length - s.history.length)

/-- What has happened to tracks since then. -/
def doingsSince (s s' : Session) : List Doing :=
  doingsAll s'.tracks.known none (outline (s.entriesSince s'))

theorem entriesSince_of_history {s s' : Session} {es : List Entry}
    (history : s'.history = es ++ s.history) : s.entriesSince s' = es := by
  rw [entriesSince, history, List.length_append, Nat.add_sub_cancel, List.take_left]

theorem does_perform (ops : List Operation) (h : ∀ op ∈ ops, op.needsNoLock = true)
    (s : Session) :
    ∃ ns, Does none s (perform ops s) ns ∧
      List.Forall₂ (fun op n => ∃ inner a v, n = .span (.began op) inner (.ended a v)) ops ns := by
  unfold perform
  induction ops generalizing s with
  | nil =>
    rw [List.map_nil, Task.agenda.run_nil]
    exact ⟨[], .nil s, .nil⟩
  | cons op ops ih =>
    obtain ⟨hop, hops⟩ := List.forall_mem_cons.mp h
    obtain ⟨inner, a, v, first⟩ := Task.does_perform .outside hop s
    obtain ⟨ns, later, told⟩ := ih hops (Task.agenda.run [.perform .outside op] s)
    rw [List.map_cons, ← List.singleton_append, Task.agenda.run_append]
    exact ⟨_, first.append later, .cons ⟨inner, a, v, rfl⟩ told⟩

/-- Whatever operations close tracks and leave hooks with them, and whatever the hooks do in their
turn, each operation is answered, everything that began has ended, and what happened to tracks keeps
the laws of the ledger. -/
theorem closings_lawful (s : Session) (ops : List Operation)
    (h : ∀ op ∈ ops, op.needsNoLock = true) :
    (perform ops s).history = s.entriesSince (perform ops s) ++ s.history ∧
      (∀ n ∈ outline (s.entriesSince (perform ops s)), n.Returned) ∧
      List.Forall₂ (fun op n => ∃ inner a v, n = .span (.began op) inner (.ended a v)) ops
        (outline (s.entriesSince (perform ops s))) ∧
      Ledger none s.tracks (perform ops s).tracks (s.doingsSince (perform ops s)) := by
  obtain ⟨ns, does, told⟩ := does_perform ops h s
  have returned : ∀ n ∈ ns, n.Returned := fun n hn => (does.calm n hn).returned
  have since : s.entriesSince (perform ops s) = entriesAll ns :=
    entriesSince_of_history does.tells
  rw [doingsSince, since, outline_entriesAll returned]
  exact ⟨does.tells, returned, told, does.ledger _ List.prefix_rfl⟩

/-- Two tracks that nobody has closed. -/
def twoTracks : Session :=
  perform [.newTrack audioSection audioRequest 0, .newTrack audioSection audioRequest 2]
    (opened .activeProducer default default false)

/-- Hooks by which each of the tracks closes the other one and itself, and leaves hooks with them
while that goes on. -/
def twoTracksClosings : List Operation :=
  [.onClose 0 "first" [.closeTrack 1, .onClose 1 "late" [.closeTrack 1], .closeTrack 0],
    .onClose 1 "second" [.onClose 0 "too late" [], .closeTrack 0],
    .onClose 0 "third" [.closeTrack 1], .closeTrack 0, .closeTrack 1]

/-- The first track is closed first and answers last. The hooks that come too late never run. -/
theorem twoTracks_closings :
    (∀ op ∈ twoTracksClosings, op.needsNoLock = true) ∧
      Ledger none twoTracks.tracks (perform twoTracksClosings twoTracks).tracks
        (twoTracks.doingsSince (perform twoTracksClosings twoTracks)) ∧
      (outline (twoTracks.entriesSince (perform twoTracksClosings twoTracks))).length = 5 ∧
      grantedIn (twoTracks.doingsSince (perform twoTracksClosings twoTracks)) = [0, 1] ∧
      succeededIn (twoTracks.doingsSince (perform twoTracksClosings twoTracks)) = [1, 0] ∧
      (twoTracks.doingsSince (perform twoTracksClosings twoTracks)).filterMap Doing.begun? =
        [(some 0, "first"), (some 1, "second"), (some 0, "third")] := by
  have lockFree : ∀ op ∈ twoTracksClosings, op.needsNoLock = true := by decide +kernel
  obtain ⟨-, -, told, ledger⟩ := closings_lawful twoTracks twoTracksClosings lockFree
  exact ⟨lockFree, ledger, told.length_eq.symm, by decide +kernel, by decide +kernel,
    by decide +kernel⟩

end Session

end RtspControl
