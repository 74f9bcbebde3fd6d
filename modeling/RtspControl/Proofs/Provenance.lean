import RtspControl.Proofs.Closings

/-!
# Where tracks come from

A session counts the tracks that it makes, and a track carries the count as its number. So the
next track is another one than all that are known, registered or closed, as long as each of these
has been made. `Session.Accounted` says that they have, and `Scene.accounted` that this holds all
along in a course: a task can bring into a session only those tracks that it carries as the part of
an answer, and these come from the session in their turn.
-/

namespace RtspControl

open Session

namespace Session

/-- Have these tracks been made? -/
def HasMade (s : Session) (ts : List Track) : Prop := ∀ t ∈ ts, t.serial < s.tracks.made

/-- All tracks that a session has to do with have been made in it. -/
structure Accounted (s : Session) : Prop where
  known : s.HasMade s.tracks.known
  registered : s.HasMade s.control.registered
  closed : ∀ n ∈ s.tracks.closed, n < s.tracks.made

section

variable {s s' : Session} {t : Track} {ts : List Track}

theorem HasMade.nil (s : Session) : s.HasMade [] := List.forall_mem_nil _

theorem HasMade.append {us : List Track} (h : s.HasMade ts) (h' : s.HasMade us) :
    s.HasMade (ts ++ us) :=
  List.forall_mem_append.mpr ⟨h, h'⟩

theorem HasMade.mono (h : s.HasMade ts) (more : s.tracks.made ≤ s'.tracks.made) :
    s'.HasMade ts :=
  fun t ht => Nat.lt_of_lt_of_le (h t ht) more

namespace Accounted

/-- Nothing is accounted for by what the history says, or by what the peer does. -/
theorem of_eq (h : s.Accounted) (tracks : s'.tracks = s.tracks)
    (registered : s.HasMade s'.control.registered) : s'.Accounted := by
  refine ⟨?_, ?_, ?_⟩
  · rw [HasMade, tracks]
    exact h.known
  · rw [HasMade, tracks]
    exact registered
  · rw [tracks]
    exact h.closed

theorem track? {n : Nat} (h : s.Accounted) (known : s.track? n = some t) :
    t.serial < s.tracks.made :=
  h.known t (List.mem_of_getElem? known)

theorem closed_lt (h : s.Accounted) (closed : s.isClosed t = true) :
    t.serial < s.tracks.made :=
  h.closed t.serial (List.contains_iff_mem.mp closed)

theorem acquaint (h : s.Accounted) (ht : t.serial < s.tracks.made) :
    (s.acquaint t).Accounted ∧ (s.acquaint t).tracks.made = s.tracks.made := by
  unfold Session.acquaint
  split
  · exact ⟨h, rfl⟩
  · exact ⟨⟨h.known.append (List.forall_mem_singleton.mpr ht), h.registered, h.closed⟩, rfl⟩

theorem acquaintAll (h : s.Accounted) (hts : s.HasMade ts) :
    (s.acquaintAll ts).Accounted ∧ (s.acquaintAll ts).tracks.made = s.tracks.made := by
  unfold Session.acquaintAll
  induction ts generalizing s with
  | nil => exact ⟨h, rfl⟩
  | cons t ts ih =>
    obtain ⟨ht, hts⟩ := List.forall_mem_cons.mp hts
    obtain ⟨h', made⟩ := h.acquaint ht
    obtain ⟨h'', made'⟩ := ih h' (fun u hu => made ▸ hts u hu)
    exact ⟨h'', made'.trans made⟩

theorem log (h : s.Accounted) (e : Entry) : (s.log e).Accounted := h.of_eq rfl h.registered

theorem conclude {a : Answer} (h : s.Accounted) (ha : s.HasMade a.tracks) (locked : Bool) :
    (s.conclude a locked).Accounted := by
  refine Accounted.log (h.acquaintAll (ha.append ?_)).1 _
  cases locked with
  | true => exact .nil s
  | false => exact h.registered

theorem markClosed (h : s.Accounted) (ht : t.serial < s.tracks.made) :
    (s.markClosed t).Accounted :=
  ⟨h.known, h.registered, List.forall_mem_cons.mpr ⟨ht, h.closed⟩⟩

/-- A new track is not accounted for before it is made. -/
theorem admitting (h : s.Accounted) (next : t.serial = s.tracks.made) :
    (s.admitting t).Accounted := by
  have more {us : List Track} (hus : s.HasMade us) : (s.admitting t).HasMade us :=
    hus.mono (Nat.le_succ _)
  refine ⟨more h.known, ?_, fun n hn => Nat.lt_succ_of_lt (h.closed n hn)⟩
  obtain ⟨receivers, senders⟩ := List.forall_mem_append.mp h.registered
  refine HasMade.append (HasMade.append (more receivers) ?_) (more senders)
  split
  · refine List.forall_mem_singleton.mpr ?_
    rw [next]
    exact Nat.lt_succ_self _
  · exact .nil _

/-- What needs no lock answers with no track that is not known. -/
theorem lockFree {op : Operation} {r : Answer × Session} (h : s.Accounted)
    (free : s.lockFree? op = some r) : r.2.Accounted ∧ r.2.HasMade r.1.tracks := by
  have still {r : Answer × Session} (tracks : r.2.tracks.known = s.tracks.known)
      (made : r.2.tracks.made = s.tracks.made) (closed : r.2.tracks.closed = s.tracks.closed)
      (control : r.2.control = s.control) (answer : s.HasMade r.1.tracks) :
      r.2.Accounted ∧ r.2.HasMade r.1.tracks := by
    refine ⟨⟨?_, ?_, ?_⟩, ?_⟩
    · rw [HasMade, tracks, made]
      exact h.known
    · rw [HasMade, control, made]
      exact h.registered
    · rw [closed, made]
      exact h.closed
    · rw [HasMade, made]
      exact answer
  cases op <;> simp only [lockFree?, Option.some.injEq, reduceCtorEq] at free <;> subst free
  case describeTrack n =>
    unfold withTrack
    split
    · next t known => exact still rfl rfl rfl rfl (List.forall_mem_singleton.mpr (h.track? known))
    · exact still rfl rfl rfl rfl (.nil s)
  case listTrack | onClose =>
    exact withTrack_cases (P := fun r => r.2.Accounted ∧ r.2.HasMade r.1.tracks)
      (still rfl rfl rfl rfl (.nil s)) fun _ => still rfl rfl rfl rfl (.nil s)
  case expectFault | setChannel | pushStep | pushReaction => exact still rfl rfl rfl rfl (.nil s)

end Accounted

end

end Session

/-! ## Closing tracks -/

namespace Chore

/-- The tracks that a chore brings along. -/
def tracks : Chore → List Track
  | .conclude a => a.tracks
  | _ => []

theorem hasMade_hooks (hooks : List Hook) (s : Session) :
    ∀ c ∈ hooks.map Chore.beginHook, s.HasMade c.tracks := by
  intro c hc
  obtain ⟨hook, -, rfl⟩ := List.mem_map.mp hc
  exact .nil s

theorem accounted_perform {s : Session} (h : s.Accounted) (op : Operation) :
    (perform op s).2.Accounted ∧ ∀ c ∈ (perform op s).1, (perform op s).2.HasMade c.tracks := by
  unfold perform
  split
  · split
    · exact ⟨h, List.forall_mem_singleton.mpr (.nil s)⟩
    · next t known =>
      cases hc : s.isClosed t with
      | true =>
        rw [shut_of_closed hc]
        exact ⟨h, List.forall_mem_singleton.mpr (.nil s)⟩
      | false =>
        rw [shut_of_open hc]
        refine ⟨(h.markClosed (h.track? known)).log _, List.forall_mem_append.mpr ⟨?_, ?_⟩⟩
        · exact hasMade_hooks _ _
        · exact List.forall_mem_singleton.mpr (.nil _)
  · split
    · next a s' free =>
      obtain ⟨h', ha⟩ := h.lockFree free
      exact ⟨h', List.forall_mem_singleton.mpr ha⟩
    · exact ⟨h, List.forall_mem_singleton.mpr (.nil s)⟩

theorem accounted_step {c : Chore} {s : Session} (h : s.Accounted) (hc : s.HasMade c.tracks) :
    (c.step s).2.Accounted ∧ ∀ c' ∈ (c.step s).1, (c.step s).2.HasMade c'.tracks := by
  cases c with
  | operation op => exact accounted_perform (h.log _) op
  | conclude a => exact ⟨h.conclude hc true, List.forall_mem_nil _⟩
  | beginHook hook =>
    refine ⟨h.log _, List.forall_mem_append.mpr ⟨?_, List.forall_mem_singleton.mpr (.nil _)⟩⟩
    intro c' hc'
    obtain ⟨op, -, rfl⟩ := List.mem_map.mp hc'
    exact .nil _
  | endHook label => exact ⟨h.log _, List.forall_mem_nil _⟩

theorem accounted_run {cs : List Chore} {s : Session} (h : s.Accounted)
    (hcs : ∀ c ∈ cs, s.HasMade c.tracks) : (agenda.run cs s).Accounted := by
  induction cs, s using agenda.run_induction with
  | nil s =>
    rw [agenda.run_nil]
    exact h
  | cons c cs s ih =>
    obtain ⟨hc, hcs⟩ := List.forall_mem_cons.mp hcs
    obtain ⟨h', next⟩ := accounted_step h hc
    rw [agenda.run_cons]
    refine ih h' (List.forall_mem_append.mpr ⟨next, ?_⟩)
    exact fun c' hc' => (hcs c' hc').mono (Apart.chore c s).made

end Chore

namespace Session.Accounted

variable {s : Session} {t : Track} {ts : List Track}

theorem closeTrack (h : s.Accounted) (ht : t.serial < s.tracks.made) :
    (outcome (closeTrack t) s).2.Accounted := by
  cases hc : s.isClosed t with
  | true =>
    rw [outcome_closeTrack_of_closed hc]
    exact h
  | false =>
    rw [outcome_closeTrack_of_open hc]
    exact Chore.accounted_run ((h.markClosed ht).log _) (Chore.hasMade_hooks _ _)

theorem closeAll (h : s.Accounted) (hts : s.HasMade ts) :
    (outcome (closeAll ts) s).2.Accounted := by
  induction ts generalizing s with
  | nil => exact h
  | cons t ts ih =>
    obtain ⟨ht, hts⟩ := List.forall_mem_cons.mp hts
    have h' := h.closeTrack ht
    have later := HasMade.mono hts (Apart.closeTrack t s).made
    unfold Session.closeAll
    rw [outcome_bind, outcome_tolerate]
    generalize outcome (Session.closeTrack t) s = o at h' later
    obtain ⟨f | ⟨⟩, s'⟩ := o
    · exact ih (h'.log _) later
    · exact ih h' later

theorem stopping {o : Except Fault Unit × Session} (h : s.Accounted) (stopping : Stopping s o) :
    o.2.Accounted := by
  have emptied : s.emptied.Accounted := h.of_eq rfl (.nil s)
  have closed : (outcome (Session.closeAll s.control.registered) s.emptied).2.Accounted :=
    emptied.closeAll h.registered
  cases stopping with
  | idle _ _ closing =>
    rw [Control.registered, closing] at closed
    exact closed
  | tornDown fault p _ _ closing =>
    rw [Control.registered, closing] at closed
    exact closed.of_eq rfl closed.registered

end Session.Accounted

/-! ## Tasks -/

namespace Task

/-- The tracks that a task brings along. -/
def tracks : Task → List Track
  | .conclude a => a.tracks
  | .fill _ _ _ _ ts => ts
  | _ => []

/-- Is all accounted for after a step, and in what it leads to? -/
def Accounts (r : List Task × Session) : Prop :=
  r.2.Accounted ∧ ∀ t ∈ r.1, r.2.HasMade t.tracks

variable {t : Task} {s : Session}

theorem accounted_underway (h : s.Accounted) (ht : s.HasMade t.tracks) :
    (t.underway s).Accounted := by
  cases t with
  | perform | handled => exact h.log _
  | fill m c next left tracks => exact (h.acquaintAll ht).1
  | _ => exact h

theorem Accounts.answer {a : Answer} (h : s.Accounted) (ha : s.HasMade a.tracks) :
    Accounts (answer a s) :=
  ⟨h, List.forall_mem_singleton.mpr ha⟩

theorem Accounts.ended {r : Except Fault Unit} (h : s.Accounted) :
    Accounts ([.conclude (.ofOutcome r)], s) := by
  refine ⟨h, List.forall_mem_singleton.mpr ?_⟩
  cases r <;> exact .nil s

theorem Accounts.performed {caller : Caller} (h : s.Accounted) (ops : List Operation) (last : Task)
    (trackless : last.tracks = []) :
    Accounts (ops.map (.perform caller) ++ [last], s) := by
  refine ⟨h, List.forall_mem_append.mpr ⟨?_, List.forall_mem_singleton.mpr ?_⟩⟩
  · intro t ht
    obtain ⟨op, -, rfl⟩ := List.mem_map.mp ht
    exact .nil s
  · rw [trackless]
    exact .nil s

theorem Accounts.delivering {last : Task} (h : Accounts ([last], s)) :
    Accounts ([.deliver, last], s) :=
  ⟨h.1, List.forall_mem_cons.mpr ⟨.nil s, h.2⟩⟩

theorem accounts_of_aside (kind : t.isAside = true) (h : s.Accounted) (ht : s.HasMade t.tracks) :
    Accounts (t.step s) := by
  cases t with
  | perform caller op =>
    have began := h.log (.began op)
    cases op with
    | connect | start | stop | reconnect | getTrack | addSender | setPhase =>
      simp only [isAside, Bool.false_eq_true] at kind
    | fill m c count => exact ⟨began, List.forall_mem_singleton.mpr (.nil _)⟩
    | newTrack m c channel =>
      have more {ts : List Track} (hts : s.HasMade ts) : ∀ u ∈ ts, u.serial < s.tracks.made + 1 :=
        fun u hu => Nat.lt_succ_of_lt (hts u hu)
      refine Accounts.answer (a := .track (s.nextTrack m c channel)) ⟨?_, ?_, ?_⟩ ?_
      · exact more h.known
      · exact more h.registered
      · exact fun n hn => Nat.lt_succ_of_lt (h.closed n hn)
      · exact List.forall_mem_singleton.mpr (Nat.lt_succ_self _)
    | closeTrack n =>
      simp only [step, begin]
      split
      · next t known =>
        rw [whole_eq]
        exact .ended (began.closeTrack (began.track? known))
      · exact .answer began (.nil _)
    | showControl =>
      simp only [step, begin, throughControl]
      split <;> exact .answer began (.nil _)
    | showRole | showTimeout | showDescriptor => exact .answer began (.nil _)
    | _ =>
      simp only [step, begin]
      split
      · next a s' free =>
        obtain ⟨h', ha⟩ := began.lockFree free
        exact .answer h' ha
      · exact .answer began (.nil _)
  | conclude a => exact ⟨h.conclude ht false, List.forall_mem_nil _⟩
  | handled result => simp only [isAside, Bool.false_eq_true] at kind
  | deliver =>
    refine ⟨h.of_eq rfl h.registered, fun t ht => ?_⟩
    obtain ⟨event, -, rfl⟩ := List.mem_map.mp ht
    exact .nil _
  | react event =>
    have shown := (h.acquaintAll h.registered).1.log (.reacting event s.control)
    simp only [step, callReaction]
    split
    · exact ⟨shown, List.forall_mem_singleton.mpr (.nil _)⟩
    · refine .performed ?_ _ .reacted rfl
      exact shown.of_eq rfl shown.registered
  | reacted => exact ⟨h.log _, List.forall_mem_nil _⟩
  | fill m c next left tracks =>
    cases left with
    | zero =>
      obtain ⟨h', made⟩ := h.acquaintAll ht
      exact .answer h' (ht.mono (Nat.le_of_eq made.symm))
    | succ left => simp [isAside] at kind

theorem accounts_runPass (handled : Option Outcome) (h : s.Accounted) :
    Accounts (runPass handled s) := by
  have left : (outcome (pass handled) s).2.Accounted := by
    have passing := outcome_pass handled s
    generalize outcome (pass handled) s = o at passing
    cases passing with
    | first | early | busy | broken => exact h
    | stopped | unplayed | played | served => exact h.of_eq rfl h.registered
  have following := following_runPass handled s
  generalize runPass handled s = r at following ⊢
  cases following with
  | ended a trackless => exact .answer left (trackless ▸ .nil _)
  | unattended a complaint trackless =>
    exact .answer (left.of_eq rfl left.registered) (trackless ▸ .nil _)
  | step step =>
    refine .performed ?_ step.operations (.handled step.result) rfl
    exact left.of_eq rfl left.registered

theorem accounted_of_negotiation {m : MediaSection} {c : Codec} {r : Except Fault Track}
    {s' : Session} (h : s.Accounted) (negotiation : Negotiation m c s (r, s')) :
    s'.Accounted ∧ ∀ t, r = .ok t → t.serial < s'.tracks.made := by
  cases negotiation with
  | served t hit =>
    have old : t ∈ s.control.registered := List.mem_append_left _ (mem_receivers_of_served? hit)
    refine ⟨h.log _, fun t' ht' => ?_⟩
    obtain rfl := Except.ok.inj ht'
    exact h.registered t old
  | refused | unbuilt => exact ⟨h.of_eq rfl h.registered, nofun⟩
  | unassigned f p miss client direction prepared =>
    refine ⟨h.of_eq prepared.tracks ?_, nofun⟩
    rw [control_heard, prepared.control]
    exact h.registered
  | @assigned channel p s₁ es miss client direction prepared =>
    have ready : (s₁.inPhase .ready).Accounted := by
      refine h.of_eq prepared.tracks ?_
      show s.HasMade (s₁.control.receivers ++ s₁.control.senders)
      rw [prepared.control]
      exact h.registered
    have next : s.tracks.made = s₁.tracks.made := congrArg TrackTable.made prepared.tracks.symm
    have made := ready.admitting (t := s.nextTrack m c channel) next
    refine ⟨made.of_eq rfl made.registered, fun t' ht' => ?_⟩
    obtain rfl := Except.ok.inj ht'
    show s.tracks.made < s₁.tracks.made + 1
    rw [next]
    exact Nat.lt_succ_self _
  | allotted channel =>
    refine ⟨(h.admitting (t := s.nextTrack m c channel) rfl).log _, fun t' ht' => ?_⟩
    obtain rfl := Except.ok.inj ht'
    exact Nat.lt_succ_self _

theorem hasMade_reply {r : Except Fault Track} (ht : s.HasMade t.tracks)
    (granted : ∀ u, r = .ok u → u.serial < s.tracks.made) : s.HasMade (t.reply r).tracks := by
  have single : s.HasMade (Task.conclude (trackAnswer r)).tracks := by
    cases r with
    | error f => exact .nil s
    | ok u => exact List.forall_mem_singleton.mpr (granted u rfl)
  cases t with
  | fill m c next left tracks =>
    cases left with
    | zero => exact single
    | succ left =>
      cases r with
      | error f => exact ht
      | ok u => exact ht.append (List.forall_mem_singleton.mpr (granted u rfl))
  | _ => exact single

/-- A task that finds everything accounted for leaves it so. -/
theorem accounts_step (suits : t.Suits s.role) (h : s.Accounted) (ht : s.HasMade t.tracks) :
    Accounts (t.step s) := by
  induction t using kinds with
  | aside t kind => exact accounts_of_aside kind h ht
  | connect caller =>
    simp only [step, begin, whole_eq]
    have connecting := outcome_connect (s.log (.began .connect))
    generalize outcome Session.connect (s.log (.began .connect)) = o at connecting
    cases connecting <;> exact .ended (h.of_eq rfl h.registered)
  | stop caller =>
    simp only [step, begin, whole_eq]
    exact .ended ((h.log _).stopping (outcome_stop _))
  | reconnect caller =>
    have left : (outcome Session.reconnect (s.log (.began .reconnect))).2.Accounted := by
      obtain ⟨-, hr⟩ | ⟨r, p, es, -, hr, -⟩ := outcome_reconnect (s.log (.began .reconnect))
      · rw [hr]
        exact h.log _
      · rw [hr]
        exact h.of_eq rfl h.registered
    rw [step_reconnect]
    split
    · exact .delivering (.ended left)
    · exact .ended left
  | addSender caller n times =>
    simp only [step, begin]
    split
    · next t known =>
      rw [whole_eq, outcome_addSenders]
      refine .ended ((h.log (.began (.addSender n times))).of_eq rfl ?_)
      rw [control_heard, control_sending, Control.registered, ← List.append_assoc]
      refine HasMade.append h.registered fun u hu => ?_
      rw [List.eq_of_mem_replicate hu]
      exact h.track? known
    · exact .answer (h.log _) (.nil _)
  | setPhase caller p =>
    simp only [step, begin, throughControl]
    split
    · rw [after_eq, outcome_enter]
      exact .answer (h.of_eq rfl h.registered) (.nil _)
    · exact .answer (h.log _) (.nil _)
  | pass t handled kind =>
    have underway := accounted_underway h ht
    obtain ⟨-, hs⟩ | ⟨-, hs⟩ := step_pass kind s suits
    · rw [hs]
      exact accounts_runPass handled underway
    · rw [hs]
      exact .answer underway (.nil _)
  | request t m c kind =>
    have underway := accounted_underway h ht
    have negotiation := outcome_negotiate m (t.underway s) c
    obtain ⟨left, granted⟩ := accounted_of_negotiation underway negotiation
    have more := (onward_step suits).made
    rw [step_request kind, thenDeliver_eq] at more ⊢
    exact .delivering
      ⟨left, List.forall_mem_singleton.mpr (hasMade_reply (ht.mono more) granted)⟩

end Task

/-! ## Whole courses -/

/-- Whoever has his turn, all that a session has to do with has been made in it. -/
theorem Scene.accounted {scene : Scene} (session : scene.session.Accounted)
    (waiting : ∀ ts ∈ scene.waiting, ∀ t ∈ ts,
      t.Suits scene.session.role ∧ scene.session.HasMade t.tracks) (schedule : List Nat) :
    ∀ x ∈ scene.moves schedule, x.found.Accounted ∧ x.left.Accounted := by
  have later := Scene.forall_moves_of_stay (P := Session.Accounted)
    (Q := fun s t => t.Suits s.role ∧ s.HasMade t.tracks) ?_ ?_ session waiting schedule
  · exact fun x hx => (later.1 x hx).2
  · rintro t s ⟨suits, ht⟩ h
    obtain ⟨left, next⟩ := Task.accounts_step suits h ht
    refine ⟨left, fun t' ht' => ⟨?_, next t' ht'⟩⟩
    rw [(Task.onward_step suits).role]
    exact Task.suits_step suits t' ht'
  · rintro t s ⟨suits, -⟩ t' ⟨suits', ht'⟩
    have onward := Task.onward_step suits
    refine ⟨?_, ht'.mono onward.made⟩
    rw [onward.role]
    exact suits'

theorem Course.accounted (r : Course) : ∀ x ∈ r.moves, x.found.Accounted ∧ x.left.Accounted := by
  refine Scene.accounted ⟨.nil _, .nil _, List.forall_mem_nil _⟩ ?_ r.schedule
  intro ts hts t ht
  obtain ⟨ops, -, rfl⟩ := List.mem_map.mp hts
  obtain ⟨op, -, rfl⟩ := List.mem_map.mp ht
  exact ⟨trivial, .nil _⟩

end RtspControl
