import RtspControl.Proofs.Calls
import RtspControl.Proofs.Generations

/-!
# Tracks that are closed

A stop closes all registered tracks, whatever becomes of the single ones, and ends the session
then. On the way hooks run, which may close other tracks, with hooks of their own, so that the
history alone tells what was closed when: `closings` reads it off, together with how deep inside
hooks each track was closed.

What hooks do all happens inside them: `closes_chores` says so of any chores that are left to do,
and `closes_closeTrack` and `closes_closeAll` are built on it. `Course.stopped_or_registered` puts
together what every stop does, and that no track is ever lost: once it is registered, it stays so
until it is closed.
-/

namespace RtspControl

open Session

/-! ## Closings in the history -/

namespace Entry

def closed? : Entry → Option Track
  | .note (.trackClosed t) => some t
  | _ => none

/-- Is this anything but a call of the event handler? -/
def isCalm : Entry → Bool
  | .reacting _ _ => false
  | _ => true

/-- How much deeper inside hooks the next entry is. -/
def descent : Entry → Int
  | .hookBegan => 1
  | .hookEnded _ => -1
  | _ => 0

end Entry

/-- How much deeper inside hooks a part of a history ends than it began. -/
def depth : List Entry → Int
  | [] => 0
  | e :: es => e.descent + depth es

/-- The tracks that are closed in a part of a history, the first one first, each with how deep
inside hooks that is. -/
def closings : List Entry → List (Track × Int)
  | [] => []
  | e :: es => closings es ++ e.closed?.toList.map (·, depth es)

/-- The numbers of the tracks that are closed outside all hooks. -/
def closedOutside (es : List Entry) : List Nat :=
  ((closings es).filter fun c => c.2 = 0).map fun c => c.1.serial

section

variable {es es' : List Entry}

theorem depth_append (es es' : List Entry) : depth (es ++ es') = depth es + depth es' := by
  induction es with
  | nil => exact (Int.zero_add _).symm
  | cons e es ih => rw [List.cons_append, depth, depth, ih, Int.add_assoc]

/-- What comes later is as much deeper as the earlier part has ended. -/
theorem closings_append (es es' : List Entry) :
    closings (es ++ es') =
      closings es' ++ (closings es).map fun c => (c.1, c.2 + depth es') := by
  induction es with
  | nil => simp [closings]
  | cons e es ih =>
    rw [List.cons_append, closings, ih, closings, List.map_append, List.append_assoc]
    simp [depth_append]

theorem closings_append_of_depth (es : List Entry) (h : depth es' = 0) :
    closings (es ++ es') = closings es' ++ closings es := by
  simp [closings_append, h]

theorem closedOutside_append_of_depth (es : List Entry) (h : depth es' = 0) :
    closedOutside (es ++ es') = closedOutside es' ++ closedOutside es := by
  simp only [closedOutside, closings_append_of_depth es h, List.filter_append, List.map_append]

end

/-- `s'` comes from `s` by work that the history tells of, and that closes no more than it says.
Hooks may run, but no event is delivered. -/
structure Closes (s s' : Session) (es : List Entry) : Prop where
  history : s'.history = es ++ s.history
  calm : Only Entry.isCalm es
  closed : ∀ n, n ∈ s'.tracks.closed ↔
    n ∈ s.tracks.closed ∨ ∃ c ∈ closings es, c.1.serial = n

namespace Closes

variable {s s₁ s' : Session} {es es' : List Entry}

/-- Work that closes nothing. -/
theorem of_quiet (history : s'.history = es ++ s.history) (calm : Only Entry.isCalm es)
    (hes : closings es = []) (closed : s'.tracks.closed = s.tracks.closed) : Closes s s' es := by
  refine ⟨history, calm, ?_⟩
  intro n
  simp [hes, closed]

theorem trans (h : Closes s s₁ es) (h' : Closes s₁ s' es') : Closes s s' (es' ++ es) := by
  refine ⟨by rw [h'.history, h.history, List.append_assoc], h'.calm.append h.calm, ?_⟩
  intro n
  rw [h'.closed, h.closed, or_assoc]
  simp [closings_append, or_and_right, exists_or]

theorem isClosed_iff (h : Closes s s' es) (t : Track) :
    s'.isClosed t = true ↔ s.isClosed t = true ∨ ∃ c ∈ closings es, c.1.serial = t.serial := by
  simp only [isClosed, List.contains_iff_mem]
  exact h.closed t.serial

end Closes

/-! ## What hooks do -/

theorem closed_acquaintAll (ts : List Track) (s : Session) :
    (s.acquaintAll ts).tracks.closed = s.tracks.closed := by
  unfold Session.acquaintAll
  induction ts generalizing s with
  | nil => rfl
  | cons t ts ih =>
    rw [List.foldl_cons, ih, acquaint]
    split <;> rfl

theorem closes_conclude (a : Answer) (locked : Bool) (s : Session) :
    Closes s (s.conclude a locked) [.ended a ((s.acquaintAll
      (a.tracks ++ if locked then [] else s.control.receivers ++ s.control.senders)).view
        locked)] := by
  refine .of_quiet ?_ (.cons rfl .nil) rfl (closed_acquaintAll _ s)
  unfold conclude
  rw [Task.acquaintAll_eq]
  rfl

theorem closes_lockFree {op : Operation} {s : Session} {r : Answer × Session}
    (h : s.lockFree? op = some r) : Closes s r.2 [] := by
  have known {n : Nat} {use : Track → Answer × Session} (h : ∀ t, Closes s (use t).2 []) :
      Closes s (s.withTrack n use).2 [] :=
    withTrack_cases (P := fun r => Closes s r.2 []) (.of_quiet rfl .nil rfl rfl) h
  cases op <;> simp only [lockFree?, Option.some.injEq, reduceCtorEq] at h <;> subst h
  case describeTrack | listTrack | onClose => exact known fun _ => .of_quiet rfl .nil rfl rfl
  case expectFault | setChannel | pushStep | pushReaction => exact .of_quiet rfl .nil rfl rfl

/-- Shutting a track closes it and no other. -/
theorem closes_markClosed (s : Session) (t : Track) :
    Closes s ((s.markClosed t).log (.note (.trackClosed t))) [.note (.trackClosed t)] := by
  refine ⟨rfl, .cons rfl .nil, ?_⟩
  intro n
  show n ∈ t.serial :: s.tracks.closed ↔ _
  simp [closings, Entry.closed?, or_comm, eq_comm]

namespace Chore

def isEnd : Chore → Bool
  | .endHook _ => true
  | _ => false

/-- How many hooks are running when these chores are left to do? -/
def running (cs : List Chore) : Nat := cs.countP isEnd

/-- Do all operations belong to hooks that are running by then? -/
def Hooked : List Chore → Prop
  | [] => True
  | .operation _ :: cs => 0 < running cs ∧ Hooked cs
  | _ :: cs => Hooked cs

theorem running_endHook (label : String) (cs : List Chore) :
    running (.endHook label :: cs) = running cs + 1 :=
  List.countP_cons_of_pos rfl

theorem running_hooks (hooks : List Hook) (cs : List Chore) :
    running (hooks.map .beginHook ++ cs) = running cs := by
  induction hooks with
  | nil => rfl
  | cons hook hooks ih => exact ih

theorem hooked_hooks (hooks : List Hook) (cs : List Chore) :
    Hooked (hooks.map .beginHook ++ cs) ↔ Hooked cs := by
  induction hooks with
  | nil => rfl
  | cons hook hooks ih => exact ih

theorem running_operations (ops : List Operation) (cs : List Chore) :
    running (ops.map .operation ++ cs) = running cs := by
  induction ops with
  | nil => rfl
  | cons op ops ih => exact ih

theorem hooked_operations (ops : List Operation) {cs : List Chore} (h : Hooked cs)
    (hr : 0 < running cs) : Hooked (ops.map .operation ++ cs) := by
  induction ops with
  | nil => exact h
  | cons op ops ih =>
    refine ⟨?_, ih⟩
    show 0 < running (ops.map .operation ++ cs)
    rwa [running_operations]

/-- What an operation of a hook does: it may close a track, the hooks of which come next. -/
theorem perform_cases (op : Operation) (s : Session) :
    (∃ t, ∃ hooks : List Hook, perform op s = (hooks.map .beginHook ++ [.conclude .done],
        (s.markClosed t).log (.note (.trackClosed t)))) ∨
      ∃ a s', perform op s = ([.conclude a], s') ∧ Closes s s' [] := by
  have still (a : Answer) : ∃ a' s', ([conclude a], s) = ([conclude a'], s') ∧ Closes s s' [] :=
    ⟨a, s, rfl, .of_quiet rfl .nil rfl rfl⟩
  unfold perform
  split
  · split
    · exact Or.inr (still _)
    · next t _ =>
      cases hc : s.isClosed t with
      | true =>
        rw [shut_of_closed hc]
        exact Or.inr (still _)
      | false =>
        rw [shut_of_open hc]
        exact Or.inl ⟨t, s.hooksOf t, rfl⟩
  · split
    · next a s' h => exact Or.inr ⟨a, s', rfl, closes_lockFree h⟩
    · exact Or.inr (still _)

/-- A chore leads into hooks and out of them as it says, and closes tracks inside them only. -/
theorem closes_step (c : Chore) (cs : List Chore) (s : Session) (h : Hooked (c :: cs)) :
    ∃ es, Closes s (c.step s).2 es ∧ Hooked ((c.step s).1 ++ cs) ∧
      (running ((c.step s).1 ++ cs) : Int) = running (c :: cs) + depth es ∧
        ∀ d ∈ closings es, 0 < running (c :: cs) + d.2 := by
  cases c with
  | operation op =>
    obtain ⟨inside, hooked⟩ := h
    have began : Closes s (s.log (.began op)) [.began op] :=
      .of_quiet rfl (.cons rfl .nil) rfl rfl
    simp only [step]
    rcases perform_cases op (s.log (.began op)) with ⟨t, hooks, hp⟩ | ⟨a, s', hp, closes⟩
    · rw [hp]
      refine ⟨_, began.trans (closes_markClosed _ t), ?_, ?_, ?_⟩
      · rw [List.append_assoc, hooked_hooks]
        exact hooked
      · rw [List.append_assoc, running_hooks]
        exact (Int.add_zero _).symm
      · intro d hd
        obtain rfl : d = (t, depth [.began op]) := List.mem_singleton.mp hd
        exact Int.add_pos_of_pos_of_nonneg (Int.natCast_pos.mpr inside) (Int.le_refl 0)
    · rw [hp]
      exact ⟨_, began.trans closes, hooked, (Int.add_zero _).symm, List.forall_mem_nil _⟩
  | conclude a =>
    exact ⟨_, closes_conclude a true s, h, (Int.add_zero _).symm, List.forall_mem_nil _⟩
  | beginHook hook =>
    refine ⟨[.hookBegan], .of_quiet rfl (.cons rfl .nil) rfl rfl, ?_, ?_, List.forall_mem_nil _⟩
    · simp only [step, List.append_assoc]
      refine hooked_operations _ h ?_
      rw [List.singleton_append, running_endHook]
      exact Nat.succ_pos _
    · simp only [step, List.append_assoc, running_operations, List.singleton_append,
        running_endHook]
      rfl
  | endHook label =>
    refine ⟨[.hookEnded label], .of_quiet rfl (.cons rfl .nil) rfl rfl, h, ?_,
      List.forall_mem_nil _⟩
    rw [running_endHook]
    show (running cs : Int) = (running cs + 1 : Nat) + -1
    omega

/-- Chores that are left to do lead out of all hooks in the end. -/
theorem closes_run (cs : List Chore) (s : Session) (h : Hooked cs) :
    ∃ es, Closes s (agenda.run cs s) es ∧ depth es = -running cs ∧
      ∀ c ∈ closings es, 0 < running cs + c.2 := by
  induction cs, s using agenda.run_induction with
  | nil s =>
    rw [agenda.run_nil]
    exact ⟨[], .of_quiet rfl .nil rfl rfl, rfl, List.forall_mem_nil _⟩
  | cons c cs s ih =>
    obtain ⟨es, closes, hooked, deeper, inside⟩ := closes_step c cs s h
    obtain ⟨es', closes', out, inside'⟩ := ih hooked
    have shift : depth es' = -running (c :: cs) - depth es := by
      rw [out]
      show -(running ((c.step s).1 ++ cs) : Int) = _
      omega
    refine ⟨es' ++ es, ?_, ?_, ?_⟩
    · rw [agenda.run_cons]
      exact closes.trans closes'
    · rw [depth_append, shift]
      omega
    · intro d hd
      rw [closings_append] at hd
      rcases List.mem_append.mp hd with hd | hd
      · exact inside d hd
      · obtain ⟨d', hd', rfl⟩ := List.mem_map.mp hd
        have := inside' d' hd'
        change 0 < (running ((c.step s).1 ++ cs) : Int) + d'.2 at this
        show 0 < _ + (d'.2 + depth es)
        omega

end Chore

/-! ## Closing tracks -/

theorem outcome_closeTrack_of_closed {t : Track} {s : Session} (h : s.isClosed t = true) :
    outcome (closeTrack t) s = (.error (.trackClosed t.channel), s) := by
  have hs : outcome (shut t) s = (.error (.trackClosed t.channel), s) := by
    rw [outcome, shut_of_closed h]
  exact outcome_bind_error hs _

theorem outcome_closeTrack_of_open {t : Track} {s : Session} (h : s.isClosed t = false) :
    outcome (closeTrack t) s = (.ok (), Chore.agenda.run ((s.hooksOf t).map .beginHook)
      ((s.markClosed t).log (.note (.trackClosed t)))) := by
  have hs : outcome (shut t) s =
      (.ok (s.hooksOf t), (s.markClosed t).log (.note (.trackClosed t))) := by
    rw [outcome, shut_of_open h]
  unfold closeTrack
  rw [outcome_bind_ok hs, outcome_modify]

/-- An open track is closed before its hooks run, and what else is closed is so inside them. -/
theorem closes_closeTrack {t : Track} {s : Session} (h : s.isClosed t = false) :
    ∃ s' es inner, outcome (closeTrack t) s = (.ok (), s') ∧ Closes s s' es ∧ depth es = 0 ∧
      closings es = (t, 0) :: inner ∧ ∀ c ∈ inner, 0 < c.2 := by
  have hooked : Chore.Hooked ((s.hooksOf t).map .beginHook) := by
    simpa using (Chore.hooked_hooks (s.hooksOf t) []).mpr trivial
  have running : Chore.running ((s.hooksOf t).map .beginHook) = 0 := by
    rw [← List.append_nil (List.map _ _), Chore.running_hooks]
    rfl
  obtain ⟨es, closes, out, inside⟩ := Chore.closes_run _
    ((s.markClosed t).log (.note (.trackClosed t))) hooked
  rw [running] at out inside
  refine ⟨_, _, closings es, outcome_closeTrack_of_open h, (closes_markClosed s t).trans closes,
    ?_, ?_, ?_⟩
  · rw [depth_append, out]
    rfl
  · exact closings_append_of_depth es rfl
  · intro c hc
    have := inside c hc
    omega

/-- The tracks `ts` have been closed, one after the other. -/
structure ClosesAll (ts : List Track) (s s' : Session) (es : List Entry) : Prop where
  closes : Closes s s' es
  out : depth es = 0
  closed : ∀ t ∈ ts, s'.isClosed t = true
  /-- Unless hooks interfere, each that was open is closed where it first stands. -/
  inOrder : (∀ c ∈ closings es, c.2 ≠ 0 → ∀ t ∈ ts, t.serial ≠ c.1.serial) →
    closedOutside es = ((ts.filter fun t => !s.isClosed t).map Track.serial).eraseDups

namespace ClosesAll

variable {t : Track} {ts : List Track} {s s₁ s' : Session} {es es' : List Entry}

theorem nil (s : Session) : ClosesAll [] s s [] :=
  ⟨.of_quiet rfl .nil rfl rfl, rfl, List.forall_mem_nil _, fun _ => rfl⟩

/-- The first track was closed before. -/
theorem cons_of_closed {f : Fault} (h : s.isClosed t = true)
    (later : ClosesAll ts (s.log (.note (.closeFailed t f))) s' es') :
    ClosesAll (t :: ts) s s' (es' ++ [.note (.closeFailed t f)]) := by
  have complaint : Closes s (s.log (.note (.closeFailed t f))) [.note (.closeFailed t f)] :=
    .of_quiet rfl (.cons rfl .nil) rfl rfl
  have closes := complaint.trans later.closes
  have hc : closings (es' ++ [.note (.closeFailed t f)]) = closings es' :=
    closings_append_of_depth es' rfl
  refine ⟨closes, ?_, ?_, ?_⟩
  · rw [depth_append, later.out]
    rfl
  · refine List.forall_mem_cons.mpr ⟨?_, later.closed⟩
    exact (closes.isClosed_iff t).mpr (Or.inl h)
  · intro apart
    rw [hc] at apart
    rw [List.filter_cons_of_neg (by simp [h]), closedOutside, hc]
    apply later.inOrder
    intro c hm deep
    exact (List.forall_mem_cons.mp (apart c hm deep)).2

/-- The first track is closed now. -/
theorem cons_of_open {inner : List (Track × Int)} (h : s.isClosed t = false)
    (closes : Closes s s₁ es) (out : depth es = 0) (closing : closings es = (t, 0) :: inner)
    (inside : ∀ c ∈ inner, 0 < c.2) (later : ClosesAll ts s₁ s' es') :
    ClosesAll (t :: ts) s s' (es' ++ es) := by
  have hc : closings (es' ++ es) = (t, 0) :: (inner ++ closings es') := by
    rw [closings_append_of_depth es' out, closing]
    rfl
  have closes' := closes.trans later.closes
  refine ⟨closes', ?_, ?_, ?_⟩
  · rw [depth_append, later.out, out]
    rfl
  · refine List.forall_mem_cons.mpr ⟨?_, later.closed⟩
    refine (closes'.isClosed_iff t).mpr (Or.inr ⟨(t, 0), ?_, rfl⟩)
    rw [hc]
    exact List.mem_cons_self
  · intro apart
    have apart' : ∀ c ∈ closings es', c.2 ≠ 0 → ∀ u ∈ ts, u.serial ≠ c.1.serial := by
      intro c hm deep
      refine (List.forall_mem_cons.mp (apart c ?_ deep)).2
      simp [hc, hm]
    -- Of the later tracks only those are closed by now that are this one again.
    have left : ∀ u ∈ ts, (!s₁.isClosed u) = ((!u.serial == t.serial) && !s.isClosed u) := by
      intro u hu
      have now : s₁.isClosed u = true ↔ u.serial = t.serial ∨ s.isClosed u = true := by
        rw [closes.isClosed_iff, or_comm]
        refine or_congr_left ⟨?_, ?_⟩
        · rintro ⟨c, hm, same⟩
          rw [closing] at hm
          rcases List.mem_cons.mp hm with rfl | hm
          · exact same.symm
          · have deep : c.2 ≠ 0 := Int.ne_of_gt (inside c hm)
            exact absurd same.symm (apart c (by simp [hc, hm]) deep u (List.mem_cons_of_mem t hu))
        · intro same
          exact ⟨(t, 0), by simp [closing], same.symm⟩
      rw [show s₁.isClosed u = (u.serial == t.serial || s.isClosed u) from
        Bool.eq_iff_iff.mpr (by simp [now]), Bool.not_or]
    have first : closedOutside es = [t.serial] := by
      have none : inner.filter (fun c => c.2 = 0) = [] := by
        rw [List.filter_eq_nil_iff]
        intro c hm
        simpa using Int.ne_of_gt (inside c hm)
      rw [closedOutside, closing, List.filter_cons_of_pos rfl, none]
      rfl
    rw [closedOutside_append_of_depth es' out, first, later.inOrder apart',
      List.filter_cons_of_pos (by simp [h]), List.map_cons, List.eraseDups_cons,
      List.filter_map, List.filter_filter, List.filter_congr left]
    rfl

end ClosesAll

theorem closesAll (ts : List Track) (s : Session) :
    ∃ s' es, outcome (closeAll ts) s = (.ok (), s') ∧ ClosesAll ts s s' es := by
  induction ts generalizing s with
  | nil => exact ⟨s, [], rfl, .nil s⟩
  | cons t ts ih =>
    unfold closeAll
    cases h : s.isClosed t with
    | true =>
      obtain ⟨s', es, later, closes⟩ := ih (s.log (.note (.closeFailed t (.trackClosed t.channel))))
      refine ⟨s', _, ?_, closes.cons_of_closed h⟩
      rw [outcome_bind, outcome_tolerate, outcome_closeTrack_of_closed h]
      exact later
    | false =>
      obtain ⟨s₁, es, inner, ended, closes, out, closing, inside⟩ := closes_closeTrack h
      obtain ⟨s', es', later, closes'⟩ := ih s₁
      refine ⟨s', _, ?_, closes'.cons_of_open h closes out closing inside⟩
      rw [outcome_bind, outcome_tolerate, ended]
      exact later

/-! ## Stops -/

/-- A move stops the connection: it closes all registered tracks, and then the session if there is
one. -/
structure Move.Stops (x : Move) : Prop where
  control : x.left.control = {}
  closed : ∀ t ∈ x.found.control.registered, x.left.isClosed t = true
  /-- The peer is asked once to close the session, if there is one, when all tracks are closed;
  how that ends is how the stop ends. -/
  ended : ∃ fault closing, Only Entry.isAside closing ∧
    x.entries = (if x.found.control.phase = .idle then [] else
      [.requested .close fault, .note .stopped, .note (.transition x.found.control.phase .idle)])
        ++ closing ∧
    (x.found.control.phase = .idle → fault = none) ∧
    (x.task.step x.found).1 = [.conclude (.ofOutcome (fault.elim (.ok ()) .error))]
  /-- Unless hooks close registered tracks, each that was open is closed where it first stands. -/
  inOrder : (∀ c ∈ closings x.entries, c.2 ≠ 0 →
      ∀ t ∈ x.found.control.registered, t.serial ≠ c.1.serial) →
    closedOutside x.entries =
      ((x.found.control.registered.filter fun t => !x.found.isClosed t).map
        Track.serial).eraseDups

namespace Move

variable {x : Move}

theorem step_of_isStop (h : x.isStop = true) :
    x.task.step x.found =
      ([.conclude (.ofOutcome (outcome stop (x.found.log (.began .stop))).1)],
        (outcome stop (x.found.log (.began .stop))).2) := by
  unfold isStop at h
  split at h
  · next kind =>
    rw [kind]
    exact Task.whole_eq stop _
  · cases h

theorem stops_of (fault : Option Fault) {es ending : List Entry} {s' : Session}
    (all : ClosesAll x.found.control.registered (x.found.log (.began .stop)).emptied s' es)
    (closed : Aside (x.found.log (.began .stop)).emptied s')
    (tracks : x.left.tracks = s'.tracks) (control : x.left.control = {})
    (history : x.left.history = ending ++ s'.history)
    (he : ending = if x.found.control.phase = .idle then [] else
      [.requested .close fault, .note .stopped, .note (.transition x.found.control.phase .idle)])
    (unasked : x.found.control.phase = .idle → fault = none)
    (answer : (x.task.step x.found).1 = [.conclude (.ofOutcome (fault.elim (.ok ()) .error))]) :
    x.Stops := by
  obtain ⟨es', hes, aside⟩ := closed.history
  obtain rfl : es' = es := List.append_cancel_right (hes.symm.trans all.closes.history)
  have entries : x.entries = ending ++ (es' ++ [.began .stop]) := by
    apply entries_of_history
    rw [history, hes, List.append_assoc, List.append_assoc]
    rfl
  have quiet : closings ending = [] := by
    rw [he]
    split <;> rfl
  have hc : closings x.entries = closings es' := by
    rw [entries, closings_append, quiet, closings_append_of_depth es' rfl]
    exact List.append_nil _
  refine ⟨control, ?_, ⟨fault, es' ++ [.began .stop], ?_, ?_, unasked, answer⟩, ?_⟩
  · intro t ht
    rw [isClosed, tracks]
    exact all.closed t ht
  · exact Only.append aside (.cons rfl .nil)
  · rw [entries, he]
  · rw [closedOutside, hc]
    exact all.inOrder

/-- What a stop does, whatever is registered and whatever hooks there are. -/
theorem stops (h : x.isStop = true) : x.Stops := by
  have hs := step_of_isStop h
  have hl : x.left = (outcome stop (x.found.log (.began .stop))).2 := congrArg Prod.snd hs
  have hn := congrArg Prod.fst hs
  have stopping := outcome_stop (x.found.log (.began .stop))
  generalize outcome stop (x.found.log (.began .stop)) = o at hl hn stopping
  obtain ⟨s', es, hc, all⟩ :=
    closesAll x.found.control.registered (x.found.log (.began .stop)).emptied
  cases stopping with
  | idle idle closed closing =>
    cases hc.symm.trans closing
    change x.found.control.phase = .idle at idle
    refine stops_of none all closed (by rw [hl]) ?_ (by rw [hl]; rfl)
      (if_pos idle).symm (fun _ => rfl) hn
    rw [hl, closed.control]
    show (⟨x.found.control.phase, [], []⟩ : Control) = {}
    rw [idle]
  | tornDown fault p busy closed closing =>
    cases hc.symm.trans closing
    change x.found.control.phase ≠ .idle at busy
    refine stops_of fault all closed (by rw [hl]; rfl) ?_ (by rw [hl]; rfl)
      (if_neg busy).symm (fun idle => absurd idle busy) hn
    rw [hl, control_heard, control_inPhase, closed.control]
    rfl

end Move

/-! ## No track is lost -/

theorem Move.kept {x : Move} (suits : x.task.Suits x.found.role)
    (serials : ∀ t ∈ x.found.control.receivers, t.serial < x.found.tracks.made) {t : Track}
    (h : t ∈ x.found.control.registered) :
    t ∈ x.left.control.registered ∨ x.left.isClosed t = true := by
  cases stop : x.isStop with
  | true => exact Or.inr ((x.stops stop).closed t h)
  | false =>
    have extended := x.registries_left suits serials stop
    rw [Control.registered, extended.receivers, extended.senders]
    rcases List.mem_append.mp h with h | h
    · exact Or.inl (by simp [h])
    · exact Or.inl (by simp [h])

theorem Reached.kept {role : Role} {past : List Move} {s : Session} (h : Reached role past s) :
    ∀ x ∈ past, ∀ t ∈ x.left.control.registered,
      t ∈ s.control.registered ∨ s.isClosed t = true := by
  induction h using Reached.induct with
  | opened => exact List.forall_mem_nil _
  | moved past y earlier _ suits ih =>
    intro x hx t ht
    rcases List.mem_append.mp hx with hx | hx
    · rcases ih x hx t ht with registered | closed
      · exact y.kept suits earlier.serial_lt registered
      · right
        rw [isClosed, List.contains_iff_mem] at closed ⊢
        exact (Task.onward_step suits).closed closed
    · rw [List.mem_singleton.mp hx] at ht
      exact Or.inl ht

/-- Every stop closes all registered tracks and ends the session, and between any two moves each
track that ever was registered either still is or is closed. -/
theorem Course.stopped_or_registered (r : Course) :
    (∀ x ∈ r.moves, x.isStop = true → x.Stops) ∧
      ∀ x ∈ r.moves, ∀ t ∈ x.left.control.registered,
        t ∈ r.session.control.registered ∨ r.session.isClosed t = true :=
  ⟨fun x _ stop => x.stops stop, r.reached.kept⟩

/-- A client that stops with one track in both registries, one that is registered twice for
sending, and one that is closed already. When the first is closed, a hook tries to close it again,
closes a track that is not registered, and leaves a hook with the second. -/
def Course.stoppedClient : Course :=
  { role := .activeProducer, descriptor := default, settings := default, monitored := false
    peer := {}, script := {}
    callers := [[.connect, .getTrack videoSection videoRequest,
      .getTrack audioSection audioRequest, .newTrack audioSection audioRequest 6,
      .newTrack audioSection audioRequest 8, .addSender 2 2, .addSender 0 1, .closeTrack 1,
      .onClose 0 "video" [.closeTrack 0, .closeTrack 3, .onClose 2 "talk" [.closeTrack 2]], .stop]]
    schedule := List.replicate 22 0 }

/-- The move with which it stops. -/
def stoppedClientStop : Move := Course.stoppedClient.moves.get ⟨20, by decide +kernel⟩

/-- The tracks that are still open are closed in order, each of them once. -/
theorem Course.stoppedClient_stops :
    stoppedClientStop.Stops ∧
      stoppedClientStop.found.control.registered.map Track.serial = [0, 1, 2, 2, 0] ∧
      (closings stoppedClientStop.entries).map (fun c => (c.1.serial, c.2)) =
        [(0, 0), (3, 1), (2, 0)] ∧
      closedOutside stoppedClientStop.entries = [0, 2] ∧
      ∀ x ∈ stoppedClient.moves, ∀ t ∈ x.left.control.registered,
        stoppedClient.session.isClosed t = true := by
  obtain ⟨stops, kept⟩ := Course.stopped_or_registered stoppedClient
  have h : stoppedClientStop.Stops := stops _ (List.get_mem _ _) (by decide +kernel)
  refine ⟨h, by decide +kernel, by decide +kernel, ?_, ?_⟩
  · rw [h.inOrder (by decide +kernel)]
    decide +kernel
  · intro x hx t ht
    refine (kept x hx t ht).resolve_left ?_
    have none : stoppedClient.session.control.registered = [] := by decide +kernel
    rw [none]
    exact List.not_mem_nil

end RtspControl
