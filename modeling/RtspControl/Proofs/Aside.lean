import RtspControl.Session.Run
import RtspControl.Proofs.Outcome

/-!
# Work beside the connection

Much of what happens in a session leaves the connection alone: tracks are closed and their
hooks run, handlers are called and return, and callers look at things or arrange what is to
come. `Aside s s'` says what all such work has in common: nothing that the lock guards
changes, no event is raised, and the history grows by entries that are about neither the
peer nor the phase.

`aside_closeAll` is the case of closing tracks under the lock, where hooks run any number of
further operations; `Task.aside_step` that of every task that is not about the connection.
-/

namespace RtspControl

/-- Is a note about something other than the connection? -/
def Note.isAside : Note → Bool
  | .trackCreated _ => true
  | .trackClosed _ => true
  | .closeFailed _ _ => true
  | .handlerExited _ => true
  | _ => false

/-- Is an entry about something other than the connection and its peer? -/
def Entry.isAside : Entry → Bool
  | .requested _ _ => false
  | .setUp _ _ => false
  | .note n => n.isAside
  | _ => true

/-- Are all entries of one kind? -/
def Only (p : Entry → Bool) (es : List Entry) : Prop := ∀ e ∈ es, p e = true

namespace Only

variable {p q : Entry → Bool} {e : Entry} {es es' : List Entry}

theorem nil : Only p [] := by
  intro e he
  cases he

theorem cons (he : p e = true) (h : Only p es) : Only p (e :: es) :=
  List.forall_mem_cons.mpr ⟨he, h⟩

theorem append (h : Only p es) (h' : Only p es') : Only p (es ++ es') :=
  List.forall_mem_append.mpr ⟨h, h'⟩

theorem replicate (n : Nat) (he : p e = true) : Only p (List.replicate n e) := by
  intro e' he'
  rw [List.eq_of_mem_replicate he']
  exact he

/-- What the history says about a change of the phase is one entry at most. -/
theorem moved {old new : Phase} (h : p (.note (.transition old new)) = true) :
    Only p (Session.moved old new) := by
  unfold Session.moved
  split
  · exact .nil
  · exact .cons h .nil

theorem mono (hpq : ∀ e, p e = true → q e = true) (h : Only p es) : Only q es := by
  intro e he
  exact hpq e (h e he)

end Only

/-- `s'` comes from `s` by work that leaves the connection alone. -/
structure Aside (s s' : Session) : Prop where
  role : s'.role = s.role
  descriptor : s'.descriptor = s.descriptor
  monitored : s'.monitored = s.monitored
  control : s'.control = s.control
  made : s.tracks.made ≤ s'.tracks.made
  closed : s.tracks.closed ⊆ s'.tracks.closed
  history : ∃ es, s'.history = es ++ s.history ∧ ∀ e ∈ es, e.isAside = true

/-- The work leaves the events alone as well. -/
structure Apart (s s' : Session) : Prop extends Aside s s' where
  pending : s'.pending = s.pending

namespace Aside

theorem refl (s : Session) : Aside s s :=
  ⟨rfl, rfl, rfl, rfl, Nat.le_refl _, List.Subset.refl _, [], rfl, by simp⟩

theorem trans {s₁ s₂ s₃ : Session} (h : Aside s₁ s₂) (h' : Aside s₂ s₃) : Aside s₁ s₃ := by
  obtain ⟨es, he, hes⟩ := h.history
  obtain ⟨es', he', hes'⟩ := h'.history
  refine ⟨h'.role.trans h.role, h'.descriptor.trans h.descriptor, h'.monitored.trans h.monitored,
    h'.control.trans h.control, Nat.le_trans h.made h'.made,
    List.Subset.trans h.closed h'.closed, es' ++ es, ?_, ?_⟩
  · rw [he', he, List.append_assoc]
  · intro e hm
    rcases List.mem_append.mp hm with hm | hm
    · exact hes' e hm
    · exact hes e hm

/-- The tracks, the peer and the script are not guarded by the lock. -/
theorem unguarded (s : Session) {tracks : TrackTable} (peer : Peer) (script : Script)
    (h : s.tracks.made ≤ tracks.made) (h' : s.tracks.closed ⊆ tracks.closed) :
    Aside s { s with tracks, peer, script } :=
  ⟨rfl, rfl, rfl, rfl, h, h', [], rfl, by simp⟩

theorem log (s : Session) {e : Entry} (h : e.isAside = true) : Aside s (s.log e) :=
  ⟨rfl, rfl, rfl, rfl, Nat.le_refl _, List.Subset.refl _, [e], rfl, by simpa using h⟩

end Aside

namespace Apart

open Session

theorem refl (s : Session) : Apart s s := ⟨.refl s, rfl⟩

theorem trans {s₁ s₂ s₃ : Session} (h : Apart s₁ s₂) (h' : Apart s₂ s₃) : Apart s₁ s₃ :=
  ⟨h.toAside.trans h'.toAside, h'.pending.trans h.pending⟩

theorem unguarded (s : Session) {tracks : TrackTable} (peer : Peer) (script : Script)
    (h : s.tracks.made ≤ tracks.made) (h' : s.tracks.closed ⊆ tracks.closed) :
    Apart s { s with tracks, peer, script } := ⟨.unguarded s peer script h h', rfl⟩

theorem log (s : Session) {e : Entry} (h : e.isAside = true) : Apart s (s.log e) :=
  ⟨.log s h, rfl⟩

theorem acquaint (s : Session) (t : Track) : Apart s (s.acquaint t) := by
  unfold Session.acquaint
  split
  · exact refl s
  · exact unguarded s _ _ (Nat.le_refl _) (List.Subset.refl _)

theorem acquaintAll (ts : List Track) (s : Session) : Apart s (s.acquaintAll ts) := by
  unfold Session.acquaintAll
  induction ts generalizing s with
  | nil => exact refl s
  | cons t ts ih => exact (acquaint s t).trans (ih _)

theorem conclude (a : Answer) (locked : Bool) (s : Session) : Apart s (s.conclude a locked) :=
  (acquaintAll _ s).trans (log _ rfl)

theorem withTrack {n : Nat} {s : Session} {use : Track → Answer × Session}
    (h : ∀ t, Apart s (use t).2) : Apart s (s.withTrack n use).2 :=
  withTrack_cases (P := fun r => Apart s r.2) (refl s) h

/-- Operations that need no lock leave alone what it guards. -/
theorem lockFree {op : Operation} {s : Session} {r : Answer × Session}
    (h : s.lockFree? op = some r) : Apart s r.2 := by
  cases op <;> simp only [lockFree?, Option.some.injEq, reduceCtorEq] at h <;> subst h
  case describeTrack | listTrack => exact withTrack fun _ => refl s
  case onClose => exact withTrack fun _ => unguarded s _ _ (Nat.le_refl _) (List.Subset.refl _)
  case expectFault | setChannel | pushStep | pushReaction =>
    exact unguarded s _ _ (Nat.le_refl _) (List.Subset.refl _)

theorem makeTrack (m : MediaSection) (c : Codec) (channel : UInt8) (s : Session) :
    Apart s (outcome (Session.makeTrack m c channel) s).2 := by
  have hm : Apart s { s with tracks := { s.tracks with made := s.tracks.made + 1 } } :=
    unguarded s _ _ (Nat.le_succ _) (List.Subset.refl _)
  exact hm.trans (log _ rfl)

/-! ## Closing tracks -/

theorem shut (t : Track) (s : Session) : Apart s (outcome (shut t) s).2 := by
  cases h : s.isClosed t with
  | true =>
    simp only [outcome, shut_of_closed h]
    exact refl s
  | false =>
    simp only [outcome, shut_of_open h]
    have hm : Apart s (s.markClosed t) :=
      unguarded s _ _ (Nat.le_refl _) (List.subset_cons_self _ _)
    exact hm.trans (log _ rfl)

theorem perform (op : Operation) (s : Session) : Apart s (Chore.perform op s).2 := by
  unfold Chore.perform
  split
  · split
    · exact refl s
    · next t _ =>
      have := shut t s
      simp only [outcome] at this
      split <;> (next h => simpa only [h] using this)
  · split
    · next h => exact lockFree h
    · exact refl s

theorem chore (c : Chore) (s : Session) : Apart s (c.step s).2 := by
  cases c with
  | operation op => exact (log s rfl).trans (perform op _)
  | conclude answer => exact conclude answer true s
  | beginHook hook => exact log s rfl
  | endHook label => exact log s rfl

theorem chores (cs : List Chore) (s : Session) : Apart s (Chore.agenda.run cs s) :=
  Chore.agenda.run_invariant (P := Apart s) (fun c _ h => h.trans (chore c _)) cs (refl s)

theorem closeTrack (t : Track) (s : Session) : Apart s (outcome (closeTrack t) s).2 := by
  have h := shut t s
  unfold Session.closeTrack
  rw [outcome_bind]
  generalize outcome (Session.shut t) s = o at h
  obtain ⟨_ | hooks, s'⟩ := o
  · exact h
  · exact h.trans (chores _ s')

/-- Closing tracks ends well, whatever becomes of the single ones. -/
theorem closeAll (ts : List Track) (s : Session) :
    ∃ s', outcome (closeAll ts) s = (.ok (), s') ∧ Apart s s' := by
  induction ts generalizing s with
  | nil => exact ⟨s, rfl, refl s⟩
  | cons t ts ih =>
    have ht := closeTrack t s
    unfold Session.closeAll
    simp only [outcome_bind, outcome_tolerate]
    generalize outcome (Session.closeTrack t) s = o at ht
    obtain ⟨f | ⟨⟩, s₁⟩ := o
    · obtain ⟨s₂, h, hs⟩ := ih (s₁.log (.note (.closeFailed t f)))
      exact ⟨s₂, h, (ht.trans (log _ rfl)).trans hs⟩
    · obtain ⟨s₂, h, hs⟩ := ih s₁
      exact ⟨s₂, h, ht.trans hs⟩

end Apart

end RtspControl
