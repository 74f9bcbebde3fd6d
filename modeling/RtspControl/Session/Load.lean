import RtspControl.Session.Negotiation

/-!
# The work that a session keeps in store

Close hooks, steps of the frame handler, reactions to events and undelivered events are
work that has been arranged and not yet done. `Session.load` measures it. Elementary
actions arrange none, with one exception: raising an event leaves that event to be
delivered, and `Grows` keeps count of this through sequences of actions.
-/

namespace RtspControl.Session

def load (s : Session) : Nat :=
  totalOf (fun h => h.2.weight) s.tracks.hooks
    + totalOf Step.weight s.script.steps
    + totalOf weightAll s.script.reactions
    + 2 * s.pending.length

@[simp] theorem load_log (e : Entry) (s : Session) : (s.log e).load = s.load := rfl

@[simp] theorem load_acquaint (s : Session) (t : Track) : (s.acquaint t).load = s.load := by
  unfold acquaint
  split <;> rfl

@[simp] theorem load_acquaintAll (ts : List Track) (s : Session) :
    (s.acquaintAll ts).load = s.load := by
  unfold acquaintAll
  induction ts generalizing s with
  | nil => rfl
  | cons t ts ih => rw [List.foldl_cons, ih, load_acquaint]

@[simp] theorem load_conclude (a : Answer) (locked : Bool) (s : Session) :
    (s.conclude a locked).load = s.load := by
  simp [conclude]

/-! ### Actions -/

/-- An action that puts at most `k` more work in store. -/
def Grows {α : Type} (x : Action α) (k : Nat) : Prop := ∀ s, (after x s).load ≤ s.load + k

namespace Grows

variable {α β : Type}

theorem weaken {x : Action α} {j k : Nat} (h : Grows x j) (hjk : j ≤ k) : Grows x k :=
  fun s => Nat.le_trans (h s) (Nat.add_le_add_left hjk _)

theorem pure (a : α) : Grows (Pure.pure a) 0 := fun _ => Nat.le_refl _

theorem throw (f : Fault) : Grows (throw f : Action α) 0 := fun _ => Nat.le_refl _

theorem get : Grows get 0 := fun _ => Nat.le_refl _

theorem modify {f : Session → Session} (h : ∀ s, (f s).load ≤ s.load) :
    Grows (modify f) 0 := fun s => h s

theorem seq {x : Action α} {f : α → Action β} {j k : Nat} (hx : Grows x j)
    (hf : ∀ a, Grows (f a) k) : Grows (x >>= f) (j + k) := by
  intro s
  have h₁ := hx s
  simp only [after, Bind.bind, EStateM.bind] at h₁ ⊢
  cases h : x s with
  -- Both parts have run, and their bounds add up.
  | ok a s' =>
    have h₂ := hf a s'
    simp only [h] at h₁
    simp only [after] at h₂ ⊢
    omega
  -- The first part has failed, and the second does not run.
  | error f s' =>
    simp only [h] at h₁
    dsimp only
    omega

/-- An action that arranges nothing, before any other. -/
theorem andThen {x : Action α} {f : α → Action β} {k : Nat} (hx : Grows x 0)
    (hf : ∀ a, Grows (f a) k) : Grows (x >>= f) k :=
  (hx.seq hf).weaken (by omega)

/-- Any action, before actions that arrange nothing. -/
theorem bind {x : Action α} {f : α → Action β} {k : Nat} (hx : Grows x k)
    (hf : ∀ a, Grows (f a) 0) : Grows (x >>= f) k :=
  hx.seq hf

theorem note (n : Note) : Grows (Session.note n) 0 := modify fun _ => Nat.le_refl _

theorem onlyIf (c : Prop) [Decidable c] {x : Action Unit} {k : Nat} (h : Grows x k) :
    Grows (Session.onlyIf c x) k := by
  unfold Session.onlyIf
  split
  · exact h
  · exact (pure _).weaken (Nat.zero_le _)

theorem require (c : Prop) [Decidable c] (f : Fault) : Grows (Session.require c f) 0 := by
  unfold Session.require
  split
  · exact pure _
  · exact throw _

theorem tolerate {x : Action Unit} {k : Nat} (h : Grows x k) (complaint : Fault → Note) :
    Grows (Session.tolerate x complaint) k := by
  intro s
  have hx := h s
  simp only [after, Session.tolerate] at hx ⊢
  cases hr : x s with
  | ok a s' => simpa only [hr] using hx
  | error f s' =>
    simp only [hr] at hx ⊢
    exact hx

theorem enter (p : Phase) : Grows (Session.enter p) 0 :=
  get.andThen fun _ => (onlyIf _ (note _)).andThen fun _ => modify fun _ => Nat.le_refl _

theorem request (r : Request) : Grows (Session.request r) 0 := by
  intro s
  simp only [after, Session.request]
  cases s.peer.answer r with
  | mk f p => cases f <;> exact Nat.le_refl _

theorem setUp (m : MediaSection) : Grows (Session.setUp m) 0 := by
  intro s
  simp only [after, Session.setUp]
  cases s.peer.answer .setUp with
  | mk f p => cases f <;> exact Nat.le_refl _

theorem raise (event : String) : Grows (Session.raise event) 2 := by
  refine (note (.raised event)).andThen fun _ s => ?_
  show Session.load (if s.monitored then _ else s) ≤ s.load + 2
  split
  · simp only [load, List.length_append, List.length_singleton]
    omega
  · exact Nat.le_add_right _ _

theorem makeTrack (m : MediaSection) (c : Codec) (channel : UInt8) :
    Grows (Session.makeTrack m c channel) 0 := fun _ => Nat.le_refl _

theorem register (t : Track) : Grows (Session.register t) 0 := modify fun _ => Nat.le_refl _

theorem addSender (t : Track) : Grows (Session.addSender t) 0 :=
  (note (.senderRegistered t)).andThen fun _ => modify fun _ => Nat.le_refl _

theorem replay : ∀ ts : List Track, Grows (Session.replay ts) 0
  | [] => pure _
  | _ :: ts => (setUp _).andThen fun _ => replay ts

theorem rebuild : Grows Session.rebuild 2 :=
  (raise _).bind fun _ => (tolerate (request _) _).andThen fun _ =>
    (request _).andThen fun _ => (request _).andThen fun _ =>
      get.andThen fun _ => (replay _).andThen fun _ => note _

theorem reconnect : Grows Session.reconnect 2 :=
  get.andThen fun _ => (require _ _).andThen fun _ => rebuild

theorem assign (m : MediaSection) : Grows (Session.assign m) 2 :=
  get.andThen fun _ => (onlyIf _ rebuild).bind fun _ => (setUp _).andThen fun _ =>
    (enter _).andThen fun _ => (note _).andThen fun _ => pure _

theorem receive (m : MediaSection) (c : Codec) (channel : UInt8) :
    Grows (Session.receive m c channel) 0 :=
  (makeTrack m c channel).andThen fun _ => (register _).andThen fun _ => pure _

theorem ofExcept (x : Except Fault α) :
    Grows (MonadExcept.ofExcept x : Action α) 0 := by
  cases x
  · exact throw _
  · exact pure _

theorem makeFor (m : MediaSection) (c : Codec) : Grows (Session.makeFor m c) 2 := by
  refine get.andThen fun s => ?_
  split
  · exact (assign _).bind fun _ => receive _ _ _
  · exact (assign _).bind fun _ => makeTrack _ _ _
  · exact (throw _).weaken (Nat.zero_le _)
  · exact ((ofExcept _).bind fun _ => receive _ _ _).weaken (Nat.zero_le _)
  · exact ((ofExcept _).bind fun _ => makeTrack _ _ _).weaken (Nat.zero_le _)
  · exact (throw _).weaken (Nat.zero_le _)

theorem negotiate (m : MediaSection) (c : Codec) : Grows (Session.negotiate m c) 2 := by
  refine get.andThen fun s => ?_
  split
  · exact ((note _).andThen fun _ => pure _).weaken (Nat.zero_le _)
  · exact makeFor _ _

end Grows

end RtspControl.Session
