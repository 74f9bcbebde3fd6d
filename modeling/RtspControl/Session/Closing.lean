import RtspControl.Session.Load
import RtspControl.Agenda

/-!
# Closing tracks

Closing a track marks it closed and runs the hooks that it has at that moment, in the
order of their registration. A track closes once; every later attempt fails and runs
nothing. A hook runs operations, which may close further tracks and register further
hooks, but cannot touch the connection, because the connection may be closing the track
under its own lock.

What follows from one closing is worked off as an agenda of chores. It ends because a
hook is taken off its track before it runs.
-/

namespace RtspControl

namespace Session

/-! ### Operations that need no lock -/

def withTrack (n : Nat) (s : Session) (use : Track → Answer × Session) : Answer × Session :=
  match s.track? n with
  | some t => use t
  | none => (.noTrack, s)

def addHook (t : Track) (h : Hook) (s : Session) : Session :=
  { s with tracks := { s.tracks with hooks := s.tracks.hooks ++ [(t.serial, h)] } }

/-- The operations that need no lock and run nothing else, so that they can be had
anywhere. -/
def lockFree? (op : Operation) (s : Session) : Option (Answer × Session) :=
  match op with
  | .describeTrack n => some (s.withTrack n fun t => (.track t, s))
  | .listTrack n =>
    some (s.withTrack n fun t => (.listing (Listing.track t (s.isClosed t)), s))
  | .onClose n label ops => some (s.withTrack n fun t => (.done, s.addHook t ⟨label, ops⟩))
  | .expectFault rule =>
    some (.done, { s with peer := { s.peer with rules := s.peer.rules ++ [rule] } })
  | .setChannel next => some (.done, { s with peer := { s.peer with nextChannel := next } })
  | .pushStep ops result =>
    some (.done,
      { s with script := { s.script with steps := s.script.steps ++ [⟨ops, result⟩] } })
  | .pushReaction ops =>
    some (.done, { s with script := { s.script with reactions := s.script.reactions ++ [ops] } })
  | _ => none

/-! ### Shutting a track -/

def hooksOf (s : Session) (t : Track) : List Hook :=
  (s.tracks.hooks.filter fun h => h.1 == t.serial).map Prod.snd

def markClosed (s : Session) (t : Track) : Session :=
  { s with
    tracks := { s.tracks with
      closed := t.serial :: s.tracks.closed
      hooks := s.tracks.hooks.filter fun h => !(h.1 == t.serial) } }

/-- Marks a track closed and takes its hooks off it. -/
def shut (t : Track) : Action (List Hook) := fun s =>
  if s.isClosed t then .error (.trackClosed t.channel) s
  else .ok (s.hooksOf t) ((s.markClosed t).log (.note (.trackClosed t)))

end Session

/-! ### Chores -/

/-- Something that is left to do for the closing of a track. -/
inductive Chore where
  | operation (operation : Operation)
  | conclude (answer : Answer)
  | beginHook (hook : Hook)
  | endHook (label : String)

namespace Chore

open Session

/-- What a chore costs at most, with all that it leads to. -/
def cost : Chore → Nat
  | .operation op => op.weight
  | .conclude _ => 1
  | .beginHook h => h.weight
  | .endHook _ => 1

def perform (op : Operation) (s : Session) : List Chore × Session :=
  match op with
  | .closeTrack n =>
    match s.track? n with
    | none => ([.conclude .noTrack], s)
    | some t =>
      match shut t s with
      | .ok hooks s' => (hooks.map .beginHook ++ [.conclude .done], s')
      | .error f s' => ([.conclude (.failed f)], s')
  | op =>
    match s.lockFree? op with
    | some (answer, s') => ([.conclude answer], s')
    | none => ([.conclude .notAllowed], s)

def step : Chore → Session → List Chore × Session
  | .operation op, s => perform op (s.log (.began op))
  | .conclude answer, s => ([], s.conclude answer true)
  | .beginHook h, s => (h.operations.map .operation ++ [.endHook h.label], s.log .hookBegan)
  | .endHook label, s => ([], s.log (.hookEnded label))

/-! ### Chores come to an end -/

@[simp] theorem totalOf_cost_operations (ops : List Operation) :
    totalOf cost (ops.map Chore.operation) = weightAll ops := by
  rw [totalOf_map, ← totalOf_weight]
  rfl

@[simp] theorem totalOf_cost_hooks (hooks : List Hook) :
    totalOf cost (hooks.map Chore.beginHook) = totalOf Hook.weight hooks := by
  rw [totalOf_map]
  rfl

end Chore

namespace Session

theorem withTrack_cases {n : Nat} {s : Session} {use : Track → Answer × Session}
    {P : Answer × Session → Prop} (unknown : P (.noTrack, s)) (known : ∀ t, P (use t)) :
    P (s.withTrack n use) := by
  unfold withTrack
  split
  · exact known _
  · exact unknown

theorem load_addHook (t : Track) (h : Hook) (s : Session) :
    (s.addHook t h).load = s.load + h.weight := by
  simp only [load, addHook, totalOf_append, totalOf_cons, totalOf_nil]
  omega

/-- An operation that needs no lock puts less work in store than its own weight. -/
theorem load_lockFree_lt {op : Operation} {s : Session} {r : Answer × Session}
    (h : s.lockFree? op = some r) : r.2.load + 1 < s.load + op.weight := by
  have hop := op.weight_pos
  cases op <;> simp only [lockFree?, Option.some.injEq, reduceCtorEq] at h <;> subst h
  case describeTrack | listTrack =>
    refine withTrack_cases (P := fun r => r.2.load + 1 < _) ?_ fun _ => ?_ <;>
      exact Nat.add_lt_add_left (by omega) _
  case onClose n label ops =>
    refine withTrack_cases (P := fun r => r.2.load + 1 < _) ?_ fun _ => ?_
    · exact Nat.add_lt_add_left (by omega) _
    · simp only [load_addHook, Hook.weight, Operation.weight]
      omega
  case expectFault | setChannel => exact Nat.add_lt_add_left (by omega) _
  case pushStep ops result =>
    simp only [load, Operation.weight, totalOf_append, totalOf_cons, totalOf_nil, Step.weight]
    omega
  case pushReaction ops =>
    simp only [load, Operation.weight, totalOf_append, totalOf_cons, totalOf_nil]
    omega

/-- A closed track cannot be shut again, and nothing changes. -/
theorem shut_of_closed {t : Track} {s : Session} (h : s.isClosed t = true) :
    shut t s = .error (.trackClosed t.channel) s := by
  simp [shut, h]

/-- An open track is shut: it is marked, the note is taken, and its hooks are its own no
longer. -/
theorem shut_of_open {t : Track} {s : Session} (h : s.isClosed t = false) :
    shut t s = .ok (s.hooksOf t) ((s.markClosed t).log (.note (.trackClosed t))) := by
  simp [shut, h]

/-- The work that the hooks of a track amount to is in store until the track is shut. -/
theorem load_shut {t : Track} {s s' : Session} {hooks : List Hook}
    (h : shut t s = .ok hooks s') : s'.load + totalOf Hook.weight hooks = s.load := by
  cases hc : s.isClosed t with
  | true =>
    rw [shut_of_closed hc] at h
    cases h
  | false =>
    rw [shut_of_open hc] at h
    cases h
    -- The hooks of the track and those of others make up all that there were.
    have := totalOf_filter_add_filter_not (fun h => h.2.weight) (fun h => h.1 == t.serial)
      s.tracks.hooks
    simp only [load, markClosed, log, hooksOf, totalOf_map]
    omega

theorem eq_of_shut_error {t : Track} {s s' : Session} {f : Fault}
    (h : shut t s = .error f s') : s' = s := by
  cases hc : s.isClosed t with
  | true =>
    rw [shut_of_closed hc] at h
    cases h
    rfl
  | false =>
    rw [shut_of_open hc] at h
    cases h

end Session

/-! ### The agenda -/

namespace Chore

open Session

/-- Whatever a chore arranges is less than what it was itself. -/
theorem spends (c : Chore) (s : Session) :
    totalOf cost (c.step s).1 + (c.step s).2.load < c.cost + s.load := by
  cases c with
  | conclude answer => simp [step, cost]
  | endHook label => simp [step, cost]
  | beginHook h =>
    simp only [step, totalOf_append, totalOf_cost_operations, load_log, cost, Hook.weight,
      totalOf_cons, totalOf_nil]
    omega
  | operation op =>
    have hop := op.weight_pos
    simp only [step, perform, cost]
    split
    -- An attempt to close a track; its hooks come out of store and onto the agenda.
    · next n =>
      split
      · simp [cost]
        omega
      · next t _ =>
        split
        · next hooks s' h =>
          have := load_shut h
          simp only [load_log] at this
          simp only [totalOf_append, totalOf_cost_hooks, totalOf_cons, totalOf_nil, cost]
          omega
        · next f s' h =>
          rw [eq_of_shut_error h]
          simp [cost]
          omega
    -- Any other operation, which needs no lock or is refused.
    · next op _ =>
      split
      · next answer s' h =>
        have := load_lockFree_lt h
        simp only [load_log] at this
        simp [cost]
        omega
      · simp [cost]
        omega

def agenda : Agenda Chore Session := ⟨step, cost, load, spends⟩

end Chore

namespace Session

def closeTrack (t : Track) : Action Unit := do
  let hooks ← shut t
  modify (Chore.agenda.run (hooks.map .beginHook))

/-- Closes tracks, in order; that one is closed already does not keep the others from being
closed. -/
def closeAll : List Track → Action Unit
  | [] => pure ()
  | t :: ts => do
    tolerate (closeTrack t) (.closeFailed t)
    closeAll ts

/-- Closing a track leaves no more work in store. -/
theorem Grows.closeTrack (t : Track) : Grows (Session.closeTrack t) 0 := by
  intro s
  simp only [after, Session.closeTrack, Bind.bind, EStateM.bind]
  cases h : shut t s with
  | ok hooks s' =>
    have h₁ := load_shut h
    have h₂ := Chore.agenda.load_run_le (hooks.map .beginHook) s'
    have h₃ := Chore.totalOf_cost_hooks hooks
    show (Chore.agenda.run (hooks.map .beginHook) s').load ≤ s.load + 0
    simp only [Agenda.total, Chore.agenda] at h₂ ⊢
    omega
  | error f s' =>
    cases eq_of_shut_error h
    exact Nat.le_refl _

theorem Grows.closeAll : ∀ ts : List Track, Grows (Session.closeAll ts) 0
  | [] => Grows.pure _
  | t :: ts => (Grows.tolerate (Grows.closeTrack t) _).andThen fun _ => Grows.closeAll ts

end Session

end RtspControl
