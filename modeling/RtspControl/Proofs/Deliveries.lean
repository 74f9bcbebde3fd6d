import RtspControl.Proofs.Attempts
import RtspControl.Proofs.Reactions
import RtspControl.Proofs.Traces

/-!
# The delivery of events

When the lock is free again, the caller who has made an attempt takes all events that wait, and
delivers them before the operation goes on. The event handler may use the connection in its turn,
and so make further attempts, whose events are delivered inside.

If nobody else uses the connection meanwhile, the only event that waits is the one that has just
been raised. `Delivers` says what that comes to: the event handler hears of every attempt once, at
once, and is shown what it has left. `Orderly` is the invariant of a run, with a case for each of
the moments at which it can be: no event waits, an event has been raised, or it has been taken.
-/

namespace RtspControl

open Session

/-- A session when the events that waited in it have been taken. -/
def Session.delivered (s : Session) : Session := { s with pending := [] }

theorem Session.pending_alerted {s : Session} (monitored : s.monitored = true) :
    s.alerted.pending = s.pending ++ [reconnectEvent] := by
  simp only [alerted, monitored, if_true]

/-- What a caller who is alone has before itself when some moves have been made. -/
inductive Orderly (past : List Move) : List Task → Session → Prop where
  | calm {ts : List Task} {s : Session} (pending : s.pending = [])
      (quiet : ∀ t ∈ ts, t.event? = none) : Orderly past ts s
  | raised {earlier : List Move} {x : Move} {t : Task} {ts : List Task}
      (last : past = earlier ++ [x]) (attempts : x.Attempts) (reply : x.reply? = some t)
      (pending : x.left.pending = [reconnectEvent])
      (quiet : ∀ t' ∈ t :: ts, t'.event? = none) : Orderly past (.deliver :: t :: ts) x.left
  | taken {earlier : List Move} {x : Move} {ts : List Task}
      (last : past = earlier ++ [x, ⟨.deliver, x.left⟩]) (attempts : x.Attempts)
      (quiet : ∀ t ∈ ts, t.event? = none) :
      Orderly past (.react reconnectEvent :: ts) x.left.delivered

namespace Move

variable {x : Move}

theorem Attempts.event? (h : x.Attempts) : x.task.event? = none := by
  rcases h with ⟨-, caller, kind⟩ | ⟨m, c, kind, -⟩
  · rw [kind]
    rfl
  · cases task : x.task with
    | react event =>
      rw [task] at kind
      cases kind
    | _ => rfl

theorem Attempts.not_deliver (h : x.Attempts) : x.task ≠ .deliver := by
  intro task
  rcases h with ⟨-, caller, kind⟩ | ⟨m, c, kind, -⟩
  · rw [task] at kind
    cases kind
  · rw [task] at kind
    cases kind

end Move

namespace Orderly

variable {past xs later : List Move} {t : Task} {ts : List Task} {s : Session} {x : Move}

theorem next (h : Orderly past (t :: ts) s) (suits : t.Suits s.role)
    (monitored : s.monitored = true) :
    Orderly (past ++ [⟨t, s⟩]) ((t.step s).1 ++ ts) (t.step s).2 := by
  cases h with
  | calm none quiet =>
    obtain ⟨-, later⟩ := List.forall_mem_cons.mp quiet
    cases Move.leads (x := ⟨t, s⟩) suits with
    | attempt attempts u reply after next raised =>
      have pending := raised.trans (pending_alerted monitored)
      rw [none] at pending
      change (t.step s).1 = [.deliver, u] at next
      rw [next]
      exact .raised rfl attempts reply pending (List.forall_mem_cons.mpr ⟨after, later⟩)
    | deliver kind next taken =>
      change (t.step s).1 = s.pending.map .react at next
      rw [next, none]
      exact .calm taken later
    | idle unattempted kind next kept =>
      exact .calm (kept.trans none) (List.forall_mem_append.mpr ⟨next, later⟩)
  | @raised earlier x u us last attempts reply pending quiet =>
    subst last
    have taken : Orderly (earlier ++ [x] ++ [⟨.deliver, x.left⟩])
        (.react reconnectEvent :: u :: us) x.left.delivered :=
      .taken (List.append_assoc ..) attempts quiet
    show Orderly _ (x.left.pending.map .react ++ u :: us) x.left.delivered
    rw [pending]
    exact taken
  | taken last attempts quiet =>
    cases Move.leads (x := ⟨.react reconnectEvent, _⟩) suits with
    | attempt attempts => cases attempts.event?
    | deliver kind => cases kind
    | idle _ _ next kept => exact .calm kept (List.forall_mem_append.mpr ⟨next, quiet⟩)

end Orderly

end RtspControl
