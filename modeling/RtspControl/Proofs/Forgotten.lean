import RtspControl.Proofs.Hooks

/-!
# Hooks that nobody runs

A hook is left with a track so that it runs when the track is closed. Closing a track takes the
hooks that it has at that moment, and no track is closed twice: a hook that is left later, by one of
the hooks that are just running or by anybody else, waits forever. `Ledger.left_eq` says so of any
ledger: the hooks that have been left with a track that is closed by now are those that have run,
once each and in order, and then the late ones. `Session.all_ran_iff` is the same for all operations
that close tracks and leave hooks, in any order and however they are nested, and
`Session.twoTracks_forgotten` is a hook that never runs.
-/

namespace RtspControl

namespace Doing

/-- The hook of the track of this number that has run to its end. -/
def ranFor? (n : Nat) : Doing → Option Hook
  | .ended (some t) hook => if t.serial = n then some hook else none
  | _ => none

end Doing

/-- The hooks of a track that have run, the first one first. -/
def ranIn (n : Nat) (ds : List Doing) : List Hook := ds.filterMap (Doing.ranFor? n)

/-- The hooks that are left with a track after it has been marked closed, the first one first. -/
def lateIn (n : Nat) (ds : List Doing) : List Hook :=
  hookedIn n (ds.dropWhile fun d => d.granted? != some n)

section

variable (n : Nat) (ds ds' : List Doing)

theorem ranIn_append : ranIn n (ds ++ ds') = ranIn n ds ++ ranIn n ds' := List.filterMap_append

theorem ranIn_runsIn : ranIn n (runsIn n ds) = ranIn n ds := by
  rw [ranIn, runsIn, List.filterMap_filter]
  refine List.filterMap_congr fun d _ => ?_
  cases d with
  | ended t hook =>
    cases t with
    | none => rfl
    | some t => by_cases same : t.serial = n <;> simp [Doing.isRunOf, Doing.ranFor?, same]
  | began t hook => cases t <;> simp [Doing.isRunOf, Doing.ranFor?]
  | _ => rfl

theorem ranIn_runsOf (t : Track) (hooks : List Hook) : ranIn t.serial (runsOf t hooks) = hooks := by
  induction hooks with
  | nil => rfl
  | cons hook hooks ih =>
    have first : ranIn t.serial [.began (some t) hook, .ended (some t) hook] = [hook] := by
      rw [ranIn, List.filterMap_cons_none rfl]
      exact List.filterMap_cons_some (if_pos rfl)
    rw [runsOf, List.flatMap_cons, ranIn_append, first]
    exact congrArg (hook :: ·) ih

variable {n ds ds'}

/-- What comes after the track is marked closed is late, and nothing before that. -/
theorem lateIn_granted {before after : List Doing} {t : Track}
    (first : t.serial ∉ grantedIn before) :
    lateIn t.serial (before ++ .granted t :: after) = hookedIn t.serial after := by
  have unmarked : ∀ d ∈ before, (d.granted? != some t.serial) = true := by
    intro d hd
    rw [bne_iff_ne]
    exact fun granted => first (List.mem_filterMap.mpr ⟨d, hd, granted⟩)
  have mark : ¬ (Doing.granted t).granted? != some t.serial := by simp [Doing.granted?]
  rw [lateIn, List.dropWhile_append_of_pos unmarked, List.dropWhile_cons, if_neg mark]
  exact List.filterMap_cons_none rfl

/-- None is late if none is left once the track has been marked. -/
theorem hookedIn_eq_nil_iff {before after : List Doing} {t : Track}
    (first : t.serial ∉ grantedIn before) :
    hookedIn t.serial after = [] ↔ ∀ b u hook a,
      before ++ .granted t :: after = b ++ .hooked u hook :: a → u.serial = t.serial →
        t.serial ∉ grantedIn b := by
  constructor
  · intro none b u hook a split same granted
    rcases split_append split with ⟨later, rfl, -⟩ | ⟨earlier, rfl, rest⟩
    · rw [grantedIn_append] at first
      exact first (List.mem_append_left _ granted)
    · rcases split_cons rest with ⟨-, mark, -⟩ | ⟨inner, -, rfl⟩
      · cases mark
      · have left : hook ∈ hookedIn t.serial (inner ++ .hooked u hook :: a) :=
          List.mem_filterMap.mpr ⟨.hooked u hook, by simp, if_pos same⟩
        rw [none] at left
        cases left
  · intro timely
    refine List.filterMap_eq_nil_iff.mpr fun d hd => ?_
    cases d with
    | hooked u hook =>
      refine if_neg fun same => ?_
      obtain ⟨b, a, rfl⟩ := List.append_of_mem hd
      refine timely (before ++ .granted t :: b) u hook a ?_ same ?_
      · rw [List.append_assoc, List.cons_append]
      · rw [grantedIn_append]
        exact List.mem_append_right _ List.mem_cons_self
    | _ => rfl

end

namespace Ledger

variable {table table' : TrackTable} {ds : List Doing} {n : Nat}

/-- The hooks that are left with a track until it has been closed, and later, are those that have
run and those that came too late. None has come too late if none was left once the track had been
marked. -/
theorem left_eq (h : Ledger none table table' ds) (opened : n ∉ table.closed)
    (closed : n ∈ table'.closed) :
    table.waiting n ++ hookedIn n ds = ranIn n ds ++ lateIn n ds ∧
      (lateIn n ds = [] ↔ ∀ before u hook after, ds = before ++ .hooked u hook :: after →
        u.serial = n → n ∉ grantedIn before) := by
  have granted : n ∈ grantedIn ds := ((h.closed n).mp closed).resolve_left opened
  obtain ⟨before, t, after, rfl, rfl⟩ := exists_granted granted
  obtain ⟨-, unmarked, runs⟩ := h.granted before t after rfl
  have first : t.serial ∉ grantedIn before := fun granted => unmarked (.inr granted)
  have ran : ranIn t.serial (before ++ .granted t :: after) =
      table.waiting t.serial ++ hookedIn t.serial before := by
    rw [← ranIn_runsIn, runs, ranIn_runsOf]
  rw [lateIn_granted first]
  refine ⟨?_, hookedIn_eq_nil_iff first⟩
  rw [ran, hookedIn_append, List.append_assoc]
  rfl

end Ledger

namespace Session

/-- Whatever operations close tracks and leave hooks with them, in any order, and whatever the hooks
do in their turn: when all that has come to an end, the hooks of a track that has been closed have
run once each, in order, except for those that are late, and all have run if and only if nobody has
left a hook with the track after it was marked closed. -/
theorem all_ran_iff (s : Session) (ops : List Operation) (n : Nat)
    (free : ∀ op ∈ ops, op.needsNoLock = true) (opened : n ∉ s.tracks.closed)
    (closed : n ∈ (perform ops s).tracks.closed) :
    s.tracks.waiting n ++ hookedIn n (s.doingsSince (perform ops s)) =
        ranIn n (s.doingsSince (perform ops s)) ++ lateIn n (s.doingsSince (perform ops s)) ∧
      (ranIn n (s.doingsSince (perform ops s)) =
          s.tracks.waiting n ++ hookedIn n (s.doingsSince (perform ops s)) ↔
        ∀ before u hook after,
          s.doingsSince (perform ops s) = before ++ .hooked u hook :: after → u.serial = n →
            n ∉ grantedIn before) := by
  obtain ⟨-, -, -, ledger⟩ := s.closings_lawful ops free
  obtain ⟨left, timely⟩ := ledger.left_eq opened closed
  refine ⟨left, ?_⟩
  rw [left, ← timely]
  exact List.self_eq_append_right

/-- Operations that leave hooks with a track before it is closed, while one of these hooks runs, and
when all is over. -/
def belatedHooks : List Operation :=
  [.onClose 0 "first" [.onClose 0 "meanwhile" []], .onClose 0 "second" [.closeTrack 0],
    .closeTrack 0, .onClose 0 "afterwards" []]

/-- Of the four hooks only the first two have run. -/
theorem twoTracks_forgotten :
    (∀ op ∈ belatedHooks, op.needsNoLock = true) ∧ 0 ∉ twoTracks.tracks.closed ∧
      0 ∈ (perform belatedHooks twoTracks).tracks.closed ∧
      (ranIn 0 (twoTracks.doingsSince (perform belatedHooks twoTracks))).map Hook.label =
        ["first", "second"] ∧
      (lateIn 0 (twoTracks.doingsSince (perform belatedHooks twoTracks))).map Hook.label =
        ["meanwhile", "afterwards"] ∧
      twoTracks.tracks.waiting 0 ++
          hookedIn 0 (twoTracks.doingsSince (perform belatedHooks twoTracks)) =
        ranIn 0 (twoTracks.doingsSince (perform belatedHooks twoTracks)) ++
          lateIn 0 (twoTracks.doingsSince (perform belatedHooks twoTracks)) := by
  have free : ∀ op ∈ belatedHooks, op.needsNoLock = true := by decide +kernel
  have opened : 0 ∉ twoTracks.tracks.closed := by decide +kernel
  have closed : 0 ∈ (perform belatedHooks twoTracks).tracks.closed := by decide +kernel
  exact ⟨free, opened, closed, by decide +kernel, by decide +kernel,
    (all_ran_iff twoTracks belatedHooks 0 free opened closed).1⟩

/-- A hook that is left with a closed track does not run. -/
theorem twoTracks_unreleased :
    ¬ ∀ (s : Session) (ops : List Operation) (n : Nat), (∀ op ∈ ops, op.needsNoLock = true) →
      n ∉ s.tracks.closed → n ∈ (perform ops s).tracks.closed →
        ranIn n (s.doingsSince (perform ops s)) =
          s.tracks.waiting n ++ hookedIn n (s.doingsSince (perform ops s)) := by
  intro h
  have ran := h twoTracks [.closeTrack 0, .onClose 0 "afterwards" []] 0 (by decide +kernel)
    (by decide +kernel) (by decide +kernel)
  exact absurd (congrArg List.length ran) (by decide +kernel)

end Session

end RtspControl
