import RtspControl.Proofs.Phases
import Mathlib.Data.List.Chain

/-!
# The log of the phases

A connection notes every change of its phase. Whoever reads these notes, and nothing else, knows the
phase at any time: they begin where every connection begins, each goes on where the one before has
ended, none of them tells of a change that is none, and the last one tells the phase.

`Session.Announces` says this of what the notes have in their fields, in words. It follows from
`Reached.leads`, which is about the phases themselves: a move tells of the one change that it makes
(`Account`), and so the changes of all moves lead from phase to phase.
-/

namespace RtspControl

open Session

/-! ## Changes in a row -/

/-- Changes that lead from one state to another, each one from where the last has led. -/
inductive Leads {α : Type} : α → List (α × α) → α → Prop where
  | nil (a : α) : Leads a [] a
  | concat {a b c : α} {changes : List (α × α)} (earlier : Leads a changes b) (differ : b ≠ c) :
      Leads a (changes ++ [(b, c)]) c

namespace Leads

variable {α β : Type} {a b : α} {changes : List (α × α)}

theorem map {f : α → β} (h : Leads a changes b) (injective : ∀ x y, f x = f y → x = y) :
    Leads (f a) (changes.map fun c => (f c.1, f c.2)) (f b) := by
  induction h with
  | nil => exact .nil (f a)
  | concat _ differ ih =>
    rw [List.map_append, List.map_singleton]
    exact .concat ih fun same => differ (injective _ _ same)

theorem last (h : Leads a changes b) : (changes.getLast?.map Prod.snd).getD a = b := by
  cases h with
  | nil => rfl
  | concat => simp

theorem first (h : Leads a changes b) : ∀ c, changes.head? = some c → c.1 = a := by
  induction h with
  | nil =>
    intro c hc
    cases hc
  | @concat p q changes earlier differ ih =>
    intro c hc
    cases changes with
    | nil =>
      -- The first change is the last one, so nothing has led away from the beginning.
      obtain rfl : (p, q) = c := Option.some.inj hc
      exact earlier.last.symm
    | cons d ds => exact ih c hc

theorem differ (h : Leads a changes b) : ∀ c ∈ changes, c.1 ≠ c.2 := by
  induction h with
  | nil => exact List.forall_mem_nil _
  | concat _ differ ih =>
    exact List.forall_mem_append.mpr ⟨ih, List.forall_mem_singleton.mpr differ⟩

theorem linked (h : Leads a changes b) : changes.IsChain fun c d => d.1 = c.2 := by
  induction h with
  | nil => exact .nil
  | @concat p q changes earlier _ ih =>
    rw [List.isChain_append]
    refine ⟨ih, .singleton _, ?_⟩
    intro c hc d hd
    obtain rfl : (p, q) = d := Option.some.inj hd
    have hl := earlier.last
    rw [Option.mem_def.mp hc] at hl
    exact hl.symm

end Leads

/-! ## What the history says about the phase -/

/-- The changes of the phase that a history tells of, the first one first. -/
def changesIn (history : List Entry) : List (Phase × Phase) :=
  history.reverse.filterMap Entry.change?

theorem changesIn_append (es history : List Entry) :
    changesIn (es ++ history) = changesIn history ++ (es.filterMap Entry.change?).reverse := by
  rw [changesIn, List.reverse_append, List.filterMap_append, ← List.filterMap_reverse]
  rfl

/-- The changes of the phase so far lead to the phase that the connection is in. -/
theorem Reached.leads {role : Role} {past : List Move} {s : Session} (h : Reached role past s) :
    Leads .idle (changesIn s.history) s.control.phase := by
  induction h using Reached.induct with
  | opened => exact .nil _
  | moved past x earlier _ suits ih =>
    rw [x.history_left suits, changesIn_append, (x.account suits).changes]
    by_cases same : x.found.control.phase = x.left.control.phase
    · rw [if_pos same, List.reverse_nil, List.append_nil, ← same]
      exact ih
    · rw [if_neg same, List.reverse_singleton]
      exact .concat ih same

/-! ## What the notes say in words -/

namespace Note

/-- The text of a field of a note, if it has such a field. -/
def field? (d : Descriptor) (key : String) (n : Note) : Option String := (n.fields d).lookup key

end Note

/-- The old and the new state that an entry announces, if it is a note with that message. -/
def Entry.announced? (d : Descriptor) : Entry → Option (String × String)
  | .note n =>
    if n.message = "state transition" then
      (n.field? d "old_state").bind fun old => (n.field? d "new_state").map fun new => (old, new)
    else none
  | _ => none

/-- All that the notes announce, the first announcement first. -/
def Session.announced (s : Session) : List (String × String) :=
  s.history.reverse.filterMap (Entry.announced? s.descriptor)

/-- A note announces a change of the phase by the words for both phases, and no other note is
mistaken for one. -/
theorem Entry.announced?_eq (d : Descriptor) (e : Entry) :
    e.announced? d = e.change?.map fun c => (c.1.text, c.2.text) := by
  cases e with
  | note n => cases n <;> rfl
  | _ => rfl

theorem announced_eq (s : Session) :
    s.announced = (changesIn s.history).map fun c => (c.1.text, c.2.text) := by
  rw [Session.announced, changesIn, List.map_filterMap]
  exact List.filterMap_congr fun e _ => e.announced?_eq s.descriptor

theorem Phase.eq_of_text (p q : Phase) (h : p.text = q.text) : p = q := by
  revert h
  cases p <;> cases q <;> decide

/-- The announcements of a session are a faithful log of its phase. -/
structure Session.Announces (s : Session) : Prop where
  first : ∀ c, s.announced.head? = some c → c.1 = "NONE"
  linked : s.announced.IsChain fun c d => d.1 = c.2
  differ : ∀ c ∈ s.announced, c.1 ≠ c.2
  phase : (s.announced.getLast?.map Prod.snd).getD "NONE" = s.control.phase.text

theorem Session.announces_of_leads {s : Session}
    (h : Leads .idle (changesIn s.history) s.control.phase) : s.Announces := by
  have leads : Leads "NONE" s.announced s.control.phase.text := by
    rw [announced_eq]
    exact h.map Phase.eq_of_text
  exact ⟨leads.first, leads.linked, leads.differ, leads.last⟩

/-- At every moment in which the connection is not locked, before and after each move of any caller
or handler, what has been announced is a faithful log of the phase. -/
theorem Course.announcements_faithful (r : Course) :
    (∀ x ∈ r.moves, x.found.Announces ∧ x.left.Announces) ∧ r.session.Announces := by
  refine ⟨?_, announces_of_leads r.reached.leads⟩
  intro x hx
  obtain ⟨past, later, hm, found, suits⟩ := Course.reached_found hx
  have left : Reached r.role (past ++ [x]) x.left := (hm ▸ r.reached).after
  exact ⟨announces_of_leads found.leads, announces_of_leads left.leads⟩

end RtspControl
