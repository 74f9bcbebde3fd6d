/-!
# Working off an agenda

An agenda is a list of tasks that act on a state one after the other. A task may put
further tasks in front of those that wait, which is how one activity runs inside
another. Each task has a cost and each state a load of work that it keeps in store; a
step has to spend more than it arranges. `Agenda.run` then comes to an end by itself,
and is described completely by `run_nil` and `run_cons`.

`run_append` says that tasks in a row act like runs in a row, `run_invariant` that what
every step keeps the whole run keeps.
-/

namespace RtspControl

def totalOf {α : Type} (f : α → Nat) : List α → Nat
  | [] => 0
  | a :: as => f a + totalOf f as

section

variable {α β : Type} (f : α → Nat)

@[simp] theorem totalOf_nil : totalOf f [] = 0 := rfl

@[simp] theorem totalOf_cons (a : α) (as : List α) : totalOf f (a :: as) = f a + totalOf f as :=
  rfl

@[simp] theorem totalOf_append (as bs : List α) :
    totalOf f (as ++ bs) = totalOf f as + totalOf f bs := by
  induction as with
  | nil => simp
  | cons a as ih =>
    simp only [List.cons_append, totalOf_cons, ih]
    omega

@[simp] theorem totalOf_map (g : β → α) (bs : List β) :
    totalOf f (bs.map g) = totalOf (fun b => f (g b)) bs := by
  induction bs with
  | nil => rfl
  | cons b bs ih => simp only [List.map_cons, totalOf_cons, ih]

/-- What is in a list and what is left out of it make up the whole. -/
theorem totalOf_filter_add_filter_not (p : α → Bool) (as : List α) :
    totalOf f (as.filter p) + totalOf f (as.filter fun a => !(p a)) = totalOf f as := by
  induction as with
  | nil => rfl
  | cons a as ih =>
    simp only [List.filter_cons]
    cases p a <;> simp <;> omega

end

/-- How tasks of type `τ` act on states of type `σ`, with the reason that they come to an
end. -/
structure Agenda (τ σ : Type) where
  /-- What a task does: the tasks that it puts in front, and the new state. -/
  step : τ → σ → List τ × σ
  cost : τ → Nat
  /-- The work that a state keeps in store. -/
  load : σ → Nat
  spends : ∀ t s, totalOf cost (step t s).1 + load (step t s).2 < cost t + load s

namespace Agenda

variable {τ σ : Type} (A : Agenda τ σ)

def total (ts : List τ) (s : σ) : Nat := totalOf A.cost ts + A.load s

def runFor : Nat → List τ → σ → σ
  | _, [], s => s
  | 0, _ :: _, s => s
  | n + 1, t :: ts, s =>
    let (more, s') := A.step t s
    runFor n (more ++ ts) s'

def run (ts : List τ) (s : σ) : σ := A.runFor (A.total ts s) ts s

theorem total_step_lt (t : τ) (ts : List τ) (s : σ) :
    A.total ((A.step t s).1 ++ ts) (A.step t s).2 < A.total (t :: ts) s := by
  have := A.spends t s
  simp only [total, totalOf_append, totalOf_cons]
  omega

theorem runFor_succ (n : Nat) (t : τ) (ts : List τ) (s : σ) :
    A.runFor (n + 1) (t :: ts) s = A.runFor n ((A.step t s).1 ++ ts) (A.step t s).2 := rfl

/-- More steps than there is work change nothing. -/
theorem runFor_eq_of_le {n : Nat} {ts : List τ} {s : σ} (h : A.total ts s ≤ n) :
    A.runFor n ts s = A.run ts s := by
  induction n using Nat.strongRecOn generalizing ts s with
  | _ n ih =>
    cases ts with
    | nil => simp [run, runFor]
    | cons t ts =>
      -- The steps that `run` itself takes are enough too, so both sides take one step and
      -- meet in the run of what is left.
      have hlt := A.total_step_lt t ts s
      obtain ⟨k, hk⟩ := Nat.exists_eq_add_of_lt hlt
      cases n with
      | zero => omega
      | succ n =>
        rw [run, hk, runFor_succ, runFor_succ, ih n (by omega) (by omega),
          ih _ (by omega) (by omega)]

@[simp] theorem run_nil (s : σ) : A.run [] s = s := by simp [run, runFor]

theorem run_cons (t : τ) (ts : List τ) (s : σ) :
    A.run (t :: ts) s = A.run ((A.step t s).1 ++ ts) (A.step t s).2 := by
  have hlt := A.total_step_lt t ts s
  obtain ⟨k, hk⟩ := Nat.exists_eq_add_of_lt hlt
  rw [run, hk, runFor_succ, A.runFor_eq_of_le (by omega)]

/-- What holds of a finished run, and is passed backwards over every step, holds of all
runs. -/
theorem run_induction {motive : List τ → σ → Prop} (nil : ∀ s, motive [] s)
    (cons : ∀ t ts s, motive ((A.step t s).1 ++ ts) (A.step t s).2 → motive (t :: ts) s)
    (ts : List τ) (s : σ) : motive ts s := by
  induction h : A.total ts s using Nat.strongRecOn generalizing ts s with
  | _ n ih =>
    cases ts with
    | nil => exact nil s
    | cons t ts => exact cons t ts s (ih _ (h ▸ A.total_step_lt t ts s) _ _ rfl)

theorem run_append (first second : List τ) (s : σ) :
    A.run (first ++ second) s = A.run second (A.run first s) := by
  induction first, s using A.run_induction with
  | nil s => simp
  | cons t ts s ih => rw [List.cons_append, run_cons, run_cons, ← ih, List.append_assoc]

/-- What every step keeps a run keeps. -/
theorem run_invariant {P : σ → Prop} (step : ∀ t s, P s → P (A.step t s).2) (ts : List τ)
    {s : σ} (h : P s) : P (A.run ts s) := by
  induction ts, s using A.run_induction with
  | nil s => simpa using h
  | cons t ts s ih => rw [run_cons]; exact ih (step t s h)

/-- A run leaves no more work in store than there was at its start. -/
theorem load_run_le (ts : List τ) (s : σ) : A.load (A.run ts s) ≤ A.total ts s := by
  induction ts, s using A.run_induction with
  | nil s => simp [total]
  | cons t ts s ih =>
    rw [run_cons]
    exact Nat.le_of_lt (Nat.lt_of_le_of_lt ih (A.total_step_lt t ts s))

end Agenda

end RtspControl
