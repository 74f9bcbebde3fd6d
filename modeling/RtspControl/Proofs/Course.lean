import RtspControl.Proofs.Onward
import Mathlib.Data.List.Induction

/-!
# Courses of events

Several callers may use one connection at the same time, each with operations of its own.
What one of them does under the lock is one piece, and between two such pieces any other
caller may come in. A `Course` says who the callers are, what they are going to do, and whose
turn it is, time and again; its moves are all that then happens, in order, and none of them is
ruled out by anything: the peer and the handlers are arbitrary as well.

`Reached role past s` is the same seen from the end: `s` is a session in which a connection can
be after the moves `past`. Whatever holds of all courses is proved by induction on it, from one
case for each task. A run of a single caller is the course in which it always is its turn.

Much of what holds after some moves depends on what was the last thing that mattered, and `Since`
says what that was.
-/

namespace RtspControl

open Session

/-! ## What has been since -/

/-- Is there a `P` in a list, and nothing but `Q` after it? -/
def Since {α : Type} (P Q : α → Prop) (as : List α) : Prop :=
  ∃ before a since, as = before ++ a :: since ∧ P a ∧ ∀ b ∈ since, Q b

section

variable {α : Type} {P Q : α → Prop} {as : List α} {a : α}

theorem not_since_nil : ¬ Since P Q [] := by
  rintro ⟨before, a, since, h, -⟩
  exact absurd h (by simp)

theorem since_concat : Since P Q (as ++ [a]) ↔ P a ∨ Q a ∧ Since P Q as := by
  constructor
  · rintro ⟨before, b, since, h, hb, hs⟩
    rcases List.eq_nil_or_concat since with rfl | ⟨since, c, rfl⟩
    · obtain ⟨-, h⟩ := List.append_inj' h rfl
      obtain rfl := (List.cons.inj h).1
      exact Or.inl hb
    · rw [List.concat_eq_append, ← List.cons_append, ← List.append_assoc] at h
      obtain ⟨hp, hc⟩ := List.append_inj' h rfl
      obtain rfl := (List.cons.inj hc).1
      exact Or.inr ⟨hs a (by simp), before, b, since, hp, hb, fun d hd => hs d (by simp [hd])⟩
  · rintro (ha | ⟨ha, before, b, since, rfl, hb, hs⟩)
    · exact ⟨as, a, [], rfl, ha, List.forall_mem_nil _⟩
    · refine ⟨before, b, since ++ [a], by simp, hb, ?_⟩
      exact List.forall_mem_append.mpr ⟨hs, List.forall_mem_singleton.mpr ha⟩

theorem not_since_concat (hp : ¬ P a) (hq : ¬ Q a) : ¬ Since P Q (as ++ [a]) := by
  rw [since_concat]
  rintro (h | ⟨h, -⟩)
  · exact hp h
  · exact hq h

/-- What each element of a list has to do with those before it, one more element has as well. -/
theorem forall_take_concat {R : List α → α → Prop}
    (h : ∀ k, (hk : k < (as ++ [a]).length) → R ((as ++ [a]).take k) (as ++ [a])[k]) :
    (∀ k, (hk : k < as.length) → R (as.take k) as[k]) ∧ R as a := by
  constructor
  · intro k hk
    have h := h k (by rw [List.length_append]; omega)
    rwa [List.getElem_append_left hk, List.take_append_of_le_length (Nat.le_of_lt hk)] at h
  · have h := h as.length (by simp)
    rwa [List.getElem_concat_length rfl, List.take_left] at h

end

/-! ## Moves -/

/-- A task whose turn it is, with the session that it finds. -/
structure Move where
  task : Task
  found : Session

namespace Move

def left (x : Move) : Session := (x.task.step x.found).2

/-- What the history says about a move, the newest first. -/
def entries (x : Move) : List Entry :=
  x.left.history.take (x.left.history.length - x.found.history.length)

theorem entries_of_history {x : Move} {es : List Entry}
    (h : x.left.history = es ++ x.found.history) : x.entries = es := by
  rw [entries, h, List.length_append, Nat.add_sub_cancel, List.take_left]

theorem effect {x : Move} (suits : x.task.Suits x.found.role) :
    Task.Effect x.task x.found x.left :=
  Task.effect suits

theorem left_of_reconnect {x : Move} {caller : Caller}
    (kind : x.task = .perform caller .reconnect) :
    x.left = (outcome reconnect (x.task.underway x.found)).2 := by
  rw [left, kind, Task.step_reconnect]
  rfl

theorem left_of_request {x : Move} {m : MediaSection} {c : Codec}
    (kind : x.task.request? = some (m, c)) :
    x.left = (outcome (negotiate m c) (x.task.underway x.found)).2 := by
  rw [left, Task.step_request kind, Task.thenDeliver_eq]

theorem history_left {x : Move} (suits : x.task.Suits x.found.role) :
    x.left.history = x.entries ++ x.found.history := by
  obtain ⟨es, h⟩ := (Task.onward_step suits).history
  rw [entries_of_history h]
  exact h

end Move

/-! ## Sessions that are reached -/

/-- A session in which a connection of a role can be after some moves, the first one first. -/
inductive Reached (role : Role) : List Move → Session → Prop where
  | opened (descriptor : Descriptor) (settings : Settings) (monitored : Bool) (peer : Peer)
      (script : Script) :
      Reached role [] { opened role descriptor settings monitored with peer, script }
  | moved {past : List Move} {s : Session} (earlier : Reached role past s) (t : Task)
      (suits : t.Suits role) : Reached role (past ++ [⟨t, s⟩]) (t.step s).2

namespace Reached

variable {role : Role} {past : List Move} {s : Session}

theorem role_eq (h : Reached role past s) : s.role = role := by
  induction h with
  | opened => rfl
  | moved earlier t suits ih => exact (Task.onward_step (ih ▸ suits)).role.trans ih

theorem suits_task (h : Reached role past s) {t : Task} (suits : t.Suits role) :
    t.Suits s.role :=
  h.role_eq ▸ suits

/-- Whatever holds in the beginning, and is kept by every move, always holds. -/
@[elab_as_elim]
theorem induct {motive : (past : List Move) → (s : Session) → Reached role past s → Prop}
    (opened : ∀ (descriptor : Descriptor) (settings : Settings) (monitored : Bool) (peer : Peer)
      (script : Script), motive [] _ (.opened descriptor settings monitored peer script))
    (moved : ∀ (past : List Move) (x : Move) (earlier : Reached role past x.found)
      (suits : x.task.Suits role), x.task.Suits x.found.role →
      motive past x.found earlier → motive (past ++ [x]) x.left (earlier.moved x.task suits))
    (h : Reached role past s) : motive past s h := by
  induction h with
  | opened descriptor settings monitored peer script =>
    exact opened descriptor settings monitored peer script
  | @moved past s earlier t suits ih =>
    exact moved past ⟨t, s⟩ earlier suits (earlier.suits_task suits) ih

theorem last {x : Move} (h : Reached role (past ++ [x]) s) :
    Reached role past x.found ∧ x.task.Suits role ∧ s = x.left := by
  generalize hm : past ++ [x] = moves at h
  cases h with
  | opened => exact absurd hm (by simp)
  | moved earlier t suits =>
    obtain ⟨rfl, hx⟩ := List.append_inj' hm rfl
    cases hx
    exact ⟨earlier, suits, rfl⟩

/-- The session that a move finds is reached by the moves before it. -/
theorem before {x : Move} {later : List Move} (h : Reached role (past ++ x :: later) s) :
    Reached role past x.found ∧ x.task.Suits role := by
  induction later using List.reverseRecOn generalizing s with
  | nil => exact ⟨h.last.1, h.last.2.1⟩
  | append_singleton later y ih =>
    rw [← List.cons_append, ← List.append_assoc] at h
    exact ih h.last.1

theorem after {x : Move} {later : List Move} (h : Reached role (past ++ x :: later) s) :
    Reached role (past ++ [x]) x.left :=
  h.before.1.moved x.task h.before.2

/-- The history is made up of what the moves have added to it. -/
theorem history_eq (h : Reached role past s) : s.history = past.reverse.flatMap Move.entries := by
  induction h using induct with
  | opened => rfl
  | moved past x earlier _ suits ih =>
    rw [List.reverse_append, List.reverse_singleton, List.singleton_append, List.flatMap_cons,
      ← ih]
    exact x.history_left suits

/-- What has happened in the course of the first moves is not forgotten later on. -/
theorem history_subset {later : List Move} {s' : Session} (h : Reached role past s)
    (h' : Reached role (past ++ later) s') : s.history ⊆ s'.history := by
  intro e he
  rw [h.history_eq] at he
  rw [h'.history_eq]
  obtain ⟨x, hx, he⟩ := List.mem_flatMap.mp he
  refine List.mem_flatMap.mpr ⟨x, ?_, he⟩
  rw [List.mem_reverse] at hx ⊢
  exact List.mem_append_left _ hx

end Reached

/-! ## Several callers at once -/

/-- A session, and the tasks that each caller on it has before itself. -/
structure Scene where
  waiting : List (List Task)
  session : Session

namespace Scene

/-- The move that a caller makes next, if it has anything left to do. -/
def next? (scene : Scene) (k : Nat) : Option Move :=
  (scene.waiting[k]?.bind List.head?).map fun t => ⟨t, scene.session⟩

/-- Gives a caller its turn. What its task leads to comes before its other tasks. -/
def turn (scene : Scene) (k : Nat) : Scene :=
  match scene.waiting[k]? with
  | some (t :: ts) =>
    let (more, s) := t.step scene.session
    ⟨scene.waiting.set k (more ++ ts), s⟩
  | _ => scene

def play (scene : Scene) (schedule : List Nat) : Scene := schedule.foldl turn scene

/-- The moves that this amounts to. -/
def moves (scene : Scene) : List Nat → List Move
  | [] => []
  | k :: ks => (scene.next? k).toList ++ (scene.turn k).moves ks

/-- `past` leads to a scene, and all that waits in it fits the role. -/
structure Sound (role : Role) (past : List Move) (scene : Scene) : Prop where
  reached : Reached role past scene.session
  suits : ∀ ts ∈ scene.waiting, ∀ t ∈ ts, t.Suits role

/-! ### Single turns -/

section

variable {scene : Scene} {k : Nat} {t : Task} {ts : List Task}

theorem next?_of_waiting (h : scene.waiting[k]? = some (t :: ts)) :
    scene.next? k = some ⟨t, scene.session⟩ := by
  rw [next?, h]
  rfl

theorem turn_of_waiting (h : scene.waiting[k]? = some (t :: ts)) :
    scene.turn k = ⟨scene.waiting.set k ((t.step scene.session).1 ++ ts),
      (t.step scene.session).2⟩ := by
  unfold turn
  rw [h]

theorem waiting_turn_self (h : scene.waiting[k]? = some (t :: ts)) :
    (scene.turn k).waiting[k]? = some ((t.step scene.session).1 ++ ts) := by
  obtain ⟨bound, -⟩ := List.getElem?_eq_some_iff.mp h
  rw [turn_of_waiting h, List.getElem?_set_self bound]

theorem waiting_turn_of_ne {j : Nat} (h : j ≠ k) :
    (scene.turn j).waiting[k]? = scene.waiting[k]? := by
  unfold turn
  split
  · exact List.getElem?_set_ne h
  · rfl

/-- Either it is the turn of a caller who has nothing left to do, or one of a task that waits. -/
theorem idle_or_waiting (scene : Scene) (k : Nat) :
    (scene.next? k = none ∧ scene.turn k = scene) ∨
      ∃ t ts, scene.waiting[k]? = some (t :: ts) := by
  unfold Scene.turn next?
  cases scene.waiting[k]? with
  | none => exact Or.inl ⟨rfl, rfl⟩
  | some ts =>
    cases ts with
    | nil => exact Or.inl ⟨rfl, rfl⟩
    | cons t ts => exact Or.inr ⟨t, ts, rfl⟩

/-- When a waiting task is done, nothing waits but what did so before or what that task leads to. -/
theorem waiting_turn_cases (h : scene.waiting[k]? = some (t :: ts)) :
    ∀ us ∈ (scene.turn k).waiting, ∀ t' ∈ us,
      t' ∈ (t.step scene.session).1 ∨ ∃ us ∈ scene.waiting, t' ∈ us := by
  have old : t :: ts ∈ scene.waiting := List.mem_of_getElem? h
  intro us hm t' ht'
  rw [turn_of_waiting h] at hm
  rcases List.mem_or_eq_of_mem_set hm with hm | rfl
  · exact Or.inr ⟨us, hm, ht'⟩
  · rcases List.mem_append.mp ht' with ht' | ht'
    · exact Or.inl ht'
    · exact Or.inr ⟨_, old, List.mem_cons_of_mem t ht'⟩

end

theorem moves_append (scene : Scene) (past later : List Nat) :
    scene.moves (past ++ later) = scene.moves past ++ (scene.play past).moves later := by
  induction past generalizing scene with
  | nil => rfl
  | cons k ks ih =>
    rw [List.cons_append, moves, moves, ih, List.append_assoc]
    rfl

/-- What all tasks keep that can wait holds throughout, whoever has his turn. What is asked of the
tasks may depend on the session, as long as it stays true of the others while one is done. -/
theorem forall_moves_of_stay {P : Session → Prop} {Q : Session → Task → Prop}
    (step : ∀ t s, Q s t → P s → P (t.step s).2 ∧ ∀ t' ∈ (t.step s).1, Q (t.step s).2 t')
    (stay : ∀ t s, Q s t → ∀ t', Q s t' → Q (t.step s).2 t')
    {scene : Scene} (session : P scene.session)
    (waiting : ∀ ts ∈ scene.waiting, ∀ t ∈ ts, Q scene.session t) (schedule : List Nat) :
    (∀ x ∈ scene.moves schedule, Q x.found x.task ∧ P x.found ∧ P x.left) ∧
      P (scene.play schedule).session := by
  induction schedule generalizing scene with
  | nil => exact ⟨List.forall_mem_nil _, session⟩
  | cons k ks ih =>
    show (∀ x ∈ (scene.next? k).toList ++ (scene.turn k).moves ks, _) ∧
      P ((scene.turn k).play ks).session
    rcases scene.idle_or_waiting k with ⟨none, same⟩ | ⟨t, ts, hw⟩
    · rw [none, same]
      exact ih session waiting
    · have hq : Q scene.session t :=
        waiting _ (List.mem_of_getElem? hw) t List.mem_cons_self
      obtain ⟨kept, next⟩ := step t scene.session hq session
      have left : (scene.turn k).session = (t.step scene.session).2 := by rw [turn_of_waiting hw]
      have leads := waiting_turn_cases hw
      have later := ih (left ▸ kept) fun us hus t' ht' => left ▸ (leads us hus t' ht').elim
        (next t') fun ⟨vs, hvs, hm⟩ => stay t scene.session hq t' (waiting vs hvs t' hm)
      rw [next?_of_waiting hw]
      exact ⟨List.forall_mem_cons.mpr ⟨⟨hq, session, kept⟩, later.1⟩, later.2⟩

theorem forall_moves {P : Session → Prop} {Q : Task → Prop}
    (step : ∀ t s, Q t → P s → P (t.step s).2 ∧ ∀ t' ∈ (t.step s).1, Q t')
    {scene : Scene} (session : P scene.session) (waiting : ∀ ts ∈ scene.waiting, ∀ t ∈ ts, Q t)
    (schedule : List Nat) :
    (∀ x ∈ scene.moves schedule, Q x.task ∧ P x.found ∧ P x.left) ∧
      P (scene.play schedule).session :=
  forall_moves_of_stay (Q := fun _ => Q) step (fun _ _ _ _ kept => kept) session waiting schedule

theorem Sound.turn {role : Role} {past : List Move} {scene : Scene} (h : Sound role past scene)
    (k : Nat) : Sound role (past ++ (scene.next? k).toList) (scene.turn k) := by
  rcases scene.idle_or_waiting k with ⟨none, same⟩ | ⟨t, ts, hw⟩
  · rw [none, same]
    simpa using h
  · have hs : t.Suits role := h.suits _ (List.mem_of_getElem? hw) t List.mem_cons_self
    have left : (scene.turn k).session = (t.step scene.session).2 := by rw [turn_of_waiting hw]
    rw [next?_of_waiting hw]
    refine ⟨left ▸ h.reached.moved t hs, ?_⟩
    intro us hus t' ht'
    rcases waiting_turn_cases hw us hus t' ht' with ht' | ⟨vs, hvs, ht'⟩
    · have := Task.suits_step (h.reached.suits_task hs) t' ht'
      exact h.reached.role_eq ▸ this
    · exact h.suits vs hvs t' ht'

theorem Sound.play {role : Role} {past : List Move} {scene : Scene} (h : Sound role past scene)
    (schedule : List Nat) : Sound role (past ++ scene.moves schedule) (scene.play schedule) := by
  induction schedule generalizing past scene with
  | nil => simpa [moves, Scene.play] using h
  | cons k ks ih =>
    have := ih (h.turn k)
    rw [List.append_assoc] at this
    exact this

end Scene

/-! ## Courses -/

/-- All that decides what happens on a connection. -/
structure Course where
  role : Role
  descriptor : Descriptor
  settings : Settings
  monitored : Bool
  peer : Peer
  script : Script
  /-- What each caller is going to do, in order. -/
  callers : List (List Operation)
  /-- Whose turn it is, by the number of the caller. -/
  schedule : List Nat

namespace Course

variable (r : Course)

def beginning : Scene :=
  ⟨r.callers.map fun ops => ops.map (.perform .outside),
    { opened r.role r.descriptor r.settings r.monitored with peer := r.peer, script := r.script }⟩

def moves : List Move := r.beginning.moves r.schedule

def session : Session := (r.beginning.play r.schedule).session

theorem sound_beginning : r.beginning.Sound r.role [] := by
  refine ⟨.opened _ _ _ _ _, ?_⟩
  intro ts ht
  obtain ⟨ops, -, rfl⟩ := List.mem_map.mp ht
  exact Task.suits_perform .outside ops

theorem reached : Reached r.role r.moves r.session :=
  (r.sound_beginning.play r.schedule).reached

/-- The moves before one of them reach the session that it finds. -/
theorem reached_found {r : Course} {x : Move} (h : x ∈ r.moves) :
    ∃ past later, r.moves = past ++ x :: later ∧ Reached r.role past x.found ∧
      x.task.Suits x.found.role := by
  obtain ⟨past, later, hm⟩ := List.append_of_mem h
  obtain ⟨hr, suits⟩ := (hm ▸ r.reached).before
  exact ⟨past, later, hm, hr, hr.suits_task suits⟩

end Course

end RtspControl
