import RtspControl.Outline
import RtspControl.Proofs.Closings
import Mathlib.Data.List.Forall2

/-!
# What has begun and ended

A history tells of beginnings and ends, and `outline` reads off it what lies between them. Here is
the way back: `Node.entries` is what a history says about a part of it, and `outline_entriesAll`
says that nothing is lost on the way, as long as every end belongs to its beginning.

That is so in every part of a history that has `Returned`, whatever is inside. Such a part says also
how `start` has used the frame handler (`Attends`), and that nobody else has. `Node.Calm` is the
simple case of a part in which no handler is called at all. Tracks are closed in this way:
`tells_closeTrack` and `tells_closeAll` put what happens in nodes, with all hooks that run.
-/

namespace RtspControl

open Session

/-! ## From outlines to histories -/

mutual

/-- What a history says about a part of it, the newest first. -/
def Node.entries : Node → List Entry
  | .entry e => [e]
  | .span first inner last => last :: (entriesAll inner ++ [first])

/-- What a history says about parts in a row. -/
def entriesAll : List Node → List Entry
  | [] => []
  | n :: ns => entriesAll ns ++ n.entries

end

/-- Does an entry end what another one begins? -/
inductive Entry.Ends : Entry → Entry → Prop where
  | operation (op : Operation) (a : Answer) (v : View) : Ends (.began op) (.ended a v)
  | step (result : Outcome) : Ends .handling (.handled result)
  | delivery (event : String) (control : Control) : Ends (.reacting event control) .reacted
  | hook (label : String) : Ends .hookBegan (.hookEnded label)

theorem Entry.Ends.opens {first last : Entry} (h : first.Ends last) :
    first.opens = true ∧ first.closes = false ∧ last.closes = true := by
  cases h <;> exact ⟨rfl, rfl, rfl⟩

section

variable {ns ms : List Node} {es : List Entry}

theorem entriesAll_append (ns ms : List Node) :
    entriesAll (ns ++ ms) = entriesAll ms ++ entriesAll ns := by
  induction ns with
  | nil => exact (List.append_nil _).symm
  | cons n ns ih => rw [List.cons_append, entriesAll, ih, entriesAll, List.append_assoc]

theorem entriesAll_singleton (n : Node) : entriesAll [n] = n.entries := rfl

/-- Entries that neither begin nor end anything are parts of their own. -/
theorem entriesAll_map (es : List Entry) : entriesAll (es.map .entry) = es.reverse := by
  induction es with
  | nil => rfl
  | cons e es ih =>
    rw [List.map_cons, entriesAll, ih, List.reverse_cons]
    rfl

end

/-! ## Parts that have come to an end -/

namespace Node

/-- Is this a call of the frame handler that has a step left? -/
def isStep : Node → Bool
  | .span .handling _ _ => true
  | _ => false

/-- Is this a call of the frame handler, be there a step left or not? -/
def isCall : Node → Bool
  | .span .handling _ _ => true
  | .entry .unattended => true
  | _ => false

end Node

/-- What `start` does while it runs: when it has called a frame handler that has no step left, it
calls nobody any more, and has nothing left to do but to note the failure. -/
structure Attends (ns : List Node) : Prop where
  calls : ns.countP Node.isCall ≤ ns.countP Node.isStep + 1
  last : ∀ later, .entry .unattended :: later <:+ ns →
    later = [] ∨ ∃ f, later = [.entry (.note (.handlerExited f))]

/-- A part of a history in which everything that has begun has ended, in order. The frame handler
is called by `start`, and by nobody else. -/
inductive Node.Returned : Node → Prop where
  | entry {e : Entry} (opens : e.opens = false) (closes : e.closes = false) : Returned (.entry e)
  | span {first last : Entry} {inner : List Node} (ends : first.Ends last)
      (inside : ∀ n ∈ inner, n.Returned) (attends : first = .began .start → Attends inner)
      (unattended : first ≠ .began .start → ∀ n ∈ inner, n.isCall = false) :
      Returned (.span first inner last)

section

variable {ns : List Node} {n : Node}

theorem outlineFrom_end {e : Entry} (closes : e.closes = true) (inner : List Node)
    (spans : List OpenSpan) (older : List Entry) :
    outlineFrom inner spans (e :: older) = outlineFrom [] (⟨e, inner⟩ :: spans) older := by
  simp only [outlineFrom, closes, if_true]

theorem outlineFrom_beginning {e : Entry} (opens : e.opens = true) (closes : e.closes = false)
    (inner : List Node) (span : OpenSpan) (outer : List OpenSpan) (older : List Entry) :
    outlineFrom inner (span :: outer) (e :: older) =
      outlineFrom (.span e inner span.last :: span.later) outer older := by
  simp only [outlineFrom, opens, closes, Bool.false_eq_true, if_false, if_true]

theorem outlineFrom_other {e : Entry} (opens : e.opens = false) (closes : e.closes = false)
    (inner : List Node) (spans : List OpenSpan) (older : List Entry) :
    outlineFrom inner spans (e :: older) = outlineFrom (.entry e :: inner) spans older := by
  simp only [outlineFrom, opens, closes, Bool.false_eq_true, if_false]

theorem outlineFrom_entriesAll {inner : List Node} {spans : List OpenSpan} {older : List Entry}
    (h : ∀ n ∈ ns, ∀ inner spans older,
      outlineFrom inner spans (n.entries ++ older) = outlineFrom (n :: inner) spans older) :
    outlineFrom inner spans (entriesAll ns ++ older) = outlineFrom (ns ++ inner) spans older := by
  induction ns generalizing older with
  | nil => rfl
  | cons n ns ih =>
    obtain ⟨hn, hns⟩ := List.forall_mem_cons.mp h
    rw [entriesAll, List.append_assoc, ih hns, hn]
    rfl

/-- Reading backwards, a part that has come to an end is read as a whole. -/
theorem Node.Returned.outlineFrom_entries (h : n.Returned) (inner : List Node)
    (spans : List OpenSpan) (older : List Entry) :
    outlineFrom inner spans (n.entries ++ older) = outlineFrom (n :: inner) spans older := by
  induction h generalizing inner spans older with
  | entry opens closes => exact outlineFrom_other opens closes inner spans older
  | @span first last own ends inside attends unattended ih =>
    obtain ⟨opens, unclosed, closes⟩ := ends.opens
    show outlineFrom inner spans (last :: (entriesAll own ++ [first] ++ older)) = _
    rw [outlineFrom_end closes, List.append_assoc, outlineFrom_entriesAll ih, List.append_nil]
    exact outlineFrom_beginning opens unclosed own ⟨last, inner⟩ spans older

/-- Nothing is lost when a history is made of parts that have come to an end. -/
theorem outline_entriesAll (h : ∀ n ∈ ns, n.Returned) : outline (entriesAll ns) = ns := by
  have read : outlineFrom [] [] (entriesAll ns ++ []) = outlineFrom (ns ++ []) [] [] :=
    outlineFrom_entriesAll fun n hn => (h n hn).outlineFrom_entries
  rwa [List.append_nil, List.append_nil] at read

end

/-! ## Calls of the frame handler -/

namespace Attends

variable {ns : List Node} {n : Node}

/-- Without a call there is nothing to say. -/
theorem of_uncalled (h : ∀ n ∈ ns, n.isCall = false) : Attends ns := by
  constructor
  · have none : ns.countP Node.isCall = 0 := List.countP_eq_zero.mpr fun n hn => by simp [h n hn]
    omega
  · intro later suffix
    have called := h _ (suffix.subset List.mem_cons_self)
    cases called

theorem unattended (complaint : List Node)
    (h : complaint = [] ∨ ∃ f, complaint = [.entry (.note (.handlerExited f))]) :
    Attends (.entry .unattended :: complaint) := by
  have uncalled : ∀ n ∈ complaint, n.isCall = false := by
    rcases h with rfl | ⟨f, rfl⟩
    · exact List.forall_mem_nil _
    · exact List.forall_mem_singleton.mpr rfl
  constructor
  · rw [List.countP_cons_of_pos rfl, List.countP_eq_zero.mpr fun n hn => by simp [uncalled n hn]]
    omega
  · intro later suffix
    rcases List.suffix_cons_iff.mp suffix with same | suffix
    · rw [(List.cons.inj same).2]
      exact h
    · have called := uncalled _ (suffix.subset List.mem_cons_self)
      cases called

/-- Before a call that finds no step left anything else may happen. -/
theorem cons (hn : n ≠ .entry .unattended) (h : Attends ns) : Attends (n :: ns) := by
  constructor
  · have step : n.isCall = n.isStep := by
      cases n with
      | span first => cases first <;> rfl
      | entry e =>
        cases e with
        | unattended => exact absurd rfl hn
        | _ => rfl
    have calls := h.calls
    rw [List.countP_cons, List.countP_cons, step]
    omega
  · intro later suffix
    rcases List.suffix_cons_iff.mp suffix with same | suffix
    · exact absurd (List.cons.inj same).1.symm hn
    · exact h.last later suffix

theorem append {ms : List Node} (hm : ∀ n ∈ ms, n.isCall = false) (h : Attends ns) :
    Attends (ms ++ ns) := by
  induction ms with
  | nil => exact h
  | cons m ms ih =>
    obtain ⟨first, rest⟩ := List.forall_mem_cons.mp hm
    refine cons ?_ (ih rest)
    rintro rfl
    cases first

end Attends

/-! ## Parts without handlers -/

namespace Entry

/-- Does an entry tell of something that is done at once? -/
def isInstant : Entry → Bool
  | .requested _ _ => true
  | .setUp _ _ => true
  | .note _ => true
  | _ => false

/-- Is an entry about anything but a handler? -/
def isUncalled : Entry → Bool
  | .handling => false
  | .handled _ => false
  | .unattended => false
  | .reacting _ _ => false
  | .reacted => false
  | _ => true

variable {e : Entry}

theorem isUncalled_of_isInstant (h : e.isInstant = true) : e.isUncalled = true := by
  cases e with
  | requested | setUp | note => rfl
  | _ => cases h

theorem isInstant_of_isRenewal (h : e.isRenewal = true) : e.isInstant = true := by
  cases e with
  | requested | setUp | note => rfl
  | _ => cases h

theorem isInstant_of_isNote (h : e.isNote = true) : e.isInstant = true := by
  cases e with
  | note => rfl
  | _ => cases h

end Entry

/-- A part in which no handler is called: a single entry, or something with such parts inside. -/
inductive Node.Calm : Node → Prop where
  | entry {e : Entry} (instant : e.isInstant = true) : Calm (.entry e)
  | hook (label : String) {inner : List Node} (inside : ∀ n ∈ inner, n.Calm) :
      Calm (.span .hookBegan inner (.hookEnded label))
  | operation (op : Operation) (a : Answer) (v : View) {inner : List Node}
      (inside : ∀ n ∈ inner, n.Calm) : Calm (.span (.began op) inner (.ended a v))

namespace Node.Calm

variable {n : Node} {ns : List Node}

theorem isCall (h : n.Calm) : n.isCall = false := by
  cases h with
  | @entry e instant =>
    cases e with
    | requested | setUp | note => rfl
    | _ => cases instant
  | hook | operation => rfl

/-- Plain entries in the order in which they were made. -/
theorem of_mem_map {es : List Entry} (instant : Only Entry.isInstant es)
    (h : n ∈ es.reverse.map .entry) : n.Calm := by
  obtain ⟨e, he, rfl⟩ := List.mem_map.mp h
  exact .entry (instant e (List.mem_reverse.mp he))

theorem span {first last : Entry} {inner : List Node} (ends : first.Ends last)
    (inside : ∀ n ∈ inner, n.Returned) (calm : ∀ n ∈ inner, n.Calm) :
    (Node.span first inner last).Returned :=
  .span ends inside (fun _ => .of_uncalled fun n hn => (calm n hn).isCall)
    fun _ n hn => (calm n hn).isCall

theorem returned (h : n.Calm) : n.Returned := by
  induction h with
  | @entry e instant =>
    cases e with
    | requested | setUp | note => exact .entry rfl rfl
    | _ => cases instant
  | hook label inside ih => exact span (.hook label) ih inside
  | operation op a v inside ih => exact span (.operation op a v) ih inside

theorem only_entriesAll {p : Entry → Bool} (h : ∀ n ∈ ns, Only p n.entries) :
    Only p (entriesAll ns) := by
  induction ns with
  | nil => exact .nil
  | cons n ns ih =>
    obtain ⟨hn, hns⟩ := List.forall_mem_cons.mp h
    exact (ih hns).append hn

theorem uncalled (h : n.Calm) : Only Entry.isUncalled n.entries := by
  induction h with
  | entry instant => exact .cons (Entry.isUncalled_of_isInstant instant) .nil
  | hook label inside ih => exact .cons rfl ((only_entriesAll ih).append (.cons rfl .nil))
  | operation op a v inside ih => exact .cons rfl ((only_entriesAll ih).append (.cons rfl .nil))

end Node.Calm

/-! ## What happens between two sessions -/

/-- The history tells of parts in a row, which have come after `s`. -/
def Tells (s s' : Session) (ns : List Node) : Prop := s'.history = entriesAll ns ++ s.history

/-- No handler is called between two sessions. -/
def Calmly (s s' : Session) : Prop := ∃ ns, Tells s s' ns ∧ ∀ n ∈ ns, n.Calm

section

variable {s s₁ s' : Session} {ns ms : List Node}

theorem Tells.of_entries {es : List Entry} (history : s'.history = es ++ s.history) :
    Tells s s' (es.reverse.map .entry) := by
  rw [Tells, entriesAll_map, List.reverse_reverse, history]

theorem Tells.trans (h : Tells s s₁ ns) (h' : Tells s₁ s' ms) : Tells s s' (ns ++ ms) := by
  rw [Tells, h', h, entriesAll_append, List.append_assoc]

/-- What has been told since a beginning lies between it and the end that comes next. -/
theorem Tells.of_ended {first last : Entry}
    (history : s'.history = last :: (entriesAll ns ++ (s.log first).history)) :
    Tells s s' [.span first ns last] := by
  rw [Tells, history, entriesAll_singleton, Node.entries, List.cons_append, List.append_assoc]
  rfl

theorem Tells.span {first : Entry} (last : Entry) (h : Tells (s.log first) s₁ ns)
    (ended : s'.history = last :: s₁.history) : Tells s s' [.span first ns last] :=
  .of_ended (by rw [ended, h])

namespace Calmly

theorem refl (s : Session) : Calmly s s := ⟨[], rfl, List.forall_mem_nil _⟩

theorem trans (h : Calmly s s₁) (h' : Calmly s₁ s') : Calmly s s' := by
  obtain ⟨ns, tells, calm⟩ := h
  obtain ⟨ms, tells', calm'⟩ := h'
  exact ⟨ns ++ ms, tells.trans tells', List.forall_mem_append.mpr ⟨calm, calm'⟩⟩

theorem of_instant {es : List Entry} (history : s'.history = es ++ s.history)
    (instant : Only Entry.isInstant es) : Calmly s s' :=
  ⟨es.reverse.map .entry, .of_entries history, fun _ => Node.Calm.of_mem_map instant⟩

theorem uncalled (h : Calmly s s') :
    ∃ es, s'.history = es ++ s.history ∧ Only Entry.isUncalled es := by
  obtain ⟨ns, tells, calm⟩ := h
  exact ⟨entriesAll ns, tells, Node.Calm.only_entriesAll fun n hn => (calm n hn).uncalled⟩

end Calmly

end

/-! ## Tasks in a row -/

namespace Agenda

variable {τ σ : Type}

/-- Of a task that leads to nothing one step is all. -/
theorem run_singleton_of_step {A : Agenda τ σ} {t : τ} {s s' : σ} (h : A.step t s = ([], s')) :
    A.run [t] s = s' := by
  rw [run_cons, h]
  exact A.run_nil s'

/-- What is left to do after the first tasks is no more than there was. -/
theorem total_run_le (A : Agenda τ σ) (first second : List τ) (s : σ) :
    A.total second (A.run first s) ≤ A.total (first ++ second) s := by
  have := A.load_run_le first s
  simp only [total, totalOf_append] at this ⊢
  omega

/-- Tasks in a row that are each told of by one part are told of by parts in a row. It is enough to
know this of single tasks with less to do than `bound`. -/
theorem tells_run (A : Agenda τ Session) {R : τ → Node → Prop} {bound : Nat} {ts : List τ}
    {s : Session} (each : ∀ t ∈ ts, ∀ s, A.total [t] s < bound →
      ∃ n, R t n ∧ Tells s (A.run [t] s) [n]) (h : A.total ts s < bound) :
    ∃ ns, List.Forall₂ R ts ns ∧ Tells s (A.run ts s) ns := by
  induction ts generalizing s with
  | nil =>
    rw [run_nil]
    exact ⟨[], .nil, rfl⟩
  | cons t ts ih =>
    obtain ⟨first, later⟩ := List.forall_mem_cons.mp each
    have single : A.total [t] s ≤ A.total (t :: ts) s := by
      simp only [total, totalOf_cons, totalOf_nil]
      omega
    obtain ⟨n, hn, tells⟩ := first s (Nat.lt_of_le_of_lt single h)
    obtain ⟨ns, hns, tells'⟩ := ih later (Nat.lt_of_le_of_lt (A.total_run_le [t] ts s) h)
    rw [← List.singleton_append, run_append]
    exact ⟨n :: ns, .cons hn hns, tells.trans tells'⟩

theorem calmly_run (A : Agenda τ Session) {bound : Nat} {ts : List τ} {s : Session}
    (each : ∀ t ∈ ts, ∀ s, A.total [t] s < bound → ∃ n : Node, n.Calm ∧ Tells s (A.run [t] s) [n])
    (h : A.total ts s < bound) : Calmly s (A.run ts s) := by
  obtain ⟨ns, calm, tells⟩ := A.tells_run (R := fun _ n => n.Calm) each h
  refine ⟨ns, tells, ?_⟩
  clear tells h each
  induction calm with
  | nil => exact List.forall_mem_nil _
  | cons hn _ ih => exact List.forall_mem_cons.mpr ⟨hn, ih⟩

end Agenda

/-! ## Closing tracks -/

namespace Chore

/-- Is this something that begins, and not the end of it? -/
def isBeginning : Chore → Bool
  | .operation _ => true
  | .beginHook _ => true
  | _ => false

theorem run_endHook (label : String) (s : Session) :
    agenda.run [.endHook label] s = s.log (.hookEnded label) :=
  Agenda.run_singleton_of_step rfl

theorem run_conclude (a : Answer) (s : Session) :
    agenda.run [.conclude a] s = s.conclude a true :=
  Agenda.run_singleton_of_step rfl

/-- A hook that begins ends, and so does an operation of one, whatever they lead to. -/
theorem tells_run (c : Chore) (s : Session) (h : c.isBeginning = true) :
    ∃ n : Node, n.Calm ∧ Tells s (agenda.run [c] s) [n] := by
  induction hb : agenda.total [c] s using Nat.strongRecOn generalizing c s with
  | _ bound ih =>
    subst hb
    have less := agenda.total_step_lt c [] s
    -- All that the chore leads to comes before an end, and is told of by calm parts.
    have inside (cs : List Chore) {last : Chore} {s₁ : Session}
        (hs : agenda.step c s = (cs ++ [last], s₁)) (beginning : ∀ d ∈ cs, d.isBeginning = true) :
        agenda.run [c] s = agenda.run [last] (agenda.run cs s₁) ∧
          Calmly s₁ (agenda.run cs s₁) := by
      rw [hs, List.append_nil] at less
      have fewer : agenda.total cs s₁ < agenda.total [c] s := by
        refine Nat.lt_of_le_of_lt ?_ less
        simp only [Agenda.total, totalOf_append]
        omega
      rw [agenda.run_cons, hs, List.append_nil, agenda.run_append]
      refine ⟨rfl, agenda.calmly_run ?_ fewer⟩
      intro d hd s₂ hs₂
      exact ih _ hs₂ d s₂ (beginning d hd) rfl
    cases c with
    | conclude | endHook => cases h
    | beginHook hook =>
      obtain ⟨run, ns, tells, calm⟩ := inside (hook.operations.map .operation) rfl
        (List.forall_mem_map.mpr fun _ _ => rfl)
      rw [run, run_endHook]
      exact ⟨_, .hook hook.label calm, tells.span _ rfl⟩
    | operation op =>
      rcases perform_cases op (s.log (.began op)) with ⟨t, hooks, hp⟩ | ⟨a, s', hp, closes⟩
      · obtain ⟨run, ns, tells, calm⟩ := inside (hooks.map .beginHook) hp
          (List.forall_mem_map.mpr fun _ _ => rfl)
        have closed : Tells (s.log (.began op)) ((s.log (.began op)).markClosed t |>.log
            (.note (.trackClosed t))) [.entry (.note (.trackClosed t))] := rfl
        rw [run, run_conclude]
        refine ⟨_, .operation op _ _ (List.forall_mem_cons.mpr ⟨.entry rfl, calm⟩),
          (closed.trans tells).span _ (closes_conclude _ _ _).history⟩
      · obtain ⟨run, -⟩ := inside [] hp (List.forall_mem_nil _)
        have idle : Tells (s.log (.began op)) s' [] := closes.history
        rw [run, run_conclude, agenda.run_nil]
        exact ⟨_, .operation op _ _ (List.forall_mem_nil _),
          idle.span _ (closes_conclude _ _ _).history⟩

end Chore

namespace Calmly

/-- Whatever hooks do, it is done when a track has been closed. -/
theorem closeTrack (t : Track) (s : Session) : Calmly s (outcome (closeTrack t) s).2 := by
  cases closed : s.isClosed t with
  | true =>
    rw [outcome_closeTrack_of_closed closed]
    exact refl s
  | false =>
    have noted : Calmly s ((s.markClosed t).log (.note (.trackClosed t))) :=
      of_instant rfl (.cons rfl .nil : Only _ [.note (.trackClosed t)])
    rw [outcome_closeTrack_of_open closed]
    refine noted.trans (Chore.agenda.calmly_run ?_ (Nat.lt_succ_self _))
    intro c hc s₁ _
    obtain ⟨hook, -, rfl⟩ := List.mem_map.mp hc
    exact Chore.tells_run (.beginHook hook) s₁ rfl

theorem closeAll (ts : List Track) (s : Session) : Calmly s (outcome (closeAll ts) s).2 := by
  induction ts generalizing s with
  | nil => exact refl s
  | cons t ts ih =>
    have first := closeTrack t s
    unfold Session.closeAll
    rw [outcome_bind, outcome_tolerate]
    generalize outcome (Session.closeTrack t) s = o at first
    obtain ⟨f | ⟨⟩, s₁⟩ := o
    · have complaint : Calmly s₁ (s₁.log (.note (.closeFailed t f))) :=
        of_instant rfl (.cons rfl .nil : Only _ [.note (.closeFailed t f)])
      exact (first.trans complaint).trans (ih _)
    · exact first.trans (ih s₁)

end Calmly

end RtspControl
