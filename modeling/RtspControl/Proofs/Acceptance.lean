import RtspControl.Proofs.Skipping
import RtspControl.Proofs.Numerals
import RtspControl.Settings

/-!
# The settings that are accepted

A record with one field is a list of at most one entry, or an object in which the key of the field
stands at most once; what it stands for is said by the value of the field, or by a default
(`Holds`, `IsRecord`). All else in an object may be anything that the grammar allows, so it has no
influence on what the object stands for.

Readers are compared with such relations in one way: `Reads` says that a reader takes just the texts
that stand for something, and gives what they stand for. It is shown of numbers read as doubles, and
carries over from a field to the record around it (`Reads.record`). Settings are two records around
such a number, so `Settings.ofText_eq_ok_iff` is the composition of these.

A number is read with the precision that its digits leave (`Numeral.Reads`), so the settings need
not be the double nearest to it: `Settings.accepted_unlike_nearest` is a text where they are not.
-/

namespace RtspControl.Json

/-! ## Strings with and without pairs -/

theorem Spells.append {paired : Bool} {w w' xs xs' : List Char} (h : Spells paired w xs)
    (h' : Spells paired w' xs') : Spells paired (w ++ w') (xs ++ xs') := by
  induction h with
  | nil => exact h'
  | cons spelling _ ih =>
    rw [List.append_assoc]
    exact .cons spelling ih

/-- A pair of surrogates is two characters where they need not be in pairs. -/
theorem Spelling.unpaired {e : List Char} {c : Char} (h : Spelling true e c) :
    ∃ xs, Spells false e xs := by
  have one {e : List Char} {c : Char} (h : Spelling false e c) : ∃ xs, Spells false e xs :=
    ⟨[c], List.append_nil e ▸ .cons h .nil⟩
  cases h with
  | plain noQuote noBackslash printable => exact one (.plain noQuote noBackslash printable)
  | letter letter => exact one (.letter letter)
  | code code =>
    cases code with
    | alone unit => exact one (.code (.alone unit nofun))
    | pair _ high _ low _ =>
      obtain ⟨xs, first⟩ := one (.code (.alone high nofun))
      obtain ⟨xs', second⟩ := one (.code (.alone low nofun))
      exact ⟨xs ++ xs', first.append second⟩

theorem Spells.unpaired {w xs : List Char} (h : Spells true w xs) : ∃ ys, Spells false w ys := by
  induction h with
  | nil => exact ⟨[], .nil⟩
  | cons spelling _ ih =>
    obtain ⟨ys, first⟩ := spelling.unpaired
    obtain ⟨ys', later⟩ := ih
    exact ⟨ys ++ ys', first.append later⟩

theorem Label.isLabel {l key : List Char} (h : Label true l key) : IsLabel l := by
  obtain ⟨spells, before, after⟩ := h
  obtain ⟨ys, spells⟩ := spells.unpaired
  exact ⟨ys, .mk spells before after⟩

theorem Joined.last (v : List Char) : Joined [v] v := by
  have joined : Joined [v] ([] ++ (v ++ [])) := .single .nil .nil
  rwa [List.nil_append, List.append_nil] at joined

/-! ## Records with one field -/

/-- A member of an object that is read: its key has its surrogates in pairs, its value need not. -/
structure Member.Keyed (m : Member) : Prop where
  label : Label true m.label m.key
  value : IsValue m.value

def valuesOf (wanted : List Char) (ms : List Member) : List (List Char) :=
  (ms.filter fun m => m.key = wanted).map Member.value

section

variable {α : Type}

/-- What a field stands for that is written so many times: it may be left out, and must not be there
twice. -/
inductive Holds (default : α) (Field : List Char → α → Prop) : List (List Char) → α → Prop
  | absent : Holds default Field [] default
  | present {v : List Char} {a : α} : Field v a → Holds default Field [v] a

/-- A record with one field: a list has it as its only entry, an object has it by name. -/
inductive IsRecord (wanted : List Char) (default : α) (Field : List Char → α → Prop) :
    List Char → α → Prop
  | list {vs : List (List Char)} {t : List Char} {a : α} :
    Listed vs t → Holds default Field vs a →
    IsRecord wanted default Field ('[' :: (t ++ [']'])) a
  | object {ms : List Member} {t : List Char} {a : α} :
    (∀ m ∈ ms, m.Keyed) → Listed (ms.map Member.text) t →
    Holds default Field (valuesOf wanted ms) a →
    IsRecord wanted default Field ('{' :: (t ++ ['}'])) a

/-- The reader takes the texts that stand for something, which are values, and gives what they stand
for. -/
structure Reads (field : Reader α) (Field : List Char → α → Prop) : Prop where
  isValue {v : List Char} {a : α} : Field v a → IsValue v
  of_gives {cs rest : List Char} {a : α} : Gives (field cs) a rest →
    ∃ w v, Blank w ∧ Field v a ∧ cs = w ++ (v ++ rest)
  gives {w v rest : List Char} {a : α} : Field v a → Blank w → Ended rest →
    Gives (field (w ++ (v ++ rest))) a rest

variable {field : Reader α} {Field : List Char → α → Prop} {wanted : List Char} {default : α}

theorem IsRecord.isValue (reads : Reads field Field) {v : List Char} {a : α}
    (h : IsRecord wanted default Field v a) : IsValue v := by
  cases h with
  | list listed holds =>
    refine .list ?_ listed
    cases holds with
    | absent => exact List.forall_mem_nil _
    | present field => exact List.forall_mem_singleton.mpr (reads.isValue field)
  | object keyed listed _ =>
    exact .record (fun m hm => (keyed m hm).label.isLabel) (fun m hm => (keyed m hm).value) listed

/-! ## Reading doubles -/

/-- A number that is read as a double, which has to be finite. -/
def IsDouble (v : List Char) (y : Binary64) : Prop := ∃ n, IsNumber v n ∧ n.Reads y

theorem reads_double : Reads double IsDouble where
  isValue h := by
    obtain ⟨n, isNumber, -⟩ := h
    exact .scalar (.number isNumber)
  of_gives h := by
    obtain ⟨_, h⟩ := h
    obtain ⟨c, t, _, first, h⟩ := exists_gives_of_bind h
    obtain ⟨w, blank, -, rfl⟩ := of_gives_firstMark first
    dsimp only at h
    split at h
    · obtain ⟨n, t', _, read, h⟩ := exists_givesMaybe_of_bind h
      obtain ⟨v, isNumber, split⟩ := IsNumber.of_gives read
      dsimp only at h
      split at h
      · next reads =>
        cases h
        exact ⟨w, v, blank, ⟨n, isNumber, Numeral.double?_eq_some_iff.mp reads⟩,
          congrArg (w ++ ·) split⟩
      · cases h
    · cases h
  gives {_ _ rest _} h blank ended := by
    obtain ⟨n, isNumber, reads⟩ := h
    obtain ⟨c, v', rfl, starts, _, read⟩ := isNumber.gives .truncated ended
    obtain ⟨opens, -⟩ := opens_of_startsNumber starts
    obtain ⟨_, first⟩ := gives_firstMark blank opens.notBlank (v' ++ rest)
    rw [List.cons_append]
    unfold double
    rw [first]
    dsimp only [bind, Except.bind]
    rw [if_pos starts, read]
    dsimp only
    rw [Numeral.double?_eq_some_iff.mpr reads]
    exact gives_of_ok rfl

/-! ## Reading the members of an object -/

theorem of_gives_key {cs k rest : List Char} (h : Gives (key cs) k rest) :
    ∃ w q, Blank w ∧ Spells true q k ∧ cs = w ++ '"' :: (q ++ '"' :: rest) := by
  obtain ⟨_, h⟩ := h
  obtain ⟨⟨t, _⟩, quote, h⟩ := exists_of_bind h
  obtain ⟨w, blank, rfl⟩ := of_mark quote
  obtain ⟨k', t, _, read, same⟩ := exists_gives_of_bind h
  obtain ⟨q, spells, rfl⟩ := Spells.of_gives read
  cases same
  exact ⟨w, q, blank, spells, rfl⟩

theorem gives_key {w q k : List Char} (blank : Blank w) (spells : Spells true q k)
    (rest : List Char) : Gives (key (w ++ '"' :: (q ++ '"' :: rest))) k rest := by
  obtain ⟨_, quote⟩ := mark_append (c := '"') blank rfl (q ++ '"' :: rest)
  obtain ⟨_, read⟩ := spells.gives rest
  unfold key
  rw [quote]
  dsimp only [bind, Except.bind]
  rw [read]
  exact gives_of_ok rfl

/-- What is found in values of the wanted field, if something may have been found before them. -/
inductive Finds (Field : List Char → α → Prop) : Option α → List (List Char) → Option α → Prop
  | same {found : Option α} : Finds Field found [] found
  | found {v : List Char} {a : α} : Field v a → Finds Field none [v] (some a)

theorem Finds.append {found found₁ found₂ : Option α} {vs vs' : List (List Char)}
    (h : Finds Field found vs found₁) (h' : Finds Field found₁ vs' found₂) :
    Finds Field found (vs ++ vs') found₂ := by
  cases h with
  | same => exact h'
  | found field =>
    cases h' with
    | same => exact .found field

theorem Finds.split {found found₂ : Option α} {vs vs' : List (List Char)}
    (h : Finds Field found (vs ++ vs') found₂) :
    ∃ found₁, Finds Field found vs found₁ ∧ Finds Field found₁ vs' found₂ := by
  cases vs with
  | nil => exact ⟨found, .same, h⟩
  | cons v vs =>
    generalize both : v :: vs ++ vs' = all at h
    cases h with
    | same => cases both
    | found field =>
      obtain ⟨rfl, none⟩ := List.cons.inj both
      obtain ⟨rfl, rfl⟩ := List.append_eq_nil_iff.mp none
      exact ⟨_, .found field, .same⟩

theorem Finds.holds {found : Option α} {vs : List (List Char)} (h : Finds Field none vs found)
    (default : α) : Holds default Field vs (found.getD default) := by
  cases h with
  | same => exact .absent
  | found field => exact .present field

theorem Holds.finds {vs : List (List Char)} {a : α} (h : Holds default Field vs a) :
    ∃ found, Finds Field none vs found ∧ found.getD default = a := by
  cases h with
  | absent => exact ⟨none, .same, rfl⟩
  | present field => exact ⟨_, .found field, rfl⟩

theorem valuesOf_cons (wanted : List Char) (m : Member) (ms : List Member) :
    valuesOf wanted (m :: ms) = valuesOf wanted [m] ++ valuesOf wanted ms := by
  unfold valuesOf
  rw [← List.map_append, ← List.filter_append, List.singleton_append]

theorem valuesOf_wanted {m : Member} (h : m.key = wanted) : valuesOf wanted [m] = [m.value] := by
  simp only [valuesOf, List.filter_cons, h, decide_true, if_true, List.filter_nil, List.map_cons,
    List.map_nil]

theorem valuesOf_unwanted {m : Member} (h : m.key ≠ wanted) : valuesOf wanted [m] = [] := by
  simp only [valuesOf, List.filter_cons, h, decide_false, Bool.false_eq_true, if_false,
    List.filter_nil, List.map_nil]

theorem of_gives_oneField (reads : Reads field Field) {found found' : Option α}
    {cs rest : List Char} (h : Gives (oneField wanted field found cs) found' rest) :
    ∃ w m, Blank w ∧ m.Keyed ∧ cs = w ++ (m.text ++ rest) ∧
      Finds Field found (valuesOf wanted [m]) found' := by
  obtain ⟨_, h⟩ := h
  obtain ⟨k, t, _, name, h⟩ := exists_gives_of_bind h
  obtain ⟨w, q, blank, spells, rfl⟩ := of_gives_key name
  have member {w₁ w₂ v : List Char} (blank₁ : Blank w₁) (blank₂ : Blank w₂) (value : IsValue v) :
      ∃ m : Member, m.Keyed ∧ m.key = k ∧ m.value = v ∧
        ∀ t, '"' :: (q ++ '"' :: (w₁ ++ ':' :: (w₂ ++ (v ++ t)))) = m.text ++ t :=
    ⟨⟨k, _, v⟩, ⟨⟨spells, blank₁, blank₂⟩, value⟩, rfl, rfl, fun t => by
      simp only [Member.text, List.cons_append, List.append_assoc]⟩
  dsimp only at h
  split at h
  · next isWanted =>
    split at h
    · cases h
    · next notFound =>
      obtain ⟨⟨t₁, _⟩, colon, h⟩ := exists_of_bind h
      obtain ⟨w₁, blank₁, rfl⟩ := of_mark colon
      obtain ⟨a, t₂, _, read, same⟩ := exists_gives_of_bind h
      obtain ⟨w₂, v, blank₂, isField, rfl⟩ := reads.of_gives read
      obtain ⟨m, keyed, rfl, rfl, text⟩ := member blank₁ blank₂ (reads.isValue isField)
      cases same
      obtain rfl : found = none := by simpa using notFound
      refine ⟨w, m, blank, keyed, congrArg (w ++ ·) (text _), ?_⟩
      rw [valuesOf_wanted isWanted]
      exact .found isField
  · next unwanted =>
    obtain ⟨⟨t₁, _⟩, colon, h⟩ := exists_of_bind h
    obtain ⟨w₁, blank₁, rfl⟩ := of_mark colon
    obtain ⟨⟨t₂, _⟩, read, same⟩ := exists_of_bind h
    obtain ⟨w₂, v, blank₂, value, rfl⟩ := of_skip read
    obtain ⟨m, keyed, rfl, rfl, text⟩ := member blank₁ blank₂ value
    cases same
    refine ⟨w, m, blank, keyed, congrArg (w ++ ·) (text _), ?_⟩
    rw [valuesOf_unwanted unwanted]
    exact .same

theorem Member.Keyed.split {m : Member} (h : m.Keyed) (rest : List Char) :
    ∃ q w₁ w₂, Spells true q m.key ∧ Blank w₁ ∧ Blank w₂ ∧
      m.text ++ rest = '"' :: (q ++ '"' :: (w₁ ++ ':' :: (w₂ ++ (m.value ++ rest)))) := by
  obtain ⟨k, l, v⟩ := m
  obtain ⟨@⟨q, _, w₁, w₂, spells, blank₁, blank₂⟩, -⟩ := h
  refine ⟨q, w₁, w₂, spells, blank₁, blank₂, ?_⟩
  simp only [Member.text, List.cons_append, List.append_assoc]

theorem gives_oneField (reads : Reads field Field) {found found' : Option α} {w rest : List Char}
    {m : Member} (keyed : m.Keyed) (finds : Finds Field found (valuesOf wanted [m]) found')
    (blank : Blank w) (ended : Ended rest) :
    Gives (oneField wanted field found (w ++ (m.text ++ rest))) found' rest := by
  obtain ⟨q, w₁, w₂, spells, blank₁, blank₂, text⟩ := keyed.split rest
  obtain ⟨_, name⟩ := gives_key blank spells (w₁ ++ ':' :: (w₂ ++ (m.value ++ rest)))
  obtain ⟨_, colon⟩ := mark_append (c := ':') blank₁ rfl (w₂ ++ (m.value ++ rest))
  rw [text]
  unfold oneField
  rw [name]
  dsimp only [bind, Except.bind]
  by_cases isWanted : m.key = wanted
  · rw [valuesOf_wanted isWanted] at finds
    cases finds with
    | found isField =>
      obtain ⟨_, read⟩ := reads.gives isField blank₂ ended
      rw [if_pos isWanted, Option.isSome_none, if_neg Bool.false_ne_true, colon]
      dsimp only
      rw [read]
      exact gives_of_ok rfl
  · rw [valuesOf_unwanted isWanted] at finds
    cases finds with
    | same =>
      obtain ⟨_, read⟩ := keyed.value.skip blank₂ ended
      rw [if_neg isWanted, colon]
      dsimp only
      rw [read]
      exact gives_of_ok rfl

theorem of_gives_fields (reads : Reads field Field) {found found' : Option α}
    {cs rest : List Char} (h : Gives (fields wanted field found cs) found' rest) :
    ∃ ms t, (∀ m ∈ ms, m.Keyed) ∧ Joined (ms.map Member.text) t ∧ cs = t ++ '}' :: rest ∧
      Finds Field found (valuesOf wanted ms) found' := by
  obtain ⟨_, h⟩ := h
  fun_induction fields wanted field found cs with
  | case1 | case2 | case5 => cases h
  | case3 found cs found₁ r one r' comma ih =>
    obtain ⟨found', t, _, later, same⟩ := exists_gives_of_bind h
    cases same
    obtain ⟨w, m, blank, keyed, split, finds⟩ := of_gives_oneField reads (gives_of_ok one)
    obtain ⟨w', blank', -, split'⟩ := of_gives_firstMark (gives_of_ok comma)
    obtain ⟨shorter, later⟩ := later
    obtain ⟨ms, t', keyed', joined, split'', finds'⟩ := ih shorter later
    refine ⟨m :: ms, w ++ (m.text ++ (w' ++ ',' :: t')), List.forall_mem_cons.mpr ⟨keyed, keyed'⟩,
      .cons blank blank' joined, ?_, valuesOf_cons .. ▸ finds.append finds'⟩
    simp only [split', split'', List.append_assoc, List.cons_append] at split ⊢
    exact split
  | case4 found cs found₁ r one r' close =>
    cases h
    obtain ⟨w, m, blank, keyed, split, finds⟩ := of_gives_oneField reads (gives_of_ok one)
    obtain ⟨w', blank', -, split'⟩ := of_gives_firstMark (gives_of_ok close)
    refine ⟨[m], w ++ (m.text ++ w'), List.forall_mem_singleton.mpr keyed, .single blank blank',
      ?_, finds⟩
    simp only [split', List.append_assoc] at split ⊢
    exact split

theorem gives_fields (reads : Reads field Field) {ms : List Member} {t : List Char}
    (joined : Joined (ms.map Member.text) t) {found found' : Option α}
    (keyed : ∀ m ∈ ms, m.Keyed) (finds : Finds Field found (valuesOf wanted ms) found')
    (rest : List Char) :
    Gives (fields wanted field found (t ++ Bracket.record.close :: rest)) found' rest := by
  -- By induction on what stands between the braces; what has been found before it varies.
  generalize texts : ms.map Member.text = es at joined
  induction joined generalizing ms found with
  | @single w v w' blank blank' =>
    obtain ⟨m, rfl, rfl⟩ := List.map_eq_singleton_iff.mp texts
    have ended := (ended_close .record rest).blank_append blank'
    obtain ⟨_, one⟩ :=
      gives_oneField reads (List.forall_mem_singleton.mp keyed) finds blank ended
    obtain ⟨_, close⟩ := gives_firstMark blank' Bracket.record.isBlank_close rest
    rw [List.append_assoc, List.append_assoc, fields]
    simp only [one, close]
    exact gives_of_ok rfl
  | @cons w v w' t vs blank blank' _ ih =>
    obtain ⟨m, ms, rfl, rfl, rfl⟩ := List.map_eq_cons_iff.mp texts
    obtain ⟨first, others⟩ := List.forall_mem_cons.mp keyed
    obtain ⟨found₁, finds, finds'⟩ := Finds.split (valuesOf_cons wanted m ms ▸ finds)
    have ended := (ended_comma (t ++ Bracket.record.close :: rest)).blank_append blank'
    obtain ⟨_, one⟩ := gives_oneField reads first finds blank ended
    obtain ⟨_, comma⟩ :=
      gives_firstMark (c := ',') blank' rfl (t ++ Bracket.record.close :: rest)
    obtain ⟨_, later⟩ := ih others finds' rfl
    rw [List.append_assoc, List.append_assoc, List.append_assoc, List.cons_append, fields]
    simp only [one, comma, later]
    exact gives_of_ok rfl

/-! ## Reading records -/

theorem of_gives_entries (reads : Reads field Field) {b : Bracket} {cs rest : List Char} {a : α}
    (h : Gives (entries wanted default field cs b) a rest) :
    ∃ t, cs = t ++ b.close :: rest ∧
      IsRecord wanted default Field (b.opening :: (t ++ [b.close])) a := by
  obtain ⟨_, h⟩ := h
  cases b with
  | list =>
    obtain ⟨a', t, _, read, h⟩ := exists_gives_of_bind h
    obtain ⟨w, v, blank, isField, rfl⟩ := reads.of_gives read
    obtain ⟨⟨t, _⟩, close, same⟩ := exists_of_bind h
    obtain ⟨w', blank', rfl⟩ := of_mark close
    cases same
    refine ⟨w ++ (v ++ w'), ?_, .list (.inr (.single blank blank')) (.present isField)⟩
    simp only [List.append_assoc]
  | record =>
    obtain ⟨found, t, _, read, same⟩ := exists_gives_of_bind h
    obtain ⟨ms, t, keyed, joined, rfl, finds⟩ := of_gives_fields reads read
    cases same
    exact ⟨t, rfl, .object keyed (.inr joined) (finds.holds default)⟩

theorem of_gives_record (reads : Reads field Field) {cs rest : List Char} {a : α}
    (h : Gives (record wanted default field cs) a rest) :
    ∃ w v, Blank w ∧ IsRecord wanted default Field v a ∧ cs = w ++ (v ++ rest) := by
  obtain ⟨_, h⟩ := h
  obtain ⟨c, t, _, first, h⟩ := exists_gives_of_bind h
  obtain ⟨w, blank, -, rfl⟩ := of_gives_firstMark first
  dsimp only at h
  split at h
  · cases h
  · next b opens =>
    obtain rfl := Bracket.eq_opening_of_ofOpening? opens
    obtain ⟨c', t', _, second, h⟩ := exists_gives_of_bind h
    dsimp only at h second
    split at h
    · next close =>
      obtain ⟨w', blank', -, rfl⟩ := of_gives_firstMark second
      subst close
      cases h
      refine ⟨w, b.opening :: (w' ++ [b.close]), blank, ?_, ?_⟩
      · cases b with
        | list => exact .list (.inl ⟨rfl, blank'⟩) .absent
        | record => exact .object (List.forall_mem_nil _) (.inl ⟨rfl, blank'⟩) .absent
      · simp only [List.cons_append, List.append_assoc, List.nil_append]
    · obtain ⟨a', t₁, _, read, same⟩ := exists_gives_of_bind h
      obtain ⟨t₂, rfl, isRecord⟩ := of_gives_entries reads read
      cases same
      refine ⟨w, _, blank, isRecord, ?_⟩
      simp only [List.cons_append, List.append_assoc, List.nil_append]

section

variable {b : Bracket} {w w' t rest : List Char} {a : α}

theorem gives_record_empty (blank : Blank w) (blank' : Blank w') :
    Gives (record wanted default field (w ++ b.opening :: (w' ++ b.close :: rest)))
      default rest := by
  obtain ⟨_, first⟩ := gives_firstMark blank b.isBlank_opening (w' ++ b.close :: rest)
  obtain ⟨_, second⟩ := gives_firstMark blank' b.isBlank_close rest
  unfold record
  rw [first]
  dsimp only [bind, Except.bind]
  rw [Bracket.ofOpening?_opening]
  dsimp only
  rw [second]
  exact gives_of_ok (if_pos rfl)

theorem gives_record_joined {es : List (List Char)} (blank : Blank w) (joined : Joined es t)
    (enclosed : ∀ e ∈ es, b.Encloses e)
    (read : Gives (entries wanted default field (t ++ b.close :: rest) b) a rest) :
    Gives (record wanted default field (w ++ b.opening :: (t ++ b.close :: rest))) a rest := by
  obtain ⟨w', c, t', blank', head, notBlank, noEnd⟩ := joined.head enclosed
  rw [head, List.append_assoc, List.cons_append] at read ⊢
  obtain ⟨_, first⟩ :=
    gives_firstMark blank b.isBlank_opening (w' ++ c :: (t' ++ b.close :: rest))
  obtain ⟨_, second⟩ := gives_firstMark blank' notBlank (t' ++ b.close :: rest)
  obtain ⟨_, read⟩ := read
  unfold record
  rw [first]
  dsimp only [bind, Except.bind]
  rw [Bracket.ofOpening?_opening]
  dsimp only
  rw [second]
  dsimp only
  rw [if_neg noEnd, read]
  exact gives_of_ok rfl

end

/-- A list of one entry is read as that entry. -/
theorem gives_entries_list (reads : Reads field Field) {v t : List Char} {a : α}
    (joined : Joined [v] t) (isField : Field v a) (rest : List Char) :
    Gives (entries wanted default field (t ++ Bracket.list.close :: rest) .list) a rest := by
  cases joined with
  | cons _ _ none => cases none
  | @single w _ w' blank blank' =>
    have ended := (ended_close .list rest).blank_append blank'
    obtain ⟨_, read⟩ := reads.gives isField blank ended
    obtain ⟨_, close⟩ := mark_append blank' Bracket.list.isBlank_close rest
    rw [List.append_assoc, List.append_assoc]
    unfold entries
    dsimp only
    rw [read]
    dsimp only [bind, Except.bind]
    rw [close]
    exact gives_of_ok rfl

theorem gives_entries_record (reads : Reads field Field) {ms : List Member} {t : List Char} {a : α}
    (joined : Joined (ms.map Member.text) t) (keyed : ∀ m ∈ ms, m.Keyed)
    (holds : Holds default Field (valuesOf wanted ms) a) (rest : List Char) :
    Gives (entries wanted default field (t ++ Bracket.record.close :: rest) .record) a rest := by
  obtain ⟨found, finds, rfl⟩ := holds.finds
  obtain ⟨_, read⟩ := gives_fields reads joined keyed finds rest
  unfold entries
  dsimp only
  rw [read]
  exact gives_of_ok rfl

theorem gives_record (reads : Reads field Field) {w v rest : List Char} {a : α}
    (h : IsRecord wanted default Field v a) (blank : Blank w) :
    Gives (record wanted default field (w ++ (v ++ rest))) a rest := by
  cases h with
  | list listed holds =>
    rw [List.cons_append, List.append_assoc, List.singleton_append]
    rcases listed with ⟨rfl, blank'⟩ | joined
    · cases holds
      exact gives_record_empty (b := .list) blank blank'
    · cases holds with
      | absent => cases joined
      | present isField =>
        have enclosed := List.forall_mem_singleton.mpr (reads.isValue isField)
        exact gives_record_joined (b := .list) blank joined enclosed
          (gives_entries_list reads joined isField rest)
  | object keyed listed holds =>
    rw [List.cons_append, List.append_assoc, List.singleton_append]
    rcases listed with ⟨none, blank'⟩ | joined
    · obtain rfl := List.map_eq_nil_iff.mp none
      cases holds
      exact gives_record_empty (b := .record) blank blank'
    · refine gives_record_joined (b := .record) blank joined ?_
        (gives_entries_record reads joined keyed holds rest)
      intro e he
      obtain ⟨m, hm, rfl⟩ := List.mem_map.mp he
      exact ⟨m, rfl, (keyed m hm).label.isLabel, (keyed m hm).value⟩

/-- What is read of a field is read of the record around it. -/
theorem Reads.record (reads : Reads field Field) (wanted : List Char) (default : α) :
    Reads (Json.record wanted default field) (IsRecord wanted default Field) where
  isValue h := h.isValue reads
  of_gives h := of_gives_record reads h
  gives h blank _ := gives_record reads h blank

theorem whole_of_gives {cs rest : List Char} {a : α} (h : Gives (field cs) a rest) :
    whole field cs = if skipBlanks rest = [] then .ok a else .error .malformed := by
  obtain ⟨_, read⟩ := h
  unfold whole
  rw [read]
  rfl

/-- As a whole a text is read if nothing but blanks stands around what is read. -/
theorem Reads.whole_eq_ok_iff (reads : Reads field Field) {cs : List Char} {a : α} :
    whole field cs = .ok a ↔
      ∃ w v w', cs = w ++ (v ++ w') ∧ Blank w ∧ Blank w' ∧ IsValue v ∧ Field v a := by
  constructor
  · intro h
    obtain ⟨a', t, _, read, h⟩ := exists_gives_of_bind h
    obtain ⟨w, v, blank, isField, rfl⟩ := reads.of_gives read
    dsimp only at h
    split at h
    · next atEnd =>
      cases h
      exact ⟨w, v, t, rfl, blank, skipBlanks_eq_nil_iff.mp atEnd, reads.isValue isField, isField⟩
    · cases h
  · rintro ⟨w, v, w', rfl, blank, blank', -, isField⟩
    have ended := Ended.nil.blank_append blank'
    rw [List.append_nil] at ended
    rw [whole_of_gives (reads.gives isField blank ended)]
    exact if_pos (skipBlanks_eq_nil_iff.mpr blank')

end

end RtspControl.Json

namespace RtspControl

open Json

/-- A text of settings, and the number of seconds that it has for the backchannel: one value with
blanks around it, which is a record of a record of a number, in two spellings each. Zero stands for
what is left out. How seconds are written is a parameter. -/
def Settings.IsText (Seconds : List Char → Binary64 → Prop) (text : List Char)
    (seconds : Binary64) : Prop :=
  ∃ w v w', text = w ++ (v ++ w') ∧ Blank w ∧ Blank w' ∧ IsValue v ∧
    IsRecord "backchannel".toList .zero (IsRecord "inactivity_timeout".toList .zero Seconds)
      v seconds

theorem Settings.reads_backchannel : Reads backchannel
    (IsRecord "inactivity_timeout".toList .zero IsDouble) := reads_double.record _ _

theorem Settings.read_eq_ok_iff (text : List Char) (s : Settings) :
    read text = .ok s ↔ IsText IsDouble text s.inactivityTimeout := by
  rw [IsText, ← (reads_backchannel.record _ _).whole_eq_ok_iff]
  constructor
  · intro h
    obtain ⟨seconds, whole, same⟩ := exists_of_bind h
    cases same
    exact whole
  · intro whole
    show (Json.whole _ text >>= _) = _
    rw [whole]
    rfl

/-- No text can be understood in two ways. -/
theorem Settings.IsText.unique {text : List Char} {seconds seconds' : Binary64}
    (h : IsText IsDouble text seconds) (h' : IsText IsDouble text seconds') :
    seconds = seconds' := by
  have first := (read_eq_ok_iff text ⟨seconds⟩).mpr h
  have second := (read_eq_ok_iff text ⟨seconds'⟩).mpr h'
  cases first.symm.trans second
  rfl

theorem Settings.ofText_eq_ok_iff_read (raw : String) (s : Settings) :
    ofText raw = .ok s ↔ read raw.toList = .ok s := by
  unfold ofText
  cases read raw.toList with
  | error d => exact iff_of_false nofun nofun
  | ok s' => exact ⟨fun h => congrArg _ (Except.ok.inj h), fun h => congrArg _ (Except.ok.inj h)⟩

/-- Settings are accepted if they are a text of the grammar that says at most once, in either
spelling of the two records, for how many seconds the backchannel may be silent. Nothing else in the
text matters: the settings are the double as which that number is read, or zero, and the time
allowed is that of this double. A short number is read as the double nearest to it. -/
theorem Settings.ofText_eq_ok_iff :
    (∀ (raw : String) (s : Settings), ofText raw = .ok s ↔
      ∃ seconds, IsText IsDouble raw.toList seconds ∧
        s.inactivityTimeout = seconds ∧ s.backchannelTimeout = .ofSeconds seconds) ∧
    (∀ (n : Numeral) (y : Binary64), n.Short → (n.Reads y ↔ n.value.Rounds y)) := by
  refine ⟨fun raw s => ?_, fun n y short => short.reads_iff⟩
  rw [ofText_eq_ok_iff_read, read_eq_ok_iff]
  constructor
  · exact fun h => ⟨_, h, rfl, rfl⟩
  · rintro ⟨_, h, rfl, -⟩
    exact h

/-! ### Texts of one number -/

theorem Json.isNumber_point {whole fraction x : List Char} {e : Int} (isWhole : IsWhole whole)
    (digits : Digits fraction) (isExponent : IsExponent x e) :
    IsNumber (whole ++ '.' :: (fraction ++ x)) ⟨false, whole, fraction, e⟩ :=
  .positive (.mk isWhole (.some digits) isExponent)

/-- Both records may be lists. -/
theorem Settings.isText_lists {Seconds : List Char → Binary64 → Prop} {v : List Char}
    {n : Numeral} {y : Binary64} (number : IsNumber v n) (h : Seconds v y) :
    IsText Seconds ('[' :: ('[' :: (v ++ [']']) ++ [']'])) y := by
  have one {v : List Char} (value : IsValue v) : IsValue ('[' :: (v ++ [']'])) :=
    .list (List.forall_mem_singleton.mpr value) (.inr (.last v))
  have inner : IsRecord "inactivity_timeout".toList .zero Seconds ('[' :: (v ++ [']'])) y :=
    .list (.inr (.last v)) (.present h)
  have outer : IsRecord "backchannel".toList .zero
      (IsRecord "inactivity_timeout".toList .zero Seconds) ('[' :: ('[' :: (v ++ [']']) ++ [']']))
      y := .list (.inr (.last _)) (.present inner)
  exact ⟨[], _, [], (List.append_nil _).symm, .nil, .nil, one (one (.scalar (.number number))),
    outer⟩

/-- Two and a half seconds are read as they are. -/
theorem Settings.accepted_twoAndHalf :
    Numeral.Short ⟨false, ['2'], ['5'], 0⟩ ∧
      ofText "[[2.5]]" = .ok ⟨⟨0x4004000000000000⟩⟩ := by
  have short : Numeral.Short ⟨false, ['2'], ['5'], 0⟩ := by constructor <;> decide
  have whole : IsWhole ['2'] := ⟨digits_of_all nofun (by decide), nofun⟩
  have fraction : Digits ['5'] := digits_of_all nofun (by decide)
  have number : IsNumber "2.5".toList ⟨false, ['2'], ['5'], 0⟩ :=
    isNumber_point whole fraction .none
  have rounds : Decimal.Rounds ⟨false, 25, -1⟩ ⟨0x4004000000000000⟩ :=
    ⟨_, Decimal.rounded_magnitude _, by constructor <;> decide +kernel⟩
  have reads := (ofText_eq_ok_iff.2 _ _ short).mpr rounds
  exact ⟨short, (ofText_eq_ok_iff.1 "[[2.5]]" _).mpr
    ⟨_, isText_lists number ⟨_, number, reads⟩, rfl, rfl⟩⟩

/-- A number as the double nearest to it. -/
def Json.IsNearest (v : List Char) (y : Binary64) : Prop := ∃ n, IsNumber v n ∧ n.value.Rounds y

/-- Digits that need 54 bits are rounded before they are scaled. One number gives a nanosecond more
than the nearest double would, and one is refused although the nearest double is finite. -/
theorem Settings.accepted_unlike_nearest :
    (ofText "[[90.07255354649999]]" = .ok ⟨⟨0x405684a4b7a15b49⟩⟩ ∧
      backchannelTimeout ⟨⟨0x405684a4b7a15b49⟩⟩ = ⟨90, 72553547, by decide⟩ ∧
      IsText IsNearest "[[90.07255354649999]]".toList ⟨0x405684a4b7a15b48⟩ ∧
      backchannelTimeout ⟨⟨0x405684a4b7a15b48⟩⟩ = ⟨90, 72553546, by decide⟩) ∧
    ofText "[[1.7976931348623158e308]]" = .error (.unreadable .malformed) ∧
      IsText IsNearest "[[1.7976931348623158e308]]".toList ⟨0x7fefffffffffffff⟩ := by
  have near : IsText IsNearest "[[90.07255354649999]]".toList ⟨0x405684a4b7a15b48⟩ := by
    have whole : IsWhole "90".toList := ⟨digits_of_all nofun (by decide), nofun⟩
    have fraction : Digits "07255354649999".toList := digits_of_all nofun (by decide)
    have number : IsNumber "90.07255354649999".toList
        ⟨false, "90".toList, "07255354649999".toList, 0⟩ :=
      isNumber_point whole fraction .none
    have rounds : Decimal.Rounds ⟨false, 9007255354649999, -14⟩ ⟨0x405684a4b7a15b48⟩ :=
      ⟨_, Decimal.rounded_magnitude _, by constructor <;> decide +kernel⟩
    exact isText_lists number ⟨_, number, rounds⟩
  have finite : IsText IsNearest "[[1.7976931348623158e308]]".toList ⟨0x7fefffffffffffff⟩ := by
    have whole : IsWhole "1".toList := ⟨digits_of_all nofun (by decide), nofun⟩
    have fraction : Digits "7976931348623158".toList := digits_of_all nofun (by decide)
    have exponent : Digits "308".toList := digits_of_all nofun (by decide)
    have number : IsNumber "1.7976931348623158e308".toList
        ⟨false, "1".toList, "7976931348623158".toList, 308⟩ :=
      isNumber_point whole fraction (.some (.inl rfl) (.bare exponent))
    have rounds : Decimal.Rounds ⟨false, 17976931348623158, 292⟩ ⟨0x7fefffffffffffff⟩ :=
      ⟨_, Decimal.rounded_magnitude _, by constructor <;> decide +kernel⟩
    exact isText_lists number ⟨_, number, rounds⟩
  exact ⟨⟨by decide +kernel, by decide +kernel, near, by decide +kernel⟩, by decide +kernel, finite⟩

/-- An escaped key in an object, a list for a record, and a value that is too large and has half a
pair of surrogates, but is not asked for. -/
example : (Settings.ofText
    "\x7b\"x\":[1e999,\"\\ud800\"],\"backch\\u0061nnel\":[2.5]\x7d").toOption =
      some ⟨⟨0x4004000000000000⟩⟩ := by decide +kernel

end RtspControl
