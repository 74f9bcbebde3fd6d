import RtspControl.Proofs.Grammar

/-!
# Skipping is the grammar

The loop that skips a value keeps the brackets that are still open, so what it has read is a value
only together with what it is going to read: every open bracket demands more entries, or none, and
its end (`Demands`). A run of the loop that comes to an end has met these demands, and begun with a
value, a key or neither, as its place asks (`demands_of_skipFrom`).

The other way round the induction is on the value: `skipFrom_value` passes over all of it, and
leaves the loop behind it. Together they are `skip_eq_ok_iff`.
-/

namespace RtspControl.Json

/-! ## Brackets and their entries -/

namespace Bracket

def opening : Bracket → Char
  | .list => '['
  | .record => '{'

theorem eq_opening_of_ofOpening? {c : Char} {b : Bracket} (h : ofOpening? c = some b) :
    c = b.opening := by
  unfold ofOpening? at h
  split at h
  · next list =>
    cases h
    exact list
  · split at h
    · next record =>
      cases h
      exact record
    · cases h

@[simp] theorem ofOpening?_opening (b : Bracket) : ofOpening? b.opening = some b := by
  cases b <;> rfl

@[simp] theorem isBlank_opening (b : Bracket) : isBlank b.opening = false := by cases b <;> rfl

@[simp] theorem isBlank_close (b : Bracket) : isBlank b.close = false := by cases b <;> rfl

theorem close_ne_comma (b : Bracket) : b.close ≠ ',' := by cases b <;> decide

/-- The entries of a bracket: values, or labels with values. -/
def Encloses : Bracket → List Char → Prop
  | .list, e => IsValue e
  | .record, e => ∃ m : Member, m.text = e ∧ IsLabel m.label ∧ IsValue m.value

end Bracket

theorem exists_members {es : List (List Char)} (h : ∀ e ∈ es, Bracket.record.Encloses e) :
    ∃ ms : List Member, ms.map Member.text = es ∧
      ∀ m ∈ ms, IsLabel m.label ∧ IsValue m.value := by
  induction es with
  | nil => exact ⟨[], rfl, nofun⟩
  | cons e es ih =>
    obtain ⟨⟨m, rfl, one⟩, others⟩ := List.forall_mem_cons.mp h
    obtain ⟨ms, rfl, more⟩ := ih others
    exact ⟨m :: ms, rfl, List.forall_mem_cons.mpr ⟨one, more⟩⟩

/-- A bracket around entries of its own is a value. -/
theorem Bracket.isValue {b : Bracket} {es : List (List Char)} {t : List Char}
    (entries : ∀ e ∈ es, b.Encloses e) (listed : Listed es t) :
    IsValue (b.opening :: (t ++ [b.close])) := by
  cases b with
  | list => exact .list entries listed
  | record =>
    obtain ⟨ms, rfl, members⟩ := exists_members entries
    exact .record (fun m hm => (members m hm).1) (fun m hm => (members m hm).2) listed

/-! ## What skipping takes is a value -/

/-- The rest of a bracket behind one of its entries, up to what follows its end. -/
inductive Closes (b : Bracket) : List Char → List Char → Prop
  | close {w r : List Char} : Blank w → Closes b (w ++ b.close :: r) r
  | more {w w' e cs r : List Char} :
    Blank w → Blank w' → b.Encloses e → Closes b cs r → Closes b (w ++ ',' :: (w' ++ (e ++ cs))) r

/-- The rest of all brackets that are open, innermost first, behind an entry of the first. -/
def Demands : List Bracket → List Char → List Char → Prop
  | [], cs, t => cs = t
  | b :: outer, cs, t => ∃ r, Closes b cs r ∧ Demands outer r t

/-- An entry and the rest of its bracket are all that stands in the bracket. -/
theorem Closes.joined {b : Bracket} {cs r : List Char} (h : Closes b cs r) {w e : List Char}
    (blank : Blank w) (entry : b.Encloses e) :
    ∃ es t, w ++ (e ++ cs) = t ++ b.close :: r ∧ Joined es t ∧ ∀ e ∈ es, b.Encloses e := by
  induction h generalizing w e with
  | @close w' _ blank' =>
    refine ⟨[e], w ++ (e ++ w'), ?_, .single blank blank', List.forall_mem_singleton.mpr entry⟩
    simp only [List.append_assoc]
  | @more w₁ w₂ e' cs r blank₁ blank₂ entry' _ ih =>
    obtain ⟨es, t, split, joined, entries⟩ := ih blank₂ entry'
    refine ⟨e :: es, w ++ (e ++ (w₁ ++ ',' :: t)), ?_, .cons blank blank₁ joined,
      List.forall_mem_cons.mpr ⟨entry, entries⟩⟩
    rw [split]
    simp only [List.append_assoc, List.cons_append]

/-- What the loop asks of the text: an entry first, unless it stands behind one, and then the rest
of the open brackets. -/
def Place.Asks (opened : List Bracket) (cs t : List Char) : Place → Prop
  | .value => ∃ w e r, Blank w ∧ Bracket.list.Encloses e ∧ cs = w ++ (e ++ r) ∧ Demands opened r t
  | .key => ∃ w e r, Blank w ∧ Bracket.record.Encloses e ∧ cs = w ++ (e ++ r) ∧ Demands opened r t
  | .behind => Demands opened cs t

theorem Bracket.asks_entry {b : Bracket} {opened : List Bracket} {cs t : List Char} :
    b.entry.Asks opened cs t ↔
      ∃ w e r, Blank w ∧ b.Encloses e ∧ cs = w ++ (e ++ r) ∧ Demands opened r t := by
  cases b <;> exact Iff.rfl

theorem of_word {tail cs : List Char} {r : Remainder cs} (h : word tail cs = .ok r) :
    cs = tail ++ r.text := by
  induction tail generalizing cs with
  | nil =>
    cases h
    rfl
  | cons w tail ih =>
    cases cs with
    | nil => cases h
    | cons c cs =>
      unfold word at h
      split at h
      · next same =>
        obtain ⟨r', later, whole⟩ := exists_of_bind h
        cases whole
        rw [same]
        exact congrArg (w :: ·) (ih later)
      · cases h

theorem IsScalar.of_literalTail? {c : Char} {tail : List Char} (h : literalTail? c = some tail) :
    IsScalar (c :: tail) := by
  unfold literalTail? at h
  split at h
  · next letter =>
    cases h
    exact letter ▸ .null
  · split at h
    · next letter =>
      cases h
      exact letter ▸ .truth
    · split at h
      · next letter =>
        cases h
        exact letter ▸ .falsity
      · cases h

theorem IsScalar.of_skipScalar {c : Char} {cs : List Char} {r : Remainder cs}
    (h : skipScalar c cs = .ok r) : ∃ v, IsScalar v ∧ c :: cs = v ++ r.text := by
  unfold skipScalar at h
  split at h
  · next tail literal => exact ⟨c :: tail, .of_literalTail? literal, congrArg (c :: ·) (of_word h)⟩
  · split at h
    · next quote =>
      obtain ⟨xs, t, _, read, same⟩ := exists_gives_of_bind h
      obtain ⟨w, spells, rfl⟩ := Spells.of_gives read
      cases same
      refine ⟨_, .text spells, ?_⟩
      rw [quote, List.cons_append, List.append_assoc]
      rfl
    · split at h
      · obtain ⟨x, t, _, read, same⟩ := exists_givesMaybe_of_bind h
        obtain ⟨w, isNumber, split⟩ := IsNumber.of_gives read
        cases same
        exact ⟨w, .number isNumber, split⟩
      · cases h

theorem IsLabel.of_skipKey {cs : List Char} {r : Rest cs} (h : skipKey cs = .ok r) :
    ∃ w l, Blank w ∧ IsLabel l ∧ cs = w ++ (l ++ r.text) := by
  obtain ⟨t, _⟩ := r
  obtain ⟨⟨t₁, _⟩, quote, h⟩ := exists_of_bind h
  obtain ⟨w, blank, rfl⟩ := of_mark quote
  obtain ⟨xs, t₂, _, read, h⟩ := exists_gives_of_bind h
  obtain ⟨q, spells, rfl⟩ := Spells.of_gives read
  obtain ⟨⟨t₃, _⟩, colon, same⟩ := exists_of_bind h
  obtain ⟨w', blank', rfl⟩ := of_mark colon
  cases same
  refine ⟨w, _, blank, ⟨xs, spells, blank', .nil⟩, ?_⟩
  simp only [List.cons_append, List.append_assoc]
  rfl

/-- Every step of the loop takes from the text what its place asks for, and leaves the demands of
the brackets that are then open. -/
theorem asks_of_skipFrom {opened : List Bracket} {place : Place} {cs t : List Char}
    (h : skipFrom opened place cs = .ok t) : place.Asks opened cs t := by
  fun_induction skipFrom opened place cs with
  | case1 | case2 | case5 | case7 | case10 | case13 => cases h
  | case3 opened cs c r first b opens r' second ih =>
    -- An empty bracket.
    obtain ⟨w, blank, -, split⟩ := of_gives_firstMark (gives_of_ok first)
    obtain ⟨w', blank', -, split'⟩ := of_gives_firstMark (gives_of_ok second)
    have value : IsValue (b.opening :: (w' ++ [b.close])) :=
      b.isValue (List.forall_mem_nil _) (.inl ⟨rfl, blank'⟩)
    refine ⟨w, _, r'.text, blank, value, ?_, ih h⟩
    rw [← Bracket.eq_opening_of_ofOpening? opens]
    simp only [split', List.cons_append, List.append_assoc, List.nil_append] at split ⊢
    exact split
  | case4 opened cs c r first b opens c' r' second entry ih =>
    -- The bracket that is opened is closed again by what the rest of the loop has met.
    obtain ⟨w, blank, -, split⟩ := of_gives_firstMark (gives_of_ok first)
    obtain ⟨w', e, r'', blank', entry, split', after, closes, demands⟩ :=
      Bracket.asks_entry.mp (ih h)
    obtain ⟨es, t', split'', joined, entries⟩ := closes.joined blank' entry
    refine ⟨w, _, after, blank, b.isValue entries (.inr joined), ?_, demands⟩
    rw [← Bracket.eq_opening_of_ofOpening? opens]
    simp only [split', split'', List.cons_append, List.append_assoc, List.nil_append] at split ⊢
    exact split
  | case6 opened cs c r first plain r' read ih =>
    obtain ⟨w, blank, -, split⟩ := of_gives_firstMark (gives_of_ok first)
    obtain ⟨v, scalar, split'⟩ := IsScalar.of_skipScalar read
    exact ⟨w, v, r'.text, blank, .scalar scalar, split.trans (congrArg (w ++ ·) split'), ih h⟩
  | case8 opened cs r key ih =>
    obtain ⟨w, l, blank, ⟨k, label⟩, split⟩ := IsLabel.of_skipKey key
    obtain ⟨w', v, r', blank', value, split', demands⟩ := ih h
    refine ⟨w, _, r', blank, ⟨⟨k, l ++ w', v⟩, rfl, ⟨k, label.append_blank blank'⟩, value⟩, ?_,
      demands⟩
    simp only [split', Member.text, List.append_assoc] at split ⊢
    exact split
  | case9 cs => exact Except.ok.inj h
  | case11 cs b outer r first ih =>
    obtain ⟨w, blank, -, split⟩ := of_gives_firstMark (gives_of_ok first)
    obtain ⟨w', e, r', blank', entry, split', after, closes, demands⟩ :=
      Bracket.asks_entry.mp (ih h)
    rw [split'] at split
    refine ⟨after, ?_, demands⟩
    rw [split]
    exact .more blank blank' entry closes
  | case12 cs b outer r first _ ih =>
    obtain ⟨w, blank, -, split⟩ := of_gives_firstMark (gives_of_ok first)
    have closes : Closes b (w ++ b.close :: r.text) r.text := .close blank
    exact ⟨r.text, by rwa [← split] at closes, ih h⟩

/-! ## A value is skipped as a whole -/

theorem Ended.nil : Ended [] := ⟨nofun, by decide, by decide⟩

theorem Ended.cons {c : Char} (noDigit : c.isDigit = false) (other : c ≠ '.' ∧ c ≠ 'e' ∧ c ≠ 'E')
    (rest : List Char) : Ended (c :: rest) where
  noDigit _ h := Option.some.inj h ▸ noDigit
  noPoint h := other.1 (Option.some.inj h)
  noExponent := ⟨fun h => other.2.1 (Option.some.inj h), fun h => other.2.2 (Option.some.inj h)⟩

theorem Ended.blank_append {w rest : List Char} (h : Ended rest) (blank : Blank w) :
    Ended (w ++ rest) := by
  cases w with
  | nil => exact h
  | cons c w =>
    have head := blank c List.mem_cons_self
    simp only [isBlank, Bool.or_eq_true, beq_iff_eq] at head
    rcases head with ((rfl | rfl) | rfl) | rfl <;> exact .cons rfl (by decide) _

theorem ended_comma (rest : List Char) : Ended (',' :: rest) := .cons rfl (by decide) rest

theorem ended_close (b : Bracket) (rest : List Char) : Ended (b.close :: rest) := by
  cases b <;> exact .cons rfl (by decide) rest

theorem word_append (tail rest : List Char) :
    ∃ notLonger, word tail (tail ++ rest) = .ok ⟨rest, notLonger⟩ := by
  induction tail with
  | nil => exact ⟨Nat.le_refl _, rfl⟩
  | cons w tail ih =>
    obtain ⟨notLonger, later⟩ := ih
    refine ⟨Nat.le_succ_of_le notLonger, ?_⟩
    show (if w = w then word tail (tail ++ rest) >>= _ else _) = _
    rw [if_pos rfl, later]
    rfl

/-- What a value begins with tells that it is one. -/
structure Opens (c : Char) : Prop where
  notBlank : isBlank c = false
  noEnd : c ≠ ']'

theorem opens_of_startsNumber {c : Char} (h : startsNumber c = true) :
    Opens c ∧ Bracket.ofOpening? c = none ∧ literalTail? c = none ∧ c ≠ '"' := by
  have other {k : Char} (not : startsNumber k = false) : c ≠ k := by
    rintro rfl
    exact Bool.false_ne_true (not.symm.trans h)
  refine ⟨⟨?_, other rfl⟩, ?_, ?_, other rfl⟩
  · simp only [isBlank, beq_eq_false_iff_ne.mpr (other (k := ' ') rfl),
      beq_eq_false_iff_ne.mpr (other (k := '\n') rfl),
      beq_eq_false_iff_ne.mpr (other (k := '\t') rfl),
      beq_eq_false_iff_ne.mpr (other (k := '\r') rfl), Bool.or_self]
  · simp only [Bracket.ofOpening?, other (k := '[') rfl, other (k := '{') rfl, if_false]
  · simp only [literalTail?, other (k := 'n') rfl, other (k := 't') rfl, other (k := 'f') rfl,
      if_false]

theorem IsScalar.skips {v rest : List Char} (h : IsScalar v) (ended : Ended rest) :
    ∃ c v', v = c :: v' ∧ Opens c ∧ Bracket.ofOpening? c = none ∧
      ∃ notLonger, skipScalar c (v' ++ rest) = .ok ⟨rest, notLonger⟩ := by
  have literal {c : Char} {tail : List Char} (first : literalTail? c = some tail)
      (opens : Opens c) (plain : Bracket.ofOpening? c = none) :
      ∃ c' v', c :: tail = c' :: v' ∧ Opens c' ∧ Bracket.ofOpening? c' = none ∧
        ∃ notLonger, skipScalar c' (v' ++ rest) = .ok ⟨rest, notLonger⟩ := by
    obtain ⟨notLonger, read⟩ := word_append tail rest
    refine ⟨c, tail, rfl, opens, plain, notLonger, ?_⟩
    unfold skipScalar
    rw [first]
    exact read
  cases h with
  | null => exact literal rfl ⟨rfl, by decide⟩ rfl
  | truth => exact literal rfl ⟨rfl, by decide⟩ rfl
  | falsity => exact literal rfl ⟨rfl, by decide⟩ rfl
  | @text w _ spells =>
    obtain ⟨shorter, read⟩ := spells.gives rest
    refine ⟨'"', w ++ ['"'], rfl, ⟨rfl, by decide⟩, rfl, ?_⟩
    rw [List.append_assoc, List.singleton_append]
    refine ⟨Nat.le_of_lt shorter, ?_⟩
    have none : literalTail? '"' = none := rfl
    unfold skipScalar
    rw [none]
    dsimp only
    rw [if_pos rfl, read]
    rfl
  | number isNumber =>
    obtain ⟨c, v', rfl, starts, notLonger, read⟩ := isNumber.gives .malformed ended
    obtain ⟨opens, plain, none, noQuote⟩ := opens_of_startsNumber starts
    refine ⟨c, v', rfl, opens, plain, notLonger, ?_⟩
    unfold skipScalar
    rw [none]
    dsimp only
    rw [if_neg noQuote, if_pos starts, read]
    rfl

/-- Of a label only blanks are left. -/
theorem IsLabel.skips {w l : List Char} (h : IsLabel l) (blank : Blank w) (rest : List Char) :
    ∃ w' shorter, Blank w' ∧ skipKey (w ++ (l ++ rest)) = .ok ⟨w' ++ rest, shorter⟩ := by
  obtain ⟨_, @⟨q, key, before, after, spells, blankBefore, blankAfter⟩⟩ := h
  obtain ⟨_, quote⟩ := mark_append (c := '"') blank rfl
    (q ++ '"' :: (before ++ ':' :: (after ++ rest)))
  obtain ⟨_, read⟩ := spells.gives (before ++ ':' :: (after ++ rest))
  obtain ⟨_, colon⟩ := mark_append (c := ':') blankBefore rfl (after ++ rest)
  have split : '"' :: (q ++ '"' :: (before ++ ':' :: after)) ++ rest =
      '"' :: (q ++ '"' :: (before ++ ':' :: (after ++ rest))) := by
    simp only [List.cons_append, List.append_assoc]
  rw [split]
  refine ⟨after, ?_, blankAfter, ?_⟩
  · simp only [List.length_cons, List.length_append]
    omega
  · unfold skipKey
    rw [quote]
    dsimp only [bind, Except.bind]
    rw [read]
    dsimp only
    rw [colon]
    rfl

section

variable {opened : List Bracket} {b : Bracket} {w w' v l t rest : List Char}

theorem skipFrom_scalar (blank : Blank w) (scalar : IsScalar v) (ended : Ended rest) :
    skipFrom opened .value (w ++ (v ++ rest)) = skipFrom opened .behind rest := by
  obtain ⟨c, v', rfl, opens, plain, _, read⟩ := scalar.skips ended
  obtain ⟨_, first⟩ := gives_firstMark blank opens.notBlank (v' ++ rest)
  rw [List.cons_append, skipFrom]
  simp only [first, plain, read]

/-- An empty bracket is passed over at once. -/
theorem skipFrom_empty (blank : Blank w) (blank' : Blank w') :
    skipFrom opened .value (w ++ b.opening :: (w' ++ b.close :: rest)) =
      skipFrom opened .behind rest := by
  obtain ⟨_, first⟩ := gives_firstMark blank b.isBlank_opening (w' ++ b.close :: rest)
  obtain ⟨_, second⟩ := gives_firstMark blank' b.isBlank_close rest
  rw [skipFrom]
  simp only [first, Bracket.ofOpening?_opening, second, if_true]

/-- A bracket that is not empty has an entry next. -/
theorem skipFrom_opening {c : Char} (blank : Blank w) (blank' : Blank w')
    (notBlank : isBlank c = false) (entry : c ≠ b.close) :
    skipFrom opened .value (w ++ b.opening :: (w' ++ c :: rest)) =
      skipFrom (b :: opened) b.entry (w' ++ c :: rest) := by
  obtain ⟨_, first⟩ := gives_firstMark blank b.isBlank_opening (w' ++ c :: rest)
  obtain ⟨_, second⟩ := gives_firstMark blank' notBlank rest
  rw [skipFrom]
  simp only [first, Bracket.ofOpening?_opening, second, if_neg entry]

theorem skipFrom_comma (blank : Blank w) (rest : List Char) :
    skipFrom (b :: opened) .behind (w ++ ',' :: rest) = skipFrom (b :: opened) b.entry rest := by
  obtain ⟨_, first⟩ := gives_firstMark (c := ',') blank rfl rest
  rw [skipFrom]
  simp only [first, if_true]

theorem skipFrom_closing (blank : Blank w) (rest : List Char) :
    skipFrom (b :: opened) .behind (w ++ b.close :: rest) = skipFrom opened .behind rest := by
  obtain ⟨_, first⟩ := gives_firstMark blank b.isBlank_close rest
  rw [skipFrom]
  simp only [first, if_neg b.close_ne_comma, if_true]

theorem skipFrom_label (label : IsLabel l) (blank : Blank w) (rest : List Char) :
    ∃ w', Blank w' ∧
      skipFrom opened .key (w ++ (l ++ rest)) = skipFrom opened .value (w' ++ rest) := by
  obtain ⟨w', _, blank', key⟩ := label.skips blank rest
  refine ⟨w', blank', ?_⟩
  conv =>
    lhs
    rw [skipFrom]
  simp only [key]

end

/-- Wherever such a text stands as an entry, the loop gets behind it. -/
def Skips (opened : List Bracket) (place : Place) (e : List Char) : Prop :=
  ∀ {w rest}, Blank w → Ended rest →
    skipFrom opened place (w ++ (e ++ rest)) = skipFrom opened .behind rest

/-- Entry by entry the loop gets to the end of a bracket. -/
theorem skipFrom_joined {opened : List Bracket} {b : Bracket} {es : List (List Char)}
    {t : List Char} (joined : Joined es t) (each : ∀ e ∈ es, Skips (b :: opened) b.entry e)
    (rest : List Char) :
    skipFrom (b :: opened) b.entry (t ++ b.close :: rest) = skipFrom opened .behind rest := by
  induction joined with
  | @single w v w' blank blank' =>
    have ended := (ended_close b rest).blank_append blank'
    rw [List.append_assoc, List.append_assoc,
      each v List.mem_cons_self blank ended, skipFrom_closing blank']
  | @cons w v w' t vs blank blank' _ ih =>
    obtain ⟨first, later⟩ := List.forall_mem_cons.mp each
    have ended := (ended_comma (t ++ b.close :: rest)).blank_append blank'
    rw [List.append_assoc, List.append_assoc, List.append_assoc, List.cons_append,
      first blank ended, skipFrom_comma blank', ih later]

theorem IsValue.opens {v : List Char} (h : IsValue v) : ∃ c v', v = c :: v' ∧ Opens c := by
  cases h with
  | scalar scalar =>
    obtain ⟨c, v', split, opens, -⟩ := scalar.skips Ended.nil
    exact ⟨c, v', split, opens⟩
  | list => exact ⟨'[', _, rfl, rfl, by decide⟩
  | record => exact ⟨'{', _, rfl, rfl, by decide⟩

/-- No entry begins with a blank or like the end of its bracket. -/
theorem Bracket.Encloses.head {b : Bracket} {e : List Char} (h : b.Encloses e) :
    ∃ c e', e = c :: e' ∧ isBlank c = false ∧ c ≠ b.close := by
  cases b with
  | list =>
    obtain ⟨c, v', split, opens⟩ := IsValue.opens h
    exact ⟨c, v', split, opens.notBlank, opens.noEnd⟩
  | record =>
    obtain ⟨m, rfl, ⟨key, label⟩, -⟩ := h
    obtain ⟨key', l, v⟩ := m
    cases label with
    | mk => exact ⟨'"', _, rfl, rfl, by decide⟩

theorem Joined.head {b : Bracket} {es : List (List Char)} {t : List Char} (h : Joined es t)
    (entries : ∀ e ∈ es, b.Encloses e) :
    ∃ w c t', Blank w ∧ t = w ++ c :: t' ∧ isBlank c = false ∧ c ≠ b.close := by
  cases h with
  | @single w _ _ blank _ =>
    obtain ⟨c, e', rfl, notBlank, noEnd⟩ := (entries _ List.mem_cons_self).head
    exact ⟨w, c, _, blank, rfl, notBlank, noEnd⟩
  | @cons w _ _ _ _ blank _ _ =>
    obtain ⟨c, e', rfl, notBlank, noEnd⟩ := (entries _ List.mem_cons_self).head
    exact ⟨w, c, _, blank, rfl, notBlank, noEnd⟩

theorem Bracket.skips {b : Bracket} {opened : List Bracket} {es : List (List Char)} {t : List Char}
    (listed : Listed es t) (entries : ∀ e ∈ es, b.Encloses e)
    (each : ∀ e ∈ es, Skips (b :: opened) b.entry e) :
    Skips opened .value (b.opening :: (t ++ [b.close])) := by
  intro w rest blank _
  have split : w ++ (b.opening :: (t ++ [b.close]) ++ rest) =
      w ++ b.opening :: (t ++ b.close :: rest) := by
    simp only [List.cons_append, List.append_assoc, List.nil_append]
  rw [split]
  rcases listed with ⟨rfl, blank'⟩ | joined
  · exact skipFrom_empty blank blank'
  · obtain ⟨w', c, t', blank', head, notBlank, noEnd⟩ := joined.head entries
    have inner := skipFrom_joined joined each rest
    rw [head, List.append_assoc, List.cons_append] at inner ⊢
    rw [skipFrom_opening blank blank' notBlank noEnd]
    exact inner

/-- A value of any depth is passed over as a whole. -/
theorem IsValue.skips {v : List Char} (h : IsValue v) (opened : List Bracket) :
    Skips opened .value v := by
  induction h generalizing opened with
  | scalar scalar => exact fun blank ended => skipFrom_scalar blank scalar ended
  -- The brackets that are open vary, since each entry is skipped with one more of them.
  | list values listed ih =>
    exact Bracket.skips (b := .list) listed values fun v hv => ih v hv _
  | @record ms t labels values listed ih =>
    refine Bracket.skips (b := .record) listed ?_ ?_
    · intro e he
      obtain ⟨m, hm, rfl⟩ := List.mem_map.mp he
      exact ⟨m, rfl, labels m hm, values m hm⟩
    · intro e he w rest blank ended
      obtain ⟨m, hm, rfl⟩ := List.mem_map.mp he
      obtain ⟨w', blank', key⟩ := skipFrom_label (labels m hm) blank (m.value ++ rest)
      rw [Member.text, List.append_assoc]
      exact key.trans (ih m hm _ blank' ended)

/-! ## Skipping one value -/

theorem of_skip {cs rest : List Char} {notLonger : rest.length ≤ cs.length}
    (h : skip cs = .ok ⟨rest, notLonger⟩) :
    ∃ w v, Blank w ∧ IsValue v ∧ cs = w ++ (v ++ rest) := by
  unfold skip at h
  split at h
  · cases h
  · next passed =>
    cases h
    obtain ⟨w, v, r, blank, value, split, rfl⟩ := asks_of_skipFrom passed
    exact ⟨w, v, blank, value, split⟩

theorem IsValue.skip {w v rest : List Char} (h : IsValue v) (blank : Blank w) (ended : Ended rest) :
    ∃ notLonger, skip (w ++ (v ++ rest)) = .ok ⟨rest, notLonger⟩ := by
  have passed : skipFrom [] .value (w ++ (v ++ rest)) = .ok rest := by
    rw [h.skips [] blank ended, skipFrom]
  refine ⟨length_le_of_skipFrom passed, ?_⟩
  unfold Json.skip
  split
  · next failed =>
    rw [passed] at failed
    cases failed
  · next read =>
    obtain rfl := Except.ok.inj (passed.symm.trans read)
    rfl

end RtspControl.Json
