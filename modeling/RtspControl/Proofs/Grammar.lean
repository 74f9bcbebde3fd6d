import RtspControl.Json.Skip
import Mathlib.Data.List.TakeWhile

/-!
# The grammar of the texts that are read

What a JSON text is, said without a reader. A value is a text of its own: `IsValue` builds it from
`IsScalar` and from entries with commas between them (`Listed`), and says nothing about what comes
before or after it. What a part of a text stands for is an index of the same relations: `Spells`
gives the characters of a string, and `IsNumber` the numeral that a number is.

The readers of the parts are then shown to be these relations. A reader that gives something has
taken off a text for it, and what it leaves begins behind that text; it gives the same whatever
comes after the text. For numbers the latter is true only if what comes after could not be a part of
the number (`Ended`).
-/

namespace RtspControl.Json

/-! ## Blanks and strings -/

def Blank (w : List Char) : Prop := ∀ c ∈ w, isBlank c = true

theorem Blank.nil : Blank [] := fun _ h => nomatch h

theorem Blank.append {w w' : List Char} (h : Blank w) (h' : Blank w') : Blank (w ++ w') :=
  List.forall_mem_append.mpr ⟨h, h'⟩

/-- Four hex digits, and the UTF-16 unit that they name. -/
inductive HexUnit : List Char → Nat → Prop
  | mk {a b c d : Char} {a' b' c' d' : Nat} :
    hexValue? a = some a' → hexValue? b = some b' → hexValue? c = some c' → hexValue? d = some d' →
    HexUnit [a, b, c, d] (((a' * 16 + b') * 16 + c') * 16 + d')

/-- A character by its code, without the backslash and the letter that announce it. Where surrogates
have to be in pairs, a pair is one character and none of them is one alone; else every unit is a
character. -/
inductive CodeSpelling (paired : Bool) : List Char → Char → Prop
  | alone {ds : List Char} {unit : Nat} :
    HexUnit ds unit →
    (paired = true → isLowSurrogate unit = false ∧ isHighSurrogate unit = false) →
    CodeSpelling paired ds (Char.ofNat unit)
  | pair {ds ds' : List Char} {high low : Nat} :
    paired = true → HexUnit ds high → isHighSurrogate high = true →
    HexUnit ds' low → isLowSurrogate low = true →
    CodeSpelling paired (ds ++ '\\' :: 'u' :: ds') (pairedChar high low)

/-- The written forms of one character of a string. -/
inductive Spelling (paired : Bool) : List Char → Char → Prop
  | plain {c : Char} : c ≠ '"' → c ≠ '\\' → 0x20 ≤ c.toNat → Spelling paired [c] c
  | letter {l c : Char} : letterEscape? l = some c → Spelling paired ['\\', l] c
  | code {e : List Char} {c : Char} :
    CodeSpelling paired e c → Spelling paired ('\\' :: 'u' :: e) c

/-- What stands between the quotes of a string, and the characters it stands for. -/
inductive Spells (paired : Bool) : List Char → List Char → Prop
  | nil : Spells paired [] []
  | cons {e w : List Char} {c : Char} {cs : List Char} :
    Spelling paired e c → Spells paired w cs → Spells paired (e ++ w) (c :: cs)

/-! ## Numbers -/

def Digits (ds : List Char) : Prop := ds ≠ [] ∧ ∀ c ∈ ds, c.isDigit = true

theorem digits_of_all {ds : List Char} (nonempty : ds ≠ []) (all : ds.all Char.isDigit = true) :
    Digits ds :=
  ⟨nonempty, List.all_eq_true.mp all⟩

/-- The digits before the point. -/
def IsWhole (ds : List Char) : Prop := Digits ds ∧ (ds.head? = some '0' → ds = ['0'])

/-- The digits behind the point, which may be missing together with it. -/
inductive IsFraction : List Char → List Char → Prop
  | none : IsFraction [] []
  | some {ds : List Char} : Digits ds → IsFraction ('.' :: ds) ds

inductive IsSigned : List Char → Int → Prop
  | bare {ds : List Char} : Digits ds → IsSigned ds (digitsValue ds)
  | plus {ds : List Char} : Digits ds → IsSigned ('+' :: ds) (digitsValue ds)
  | minus {ds : List Char} : Digits ds → IsSigned ('-' :: ds) (-digitsValue ds)

inductive IsExponent : List Char → Int → Prop
  | none : IsExponent [] 0
  | some {c : Char} {w : List Char} {e : Int} :
    c = 'e' ∨ c = 'E' → IsSigned w e → IsExponent (c :: w) e

/-- A number without a sign of its own, and its parts once it has been given one. -/
inductive IsMagnitude (negative : Bool) : List Char → Numeral → Prop
  | mk {whole f fraction x : List Char} {e : Int} :
    IsWhole whole → IsFraction f fraction → IsExponent x e →
    IsMagnitude negative (whole ++ (f ++ x)) ⟨negative, whole, fraction, e⟩

inductive IsNumber : List Char → Numeral → Prop
  | positive {w : List Char} {x : Numeral} : IsMagnitude false w x → IsNumber w x
  | negative {w : List Char} {x : Numeral} : IsMagnitude true w x → IsNumber ('-' :: w) x

/-! ## Values -/

/-- A value that has no parts. Its surrogates need not be in pairs, and its size does not matter. -/
inductive IsScalar : List Char → Prop
  | null : IsScalar ['n', 'u', 'l', 'l']
  | truth : IsScalar ['t', 'r', 'u', 'e']
  | falsity : IsScalar ['f', 'a', 'l', 's', 'e']
  | text {w cs : List Char} : Spells false w cs → IsScalar ('"' :: (w ++ ['"']))
  | number {w : List Char} {x : Numeral} : IsNumber w x → IsScalar w

/-- One entry or more, with commas between them and blanks around them. -/
inductive Joined : List (List Char) → List Char → Prop
  | single {w v w' : List Char} : Blank w → Blank w' → Joined [v] (w ++ (v ++ w'))
  | cons {w v w' t : List Char} {vs : List (List Char)} :
    Blank w → Blank w' → Joined vs t → Joined (v :: vs) (w ++ (v ++ (w' ++ ',' :: t)))

/-- What stands between the brackets of a list or a record with these entries. -/
def Listed (vs : List (List Char)) (t : List Char) : Prop := vs = [] ∧ Blank t ∨ Joined vs t

/-- A key between its quotes, with the colon after it and the blanks around that. -/
inductive Label (paired : Bool) : List Char → List Char → Prop
  | mk {q key w w' : List Char} :
    Spells paired q key → Blank w → Blank w' →
    Label paired ('"' :: (q ++ '"' :: (w ++ ':' :: w'))) key

theorem Label.append_blank {paired : Bool} {l key w : List Char} (h : Label paired l key)
    (blank : Blank w) : Label paired (l ++ w) key := by
  obtain ⟨spells, before, after⟩ := h
  simp only [List.cons_append, List.append_assoc]
  exact ⟨spells, before, after.append blank⟩

/-- A label with a key that is only skipped. -/
def IsLabel (label : List Char) : Prop := ∃ key, Label false label key

/-- A member of a record: its label, its value, and the key that the label stands for, if anybody
asks for it. -/
structure Member where
  key : List Char
  label : List Char
  value : List Char

def Member.text (m : Member) : List Char := m.label ++ m.value

/-- A value, of any depth. -/
inductive IsValue : List Char → Prop
  | scalar {v : List Char} : IsScalar v → IsValue v
  | list {vs : List (List Char)} {t : List Char} :
    (∀ v ∈ vs, IsValue v) → Listed vs t → IsValue ('[' :: (t ++ [']']))
  | record {ms : List Member} {t : List Char} :
    (∀ m ∈ ms, IsLabel m.label) → (∀ m ∈ ms, IsValue m.value) →
    Listed (ms.map Member.text) t → IsValue ('{' :: (t ++ ['}']))

/-! ## What readers give and leave -/

section

variable {α β : Type} {cs cs' rest : List Char} {a : α}

theorem exists_of_bind {first : Except Defect β} {next : β → Except Defect α}
    (h : first >>= next = .ok a) : ∃ b, first = .ok b ∧ next b = .ok a := by
  cases first with
  | error d => cases h
  | ok b => exact ⟨b, rfl, h⟩

/-- The reading has given `a` and left `rest`. -/
def Gives (result : Except Defect (α × Rest cs)) (a : α) (rest : List Char) : Prop :=
  ∃ shorter, result = .ok (a, ⟨rest, shorter⟩)

theorem gives_of_ok {result : Except Defect (α × Rest cs)} {r : Rest cs}
    (h : result = .ok (a, r)) : Gives result a r.text := ⟨r.shorter, h⟩

theorem gives_ok_iff {a' : α} {r : Rest cs} :
    Gives (.ok (a, r) : Except Defect (α × Rest cs)) a' rest ↔ a = a' ∧ r.text = rest := by
  constructor
  · rintro ⟨_, h⟩
    cases h
    exact ⟨rfl, rfl⟩
  · rintro ⟨rfl, rfl⟩
    exact gives_of_ok rfl

/-- The same of a reading that may have taken nothing. -/
def GivesMaybe (result : Except Defect (α × Remainder cs)) (a : α) (rest : List Char) : Prop :=
  ∃ notLonger, result = .ok (a, ⟨rest, notLonger⟩)

theorem givesMaybe_of_ok {result : Except Defect (α × Remainder cs)} {r : Remainder cs}
    (h : result = .ok (a, r)) : GivesMaybe result a r.text := ⟨r.notLonger, h⟩

/-- A reading that goes on has come to an end before. -/
theorem exists_gives_of_bind {first : Except Defect (β × Rest cs')}
    {next : β × Rest cs' → Except Defect α} (h : first >>= next = .ok a) :
    ∃ b t shorter, Gives first b t ∧ next (b, ⟨t, shorter⟩) = .ok a := by
  obtain ⟨p, read, later⟩ := exists_of_bind h
  exact ⟨p.1, p.2.text, p.2.shorter, gives_of_ok read, later⟩

theorem exists_givesMaybe_of_bind {first : Except Defect (β × Remainder cs')}
    {next : β × Remainder cs' → Except Defect α} (h : first >>= next = .ok a) :
    ∃ b t notLonger, GivesMaybe first b t ∧ next (b, ⟨t, notLonger⟩) = .ok a := by
  obtain ⟨p, read, later⟩ := exists_of_bind h
  exact ⟨p.1, p.2.text, p.2.notLonger, givesMaybe_of_ok read, later⟩

end

/-! ## Reading blanks and marks -/

section

variable {w cs rest : List Char} {c : Char}

theorem skipBlanks_append (blank : Blank w) (cs : List Char) :
    skipBlanks (w ++ cs) = skipBlanks cs := List.dropWhile_append_of_pos blank

theorem skipBlanks_cons (h : isBlank c = false) (cs : List Char) :
    skipBlanks (c :: cs) = c :: cs := List.dropWhile_cons_of_neg (by simp [h])

theorem skipBlanks_eq_nil_iff : skipBlanks cs = [] ↔ Blank cs := List.dropWhile_eq_nil_iff

theorem exists_blank_append (cs : List Char) : ∃ w, Blank w ∧ cs = w ++ skipBlanks cs :=
  ⟨cs.takeWhile isBlank, fun _ => List.mem_takeWhile_imp, List.takeWhile_append_dropWhile.symm⟩

theorem isBlank_of_skipBlanks (h : skipBlanks cs = c :: rest) : isBlank c = false := by
  have head := List.head?_dropWhile_not isBlank cs
  rw [show cs.dropWhile isBlank = c :: rest from h] at head
  exact head

theorem of_gives_firstMark (h : Gives (firstMark cs) c rest) :
    ∃ w, Blank w ∧ isBlank c = false ∧ cs = w ++ c :: rest := by
  obtain ⟨_, h⟩ := h
  unfold firstMark at h
  split at h
  · cases h
  · next first =>
    cases h
    obtain ⟨w, blank, split⟩ := exists_blank_append cs
    rw [first] at split
    exact ⟨w, blank, isBlank_of_skipBlanks first, split⟩

theorem gives_firstMark (blank : Blank w) (notBlank : isBlank c = false) (rest : List Char) :
    Gives (firstMark (w ++ c :: rest)) c rest := by
  have skip : skipBlanks (w ++ c :: rest) = c :: rest := by
    rw [skipBlanks_append blank, skipBlanks_cons notBlank]
  refine ⟨length_lt_of_skipBlanks skip, ?_⟩
  unfold firstMark
  split
  · next none =>
    rw [skip] at none
    cases none
  · next first =>
    rw [skip] at first
    cases first
    rfl

theorem of_mark {shorter : rest.length < cs.length} (h : mark c cs = .ok ⟨rest, shorter⟩) :
    ∃ w, Blank w ∧ cs = w ++ c :: rest := by
  obtain ⟨c', t, _, first, same⟩ := exists_gives_of_bind h
  obtain ⟨w, blank, -, split⟩ := of_gives_firstMark first
  dsimp only at same
  split at same
  · next mark =>
    cases same
    exact ⟨w, blank, mark ▸ split⟩
  · cases same

theorem mark_append (blank : Blank w) (notBlank : isBlank c = false) (rest : List Char) :
    ∃ shorter, mark c (w ++ c :: rest) = .ok ⟨rest, shorter⟩ := by
  obtain ⟨shorter, first⟩ := gives_firstMark blank notBlank rest
  refine ⟨shorter, ?_⟩
  unfold mark
  rw [first]
  exact if_pos rfl

end

/-! ## Reading strings -/

section

variable {ds e w xs cs rest : List Char} {unit low : Nat} {paired : Bool} {c x : Char}

theorem HexUnit.of_gives (h : Gives (hexUnit cs) unit rest) :
    ∃ ds, HexUnit ds unit ∧ cs = ds ++ rest := by
  obtain ⟨_, h⟩ := h
  unfold hexUnit at h
  split at h
  · split at h
    · next first second third fourth =>
      cases h
      exact ⟨_, ⟨first, second, third, fourth⟩, rfl⟩
    · cases h
  · cases h

theorem HexUnit.gives (h : HexUnit ds unit) (rest : List Char) :
    Gives (hexUnit (ds ++ rest)) unit rest := by
  obtain ⟨first, second, third, fourth⟩ := h
  unfold hexUnit
  simp only [List.cons_append, List.nil_append, first, second, third, fourth]
  exact gives_of_ok rfl

theorem exists_low_of_gives (h : Gives (lowSurrogate cs) low rest) :
    ∃ ds, HexUnit ds low ∧ isLowSurrogate low = true ∧ cs = '\\' :: 'u' :: (ds ++ rest) := by
  obtain ⟨_, h⟩ := h
  unfold lowSurrogate at h
  split at h
  · cases h
  · cases h
  · split at h
    · next marks =>
      obtain ⟨rfl, rfl⟩ := marks
      obtain ⟨unit, t, _, hex, same⟩ := exists_gives_of_bind h
      obtain ⟨ds, isUnit, rfl⟩ := HexUnit.of_gives hex
      dsimp only at same
      split at same
      · next isLow =>
        cases same
        exact ⟨ds, isUnit, isLow, rfl⟩
      · cases same
    · cases h

theorem gives_lowSurrogate (h : HexUnit ds low) (isLow : isLowSurrogate low = true)
    (rest : List Char) : Gives (lowSurrogate ('\\' :: 'u' :: (ds ++ rest))) low rest := by
  obtain ⟨_, hex⟩ := h.gives rest
  unfold lowSurrogate
  dsimp only
  rw [if_pos ⟨rfl, rfl⟩, hex]
  exact gives_of_ok (if_pos isLow)

theorem CodeSpelling.of_gives (h : Gives (codeEscape paired cs) x rest) :
    ∃ e, CodeSpelling paired e x ∧ cs = e ++ rest := by
  obtain ⟨_, h⟩ := h
  obtain ⟨unit, t, _, hex, h⟩ := exists_gives_of_bind h
  obtain ⟨ds, isUnit, rfl⟩ := HexUnit.of_gives hex
  dsimp only at h
  split at h
  · cases h
  · next notLow =>
    split at h
    · next high =>
      obtain ⟨isPaired, isHigh⟩ := Bool.and_eq_true_iff.mp high
      obtain ⟨low, t', _, second, same⟩ := exists_gives_of_bind h
      obtain ⟨ds', isUnit', isLow, rfl⟩ := exists_low_of_gives second
      obtain ⟨rfl, rfl⟩ := gives_ok_iff.mp ⟨_, same⟩
      exact ⟨_, .pair isPaired isUnit isHigh isUnit' isLow, by rw [List.append_assoc]; rfl⟩
    · next notHigh =>
      obtain ⟨rfl, rfl⟩ := gives_ok_iff.mp ⟨_, h⟩
      refine ⟨ds, .alone isUnit fun isPaired => ?_, rfl⟩
      rw [isPaired, Bool.true_and, Bool.not_eq_true] at notLow notHigh
      exact ⟨notLow, notHigh⟩

theorem not_low_of_high {high : Nat} (h : isHighSurrogate high = true) :
    isLowSurrogate high = false := by
  simp only [isHighSurrogate, isLowSurrogate, Bool.and_eq_true, decide_eq_true_eq,
    Bool.and_eq_false_iff, decide_eq_false_iff_not] at h ⊢
  omega

theorem CodeSpelling.gives (h : CodeSpelling paired e x) (rest : List Char) :
    Gives (codeEscape paired (e ++ rest)) x rest := by
  unfold codeEscape
  cases h with
  | @alone _ unit isUnit alone =>
    obtain ⟨_, hex⟩ := isUnit.gives rest
    have noLow : ¬ (paired && isLowSurrogate unit) = true := by
      intro low
      obtain ⟨isPaired, isLow⟩ := Bool.and_eq_true_iff.mp low
      exact Bool.false_ne_true ((alone isPaired).1.symm.trans isLow)
    have noHigh : ¬ (paired && isHighSurrogate unit) = true := by
      intro high
      obtain ⟨isPaired, isHigh⟩ := Bool.and_eq_true_iff.mp high
      exact Bool.false_ne_true ((alone isPaired).2.symm.trans isHigh)
    rw [hex]
    exact gives_of_ok ((if_neg noLow).trans (if_neg noHigh))
  | @pair ds ds' high low isPaired isUnit isHigh isUnit' isLow =>
    rw [List.append_assoc]
    obtain ⟨_, hex⟩ := isUnit.gives ('\\' :: 'u' :: (ds' ++ rest))
    obtain ⟨_, second⟩ := gives_lowSurrogate isUnit' isLow rest
    subst isPaired
    have noLow : ¬ (true && isLowSurrogate high) = true := by
      rw [not_low_of_high isHigh]
      decide
    have isHigh : (true && isHighSurrogate high) = true := isHigh
    show Gives (hexUnit (ds ++ '\\' :: 'u' :: (ds' ++ rest)) >>= _) _ _
    rw [hex]
    dsimp only [bind, Except.bind]
    rw [if_neg noLow, if_pos isHigh, second]
    exact gives_of_ok rfl

theorem Spelling.of_gives_escape (h : Gives (escape paired cs) x rest) :
    ∃ e, Spelling paired ('\\' :: e) x ∧ cs = e ++ rest := by
  obtain ⟨_, h⟩ := h
  cases cs with
  | nil => cases h
  | cons c cs =>
    unfold escape at h
    dsimp only at h
    split at h
    · next isCode =>
      obtain ⟨x', t, _, code, same⟩ := exists_gives_of_bind h
      obtain ⟨e, spelling, rfl⟩ := CodeSpelling.of_gives code
      cases same
      exact ⟨'u' :: e, .code spelling, by rw [isCode]; rfl⟩
    · split at h
      · next x' letter =>
        cases h
        exact ⟨[c], .letter letter, rfl⟩
      · cases h

theorem Spelling.of_gives (noQuote : c ≠ '"') (h : Gives (stringChar paired c cs) x rest) :
    ∃ e, Spelling paired e x ∧ c :: cs = e ++ rest := by
  obtain ⟨_, h⟩ := h
  unfold stringChar at h
  split at h
  · next backslash =>
    obtain ⟨x', t, _, escaped, same⟩ := exists_gives_of_bind h
    obtain ⟨e, spelling, rfl⟩ := Spelling.of_gives_escape escaped
    cases same
    exact ⟨_, spelling, by rw [backslash]; rfl⟩
  · next noBackslash =>
    split at h
    · cases h
    · next printable =>
      cases h
      exact ⟨[c], .plain noQuote noBackslash (Nat.not_lt.mp printable), rfl⟩

/-- A character is read as it was written, and none is written as the end of a string. -/
theorem Spelling.gives (h : Spelling paired e x) (rest : List Char) :
    ∃ c e', e = c :: e' ∧ c ≠ '"' ∧ Gives (stringChar paired c (e' ++ rest)) x rest := by
  cases h with
  | plain noQuote noBackslash printable =>
    refine ⟨x, [], rfl, noQuote, ?_⟩
    unfold stringChar
    rw [if_neg noBackslash, if_neg (Nat.not_lt.mpr printable)]
    exact gives_of_ok rfl
  | @letter l _ letter =>
    have noCode : l ≠ 'u' := by
      rintro rfl
      cases letter
    refine ⟨'\\', [l], rfl, by decide, ?_⟩
    unfold stringChar escape
    simp only [if_true, List.cons_append, List.nil_append, if_neg noCode, letter]
    exact gives_of_ok rfl
  | @code e _ code =>
    obtain ⟨_, read⟩ := code.gives rest
    refine ⟨'\\', 'u' :: e, rfl, by decide, ?_⟩
    unfold stringChar escape
    simp only [if_true, List.cons_append]
    rw [read]
    exact gives_of_ok rfl

theorem Spells.of_gives (h : Gives (string paired cs) xs rest) :
    ∃ w, Spells paired w xs ∧ cs = w ++ '"' :: rest := by
  obtain ⟨_, h⟩ := h
  fun_induction string paired cs generalizing xs rest with
  | case1 => cases h
  | case2 cs =>
    cases h
    exact ⟨[], .nil, rfl⟩
  | case3 => cases h
  | case4 c cs noQuote x r first ih =>
    obtain ⟨xs', t, _, later, same⟩ := exists_gives_of_bind h
    cases same
    obtain ⟨e, spelling, split⟩ := Spelling.of_gives noQuote (gives_of_ok first)
    obtain ⟨shorter, later⟩ := later
    obtain ⟨w, spells, split'⟩ := ih shorter later
    refine ⟨e ++ w, .cons spelling spells, ?_⟩
    calc c :: cs = e ++ r.text := split
      _ = e ++ (w ++ '"' :: t) := by rw [split']
      _ = e ++ w ++ '"' :: t := (List.append_assoc ..).symm

theorem Spells.gives (h : Spells paired w xs) (rest : List Char) :
    Gives (string paired (w ++ '"' :: rest)) xs rest := by
  induction h with
  | nil =>
    rw [List.nil_append, string]
    exact gives_of_ok rfl
  | @cons e w _ _ spelling _ ih =>
    obtain ⟨c, e', rfl, noQuote, read⟩ := spelling.gives (w ++ '"' :: rest)
    obtain ⟨_, first⟩ := read
    obtain ⟨_, later⟩ := ih
    rw [List.append_assoc, List.cons_append, string]
    simp only [if_neg noQuote, first, later]
    exact gives_of_ok rfl

end

/-! ## Reading numbers -/

def NoDigit (rest : List Char) : Prop := ∀ c ∈ rest.head?, c.isDigit = false

/-- Nothing comes next that could be a part of a number. -/
structure Ended (rest : List Char) : Prop where
  noDigit : NoDigit rest
  noPoint : rest.head? ≠ some '.'
  noExponent : rest.head? ≠ some 'e' ∧ rest.head? ≠ some 'E'

section

variable {atEnd : Defect} {ds f fraction w cs rest : List Char} {e : Int} {x : Numeral}
  {negative : Bool}

theorem ne_of_isDigit {c k : Char} (digit : c.isDigit = true) (other : k.isDigit = false) :
    c ≠ k := by
  intro same
  rw [same, other] at digit
  cases digit

theorem Digits.of_gives (h : Gives (someDigits atEnd cs) ds rest) :
    Digits ds ∧ cs = ds ++ rest := by
  obtain ⟨_, h⟩ := h
  cases cs with
  | nil => cases h
  | cons c cs =>
    unfold someDigits at h
    dsimp only at h
    split at h
    · next digit =>
      cases h
      refine ⟨⟨List.cons_ne_nil _ _, ?_⟩, ?_⟩
      · exact List.forall_mem_cons.mpr ⟨digit, fun _ => List.mem_takeWhile_imp⟩
      · exact congrArg (c :: ·) List.takeWhile_append_dropWhile.symm
    · cases h

/-- Digits are taken up to the first character that is none. -/
theorem Digits.gives (h : Digits ds) (atEnd : Defect) (noDigit : NoDigit rest) :
    Gives (someDigits atEnd (ds ++ rest)) ds rest := by
  obtain ⟨d, ds, rfl⟩ := List.exists_cons_of_ne_nil h.1
  obtain ⟨first, later⟩ := List.forall_mem_cons.mp h.2
  have take : (ds ++ rest).takeWhile Char.isDigit = ds := by
    rw [List.takeWhile_append_of_pos later]
    cases rest with
    | nil => exact List.append_nil _
    | cons c rest =>
      rw [List.takeWhile_cons_of_neg (Bool.not_eq_true _ ▸ noDigit c rfl), List.append_nil]
  have drop : (ds ++ rest).dropWhile Char.isDigit = rest := by
    rw [List.dropWhile_append_of_pos later]
    cases rest with
    | nil => rfl
    | cons c rest => exact List.dropWhile_cons_of_neg (Bool.not_eq_true _ ▸ noDigit c rfl)
  show Gives (if d.isDigit = true then _ else _) _ _
  rw [if_pos first]
  exact gives_ok_iff.mpr ⟨congrArg (d :: ·) take, drop⟩

theorem IsWhole.of_gives (h : Gives (integerPart atEnd cs) ds rest) :
    IsWhole ds ∧ cs = ds ++ rest := by
  obtain ⟨shorter, h⟩ := h
  cases cs with
  | nil => cases h
  | cons c cs =>
    unfold integerPart at h
    dsimp only at h
    split at h
    · next zero =>
      split at h
      · cases h
      · cases h
        refine ⟨⟨⟨List.cons_ne_nil _ _, ?_⟩, fun _ => rfl⟩, by rw [zero]; rfl⟩
        exact fun c hc => List.mem_singleton.mp hc ▸ rfl
    · next nonzero =>
      obtain ⟨digits, split⟩ := Digits.of_gives ⟨shorter, h⟩
      refine ⟨⟨digits, fun first => ?_⟩, split⟩
      obtain ⟨d, ds, rfl⟩ := List.exists_cons_of_ne_nil digits.1
      cases split
      exact absurd (Option.some.inj first) nonzero

/-- Of a number without leading zeros all digits are taken. -/
theorem IsWhole.gives (h : IsWhole ds) (atEnd : Defect) (noDigit : NoDigit rest) :
    Gives (integerPart atEnd (ds ++ rest)) ds rest := by
  obtain ⟨digits, leading⟩ := h
  have taken := digits.gives atEnd noDigit
  obtain ⟨d, ds, rfl⟩ := List.exists_cons_of_ne_nil digits.1
  rw [List.cons_append] at taken ⊢
  unfold integerPart
  dsimp only
  by_cases zero : d = '0'
  · have alone := leading (congrArg some zero)
    cases alone
    have stop : ¬ rest.head?.any Char.isDigit = true := by
      cases rest with
      | nil => exact Bool.false_ne_true
      | cons c rest => exact Bool.not_eq_true _ ▸ noDigit c rfl
    rw [if_pos rfl, List.nil_append, if_neg stop]
    exact gives_of_ok rfl
  · rw [if_neg zero]
    exact taken

theorem IsFraction.of_gives (h : GivesMaybe (fractionPart atEnd cs) ds rest) :
    ∃ f, IsFraction f ds ∧ cs = f ++ rest := by
  obtain ⟨_, h⟩ := h
  cases cs with
  | nil =>
    cases h
    exact ⟨[], .none, rfl⟩
  | cons c cs =>
    unfold fractionPart at h
    dsimp only at h
    split at h
    · next point =>
      obtain ⟨ds', t, _, read, same⟩ := exists_gives_of_bind h
      obtain ⟨digits, rfl⟩ := Digits.of_gives read
      cases same
      exact ⟨'.' :: ds', .some digits, by rw [point]; rfl⟩
    · cases h
      exact ⟨[], .none, rfl⟩

theorem IsFraction.gives (h : IsFraction f ds) (atEnd : Defect) (noDigit : NoDigit rest)
    (noPoint : rest.head? ≠ Option.some '.') :
    GivesMaybe (fractionPart atEnd (f ++ rest)) ds rest := by
  cases h with
  | none =>
    cases rest with
    | nil => exact givesMaybe_of_ok rfl
    | cons c rest => exact givesMaybe_of_ok (if_neg fun point => noPoint (congrArg _ point))
  | some digits =>
    obtain ⟨_, read⟩ := digits.gives atEnd noDigit
    rw [List.cons_append]
    unfold fractionPart
    dsimp only
    rw [if_pos rfl, read]
    exact givesMaybe_of_ok rfl

theorem IsSigned.of_gives (h : Gives (signedDigits atEnd cs) e rest) :
    ∃ w, IsSigned w e ∧ cs = w ++ rest := by
  obtain ⟨_, h⟩ := h
  cases cs with
  | nil => cases h
  | cons c cs =>
    unfold signedDigits at h
    dsimp only at h
    split at h
    · next minus =>
      obtain ⟨ds, t, _, read, same⟩ := exists_gives_of_bind h
      obtain ⟨digits, rfl⟩ := Digits.of_gives read
      cases same
      exact ⟨'-' :: ds, .minus digits, by rw [minus]; rfl⟩
    · split at h
      · next plus =>
        obtain ⟨ds, t, _, read, same⟩ := exists_gives_of_bind h
        obtain ⟨digits, rfl⟩ := Digits.of_gives read
        cases same
        exact ⟨'+' :: ds, .plus digits, by rw [plus]; rfl⟩
      · obtain ⟨ds, t, _, read, same⟩ := exists_gives_of_bind h
        obtain ⟨digits, split⟩ := Digits.of_gives read
        cases same
        exact ⟨ds, .bare digits, split⟩

theorem IsSigned.gives (h : IsSigned w e) (atEnd : Defect) (noDigit : NoDigit rest) :
    Gives (signedDigits atEnd (w ++ rest)) e rest := by
  cases h with
  | bare digits =>
    have taken := digits.gives atEnd noDigit
    obtain ⟨d, ds, rfl⟩ := List.exists_cons_of_ne_nil digits.1
    have first : d.isDigit = true := digits.2 d List.mem_cons_self
    have noMinus : d ≠ '-' := ne_of_isDigit first rfl
    have noPlus : d ≠ '+' := ne_of_isDigit first rfl
    rw [List.cons_append] at taken ⊢
    obtain ⟨_, read⟩ := taken
    unfold signedDigits
    dsimp only
    rw [if_neg noMinus, if_neg noPlus, read]
    exact gives_of_ok rfl
  | plus digits =>
    obtain ⟨_, read⟩ := digits.gives atEnd noDigit
    rw [List.cons_append]
    unfold signedDigits
    dsimp only
    rw [if_neg (by decide), if_pos rfl, read]
    exact gives_of_ok rfl
  | minus digits =>
    obtain ⟨_, read⟩ := digits.gives atEnd noDigit
    rw [List.cons_append]
    unfold signedDigits
    dsimp only
    rw [if_pos rfl, read]
    exact gives_of_ok rfl

theorem IsExponent.of_gives (h : GivesMaybe (exponentPart atEnd cs) e rest) :
    ∃ w, IsExponent w e ∧ cs = w ++ rest := by
  obtain ⟨_, h⟩ := h
  cases cs with
  | nil =>
    cases h
    exact ⟨[], .none, rfl⟩
  | cons c cs =>
    unfold exponentPart at h
    dsimp only at h
    split at h
    · next letter =>
      obtain ⟨e', t, _, read, same⟩ := exists_gives_of_bind h
      obtain ⟨w, signed, rfl⟩ := IsSigned.of_gives read
      cases same
      exact ⟨c :: w, .some letter signed, rfl⟩
    · cases h
      exact ⟨[], .none, rfl⟩

theorem IsExponent.gives (h : IsExponent w e) (atEnd : Defect) (ended : Ended rest) :
    GivesMaybe (exponentPart atEnd (w ++ rest)) e rest := by
  cases h with
  | none =>
    cases rest with
    | nil => exact givesMaybe_of_ok rfl
    | cons c rest =>
      refine givesMaybe_of_ok (if_neg ?_)
      rintro (rfl | rfl)
      · exact ended.noExponent.1 rfl
      · exact ended.noExponent.2 rfl
  | some letter signed =>
    obtain ⟨_, read⟩ := signed.gives atEnd ended.noDigit
    rw [List.cons_append]
    unfold exponentPart
    dsimp only
    rw [if_pos letter, read]
    exact givesMaybe_of_ok rfl

/-- An exponent is not taken for more of the digits before it. -/
theorem IsExponent.ended_append (h : IsExponent w e) (ended : Ended rest) :
    NoDigit (w ++ rest) ∧ (w ++ rest).head? ≠ Option.some '.' := by
  cases h with
  | none => exact ⟨ended.noDigit, ended.noPoint⟩
  | some letter _ => rcases letter with rfl | rfl <;> exact ⟨fun _ h => by cases h; rfl, by simp⟩

theorem IsFraction.noDigit_append (h : IsFraction f ds) (noDigit : NoDigit rest) :
    NoDigit (f ++ rest) := by
  cases h with
  | none => exact noDigit
  | some _ => exact fun _ h => by cases h; rfl

theorem IsMagnitude.of_gives (h : Gives (magnitude atEnd negative cs) x rest) :
    ∃ w, IsMagnitude negative w x ∧ cs = w ++ rest := by
  obtain ⟨_, h⟩ := h
  obtain ⟨whole, t, _, first, h⟩ := exists_gives_of_bind h
  obtain ⟨isWhole, rfl⟩ := IsWhole.of_gives first
  obtain ⟨fraction, t, _, second, h⟩ := exists_givesMaybe_of_bind h
  obtain ⟨f, isFraction, rfl⟩ := IsFraction.of_gives second
  obtain ⟨e, t, _, third, same⟩ := exists_givesMaybe_of_bind h
  obtain ⟨w, isExponent, rfl⟩ := IsExponent.of_gives third
  cases same
  refine ⟨_, .mk isWhole isFraction isExponent, ?_⟩
  rw [List.append_assoc, List.append_assoc]

theorem IsMagnitude.gives (h : IsMagnitude negative w x) (atEnd : Defect) (ended : Ended rest) :
    Gives (magnitude atEnd negative (w ++ rest)) x rest := by
  obtain ⟨isWhole, isFraction, isExponent⟩ := h
  obtain ⟨noDigit, noPoint⟩ := isExponent.ended_append ended
  obtain ⟨_, first⟩ := isWhole.gives atEnd (isFraction.noDigit_append noDigit)
  obtain ⟨_, second⟩ := isFraction.gives atEnd noDigit noPoint
  obtain ⟨_, third⟩ := isExponent.gives atEnd ended
  rw [List.append_assoc, List.append_assoc]
  unfold magnitude
  rw [first]
  dsimp only [bind, Except.bind]
  rw [second]
  dsimp only
  rw [third]
  exact gives_of_ok rfl

theorem IsNumber.of_gives {c : Char} (h : GivesMaybe (number atEnd c cs) x rest) :
    ∃ w, IsNumber w x ∧ c :: cs = w ++ rest := by
  obtain ⟨_, h⟩ := h
  unfold number at h
  split at h
  · next minus =>
    obtain ⟨x', t, _, read, same⟩ := exists_gives_of_bind h
    obtain ⟨w, isMagnitude, rfl⟩ := IsMagnitude.of_gives read
    cases same
    exact ⟨'-' :: w, .negative isMagnitude, by rw [minus]; rfl⟩
  · obtain ⟨x', t, _, read, same⟩ := exists_gives_of_bind h
    obtain ⟨w, isMagnitude, split⟩ := IsMagnitude.of_gives read
    cases same
    exact ⟨w, .positive isMagnitude, split⟩

theorem IsMagnitude.head_isDigit (h : IsMagnitude negative w x) :
    ∃ d w', w = d :: w' ∧ d.isDigit = true := by
  obtain ⟨⟨⟨nonempty, digits⟩, -⟩, -, -⟩ := h
  obtain ⟨d, ds, rfl⟩ := List.exists_cons_of_ne_nil nonempty
  exact ⟨d, _, rfl, digits d List.mem_cons_self⟩

/-- A number is read as it was written, as long as nothing follows that could be a part of it. -/
theorem IsNumber.gives (h : IsNumber w x) (atEnd : Defect) (ended : Ended rest) :
    ∃ c w', w = c :: w' ∧ startsNumber c = true ∧
      GivesMaybe (number atEnd c (w' ++ rest)) x rest := by
  cases h with
  | positive isMagnitude =>
    have taken := isMagnitude.gives atEnd ended
    obtain ⟨d, w', rfl, digit⟩ := isMagnitude.head_isDigit
    rw [List.cons_append] at taken
    have noSign : d ≠ '-' := ne_of_isDigit digit rfl
    refine ⟨d, w', rfl, by rw [startsNumber, digit, Bool.or_true], ?_⟩
    obtain ⟨_, read⟩ := taken
    unfold number
    rw [if_neg noSign, read]
    exact givesMaybe_of_ok rfl
  | @negative w' _ isMagnitude =>
    obtain ⟨_, read⟩ := isMagnitude.gives atEnd ended
    refine ⟨'-', w', rfl, rfl, ?_⟩
    unfold number
    rw [if_pos rfl, read]
    exact givesMaybe_of_ok rfl

end

end RtspControl.Json
