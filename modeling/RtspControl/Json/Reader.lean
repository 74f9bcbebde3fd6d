import RtspControl.Json.Defect

/-!
# Reading from the front of a text

A reader takes something off the front of a text, or says what is wrong there. What is
left is shorter than the text it was given, and carries the proof of that, so readers
can be repeated without further thought about whether they come to an end.
-/

namespace RtspControl.Json

/-- A text shorter than `cs`. -/
@[ext] structure Rest (cs : List Char) where
  text : List Char
  shorter : text.length < cs.length

/-- A text no longer than `cs`. -/
@[ext] structure Remainder (cs : List Char) where
  text : List Char
  notLonger : text.length ≤ cs.length

/-- Takes an `α` off the front of a text. -/
abbrev Reader (α : Type) := (cs : List Char) → Except Defect (α × Rest cs)

namespace Rest

variable {c : Char} {cs : List Char}

/-- What follows the first character. -/
def tail (c : Char) (cs : List Char) : Rest (c :: cs) := ⟨cs, Nat.lt_succ_self _⟩

/-- What is left of the tail is left of the whole. -/
def ofTail (r : Rest cs) : Rest (c :: cs) := ⟨r.text, Nat.lt_succ_of_lt r.shorter⟩

/-- What is left of the whole is no longer than the tail. -/
def toTail (r : Rest (c :: cs)) : Remainder cs := ⟨r.text, Nat.le_of_lt_succ r.shorter⟩

def trans (r : Rest cs) (s : Rest r.text) : Rest cs :=
  ⟨s.text, Nat.lt_trans s.shorter r.shorter⟩

def toRemainder (r : Rest cs) : Remainder cs := ⟨r.text, Nat.le_of_lt r.shorter⟩

theorem length_le (r : Rest cs) : r.text.length ≤ cs.length := Nat.le_of_lt r.shorter

/-- What is left after a part that may be empty. -/
def thenMaybe (r : Rest cs) (s : Remainder r.text) : Rest cs :=
  ⟨s.text, Nat.lt_of_le_of_lt s.notLonger r.shorter⟩

end Rest

/-- The whole text, when nothing is taken off it. -/
def Remainder.all (cs : List Char) : Remainder cs := ⟨cs, Nat.le_refl _⟩

/-- What is left of the tail is left of the whole. -/
def Remainder.ofTail {c : Char} {cs : List Char} (r : Remainder cs) : Remainder (c :: cs) :=
  ⟨r.text, Nat.le_succ_of_le r.notLonger⟩

/-! ### White space -/

/-- The four blank characters of the grammar. -/
def isBlank (c : Char) : Bool := c == ' ' || c == '\n' || c == '\t' || c == '\r'

def skipBlanks (cs : List Char) : List Char := cs.dropWhile isBlank

theorem length_skipBlanks_le : ∀ cs : List Char, (skipBlanks cs).length ≤ cs.length
  | [] => Nat.le_refl _
  | c :: cs => by
    unfold skipBlanks
    rw [List.dropWhile_cons]
    split
    · exact Nat.le_succ_of_le (length_skipBlanks_le cs)
    · exact Nat.le_refl _

/-- What follows the first character that is not blank is shorter than the text. -/
theorem length_lt_of_skipBlanks {cs : List Char} {c : Char} {r : List Char}
    (h : skipBlanks cs = c :: r) : r.length < cs.length := by
  have := length_skipBlanks_le cs
  rw [h] at this
  exact this

/-- The first character that is not blank, with what follows it. -/
def firstMark (cs : List Char) : Except Defect (Char × Rest cs) :=
  match h : skipBlanks cs with
  | [] => .error .truncated
  | c :: r => .ok (c, ⟨r, length_lt_of_skipBlanks h⟩)

/-! ### Fixed text -/

/-- Takes one given character, after any blanks. -/
def mark (wanted : Char) (cs : List Char) : Except Defect (Rest cs) := do
  let (c, r) ← firstMark cs
  if c = wanted then .ok r else .error .malformed

def word : List Char → (cs : List Char) → Except Defect (Remainder cs)
  | [], cs => .ok (.all cs)
  | _ :: _, [] => .error .truncated
  | w :: ws, c :: cs =>
    if c = w then do
      let r ← word ws cs
      .ok r.ofTail
    else .error .malformed

/-- The literal names of the grammar, without the letter that announces each. -/
def literalTail? (c : Char) : Option (List Char) :=
  if c = 'n' then some ['u', 'l', 'l']
  else if c = 't' then some ['r', 'u', 'e']
  else if c = 'f' then some ['a', 'l', 's', 'e']
  else none

end RtspControl.Json
