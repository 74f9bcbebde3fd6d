import RtspControl.Json.Reader
import RtspControl.Number.Numeral

/-!
# Numbers of a JSON text

A number is a minus sign if it is negative, an integer part without leading zeros, then
a fraction and an exponent if it has them. It is kept as it is written.

A text that ends inside a number is truncated where the value of the number is wanted,
and malformed where the number is only skipped, so the defect to report at the end of
the text is a parameter.
-/

namespace RtspControl.Json

/-! ### Digits -/

/-- The number that a run of digits stands for. -/
def digitsValue (ds : List Char) : Nat := Numeral.append 0 ds

theorem length_dropWhile_isDigit_le : ∀ cs : List Char,
    (cs.dropWhile Char.isDigit).length ≤ cs.length
  | [] => Nat.le_refl _
  | c :: cs => by
    rw [List.dropWhile_cons]
    split
    · exact Nat.le_succ_of_le (length_dropWhile_isDigit_le cs)
    · exact Nat.le_refl _

/-- What is left after a run of digits, which may be empty. -/
def afterDigits (cs : List Char) : Remainder cs :=
  ⟨cs.dropWhile Char.isDigit, length_dropWhile_isDigit_le cs⟩

/-- Takes a run of one digit or more. -/
def someDigits (atEnd : Defect) : Reader (List Char)
  | [] => .error atEnd
  | c :: cs =>
    if c.isDigit then
      .ok (c :: cs.takeWhile Char.isDigit, (Rest.tail c cs).thenMaybe (afterDigits cs))
    else .error .malformed

/-! ### Parts of a number -/

/-- Takes the integer part: one zero, or digits of which the first is none. -/
def integerPart (atEnd : Defect) : Reader (List Char)
  | [] => .error atEnd
  | c :: cs =>
    if c = '0' then
      -- No digit follows a leading zero.
      if cs.head?.any Char.isDigit then .error .malformed
      else .ok (['0'], .tail c cs)
    else someDigits atEnd (c :: cs)

def fractionPart (atEnd : Defect) : (cs : List Char) → Except Defect (List Char × Remainder cs)
  | [] => .ok ([], .all [])
  | c :: cs =>
    if c = '.' then do
      let (ds, r) ← someDigits atEnd cs
      .ok (ds, r.toRemainder.ofTail)
    else .ok ([], .all (c :: cs))

/-- Takes a sign, if there is one, and digits. -/
def signedDigits (atEnd : Defect) : Reader Int
  | [] => .error atEnd
  | c :: cs =>
    if c = '-' then do
      let (ds, r) ← someDigits atEnd cs
      .ok (-Int.ofNat (digitsValue ds), r.ofTail)
    else if c = '+' then do
      let (ds, r) ← someDigits atEnd cs
      .ok (Int.ofNat (digitsValue ds), r.ofTail)
    else do
      let (ds, r) ← someDigits atEnd (c :: cs)
      .ok (Int.ofNat (digitsValue ds), r)

def exponentPart (atEnd : Defect) : (cs : List Char) → Except Defect (Int × Remainder cs)
  | [] => .ok (0, .all [])
  | c :: cs =>
    if c = 'e' ∨ c = 'E' then do
      let (e, r) ← signedDigits atEnd cs
      .ok (e, r.toRemainder.ofTail)
    else .ok (0, .all (c :: cs))

/-! ### Numerals -/

/-- Takes a number without a sign of its own. -/
def magnitude (atEnd : Defect) (negative : Bool) : Reader Numeral := fun cs => do
  let (whole, r₁) ← integerPart atEnd cs
  let (fraction, r₂) ← fractionPart atEnd r₁.text
  let (exponent, r₃) ← exponentPart atEnd r₂.text
  .ok (⟨negative, whole, fraction, exponent⟩, (r₁.thenMaybe r₂).thenMaybe r₃)

def startsNumber (c : Char) : Bool := c == '-' || c.isDigit

/-- Takes a number that starts with `c`. -/
def number (atEnd : Defect) (c : Char) (cs : List Char) :
    Except Defect (Numeral × Remainder cs) := do
  if c = '-' then do
    let (x, r) ← magnitude atEnd true cs
    .ok (x, r.toRemainder)
  else do
    let (x, r) ← magnitude atEnd false (c :: cs)
    .ok (x, r.toTail)

end RtspControl.Json
