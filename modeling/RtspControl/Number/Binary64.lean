import RtspControl.Number.Rounding

/-!
# Double precision numbers

A double precision number is its 64 bits: a sign, eleven bits of exponent and fifty-two
of fraction (IEEE 754 binary64). Every finite one is a whole multiple of `2 ^ -1074`, so
its magnitude is kept as a natural number of these units and all arithmetic on it is
exact.

Arithmetic is on magnitudes by their bits, and rounds the exact result to the nearest
one, a tie going to the even fraction. Consecutive bit patterns are consecutive
magnitudes, across the borders of the exponents too, so rounding up from the largest
fraction needs no case of its own, and neither do the numbers below the least normal one.
-/

namespace RtspControl

/-- A double precision number, by its bits. -/
structure Binary64 where
  bits : UInt64
  deriving DecidableEq, Repr, Inhabited

namespace Binary64

open Number (twoTo)

/-- What the bits of a double stand for; magnitudes are in units of `2 ^ -1074`. -/
inductive Meaning where
  | finite (negative : Bool) (units : Nat)
  | infinite (negative : Bool)
  | notANumber
  deriving DecidableEq, Repr

def zero : Binary64 := ⟨0⟩

/-- How many units make one. -/
def one : Nat := twoTo 1074

def infinityBits : Nat := 2047 * twoTo 52

/-- The magnitude of the finite double with these bits, the sign bit left out. -/
def unitsOfBits (magnitude : Nat) : Nat :=
  let field := magnitude / twoTo 52
  let fraction := magnitude % twoTo 52
  if field = 0 then fraction else (twoTo 52 + fraction) * twoTo (field - 1)

def meaning (x : Binary64) : Meaning :=
  let negative := decide (twoTo 63 ≤ x.bits.toNat)
  let magnitude := x.bits.toNat % twoTo 63
  if magnitude < infinityBits then .finite negative (unitsOfBits magnitude)
  else if magnitude = infinityBits then .infinite negative
  else .notANumber

/-- The bits of the magnitude nearest to `n / d` units; infinity, or more, if that is too
large. -/
def nearestBits (n d : Nat) : Nat :=
  -- The fraction keeps 53 bits of the quotient; fewer where there are no more.
  let shift := Nat.log2 (n / d) - 52
  shift * twoTo 52 + Number.roundDiv n (d * twoTo shift)

/-! ### Arithmetic -/

def ofNat (n : Nat) : Nat := nearestBits (n * one) 1

def times (a b : Nat) : Nat := nearestBits (unitsOfBits a * unitsOfBits b) one

def divided (a b : Nat) : Nat := nearestBits (unitsOfBits a * one) (unitsOfBits b)

/-- The finite double of a sign and the bits of a magnitude; none where these are too large. -/
def signed? (negative : Bool) (magnitude : Nat) : Option Binary64 :=
  if magnitude < infinityBits then
    some ⟨UInt64.ofNat (magnitude + if negative then twoTo 63 else 0)⟩
  else none

end Binary64

end RtspControl

