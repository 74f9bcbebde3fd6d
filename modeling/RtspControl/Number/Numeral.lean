import RtspControl.Number.Binary64

/-!
# Numerals read as doubles

A numeral is read quickly, and as precisely as that allows. Its digits make up a
significand as long as that fits in 64 bits; digits in front of the point that are left
over count for the exponent only, others for nothing. The significand is rounded to a
double and then multiplied by a power of ten, or divided by one, which is a double as
well. Each step rounds.

Where the digits and the exponent are small nothing but the last step rounds, so the
result is the nearest double. Elsewhere the errors add up: the result may be a neighbour
of the nearest double, and a numeral close to the largest double may be taken to exceed it.
-/

namespace RtspControl

/-- A decimal number: an integer times a power of ten. -/
structure Decimal where
  negative : Bool
  digits : Nat
  exponent : Int
  deriving DecidableEq, Repr, Inhabited

namespace Decimal

open Binary64

/-- The largest power of ten that is a double. -/
def lastTen : Nat := 308

/-- A power of ten up to the last one that is a double. -/
def tens (k : Nat) : Nat := ofNat (Number.tenTo k)

/-- Divides by a power of ten, so many times by the last one before the rest. -/
def reduce : (times rest f : Nat) → Nat
  | 0, rest, f => divided f (tens rest)
  | times + 1, rest, f => if f = 0 then f else reduce times rest (divided f (tens lastTen))

/-- Multiplies a magnitude by a power of ten. -/
def scale (f : Nat) : Int → Nat
  | .ofNat k =>
    if k ≤ lastTen then times f (tens k) else if f = 0 then f else infinityBits
  | .negSucc k => reduce (k / lastTen) (k % lastTen + 1) f

def double? (x : Decimal) : Option Binary64 :=
  signed? x.negative (scale (ofNat x.digits) x.exponent)

end Decimal

/-- A number as it is written: its digits in front of the point and behind it, and its
exponent. -/
structure Numeral where
  negative : Bool
  whole : List Char
  fraction : List Char
  exponent : Int
  deriving DecidableEq, Repr, Inhabited

namespace Numeral

def digit (d : Char) : Nat := d.toNat - '0'.toNat

/-- The number of which these digits are written behind those of `n`. -/
def append (n : Nat) (ds : List Char) : Nat := ds.foldl (fun n d => 10 * n + digit d) n

/-- The number that a numeral stands for. -/
def value (n : Numeral) : Decimal :=
  ⟨n.negative, append 0 (n.whole ++ n.fraction), n.exponent - n.fraction.length⟩

/-- Appends digits as long as the number fits in 64 bits; gives how many are left, too. -/
def absorb (n : Nat) : List Char → Nat × Nat
  | [] => (n, 0)
  | d :: ds =>
    if 10 * n + digit d < UInt64.size then absorb (10 * n + digit d) ds
    else (n, ds.length + 1)

/-- What is kept of the number that a numeral stands for. Digits behind the point are still
added where one in front of it did not fit, if they do. -/
def kept (n : Numeral) : Decimal :=
  let (m, dropped) := absorb 0 n.whole
  let (m', ignored) := absorb m n.fraction
  ⟨n.negative, m', n.exponent + dropped - (n.fraction.length - ignored)⟩

/-- The double that a numeral is read as; none if it is too large. -/
def double? (n : Numeral) : Option Binary64 := n.kept.double?

end Numeral

end RtspControl
