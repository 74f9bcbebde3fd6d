/-!
# Powers and rounding

Powers of two and ten, and the rounding of a quotient to the nearest whole number.

`roundDiv n d` is the natural number nearest to `n / d`, and of two equally near the
even one. Its law is `roundDiv_spec`: the distance, counted in halves of `1 / d`, is at
most one half, and a result at exactly one half is even.
-/

namespace RtspControl.Number

def twoTo (n : Nat) : Nat := Nat.pow 2 n

def tenTo (n : Nat) : Nat := Nat.pow 10 n

/-- The number nearest to `n / d`; a tie goes to the even neighbour. -/
def roundDiv (n d : Nat) : Nat :=
  let q := n / d
  let twice := 2 * (n % d)
  if twice < d then q
  else if d < twice then q + 1
  else q + q % 2

/-- The result is within half a unit of the quotient, and even when it is half a unit
away. -/
theorem roundDiv_spec (n : Nat) {d : Nat} (hd : 0 < d) :
    2 * n ≤ (2 * roundDiv n d + 1) * d ∧ (2 * roundDiv n d - 1) * d ≤ 2 * n ∧
      (2 * n = (2 * roundDiv n d + 1) * d ∨ 2 * n + d = 2 * roundDiv n d * d →
        roundDiv n d % 2 = 0) := by
  have hdiv := Nat.div_add_mod n d
  have hmod := Nat.mod_lt n hd
  have hq : d * (n / d) = (n / d) * d := Nat.mul_comm _ _
  unfold roundDiv
  generalize n / d = q at *
  generalize n % d = r at *
  -- Every product is brought to the form `_ * d`, over which the rest is linear.
  have expand : ∀ k : Nat, (2 * k + 1) * d = 2 * (k * d) + d := fun k => by
    rw [Nat.add_mul, Nat.mul_assoc, Nat.one_mul]
  have below : ∀ k : Nat, (2 * k - 1) * d = 2 * (k * d) - d := fun k => by
    rw [Nat.sub_mul, Nat.mul_assoc, Nat.one_mul]
  have twice : ∀ k : Nat, 2 * k * d = 2 * (k * d) := fun k => Nat.mul_assoc _ _ _
  have step : (q + 1) * d = q * d + d := Nat.succ_mul q d
  dsimp only
  split
  · rw [expand, below, twice]
    omega
  · split
    · rw [expand, below, twice, step]
      omega
    · rcases Nat.mod_two_eq_zero_or_one q with h | h
      · rw [h, expand, below, twice, Nat.add_zero]
        omega
      · rw [h, expand, below, twice, step]
        omega

end RtspControl.Number
