import RtspControl.Number.Binary64
import Mathlib.Algebra.Order.Field.Rat
import Mathlib.Data.Rat.Cast.Order
import Mathlib.Algebra.Order.AbsoluteValue.Basic
import Mathlib.Algebra.Order.Field.Power
import Mathlib.Tactic.Linarith
import Mathlib.Tactic.Ring
import Mathlib.Tactic.NormNum
import Mathlib.Tactic.FieldSimp
import Mathlib.Tactic.Positivity

/-!
# The nearest double

The magnitude of a double is a whole number of units, and consecutive bit patterns are consecutive
magnitudes: between two of them lies a power of two that depends on the exponent field, and patterns
go on in this way beyond the doubles. `Nearest t m` says that of all patterns `m` is the one whose
magnitude is nearest to `t` units, and that its last bit is zero if another one is as near.

`nearest_nearestBits` shows this of the rounding, for any quotient. So every operation on magnitudes
gives the pattern nearest to what it would be on rational numbers (`Rounded`). A number that a
pattern stands for itself is not changed by this (`Rounded.worth_eq`), and a whole number of up to
53 bits is such a number at any scale.
-/

namespace RtspControl

theorem Number.cast_twoTo (n : Nat) : (Number.twoTo n : ℚ) = 2 ^ n := Nat.cast_pow 2 n

namespace Binary64

open Number (twoTo cast_twoTo)

/-! ## Magnitudes of bit patterns -/

/-- The units of a pattern by a scaled significand. The largest significand is there twice, since
it is the least one of the next exponent. -/
theorem unitsOfBits_scaled {s r : Nat} (bound : r ≤ 2 ^ 53) (normal : s = 0 ∨ 2 ^ 52 ≤ r) :
    unitsOfBits (s * 2 ^ 52 + r) = r * 2 ^ s := by
  have two : twoTo 52 = 2 ^ 52 := rfl
  have step : 2 ^ (s + 1) = 2 * 2 ^ s := by rw [Nat.pow_succ, Nat.mul_comm]
  unfold unitsOfBits
  rw [two]
  rcases Nat.lt_or_ge r (2 ^ 52) with small | large
  · -- A number without an implicit bit.
    obtain rfl : s = 0 := normal.resolve_right (by omega)
    have field : (0 * 2 ^ 52 + r) / 2 ^ 52 = 0 := by omega
    have fraction : (0 * 2 ^ 52 + r) % 2 ^ 52 = r := by omega
    rw [field, if_pos rfl, fraction, Nat.pow_zero, Nat.mul_one]
  rcases Nat.lt_or_ge r (2 ^ 53) with inside | carried
  · have field : (s * 2 ^ 52 + r) / 2 ^ 52 = s + 1 := by omega
    have fraction : (s * 2 ^ 52 + r) % 2 ^ 52 = r - 2 ^ 52 := by omega
    rw [field, if_neg (by omega), fraction, Nat.add_sub_cancel, Nat.add_sub_cancel' large]
    rfl
  · obtain rfl : r = 2 ^ 53 := by omega
    have field : (s * 2 ^ 52 + 2 ^ 53) / 2 ^ 52 = s + 2 := by omega
    have fraction : (s * 2 ^ 52 + 2 ^ 53) % 2 ^ 52 = 0 := by omega
    rw [field, if_neg (by omega), fraction]
    show (2 ^ 52 + 0) * 2 ^ (s + 1) = _
    rw [step]
    omega

theorem exists_scaled (m : Nat) :
    ∃ s r, m = s * 2 ^ 52 + r ∧ r < 2 ^ 53 ∧ (s = 0 ∨ 2 ^ 52 ≤ r) := by
  rcases Nat.lt_or_ge m (2 ^ 52) with small | large
  · exact ⟨0, m, by omega, by omega, Or.inl rfl⟩
  · exact ⟨m / 2 ^ 52 - 1, 2 ^ 52 + m % 2 ^ 52, by omega, by omega, by omega⟩

theorem unitsOfBits_lt_succ (m : Nat) : unitsOfBits m < unitsOfBits (m + 1) := by
  obtain ⟨s, r, rfl, bound, normal⟩ := exists_scaled m
  rw [Nat.add_assoc, unitsOfBits_scaled (by omega) normal, unitsOfBits_scaled bound (by omega)]
  exact (Nat.mul_lt_mul_right (Nat.two_pow_pos s)).mpr (Nat.lt_succ_self r)

theorem unitsOfBits_strictMono : StrictMono unitsOfBits :=
  strictMono_nat_of_lt_succ unitsOfBits_lt_succ

section

variable {s r k : Nat}

/-- The magnitudes above a scaled one are at least one step away. -/
theorem unitsOfBits_above (bound : r ≤ 2 ^ 53) (normal : s = 0 ∨ 2 ^ 52 ≤ r)
    (above : s * 2 ^ 52 + r < k) : (r + 1) * 2 ^ s ≤ unitsOfBits k := by
  have next : s * 2 ^ 52 + r + 1 ≤ k := above
  refine Nat.le_trans ?_ (unitsOfBits_strictMono.monotone next)
  rcases Nat.lt_or_ge r (2 ^ 53) with inside | carried
  · rw [Nat.add_assoc, unitsOfBits_scaled (by omega) (by omega)]
  · -- Steps are twice as long from here on.
    obtain rfl : r = 2 ^ 53 := by omega
    have carry : s * 2 ^ 52 + 2 ^ 53 + 1 = (s + 1) * 2 ^ 52 + (2 ^ 52 + 1) := by omega
    rw [carry, unitsOfBits_scaled (by omega) (by omega), Nat.pow_succ]
    have := Nat.two_pow_pos s
    omega

/-- So are those below, unless the exponent changes there. -/
theorem unitsOfBits_below (bound : r ≤ 2 ^ 53) (normal : s = 0 ∨ 2 ^ 52 < r)
    (below : k < s * 2 ^ 52 + r) : unitsOfBits k + 2 ^ s ≤ r * 2 ^ s := by
  have positive : 0 < r := by omega
  have last : k ≤ s * 2 ^ 52 + (r - 1) := by omega
  have scaled : unitsOfBits (s * 2 ^ 52 + (r - 1)) = (r - 1) * 2 ^ s :=
    unitsOfBits_scaled (by omega) (by omega)
  have step : r * 2 ^ s = (r - 1) * 2 ^ s + 2 ^ s := by
    rw [← Nat.succ_mul, Nat.succ_eq_add_one, Nat.sub_add_cancel positive]
  have := unitsOfBits_strictMono.monotone last
  omega

end

/-! ## The nearest pattern -/

/-- No pattern has a magnitude nearer to `t` units than `m` has, and if there is one as near, `m` is
the one that is even. -/
structure Nearest (t : ℚ) (m : Nat) : Prop where
  nearest : ∀ k, |t - unitsOfBits m| ≤ |t - unitsOfBits k|
  even : ∀ k, k ≠ m → |t - unitsOfBits k| = |t - unitsOfBits m| → m % 2 = 0

theorem units_lt_units {m k : Nat} (h : m < k) : (unitsOfBits m : ℚ) < unitsOfBits k :=
  Nat.cast_lt.mpr (unitsOfBits_strictMono h)

/-- Something nearer lies between two patterns that are not neighbours. -/
theorem exists_nearer {t : ℚ} {m k : Nat} (apart : m + 1 < k)
    (same : |t - unitsOfBits m| = |t - unitsOfBits k|) :
    |t - unitsOfBits (m + 1)| < |t - unitsOfBits m| := by
  have first := units_lt_units (Nat.lt_succ_self m)
  have second := units_lt_units apart
  rcases abs_eq_abs.mp same with same | same
  · linarith
  · have right : 0 < t - unitsOfBits m := by linarith
    rw [abs_of_pos right, abs_lt]
    constructor <;> linarith

theorem Nearest.not_lt {t : ℚ} {m k : Nat} (h : Nearest t m) (h' : Nearest t k) : ¬ m < k := by
  intro less
  have same : |t - unitsOfBits m| = |t - unitsOfBits k| :=
    le_antisymm (h.nearest k) (h'.nearest m)
  have even := h.even k (Nat.ne_of_gt less) same.symm
  have even' := h'.even m (Nat.ne_of_lt less) same
  exact absurd (h.nearest (m + 1)) (not_le.mpr (exists_nearer (by omega) same))

theorem Nearest.unique {t : ℚ} {m k : Nat} (h : Nearest t m) (h' : Nearest t k) : m = k :=
  Nat.le_antisymm (Nat.not_lt.mp (h'.not_lt h)) (Nat.not_lt.mp (h.not_lt h'))

/-! ## Rounding a quotient -/

/-- The rounded quotient is at most half a step away, and even if it is as far as that. -/
structure Halfway (t : ℚ) (r : Nat) (step : ℚ) : Prop where
  above : t ≤ r * step + step / 2
  below : r * step - step / 2 ≤ t
  even : t = r * step + step / 2 ∨ t = r * step - step / 2 → r % 2 = 0

namespace Halfway

variable {t step u : ℚ} {r : Nat}

theorem abs_le (h : Halfway t r step) : |t - r * step| ≤ step / 2 := by
  rw [abs_sub_le_iff]
  constructor
  · linarith [h.above]
  · linarith [h.below]

/-- What is a whole step above is no nearer. -/
theorem of_above (h : Halfway t r step) (above : (r + 1) * step ≤ u) :
    |t - r * step| ≤ |t - u| ∧ (|t - u| = |t - r * step| → r % 2 = 0) := by
  have near := h.abs_le
  have half := h.above
  have far : step / 2 ≤ |t - u| := by
    rw [abs_sub_comm]
    exact le_trans (by linarith) (le_abs_self _)
  refine ⟨near.trans far, fun tie => h.even (Or.inl ?_)⟩
  -- Both distances are half a step then.
  have both : |t - u| = step / 2 := le_antisymm (tie ▸ near) far
  have apart := neg_abs_le (t - u)
  linarith

theorem of_below (h : Halfway t r step) (below : u + step ≤ r * step) :
    |t - r * step| ≤ |t - u| ∧ (|t - u| = |t - r * step| → r % 2 = 0) := by
  have near := h.abs_le
  have half := h.below
  have far : step / 2 ≤ |t - u| := le_trans (by linarith) (le_abs_self _)
  refine ⟨near.trans far, fun tie => h.even (Or.inr ?_)⟩
  have both : |t - u| = step / 2 := le_antisymm (tie ▸ near) far
  have apart := le_abs_self (t - u)
  linarith

end Halfway

theorem halfway_roundDiv (n : Nat) {d : Nat} (hd : 0 < d) (s : Nat) :
    Halfway (n / d : ℚ) (Number.roundDiv n (d * twoTo s)) (2 ^ s) := by
  have hs : 0 < d * twoTo s := Nat.mul_pos hd (Nat.two_pow_pos s)
  obtain ⟨above, below, even⟩ := Number.roundDiv_spec n hs
  generalize Number.roundDiv n (d * twoTo s) = r at above below even ⊢
  have two := cast_twoTo s
  have dq : (0 : ℚ) < d := Nat.cast_pos.mpr hd
  have quotient : (n : ℚ) = n / d * d := (div_mul_cancel₀ _ dq.ne').symm
  have nonneg : (0 : ℚ) ≤ n / d := by positivity
  have positive : (0 : ℚ) < 2 ^ s := by positivity
  -- Everything is compared in units of `1 / d`.
  generalize (n / d : ℚ) = t at quotient nonneg ⊢
  generalize (2 ^ s : ℚ) = step at two positive ⊢
  constructor
  · have cast : 2 * (n : ℚ) ≤ (2 * r + 1) * (d * twoTo s : Nat) := by exact_mod_cast above
    rw [Nat.cast_mul, two, quotient] at cast
    refine le_of_mul_le_mul_right ?_ dq
    linarith
  · rcases Nat.eq_zero_or_pos r with rfl | large
    · rw [Nat.cast_zero]
      linarith
    · have cast : ((2 * r - 1 : Nat) : ℚ) * (d * twoTo s : Nat) ≤ 2 * n := by exact_mod_cast below
      rw [Nat.cast_sub (by omega)] at cast
      push_cast at cast
      rw [two, quotient] at cast
      refine le_of_mul_le_mul_right ?_ dq
      linarith
  · intro tie
    refine even ?_
    rcases tie with rfl | rfl
    · refine Or.inl (Nat.cast_injective (R := ℚ) ?_)
      push_cast
      rw [two, quotient]
      ring
    · refine Or.inr (Nat.cast_injective (R := ℚ) ?_)
      push_cast
      rw [two, quotient]
      ring

theorem roundDiv_bounds (n d : Nat) :
    n / d ≤ Number.roundDiv n d ∧ Number.roundDiv n d ≤ n / d + 1 := by
  unfold Number.roundDiv
  dsimp only
  split
  · omega
  · split <;> omega

/-- With the step that the rounding takes, 53 bits of the quotient are left, or fewer if there are
no more. -/
theorem shifted_bounds (n : Nat) {d s : Nat} (hs : s = Nat.log2 (n / d) - 52) :
    n / (d * twoTo s) < 2 ^ 53 ∧ (s = 0 ∨ 2 ^ 52 ≤ n / (d * twoTo s)) := by
  have two : twoTo s = 2 ^ s := rfl
  rw [two, ← Nat.div_div_eq_div_mul]
  generalize n / d = q at hs ⊢
  have upper := Nat.lt_log2_self (n := q)
  constructor
  · rw [Nat.div_lt_iff_lt_mul (Nat.two_pow_pos s), ← Nat.pow_add]
    exact Nat.lt_of_lt_of_le upper (Nat.pow_le_pow_right (by decide) (by omega))
  · refine (Nat.eq_zero_or_pos s).imp_right fun positive => ?_
    rw [Nat.le_div_iff_mul_le (Nat.two_pow_pos s), ← Nat.pow_add]
    have nonzero : q ≠ 0 := by
      rintro rfl
      rw [Nat.log2_zero] at hs
      omega
    have exponent : 52 + s = Nat.log2 q := by omega
    rw [exponent]
    exact Nat.log2_self_le nonzero

/-- The pattern to which a quotient is rounded is the nearest one. -/
theorem nearest_nearestBits (n : Nat) {d : Nat} (hd : 0 < d) :
    Nearest (n / d : ℚ) (nearestBits n d) := by
  obtain ⟨s, hs⟩ : ∃ s, s = Nat.log2 (n / d) - 52 := ⟨_, rfl⟩
  have bits : nearestBits n d = s * 2 ^ 52 + Number.roundDiv n (d * twoTo s) := by
    rw [hs]
    rfl
  obtain ⟨upper, lower⟩ := shifted_bounds n hs
  obtain ⟨least, most⟩ := roundDiv_bounds n (d * twoTo s)
  have halfway := halfway_roundDiv n hd s
  have floor : ((n / (d * twoTo s) : Nat) : ℚ) * 2 ^ s ≤ n / d := by
    rw [le_div_iff₀ (Nat.cast_pos.mpr hd), mul_assoc, mul_comm (2 ^ s : ℚ)]
    exact_mod_cast Nat.div_mul_le_self n (d * 2 ^ s)
  rw [bits]
  generalize Number.roundDiv n (d * twoTo s) = r at *
  generalize n / (d * twoTo s) = q at *
  have units : (unitsOfBits (s * 2 ^ 52 + r) : ℚ) = r * 2 ^ s := by
    rw [unitsOfBits_scaled (by omega) (by omega)]
    push_cast
    rfl
  have others : ∀ k, k ≠ s * 2 ^ 52 + r →
      |(n / d : ℚ) - r * 2 ^ s| ≤ |(n / d : ℚ) - unitsOfBits k| ∧
        (|(n / d : ℚ) - unitsOfBits k| = |(n / d : ℚ) - r * 2 ^ s| → r % 2 = 0) := by
    intro k different
    rcases Nat.lt_or_gt_of_ne different with below | above
    · by_cases normal : s = 0 ∨ 2 ^ 52 < r
      · exact halfway.of_below (by exact_mod_cast unitsOfBits_below (by omega) normal below)
      · -- The quotient is not below the least significand, so all that is below is further away.
        obtain rfl : r = q := by omega
        have less : (unitsOfBits k : ℚ) < r * 2 ^ s := units ▸ units_lt_units below
        rw [abs_of_nonneg (by linarith), abs_of_nonneg (by linarith)]
        exact ⟨by linarith, fun tie => absurd tie (by linarith)⟩
    · exact halfway.of_above (by exact_mod_cast unitsOfBits_above (by omega) (by omega) above)
  constructor
  · intro k
    by_cases same : k = s * 2 ^ 52 + r
    · rw [same]
    · rw [units]
      exact (others k same).1
  · intro k different tie
    rw [units] at tie
    have := (others k different).2 tie
    omega

/-! ## Exact numbers -/

theorem cast_one : (one : ℚ) = 2 ^ 1074 := cast_twoTo 1074

theorem cast_one_pos : (0 : ℚ) < one := by
  rw [cast_one]
  positivity

/-- The number that a pattern stands for. -/
def worth (m : Nat) : ℚ := unitsOfBits m / one

/-- A number of units is rounded to itself if there is a pattern of so many units. -/
theorem Nearest.units_eq {k m : Nat} (h : Nearest (unitsOfBits k : ℚ) m) :
    unitsOfBits m = unitsOfBits k := by
  have near := h.nearest k
  rw [sub_self, abs_zero] at near
  exact (Nat.cast_injective (sub_eq_zero.mp (abs_nonpos_iff.mp near))).symm

/-- A small significand may stand at any scale; it is shifted to the left as far as it goes. -/
theorem exists_units_eq (s : Nat) {r : Nat} (bound : r ≤ 2 ^ 53) :
    ∃ m, unitsOfBits m = r * 2 ^ s := by
  induction s generalizing r with
  | zero => exact ⟨_, unitsOfBits_scaled bound (.inl rfl)⟩
  | succ s ih =>
    rcases Nat.lt_or_ge r (2 ^ 52) with small | normal
    · obtain ⟨m, units⟩ := ih (r := r * 2) (by omega)
      exact ⟨m, by rw [units, Nat.pow_succ', Nat.mul_assoc]⟩
    · exact ⟨_, unitsOfBits_scaled bound (.inr normal)⟩

/-! ## Rounded numbers -/

/-- The pattern that is nearest to a number. -/
def Rounded (q : ℚ) (m : Nat) : Prop := Nearest (q * one) m

theorem Rounded.unique {q : ℚ} {m k : Nat} (h : Rounded q m) (h' : Rounded q k) : m = k :=
  Nearest.unique h h'

/-- A whole number of at most 53 bits, twice or half as large any number of times, is exact. -/
theorem Rounded.worth_eq {r j m : Nat} (h : Rounded (r * 2 ^ j) m) (bound : r ≤ 2 ^ 53) :
    worth m = r * 2 ^ j := by
  obtain ⟨k, units⟩ := exists_units_eq (j + 1074) bound
  have cast : (unitsOfBits k : ℚ) = r * 2 ^ j * one := by
    rw [units, cast_one, mul_assoc, ← pow_add]
    push_cast
    rfl
  have same : (unitsOfBits m : ℚ) = r * 2 ^ j * one := by
    rw [Nearest.units_eq (k := k) (by rw [cast]; exact h), cast]
  rw [worth, same, mul_div_cancel_right₀ _ cast_one_pos.ne']

/-- Nothing from one on is rounded to zero. -/
theorem Rounded.pos {q : ℚ} {m : Nat} (h : Rounded q m) (large : 1 ≤ q) : 0 < m := by
  refine Nat.pos_of_ne_zero fun zero => ?_
  subst zero
  have units : (1 : ℚ) ≤ q * one :=
    one_le_mul_of_one_le_of_one_le large (Nat.one_le_cast.mpr (Nat.cast_pos.mp cast_one_pos))
  have near := h.nearest 1
  have zero : unitsOfBits 0 = 0 := rfl
  have unit : unitsOfBits 1 = 1 := rfl
  rw [zero, unit, Nat.cast_zero, Nat.cast_one, sub_zero, abs_of_nonneg (by linarith),
    abs_of_nonneg (by linarith)] at near
  linarith

theorem rounded_ofNat (n : Nat) : Rounded n (ofNat n) := by
  have nearest := nearest_nearestBits (n * one) Nat.one_pos
  rw [Nat.cast_one, div_one, Nat.cast_mul] at nearest
  exact nearest

theorem rounded_times (a b : Nat) : Rounded (worth a * worth b) (times a b) := by
  have positive := cast_one_pos
  have nearest := nearest_nearestBits (unitsOfBits a * unitsOfBits b) (Nat.cast_pos.mp positive)
  have exact : worth a * worth b * one = ((unitsOfBits a * unitsOfBits b : Nat) : ℚ) / one := by
    unfold worth
    generalize (one : ℚ) = unit at positive ⊢
    rw [Nat.cast_mul]
    field_simp
  rw [Rounded, exact]
  exact nearest

theorem rounded_divided (a : Nat) {b : Nat} (nonzero : 0 < b) :
    Rounded (worth a / worth b) (divided a b) := by
  have positive := cast_one_pos
  have units : 0 < unitsOfBits b := unitsOfBits_strictMono nonzero
  have nearest := nearest_nearestBits (unitsOfBits a * one) units
  have exact : worth a / worth b * one = ((unitsOfBits a * one : Nat) : ℚ) / unitsOfBits b := by
    have : (0 : ℚ) < unitsOfBits b := Nat.cast_pos.mpr units
    unfold worth
    rw [Nat.cast_mul]
    generalize (one : ℚ) = unit at positive ⊢
    field_simp
  rw [Rounded, exact]
  exact nearest

/-! ## Doubles by sign and magnitude -/

/-- A finite double, by its sign and the pattern of its magnitude. -/
structure Signed (negative : Bool) (m : Nat) (y : Binary64) : Prop where
  finite : m < infinityBits
  pattern : y.bits.toNat % 2 ^ 63 = m
  sign : decide (2 ^ 63 ≤ y.bits.toNat) = negative

/-- A double is its sign and its pattern. -/
theorem signed_eq_iff {m : Nat} (finite : m < infinityBits) {negative : Bool} {y : Binary64} :
    ⟨UInt64.ofNat (m + if negative then Number.twoTo 63 else 0)⟩ = y ↔
      y.bits.toNat % 2 ^ 63 = m ∧ decide (2 ^ 63 ≤ y.bits.toNat) = negative := by
  have two : Number.twoTo 63 = 2 ^ 63 := rfl
  have infinity : infinityBits = 9218868437227405312 := rfl
  have bound := y.bits.toNat_lt
  have small : (m + if negative then Number.twoTo 63 else 0) < 2 ^ 64 := by
    rw [two]
    split <;> omega
  have bits : UInt64.ofNat (m + if negative then Number.twoTo 63 else 0) = y.bits ↔
      (m + if negative then Number.twoTo 63 else 0) = y.bits.toNat := by
    rw [← UInt64.toNat_inj, UInt64.toNat_ofNat_of_lt' small]
  constructor
  · rintro rfl
    have whole := bits.mp rfl
    rw [← whole, two]
    cases negative
    · rw [if_neg Bool.false_ne_true, decide_eq_false_iff_not]
      omega
    · rw [if_pos rfl, decide_eq_true_iff]
      omega
  · rintro ⟨pattern, sign⟩
    refine congrArg Binary64.mk (bits.mpr ?_)
    rw [two]
    by_cases large : 2 ^ 63 ≤ y.bits.toNat
    · obtain rfl : true = negative := (decide_eq_true large).symm.trans sign
      rw [if_pos rfl]
      omega
    · obtain rfl : false = negative := (decide_eq_false large).symm.trans sign
      rw [if_neg Bool.false_ne_true]
      omega

theorem signed?_eq_some_iff {negative : Bool} {m : Nat} {y : Binary64} :
    signed? negative m = some y ↔ Signed negative m y := by
  unfold signed?
  constructor
  · intro h
    split at h
    · next finite =>
      obtain ⟨pattern, sign⟩ := (signed_eq_iff finite).mp (Option.some.inj h)
      exact ⟨finite, pattern, sign⟩
    · cases h
  · rintro ⟨finite, pattern, sign⟩
    rw [if_pos finite]
    exact congrArg some ((signed_eq_iff finite).mpr ⟨pattern, sign⟩)

end Binary64

end RtspControl
