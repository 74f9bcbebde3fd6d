import RtspControl.Settings
import RtspControl.Proofs.Nearest
import Mathlib.Order.WithBot
import Mathlib.Algebra.Order.Monoid.Unbundled.WithTop

/-!
# How long the silence may be

The silence that settings allow is a duration, and the setting is any double. What number a double
is follows from its three fields (`Binary64.number?`), and is an infinity for some and no number for
others. `Allows` says without any computation which duration belongs to which number: of all that
are whole nanoseconds it is the nearest one, the even one if two are equally near, as long as the
number is positive and not too large.

`Settings.allows_iff_timeout_eq` says that this is the duration which settings give, whatever the
bits of the double are, and that a larger number never gives a shorter one. The latter follows from
`Allows` alone.
-/

namespace RtspControl

/-- A rational number, or one of the two infinities. -/
abbrev Extended := WithBot (WithTop ℚ)

namespace Extended

def ofRat (q : ℚ) : Extended := ((q : WithTop ℚ) : Extended)

@[simp] theorem ofRat_le_ofRat {p q : ℚ} : ofRat p ≤ ofRat q ↔ p ≤ q := by
  rw [ofRat, ofRat, WithBot.coe_le_coe, WithTop.coe_le_coe]

end Extended

open Extended (ofRat ofRat_le_ofRat)

/-! ## The number that a double is -/

namespace Binary64

open Number (twoTo cast_twoTo)

section

variable (x : Binary64)

def isNegative : Bool := decide (2 ^ 63 ≤ x.bits.toNat)

def exponentField : Nat := x.bits.toNat / 2 ^ 52 % 2 ^ 11

def fraction : Nat := x.bits.toNat % 2 ^ 52

/-- The absolute value of a finite double. Without an exponent there is no implicit bit. -/
def magnitude : ℚ :=
  if x.exponentField = 0 then x.fraction * 2 ^ (-1074 : ℤ)
  else (2 ^ 52 + x.fraction) * 2 ^ (x.exponentField - 1075 : ℤ)

/-- The number that a double is, if it is one. -/
def number? : Option Extended :=
  if x.exponentField = 2047 then
    if x.fraction = 0 then some (if x.isNegative then ⊥ else ⊤) else none
  else some (ofRat (if x.isNegative then -x.magnitude else x.magnitude))

end

/-- The number that the bits of a double stand for, by their meaning. -/
def Meaning.number? : Meaning → Option Extended
  | .finite negative units =>
    some (ofRat (if negative then -(units / one : ℚ) else (units / one : ℚ)))
  | .infinite negative => some (if negative then ⊥ else ⊤)
  | .notANumber => none

theorem magnitude_eq (x : Binary64) :
    x.magnitude = (unitsOfBits (x.bits.toNat % 2 ^ 63) / one : ℚ) := by
  have two : twoTo 52 = 2 ^ 52 := rfl
  have field : x.bits.toNat % 2 ^ 63 / 2 ^ 52 = x.exponentField := by
    unfold exponentField
    omega
  have fraction : x.bits.toNat % 2 ^ 63 % 2 ^ 52 = x.fraction := by
    unfold Binary64.fraction
    omega
  unfold magnitude unitsOfBits
  rw [two, field, fraction, cast_one]
  by_cases subnormal : x.exponentField = 0
  · rw [if_pos subnormal, if_pos subnormal, zpow_neg, div_eq_mul_inv]
    rfl
  · have scale : (2 : ℚ) ^ (x.exponentField - 1075 : ℤ) =
        2 ^ (x.exponentField - 1) * (2 ^ 1074)⁻¹ := by
      rw [← zpow_natCast, ← zpow_natCast, ← zpow_neg, ← zpow_add₀ (by norm_num)]
      congr 1
      push_cast [Nat.one_le_iff_ne_zero.mpr subnormal]
      ring
    rw [if_neg subnormal, if_neg subnormal, scale, Nat.cast_mul, cast_twoTo, Nat.cast_add,
      Nat.cast_pow, Nat.cast_ofNat, div_eq_mul_inv, mul_assoc]

/-- The meaning of the bits is the number that their fields say. -/
theorem number?_meaning (x : Binary64) : x.meaning.number? = x.number? := by
  have bound := x.bits.toNat_lt
  have infinity : infinityBits = 2047 * 2 ^ 52 := rfl
  have fields : x.bits.toNat % 2 ^ 63 = x.exponentField * 2 ^ 52 + x.fraction := by
    unfold exponentField fraction
    omega
  have field : x.exponentField < 2048 := Nat.mod_lt _ (by decide)
  have fraction : x.fraction < 2 ^ 52 := Nat.mod_lt _ (by decide)
  have sign : decide (twoTo 63 ≤ x.bits.toNat) = x.isNegative := rfl
  have whole : x.bits.toNat % twoTo 63 = x.bits.toNat % 2 ^ 63 := rfl
  unfold meaning number?
  dsimp only
  rw [sign, whole]
  by_cases finite : x.exponentField = 2047
  · rw [if_neg (by omega), if_pos finite]
    by_cases infinite : x.fraction = 0
    · rw [if_pos (by omega), if_pos infinite]
      rfl
    · rw [if_neg (by omega), if_neg infinite]
      rfl
  · rw [if_pos (by omega), if_neg finite, magnitude_eq]
    rfl

/-- No double lies in the last step below `2 ^ 64`, which is `2 ^ 11` wide. -/
theorem units_below {m : Nat} (h : (unitsOfBits m : ℚ) < 2 ^ 64 * 2 ^ 1074) :
    (unitsOfBits m : ℚ) ≤ (2 ^ 64 - 2 ^ 11) * 2 ^ 1074 := by
  have power : 2 ^ 53 * 2 ^ 1085 = 2 ^ 64 * 2 ^ 1074 := by
    simp only [← Nat.pow_add, Nat.reduceAdd]
  have step : (2 : ℚ) ^ 1085 = 2 ^ 11 * 2 ^ 1074 := pow_add 2 11 1074
  have border : unitsOfBits (1085 * 2 ^ 52 + 2 ^ 53) = 2 ^ 64 * 2 ^ 1074 := by
    rw [unitsOfBits_scaled (Nat.le_refl _) (Or.inr (by omega)), power]
  have below : m < 1085 * 2 ^ 52 + 2 ^ 53 := by
    rw [← unitsOfBits_strictMono.lt_iff_lt, border]
    exact_mod_cast h
  have apart := unitsOfBits_below (Nat.le_refl _) (Or.inr (by omega)) below
  rw [power] at apart
  have cast : (unitsOfBits m + 2 ^ 1085 : ℚ) ≤ 2 ^ 64 * 2 ^ 1074 := by exact_mod_cast apart
  rw [step] at cast
  generalize (2 ^ 1074 : ℚ) = unit at cast ⊢
  linarith

theorem seconds_below {m : Nat} (h : (unitsOfBits m / one : ℚ) < 2 ^ 64) :
    (unitsOfBits m / one : ℚ) ≤ 2 ^ 64 - 2 ^ 11 := by
  rw [div_lt_iff₀ cast_one_pos, cast_one] at h
  rw [div_le_iff₀ cast_one_pos, cast_one]
  exact units_below h

end Binary64

/-! ## Durations in nanoseconds -/

namespace Duration

theorem toNanos_longest : longest.toNanos = 2 ^ 64 * 10 ^ 9 - 1 := rfl

theorem toNanos_le_longest (d : Duration) : d.toNanos ≤ longest.toNanos := by
  have seconds := d.seconds.toNat_lt
  have nanos : d.nanos < 1000000000 := d.nanos_lt
  rw [toNanos_longest]
  unfold toNanos nanosPerSecond
  omega

theorem toNanos_injective {d e : Duration} (h : d.toNanos = e.toNanos) : d = e := by
  obtain ⟨seconds, nanos, less⟩ := d
  obtain ⟨seconds', nanos', less'⟩ := e
  unfold toNanos at h
  unfold nanosPerSecond at less less' h
  dsimp only at h
  obtain rfl : seconds = seconds' := UInt64.toNat_inj.mp (by omega)
  obtain rfl : nanos = nanos' := by omega
  rfl

theorem toNanos_ofNanos {n : Nat} (fits : n < 2 ^ 64 * 10 ^ 9) : (ofNanos n).toNanos = n := by
  have seconds : n / nanosPerSecond < UInt64.size := by
    unfold nanosPerSecond UInt64.size
    omega
  unfold ofNanos
  rw [if_pos seconds, toNanos, UInt64.toNat_ofNat_of_lt' seconds]
  exact Nat.div_add_mod' n nanosPerSecond

theorem ofNanos_of_le {n : Nat} (large : 2 ^ 64 * 10 ^ 9 ≤ n) : ofNanos n = longest := by
  unfold ofNanos nanosPerSecond UInt64.size
  exact if_neg (by omega)

end Duration

/-! ## The duration that belongs to a number -/

/-- The duration that is allowed by a number of seconds: none if it is no positive number, the
longest one from `2 ^ 64` on, and otherwise the nearest one in nanoseconds. -/
inductive Allows : Option Extended → Duration → Prop
  | noNumber : Allows none .zero
  | unset {v : Extended} (nonpositive : v ≤ ofRat 0) : Allows (some v) .zero
  | beyond {v : Extended} (large : ofRat (2 ^ 64) ≤ v) : Allows (some v) .longest
  | nearest {q : ℚ} {d : Duration} (positive : 0 < q) (fits : q < 2 ^ 64)
      (near : 2 * |(d.toNanos : ℚ) - q * 10 ^ 9| ≤ 1)
      (even : 2 * |(d.toNanos : ℚ) - q * 10 ^ 9| = 1 → Even d.toNanos) :
      Allows (some (ofRat q)) d

namespace Allows

/-- Of two numbers the smaller one is not rounded to more. Both would have to be halfway between two
neighbours, of which only one is even. -/
theorem nanos_le {p q : ℚ} {n k : Nat} (le : p ≤ q) (near : 2 * |(n : ℚ) - p * 10 ^ 9| ≤ 1)
    (even : 2 * |(n : ℚ) - p * 10 ^ 9| = 1 → Even n) (near' : 2 * |(k : ℚ) - q * 10 ^ 9| ≤ 1)
    (even' : 2 * |(k : ℚ) - q * 10 ^ 9| = 1 → Even k) : n ≤ k := by
  by_contra more
  have apart : (k + 1 : ℚ) ≤ n := by exact_mod_cast Nat.lt_of_not_le more
  have above := le_abs_self ((n : ℚ) - p * 10 ^ 9)
  have below := neg_abs_le ((k : ℚ) - q * 10 ^ 9)
  have half : 2 * |(n : ℚ) - p * 10 ^ 9| = 1 := by linarith
  have half' : 2 * |(k : ℚ) - q * 10 ^ 9| = 1 := by linarith
  have next : n = k + 1 := by
    have : (n : ℚ) = k + 1 := by linarith
    exact_mod_cast this
  have parity := even half
  rw [next, Nat.even_add_one] at parity
  exact parity (even' half')

/-- A larger number never allows less. -/
theorem toNanos_le {v w : Extended} {d e : Duration} (h : Allows (some v) d)
    (h' : Allows (some w) e) (le : v ≤ w) : d.toNanos ≤ e.toNanos := by
  have positive {q : ℚ} (pos : 0 < q) (h : ofRat q ≤ ofRat 0) : False :=
    absurd (ofRat_le_ofRat.mp h) (not_le.mpr pos)
  have small {q : ℚ} (fits : q < 2 ^ 64) (h : ofRat (2 ^ 64) ≤ ofRat q) : False :=
    absurd (ofRat_le_ofRat.mp h) (not_le.mpr fits)
  cases h' with
  | beyond => exact d.toNanos_le_longest
  | unset nonpositive =>
    cases h with
    | unset => exact Nat.le_refl _
    | beyond large => exact absurd (large.trans (le.trans nonpositive)) (by norm_num)
    | nearest pos => exact (positive pos (le.trans nonpositive)).elim
  | nearest pos' fits' near' even' =>
    cases h with
    | unset => exact Nat.zero_le _
    | beyond large => exact (small fits' (large.trans le)).elim
    | nearest pos fits near even => exact nanos_le (ofRat_le_ofRat.mp le) near even near' even'

/-- No more than one duration belongs to a number. -/
theorem unique {v : Option Extended} {d e : Duration} (h : Allows v d) (h' : Allows v e) :
    d = e := by
  cases v with
  | none =>
    cases h
    cases h'
    rfl
  | some v =>
    exact Duration.toNanos_injective
      (Nat.le_antisymm (h.toNanos_le h' le_rfl) (h'.toNanos_le h le_rfl))

end Allows

/-! ## The duration that settings give -/

namespace Duration

open Binary64

/-- A whole number of nanoseconds that is next to a positive number of seconds. -/
theorem allows_ofNanos {q : ℚ} {n : Nat} (positive : 0 < q)
    (last : q < 2 ^ 64 → q ≤ 2 ^ 64 - 2 ^ 11) (halfway : Halfway (q * 10 ^ 9) n 1) :
    Allows (some (ofRat q)) (ofNanos n) := by
  have near := halfway.abs_le
  obtain ⟨above, below, even⟩ := halfway
  rw [mul_one] at above below even near
  rcases lt_or_ge q (2 ^ 64) with fits | large
  · -- The last double below the limit is so far from it that rounding does not reach it.
    have bound : (n : ℚ) < 2 ^ 64 * 10 ^ 9 := by linarith [last fits]
    have nanos : (ofNanos n).toNanos = n := toNanos_ofNanos (by exact_mod_cast bound)
    refine .nearest positive fits ?near ?even <;> rw [nanos, abs_sub_comm]
    case near => exact (le_div_iff₀' two_pos).mp near
    case even =>
      intro tie
      rw [Nat.even_iff]
      apply even
      rcases abs_cases (q * 10 ^ 9 - n) with ⟨distance, -⟩ | ⟨distance, -⟩
      · exact Or.inl (by linarith)
      · exact Or.inr (by linarith)
  · have bound : (2 ^ 64 * 10 ^ 9 : ℚ) < n + 1 := by linarith
    have reached : 2 ^ 64 * 10 ^ 9 < n + 1 := by exact_mod_cast bound
    rw [ofNanos_of_le (Nat.le_of_lt_succ reached)]
    exact .beyond (ofRat_le_ofRat.mpr large)

theorem allows_ofUnits (m : Nat) :
    Allows (some (ofRat (unitsOfBits m / one)))
      (ofNanos (Number.roundDiv (unitsOfBits m * nanosPerSecond) one)) := by
  rcases Nat.eq_zero_or_pos (unitsOfBits m) with none | some
  · have zero : ofNanos (Number.roundDiv (0 * nanosPerSecond) one) = .zero := by decide +kernel
    rw [none, zero, Nat.cast_zero, zero_div]
    exact .unset le_rfl
  · have halfway :=
      halfway_roundDiv (unitsOfBits m * nanosPerSecond) (Nat.cast_pos.mp cast_one_pos) 0
    have whole : (nanosPerSecond : ℚ) = 10 ^ 9 := by norm_num [nanosPerSecond]
    rw [show Number.twoTo 0 = 1 from rfl, Nat.mul_one, pow_zero, Nat.cast_mul, whole,
      mul_div_right_comm] at halfway
    exact allows_ofNanos (div_pos (Nat.cast_pos.mpr some) cast_one_pos) seconds_below halfway

theorem allows_ofSeconds (x : Binary64) : Allows x.number? (ofSeconds x) := by
  rw [← number?_meaning]
  unfold ofSeconds meaning
  dsimp only
  split
  case isTrue finite =>
    cases decide (Number.twoTo 63 ≤ x.bits.toNat) with
    | false => exact allows_ofUnits (x.bits.toNat % Number.twoTo 63)
    | true =>
      refine .unset (ofRat_le_ofRat.mpr (neg_nonpos.mpr ?_))
      exact div_nonneg (Nat.cast_nonneg _) cast_one_pos.le
  case isFalse =>
    split
    · cases decide (Number.twoTo 63 ≤ x.bits.toNat) with
      | false => exact .beyond (WithBot.coe_le_coe.mpr le_top)
      | true => exact .unset bot_le
    · exact .noNumber

end Duration

namespace Settings

/-- Whatever the bits of the number that is set, the silence allowed is the one duration that
belongs to the number; a larger number never allows less. -/
theorem allows_iff_timeout_eq :
    (∀ (s : Settings) (d : Duration),
      Allows s.inactivityTimeout.number? d ↔ s.backchannelTimeout = d) ∧
    ∀ (s t : Settings) (v w : Extended),
      s.inactivityTimeout.number? = some v → t.inactivityTimeout.number? = some w → v ≤ w →
        s.backchannelTimeout.toNanos ≤ t.backchannelTimeout.toNanos := by
  have given (s : Settings) : Allows s.inactivityTimeout.number? s.backchannelTimeout :=
    Duration.allows_ofSeconds s.inactivityTimeout
  constructor
  · intro s d
    constructor
    · exact fun allowed => (given s).unique allowed
    · rintro rfl
      exact given s
  · intro s t v w hv hw le
    exact Allows.toNanos_le (hv ▸ given s) (hw ▸ given t) le

/-- Three 1024ths of a second are halfway between two numbers of nanoseconds. -/
def tied : Settings := ⟨⟨0x3F68000000000000⟩⟩

def endless : Settings := ⟨⟨0x7FF0000000000000⟩⟩

theorem tied_rounded_to_even :
    tied.inactivityTimeout.number? = some (ofRat (3 / 1024)) ∧
    endless.inactivityTimeout.number? = some ⊤ ∧
    tied.backchannelTimeout = { seconds := 0, nanos := 2929688 } ∧
    Allows (some (ofRat (3 / 1024))) tied.backchannelTimeout ∧
    tied.backchannelTimeout.toNanos ≤ endless.backchannelTimeout.toNanos := by
  have exponent : tied.inactivityTimeout.exponentField = 1014 := rfl
  have fraction : tied.inactivityTimeout.fraction = 2 ^ 51 := rfl
  have positive : tied.inactivityTimeout.isNegative = false := rfl
  have number : tied.inactivityTimeout.number? = some (ofRat (3 / 1024)) := by
    unfold Binary64.number? Binary64.magnitude
    rw [exponent, fraction, positive]
    norm_num
  have endless_number : endless.inactivityTimeout.number? = some ⊤ := rfl
  have rounded : tied.backchannelTimeout = { seconds := 0, nanos := 2929688 } := by
    decide +kernel
  exact ⟨number, endless_number, rounded, number ▸ (allows_iff_timeout_eq.1 tied _).mpr rfl,
    allows_iff_timeout_eq.2 tied endless _ _ number endless_number
      (WithBot.coe_le_coe.mpr le_top)⟩

end Settings

end RtspControl
