import RtspControl.Number.Numeral
import RtspControl.Proofs.Nearest

/-!
# What numerals are read as

The reading of a numeral, said without an algorithm: which digits are kept (`Numeral.Keeps`), and
how the number that they make up is scaled by powers of ten, where every step gives the pattern
nearest to the exact result of that step (`Decimal.Scales`). `Numeral.double?_eq_some_iff` shows
that this is how numerals are read.

It is not the same as the double nearest to the numeral (`Decimal.Rounds`). The two agree on short
numerals, where all steps but the last one are exact (`Numeral.Short.reads_iff`).
-/

namespace RtspControl

theorem Number.cast_tenTo (n : Nat) : (Number.tenTo n : ℚ) = 10 ^ n := Nat.cast_pow 10 n

namespace Decimal

open Binary64
open Number (cast_tenTo)

/-! ## The nearest double -/

/-- The absolute value of a decimal. -/
def magnitude (x : Decimal) : ℚ := x.digits * 10 ^ x.exponent

/-- The double nearest to a decimal. Patterns beyond the finite ones count as well, so a decimal
that is too large has none. -/
def Rounds (x : Decimal) (y : Binary64) : Prop :=
  ∃ m, Rounded x.magnitude m ∧ Signed x.negative m y

/-- A decimal is a quotient of natural numbers. -/
theorem rounded_magnitude (x : Decimal) : Rounded x.magnitude
    (nearestBits (x.digits * Number.tenTo x.exponent.toNat * one)
      (Number.tenTo (-x.exponent).toNat)) := by
  have positive : 0 < Number.tenTo (-x.exponent).toNat := Nat.pow_pos (by decide)
  have power : (10 : ℚ) ^ x.exponent.toNat / 10 ^ (-x.exponent).toNat = 10 ^ x.exponent := by
    rw [← zpow_natCast, ← zpow_natCast, ← zpow_sub₀ (by norm_num)]
    congr 1
    omega
  have quotient : ((x.digits * Number.tenTo x.exponent.toNat * one : Nat) : ℚ) /
      (Number.tenTo (-x.exponent).toNat : Nat) = x.magnitude * one := by
    rw [Nat.cast_mul, Nat.cast_mul, cast_tenTo, cast_tenTo, magnitude, ← power]
    generalize (one : ℚ) = unit
    ring
  rw [Rounded, ← quotient]
  exact nearest_nearestBits _ positive

/-! ## Scaling by powers of ten -/

/-- Multiplies or divides a magnitude by a power of ten, or divides by the last one that is a double
before the rest. Powers of ten are rounded, and so is every result. -/
inductive Scales : Nat → Int → Nat → Prop
  | up {f t m : Nat} {e : Int} : 0 ≤ e → e ≤ lastTen →
    Rounded (10 ^ e) t → Rounded (worth f * worth t) m → Scales f e m
  | down {f t m : Nat} {e : Int} : e < 0 → -lastTen ≤ e →
    Rounded (10 ^ (-e)) t → Rounded (worth f / worth t) m → Scales f e m
  | far {f t g m : Nat} {e : Int} : e < -lastTen →
    Rounded (10 ^ lastTen) t → Rounded (worth f / worth t) g → Scales g (e + lastTen) m →
    Scales f e m
  | zero {e : Int} : lastTen < e → Scales 0 e 0

theorem Scales.unique {f m m' : Nat} {e : Int} (h : Scales f e m) (h' : Scales f e m') :
    m = m' := by
  induction h with
  | up least most ten near =>
    cases h' with
    | up _ _ ten' near' =>
      cases ten.unique ten'
      exact near.unique near'
    | down | far | zero => omega
  | down least most ten near =>
    cases h' with
    | down _ _ ten' near' =>
      cases ten.unique ten'
      exact near.unique near'
    | up | far | zero => omega
  | far low ten near _ ih =>
    cases h' with
    | far _ ten' near' later =>
      cases ten.unique ten'
      cases near.unique near'
      exact ih later
    | up | down | zero => omega
  | zero high =>
    cases h' with
    | zero => rfl
    | up | down | far => omega

/-- Only zero can be multiplied by a power of ten that is not a double. -/
theorem Scales.bounded {f m : Nat} {e : Int} (h : Scales f e m) : e ≤ lastTen ∨ f = 0 := by
  cases h with
  | up | down | far => omega
  | zero => exact .inr rfl

theorem rounded_tens (k : Nat) : Rounded (10 ^ k) (tens k) := by
  rw [← cast_tenTo]
  exact rounded_ofNat _

theorem tens_pos (k : Nat) : 0 < tens k :=
  (rounded_tens k).pos (one_le_pow₀ (by norm_num))

theorem divided_zero (b : Nat) : divided 0 b = 0 := by
  have zero : unitsOfBits 0 = 0 := rfl
  simp [divided, zero, nearestBits, Number.roundDiv]

theorem reduce_zero (n rest : Nat) : reduce n rest 0 = 0 := by
  cases n with
  | zero => exact divided_zero _
  | succ n => exact if_pos rfl

theorem scales_reduce (n : Nat) {rest : Nat} (positive : 0 < rest) (bound : rest ≤ lastTen)
    (f : Nat) : Scales f (-(n * lastTen + rest : Nat)) (reduce n rest f) := by
  -- By induction on how often the last power of ten is taken off the exponent.
  induction n generalizing f with
  | zero =>
    rw [Nat.zero_mul, Nat.zero_add]
    refine .down (by omega) (by omega) ?_ (rounded_divided f (tens_pos rest))
    rw [neg_neg, zpow_natCast]
    exact rounded_tens rest
  | succ n ih =>
    have low : (-((n + 1) * lastTen + rest : Nat) : Int) < -lastTen := by
      rw [Nat.succ_mul]
      omega
    have next : (-((n + 1) * lastTen + rest : Nat) : Int) + lastTen =
        -(n * lastTen + rest : Nat) := by
      rw [Nat.succ_mul]
      omega
    refine .far low (rounded_tens lastTen) (rounded_divided f (tens_pos lastTen)) ?_
    rw [next, reduce]
    split
    · next zero =>
      subst zero
      have later := ih 0
      rw [reduce_zero] at later
      rw [divided_zero]
      exact later
    · exact ih _

theorem scales_scale {f : Nat} {e : Int} (h : e ≤ lastTen ∨ f = 0) :
    Scales f e (scale f e) := by
  cases e with
  | ofNat k =>
    rw [Int.ofNat_eq_natCast] at h ⊢
    by_cases bound : k ≤ lastTen
    · have result : scale f k = times f (tens k) := if_pos bound
      rw [result]
      refine .up (by omega) (by omega) ?_ (rounded_times f (tens k))
      rw [zpow_natCast]
      exact rounded_tens k
    · obtain rfl : f = 0 := h.resolve_left (by omega)
      have result : scale 0 k = 0 := (if_neg bound).trans (if_pos rfl)
      rw [result]
      exact .zero (by omega)
  | negSucc k =>
    have positive : 0 < lastTen := by decide
    have rest := Nat.mod_lt k positive
    have whole := Nat.div_add_mod' k lastTen
    have exponent : Int.negSucc k =
        -((k / lastTen) * lastTen + (k % lastTen).succ : Nat) := by omega
    have scales := scales_reduce (k / lastTen) (Nat.succ_pos (k % lastTen)) rest f
    rw [← exponent] at scales
    exact scales

/-- The steps lead to a finite double if and only if the scaling finds it. -/
theorem signed?_scale_eq_some_iff {negative : Bool} {f : Nat} {e : Int} {y : Binary64} :
    signed? negative (scale f e) = some y ↔ ∃ m, Scales f e m ∧ Signed negative m y := by
  rw [signed?_eq_some_iff]
  constructor
  · intro signed
    refine ⟨_, scales_scale ?_, signed⟩
    by_contra unbounded
    obtain ⟨large, nonzero⟩ := not_or.mp unbounded
    obtain ⟨k, rfl⟩ := Int.eq_ofNat_of_zero_le (show 0 ≤ e by omega)
    have beyond : scale f k = infinityBits :=
      (if_neg (by omega)).trans (if_neg nonzero)
    exact absurd signed.finite (beyond ▸ Nat.lt_irrefl _)
  · rintro ⟨m, scales, signed⟩
    exact (scales_scale scales.bounded).unique scales ▸ signed

/-! ## Small powers of ten -/

/-- The powers of five have up to 53 bits. -/
theorem worth_ten {k t : Nat} (h : Rounded (10 ^ k) t) (bound : k ≤ 22) : worth t = 10 ^ k := by
  have split : (10 : ℚ) ^ k = (5 ^ k : Nat) * 2 ^ k := by
    rw [Nat.cast_pow, ← mul_pow]
    norm_num
  have fits : 5 ^ k ≤ 2 ^ 53 := (Nat.pow_le_pow_right (by decide) bound).trans (by decide)
  rw [split] at h ⊢
  exact h.worth_eq fits

/-- The only rounding is the last one if a number is exact and the exponent small. -/
theorem scales_iff_rounded {f n m : Nat} {e : Int} (exact : worth f = n) (least : -22 ≤ e)
    (most : e ≤ 22) : Scales f e m ↔ Rounded (n * 10 ^ e) m := by
  have last : lastTen = 308 := rfl
  have rounded {m : Nat} (h : Scales f e m) : Rounded (n * 10 ^ e) m := by
    cases h with
    | up least _ ten near =>
      obtain ⟨k, rfl⟩ := Int.eq_ofNat_of_zero_le least
      rw [zpow_natCast] at ten ⊢
      rw [exact, worth_ten ten (by omega)] at near
      exact near
    | down negative _ ten near =>
      obtain ⟨k, rfl⟩ := Int.exists_eq_neg_ofNat (Int.le_of_lt negative)
      rw [neg_neg, zpow_natCast] at ten
      rw [exact, worth_ten ten (by omega)] at near
      rw [zpow_neg, zpow_natCast, ← div_eq_mul_inv]
      exact near
    | far | zero => omega
  refine ⟨rounded, fun near => ?_⟩
  have scales : Scales f e (scale f e) := scales_scale (.inl (by omega))
  exact (rounded scales).unique near ▸ scales

end Decimal

namespace Numeral

open Binary64

/-! ## The digits that are kept -/

theorem le_append (n : Nat) (ds : List Char) : n ≤ append n ds := by
  induction ds generalizing n with
  | nil => exact Nat.le_refl n
  | cons d ds ih => exact Nat.le_trans (by omega) (ih (10 * n + digit d))

theorem append_append (n : Nat) (ds ds' : List Char) :
    append n (ds ++ ds') = append (append n ds) ds' := List.foldl_append

/-- The longest run of digits that fits in 64 bits behind the digits of `n`, and what is left. -/
structure Fits (n : Nat) (ds taken left : List Char) : Prop where
  split : ds = taken ++ left
  fits : append n taken < UInt64.size
  longest : ∀ d, left.head? = some d → UInt64.size ≤ append n (taken ++ [d])

theorem Fits.absorb_eq {n : Nat} {ds taken left : List Char} (h : Fits n ds taken left) :
    absorb n ds = (append n taken, left.length) := by
  obtain ⟨rfl, fits, longest⟩ := h
  induction taken generalizing n with
  | nil =>
    cases left with
    | nil => rfl
    | cons d left => exact if_neg (Nat.not_lt.mpr (longest d rfl))
  | cons d taken ih =>
    have room : 10 * n + digit d < UInt64.size := Nat.lt_of_le_of_lt (le_append _ taken) fits
    exact (if_pos room).trans (ih fits longest)

theorem exists_fits {n : Nat} (h : n < UInt64.size) (ds : List Char) :
    ∃ taken left, Fits n ds taken left := by
  induction ds generalizing n with
  | nil => exact ⟨[], [], rfl, h, nofun⟩
  | cons d ds ih =>
    by_cases room : 10 * n + digit d < UInt64.size
    · obtain ⟨taken, left, rfl, fits, longest⟩ := ih room
      exact ⟨d :: taken, left, rfl, fits, longest⟩
    · refine ⟨[], d :: ds, rfl, h, fun d' first => ?_⟩
      cases first
      exact Nat.not_lt.mp room

/-- The decimal that is kept of a numeral. A digit in front of the point that is left out makes the
number ten times larger, and one behind the point that is taken makes it ten times smaller. -/
inductive Keeps (n : Numeral) : Decimal → Prop
  | mk {whole whole' fraction fraction' : List Char} :
    Fits 0 n.whole whole whole' → Fits (append 0 whole) n.fraction fraction fraction' →
    Keeps n ⟨n.negative, append 0 (whole ++ fraction),
      n.exponent + whole'.length - fraction.length⟩

theorem keeps_iff {n : Numeral} {x : Decimal} : n.Keeps x ↔ n.kept = x := by
  have kept {x : Decimal} (h : n.Keeps x) : n.kept = x := by
    obtain ⟨first, second⟩ := h
    have length := congrArg List.length second.split
    rw [List.length_append] at length
    simp only [Numeral.kept, first.absorb_eq, second.absorb_eq, append_append, length]
    congr 1
    push_cast
    omega
  refine ⟨kept, ?_⟩
  rintro rfl
  obtain ⟨_, _, first⟩ := exists_fits (n := 0) (by decide) n.whole
  obtain ⟨_, _, second⟩ := exists_fits first.fits n.fraction
  have keeps := Keeps.mk first second
  exact kept keeps ▸ keeps

/-! ## Reading -/

/-- The finite double as which a numeral is read: what is kept of it is rounded and then scaled. -/
inductive Reads (n : Numeral) (y : Binary64) : Prop
  | mk {x : Decimal} {f m : Nat} :
    n.Keeps x → Rounded x.digits f → Decimal.Scales f x.exponent m → Signed x.negative m y →
    Reads n y

theorem double?_eq_some_iff {n : Numeral} {y : Binary64} : n.double? = some y ↔ n.Reads y := by
  rw [double?, Decimal.double?, Decimal.signed?_scale_eq_some_iff]
  constructor
  · rintro ⟨m, scales, signed⟩
    exact .mk (keeps_iff.mpr rfl) (rounded_ofNat _) scales signed
  · rintro ⟨keeps, rounded, scales, signed⟩
    obtain rfl := keeps_iff.mp keeps
    obtain rfl := (rounded_ofNat _).unique rounded
    exact ⟨_, scales, signed⟩

/-- All digits of the numeral make up a number of 53 bits, and the power of ten by which that is to
be scaled is a double itself. -/
structure Short (n : Numeral) : Prop where
  digits : n.value.digits ≤ 2 ^ 53
  least : -22 ≤ n.value.exponent
  most : n.value.exponent ≤ 22

/-- Nothing of a short numeral is left out. -/
theorem Short.keeps {n : Numeral} (h : n.Short) : n.Keeps n.value := by
  have fits : append 0 (n.whole ++ n.fraction) < UInt64.size :=
    Nat.lt_of_le_of_lt h.digits (by decide)
  rw [append_append] at fits
  have whole : Fits 0 n.whole n.whole [] :=
    ⟨(List.append_nil _).symm, Nat.lt_of_le_of_lt (le_append _ _) fits, nofun⟩
  have fraction : Fits (append 0 n.whole) n.fraction n.fraction [] :=
    ⟨(List.append_nil _).symm, fits, nofun⟩
  have keeps := Keeps.mk whole fraction
  rw [List.length_nil, Nat.cast_zero, add_zero] at keeps
  exact keeps

/-- A short numeral is read as the double nearest to the number that it stands for. -/
theorem Short.reads_iff {n : Numeral} (h : n.Short) {y : Binary64} :
    n.Reads y ↔ n.value.Rounds y := by
  have exact {f : Nat} (rounded : Rounded n.value.digits f) : worth f = n.value.digits := by
    have scaled := Rounded.worth_eq (j := 0) (by rw [pow_zero, mul_one]; exact rounded) h.digits
    rwa [pow_zero, mul_one] at scaled
  constructor
  · rintro ⟨keeps, rounded, scales, signed⟩
    obtain rfl := (keeps_iff.mp keeps).symm.trans (keeps_iff.mp h.keeps)
    exact ⟨_, (Decimal.scales_iff_rounded (exact rounded) h.least h.most).mp scales, signed⟩
  · rintro ⟨m, near, signed⟩
    have rounded := rounded_ofNat n.value.digits
    exact .mk h.keeps rounded
      ((Decimal.scales_iff_rounded (exact rounded) h.least h.most).mpr near) signed

end Numeral

end RtspControl
