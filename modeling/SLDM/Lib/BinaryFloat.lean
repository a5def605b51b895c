/-
SLDM.Lib.BinaryFloat — binary floating-point numbers and their decimals.

A magnitude of precision `p` is `m * 2 ^ e` with `m < 2 ^ p` and `e` not
below `emin`. `roundTo p emin q` is the nearest magnitude, an exact tie going
to the even one; how large a magnitude may be is no concern of this module.

* `representable_roundTo` — what rounding gives is a magnitude;
* `roundTo_of_close` — a number off a magnitude by less than one part in
  `2 ^ (p + 1)` rounds to it;
* `roundTo_significand` — `P` significant decimal digits determine a
  magnitude when `2 ^ p < 10 ^ (P - 1)`.

Nothing in this module is about a particular program.
-/
import SLDM.Lib.Decimal
import Mathlib.Algebra.Order.Field.Power
import Mathlib.Data.Int.Log
import Mathlib.Tactic.Positivity

namespace BinaryFloat

open Decimal

/-! ## Rounding -/

/-- The magnitudes of precision `p`. -/
def Representable (p : ℕ) (emin : ℤ) (q : ℚ) : Prop :=
  ∃ (m : ℕ) (e : ℤ), m < 2 ^ p ∧ emin ≤ e ∧ q = m * 2 ^ e

/-- The exponent of the unit in the last place around `q`. -/
def ulpExponent (p : ℕ) (emin : ℤ) (q : ℚ) : ℤ := max emin (Int.log 2 q - (p - 1))

/-- The magnitude nearest to `q`. -/
def roundTo (p : ℕ) (emin : ℤ) (q : ℚ) : ℚ :=
  roundHalfEven (q / 2 ^ ulpExponent p emin q) * 2 ^ ulpExponent p emin q

theorem roundHalfEven_of_close {x : ℚ} {n : ℕ} (h : |x - n| < 1 / 2) : roundHalfEven x = n := by
  obtain ⟨hlow, hhigh⟩ := abs_lt.mp h
  unfold roundHalfEven
  simp only
  by_cases hle : (n : ℚ) ≤ x
  · have hfloor : ⌊x⌋₊ = n := (Nat.floor_eq_iff ((Nat.cast_nonneg n).trans hle)).mpr
      ⟨hle, by linarith⟩
    rw [hfloor, if_pos (by linarith)]
  · -- `x` lies below `n`, so the floor is the number before it
    have hlt : x < n := not_le.mp hle
    cases n with
    | zero =>
      have hneg : x < 0 := by simpa using hlt
      rw [Nat.floor_of_nonpos hneg.le, if_pos (by push_cast; linarith)]
    | succ n =>
      push_cast at hlow hhigh hlt
      have hfloor : ⌊x⌋₊ = n := (Nat.floor_eq_iff (by linarith [Nat.cast_nonneg (α := ℚ) n])).mpr
        ⟨by linarith, by linarith⟩
      rw [hfloor, if_neg (by linarith), if_pos (by linarith)]

theorem roundHalfEven_natCast (n : ℕ) : roundHalfEven n = n :=
  roundHalfEven_of_close (by simp)

theorem roundHalfEven_le {x : ℚ} {n : ℕ} (h : x ≤ n) : roundHalfEven x ≤ n := by
  by_cases hneg : x < 0
  · rw [roundHalfEven, Nat.floor_of_nonpos hneg.le]
    simp only [Nat.cast_zero, sub_zero]
    rw [if_pos (by linarith)]
    exact Nat.zero_le n
  · have hround := (abs_le.mp (abs_roundHalfEven_sub_le (not_lt.mp hneg))).2
    have hlt : (roundHalfEven x : ℚ) < n + 1 := by linarith
    have hlt' : roundHalfEven x < n + 1 := by exact_mod_cast hlt
    omega

theorem le_roundHalfEven {x : ℚ} {n : ℕ} (h : (n : ℚ) ≤ x) : n ≤ roundHalfEven x := by
  have hfloor : n ≤ ⌊x⌋₊ := Nat.le_floor h
  unfold roundHalfEven
  simp only
  split_ifs <;> omega

/-! ## What rounding gives -/

section

variable {p : ℕ} {emin : ℤ}

theorem le_ulpExponent (p : ℕ) (emin : ℤ) (q : ℚ) : emin ≤ ulpExponent p emin q := le_max_left _ _

/-- Below `2 ^ p` units. -/
theorem div_ulp_lt (p : ℕ) (emin : ℤ) (q : ℚ) : q / 2 ^ ulpExponent p emin q < 2 ^ p := by
  have hlog : q < (2 : ℕ) ^ (Int.log 2 q + 1) := Int.lt_zpow_succ_log_self (by decide) q
  have hexp : Int.log 2 q + 1 ≤ p + ulpExponent p emin q := by
    have hle : Int.log 2 q - (p - 1) ≤ ulpExponent p emin q := le_max_right _ _
    omega
  have hpow : ((2 : ℚ) ^ (Int.log 2 q + 1)) ≤ 2 ^ p * 2 ^ ulpExponent p emin q := by
    calc (2 : ℚ) ^ (Int.log 2 q + 1) ≤ 2 ^ ((p : ℤ) + ulpExponent p emin q) :=
          zpow_le_zpow_right₀ (by norm_num) hexp
      _ = 2 ^ p * 2 ^ ulpExponent p emin q := by
          rw [zpow_add₀ (by norm_num), zpow_natCast]
  rw [div_lt_iff₀ (by positivity)]
  push_cast at hlog
  linarith

theorem representable_roundTo (hp : 0 < p) (q : ℚ) : Representable p emin (roundTo p emin q) := by
  have hle : roundHalfEven (q / 2 ^ ulpExponent p emin q) ≤ 2 ^ p :=
    roundHalfEven_le (by push_cast; exact (div_ulp_lt p emin q).le)
  rcases Nat.lt_or_eq_of_le hle with hlt | heq
  · exact ⟨_, _, hlt, le_ulpExponent p emin q, rfl⟩
  · -- the tie above the last magnitude of the binade goes to the first one of the next
    refine ⟨2 ^ (p - 1), ulpExponent p emin q + 1, Nat.pow_lt_pow_right (by decide) (by omega),
      (le_ulpExponent p emin q).trans (by omega), ?_⟩
    obtain ⟨k, rfl⟩ : ∃ k, p = k + 1 := ⟨p - 1, by omega⟩
    rw [roundTo, heq, zpow_add_one₀ (by norm_num), Nat.add_sub_cancel]
    push_cast
    ring

theorem roundTo_zero (p : ℕ) (emin : ℤ) : roundTo p emin 0 = 0 := by
  rw [roundTo, zero_div, show (0 : ℚ) = ((0 : ℕ) : ℚ) from rfl, roundHalfEven_natCast]
  simp

theorem Representable.nonneg {q : ℚ} (h : Representable p emin q) : 0 ≤ q := by
  obtain ⟨m, e, -, -, rfl⟩ := h
  positivity

/-! ## Numbers close to a magnitude -/

/-- One part in `2 ^ (p + 1)` is at most half a unit. -/
theorem part_le_half_unit {m : ℕ} (hm : m < 2 ^ p) (e : ℤ) :
    (m : ℚ) * 2 ^ e / 2 ^ (p + 1) ≤ 2 ^ e / 2 := by
  have hmq : (m : ℚ) ≤ 2 ^ p := by exact_mod_cast hm.le
  have hunit : (0 : ℚ) < 2 ^ e := by positivity
  rw [div_le_div_iff₀ (by positivity) (by norm_num), pow_succ]
  nlinarith

/-- Such a number has no larger unit than the magnitude. -/
theorem ulpExponent_le {m : ℕ} {e : ℤ} {d : ℚ} (hm : m < 2 ^ p) (he : emin ≤ e) (hd : 0 < d)
    (hclose : |d - m * 2 ^ e| < m * 2 ^ e / 2 ^ (p + 1)) : ulpExponent p emin d ≤ e := by
  have hunit : (0 : ℚ) < 2 ^ e := by positivity
  have hbelow : d < 2 ^ p * 2 ^ e := by
    have hmq : (m : ℚ) + 1 ≤ 2 ^ p := by exact_mod_cast hm
    have hpart := part_le_half_unit hm e
    have hhigh := (abs_lt.mp hclose).2
    nlinarith
  have hlog : Int.log 2 d < p + e := by
    refine (Int.lt_zpow_iff_log_lt (by decide) hd).mp ?_
    push_cast
    rwa [zpow_add₀ (by norm_num), zpow_natCast]
  exact max_le he (by omega)

/-- No power of two lies between such a number and the magnitude. -/
theorem le_zpow_of_lt {m : ℕ} {e j : ℤ} {d : ℚ} (hm : m < 2 ^ p)
    (hclose : |d - m * 2 ^ e| < m * 2 ^ e / 2 ^ (p + 1)) (hj : d < 2 ^ j) :
    (m : ℚ) * 2 ^ e ≤ 2 ^ j := by
  by_contra hno
  have hgap := not_le.mp hno
  have hlow := (abs_lt.mp hclose).1
  have hunit : (0 : ℚ) < 2 ^ e := by positivity
  by_cases hej : e ≤ j
  · -- both are multiples of the unit
    have hsplit : (2 : ℚ) ^ j = 2 ^ (j - e).toNat * 2 ^ e := by
      rw [← zpow_natCast, ← zpow_add₀ (by norm_num)]
      congr 1
      omega
    have hlt : (2 : ℚ) ^ (j - e).toNat < m := by
      rw [hsplit] at hgap
      exact lt_of_mul_lt_mul_right hgap hunit.le
    have hsucc : (2 : ℚ) ^ (j - e).toNat + 1 ≤ m := by
      have hlt' : 2 ^ (j - e).toNat < m := by exact_mod_cast hlt
      exact_mod_cast hlt'
    have hpart := part_le_half_unit hm e
    nlinarith
  · have hhalf : (2 : ℚ) ^ j ≤ 2 ^ e / 2 := by
      rw [div_eq_mul_inv, ← zpow_sub_one₀ (by norm_num : (2 : ℚ) ≠ 0)]
      exact zpow_le_zpow_right₀ (by norm_num) (by omega)
    have hm1 : (1 : ℚ) ≤ m := by
      rcases Nat.eq_zero_or_pos m with rfl | hpos
      · rw [Nat.cast_zero, zero_mul] at hgap
        exact absurd hgap (not_lt.mpr (by positivity))
      · exact_mod_cast hpos
    have hpart : (m : ℚ) * 2 ^ e / 2 ^ (p + 1) ≤ m * 2 ^ e / 2 := by
      have htwo : (2 : ℚ) ≤ 2 ^ (p + 1) := by
        calc (2 : ℚ) = 2 ^ 1 := (pow_one 2).symm
          _ ≤ 2 ^ (p + 1) := pow_le_pow_right₀ (by norm_num) (by omega)
      exact div_le_div_of_nonneg_left (by positivity) (by norm_num) htwo
    nlinarith

/-- And its unit is fine enough to tell it from the neighbours. -/
theorem lt_half_ulp {m : ℕ} {e : ℤ} {d : ℚ} (hm : m < 2 ^ p)
    (hclose : |d - m * 2 ^ e| < m * 2 ^ e / 2 ^ (p + 1)) :
    |d - m * 2 ^ e| < 2 ^ ulpExponent p emin d / 2 := by
  have hlog : d < (2 : ℚ) ^ (Int.log 2 d + 1) := by
    have hlt := Int.lt_zpow_succ_log_self (R := ℚ) (b := 2) (by decide) d
    exact_mod_cast hlt
  calc |d - m * 2 ^ e| < m * 2 ^ e / 2 ^ (p + 1) := hclose
    _ ≤ 2 ^ (Int.log 2 d + 1) / 2 ^ (p + 1) :=
        div_le_div_of_nonneg_right (le_zpow_of_lt hm hclose hlog) (by positivity)
    _ = 2 ^ (Int.log 2 d - (p - 1)) / 2 := by
        rw [show Int.log 2 d + 1 = (Int.log 2 d - (p - 1)) + p by ring, zpow_add₀ (by norm_num),
          zpow_natCast, pow_succ]
        field_simp
    _ ≤ 2 ^ ulpExponent p emin d / 2 := by
        have hle : (2 : ℚ) ^ (Int.log 2 d - (p - 1)) ≤ 2 ^ ulpExponent p emin d :=
          zpow_le_zpow_right₀ (by norm_num) (le_max_right _ _)
        linarith

/-- A number off a magnitude by less than one part in `2 ^ (p + 1)`. -/
theorem roundTo_of_close {x d : ℚ} (hx : Representable p emin x)
    (hclose : |d - x| < x / 2 ^ (p + 1)) : roundTo p emin d = x := by
  obtain ⟨m, e, hm, he, rfl⟩ := hx
  have hd : 0 < d := by
    have hpart : (m : ℚ) * 2 ^ e / 2 ^ (p + 1) ≤ m * 2 ^ e :=
      div_le_self (by positivity) (one_le_pow₀ (by norm_num))
    have hlow := (abs_lt.mp hclose).1
    linarith
  have hle := ulpExponent_le hm he hd hclose
  have hhalf : |d - m * 2 ^ e| < 2 ^ ulpExponent p emin d / 2 := lt_half_ulp hm hclose
  rw [roundTo]
  generalize ulpExponent p emin d = u at hle hhalf
  -- the magnitude is a whole number of units of `d`
  have hunits : (m : ℚ) * 2 ^ e = (m * 2 ^ (e - u).toNat : ℕ) * 2 ^ u := by
    push_cast
    rw [mul_assoc, ← zpow_natCast, ← zpow_add₀ (by norm_num)]
    congr 2
    omega
  have hu : (0 : ℚ) < 2 ^ u := by positivity
  rw [hunits] at hhalf ⊢
  rw [roundHalfEven_of_close]
  rw [← mul_lt_mul_iff_left₀ hu]
  calc |d / 2 ^ u - (m * 2 ^ (e - u).toNat : ℕ)| * 2 ^ u
      = |d - (m * 2 ^ (e - u).toNat : ℕ) * 2 ^ u| := by
        rw [← abs_of_pos hu, ← abs_mul, abs_of_pos hu, sub_mul, div_mul_cancel₀ _ hu.ne']
    _ < 1 / 2 * 2 ^ u := by linarith

theorem roundTo_of_representable {x : ℚ} (hx : Representable p emin x) :
    roundTo p emin x = x := by
  rcases hx.nonneg.eq_or_lt with rfl | hpos
  · exact roundTo_zero p emin
  · exact roundTo_of_close hx (by rw [sub_self, abs_zero]; positivity)

/-- Rounding does not pass a multiple of the unit. -/
theorem roundTo_le {q : ℚ} {m : ℕ} {e : ℤ} (he : ulpExponent p emin q ≤ e)
    (h : q ≤ m * 2 ^ e) : roundTo p emin q ≤ m * 2 ^ e := by
  rw [roundTo]
  generalize ulpExponent p emin q = u at he
  obtain ⟨k, rfl⟩ := Int.le.dest he
  have hu : (0 : ℚ) < 2 ^ u := by positivity
  have hunits : (m : ℚ) * 2 ^ (u + k : ℤ) = (m * 2 ^ k : ℕ) * 2 ^ u := by
    rw [zpow_add₀ (by norm_num), zpow_natCast]
    push_cast
    ring
  rw [hunits] at h ⊢
  have hle : roundHalfEven (q / 2 ^ u) ≤ m * 2 ^ k := roundHalfEven_le ((div_le_iff₀ hu).mpr h)
  exact mul_le_mul_of_nonneg_right (by exact_mod_cast hle) hu.le

end

/-! ## Significant digits -/

/-- The exponent of the first of `P` significant digits and the digits as
a number, before a carry out of the first digit is taken care of. -/
def rawSignificand (P : ℕ) (q : ℚ) : ℕ := roundHalfEven (q / 10 ^ (Int.log 10 q - (P - 1)))

/-- `P` significant digits of `q` and the exponent of the first one. -/
def significand (P : ℕ) (q : ℚ) : ℕ × ℤ :=
  if rawSignificand P q = 10 ^ P then (10 ^ (P - 1), Int.log 10 q + 1)
  else (rawSignificand P q, Int.log 10 q)

/-- What the digits stand for. -/
def decimal (P : ℕ) (s : ℕ × ℤ) : ℚ := s.1 * 10 ^ (s.2 - (P - 1))

section

variable {P : ℕ} {q : ℚ}

theorem decimal_significand (hP : 0 < P) (q : ℚ) :
    decimal P (significand P q) = rawSignificand P q * 10 ^ (Int.log 10 q - (P - 1)) := by
  unfold significand
  split
  · rename_i hcarry
    obtain ⟨k, rfl⟩ : ∃ k, P = k + 1 := ⟨P - 1, by omega⟩
    rw [hcarry, decimal, Nat.add_sub_cancel,
      show Int.log 10 q + 1 - ((k + 1 : ℕ) - 1) = (Int.log 10 q - ((k + 1 : ℕ) - 1)) + 1 by ring,
      zpow_add_one₀ (by norm_num)]
    push_cast
    ring
  · rfl

/-- The number in units of its last digit. -/
theorem units_bounds (hP : 0 < P) (hq : 0 < q) :
    (10 : ℚ) ^ (P - 1) ≤ q / 10 ^ (Int.log 10 q - (P - 1)) ∧
      q / 10 ^ (Int.log 10 q - (P - 1)) < (10 : ℚ) ^ P := by
  have hlow : (10 : ℚ) ^ Int.log 10 q ≤ q := by
    exact_mod_cast Int.zpow_log_le_self (b := 10) (by decide) hq
  have hhigh : q < (10 : ℚ) ^ (Int.log 10 q + 1) := by
    exact_mod_cast Int.lt_zpow_succ_log_self (R := ℚ) (b := 10) (by decide) q
  have hunit : (0 : ℚ) < 10 ^ (Int.log 10 q - (P - 1)) := by positivity
  rw [le_div_iff₀ hunit, div_lt_iff₀ hunit, ← zpow_natCast, ← zpow_natCast,
    ← zpow_add₀ (by norm_num), ← zpow_add₀ (by norm_num)]
  refine ⟨?_, ?_⟩
  · rw [show ((P - 1 : ℕ) : ℤ) + (Int.log 10 q - (P - 1)) = Int.log 10 q by omega]
    exact hlow
  · rw [show (P : ℤ) + (Int.log 10 q - (P - 1)) = Int.log 10 q + 1 by ring]
    exact hhigh

/-- There are `P` digits, the first of them not a zero. -/
theorem significand_bounds (hP : 0 < P) (hq : 0 < q) :
    10 ^ (P - 1) ≤ (significand P q).1 ∧ (significand P q).1 < 10 ^ P := by
  obtain ⟨hlow, hhigh⟩ := units_bounds hP hq
  have hraw : 10 ^ (P - 1) ≤ rawSignificand P q ∧ rawSignificand P q ≤ 10 ^ P :=
    ⟨le_roundHalfEven (by push_cast; exact hlow), roundHalfEven_le (by push_cast; exact hhigh.le)⟩
  unfold significand
  split
  · exact ⟨le_refl _, Nat.pow_lt_pow_right (by decide) (by omega)⟩
  · rename_i hcarry
    exact ⟨hraw.1, Nat.lt_of_le_of_ne hraw.2 hcarry⟩

/-- Rounding to whole units. -/
theorem abs_units_sub_le {u : ℚ} (hu : 0 < u) (hq : 0 ≤ q) :
    |(roundHalfEven (q / u) : ℚ) * u - q| ≤ u / 2 := by
  have hround := abs_roundHalfEven_sub_le (x := q / u) (by positivity)
  calc |(roundHalfEven (q / u) : ℚ) * u - q| = |(roundHalfEven (q / u) : ℚ) - q / u| * u := by
        rw [← abs_of_pos hu, ← abs_mul, abs_of_pos hu, sub_mul, div_mul_cancel₀ _ hu.ne']
    _ ≤ 1 / 2 * u := mul_le_mul_of_nonneg_right hround hu.le
    _ = u / 2 := by ring

/-- Half a unit of the last digit is a small part of the number. -/
theorem abs_decimal_sub_le (hP : 0 < P) (hq : 0 < q) :
    |decimal P (significand P q) - q| ≤ q / (2 * 10 ^ (P - 1)) := by
  obtain ⟨hlow, -⟩ := units_bounds hP hq
  rw [decimal_significand hP, rawSignificand]
  have hunit : (0 : ℚ) < 10 ^ (Int.log 10 q - (P - 1)) := by positivity
  generalize (10 : ℚ) ^ (Int.log 10 q - (P - 1)) = u at hlow hunit
  refine (abs_units_sub_le hunit hq.le).trans ?_
  rw [le_div_iff₀ hunit] at hlow
  rw [div_le_div_iff₀ (by norm_num) (by positivity)]
  linarith

/-- Enough digits determine a magnitude. -/
theorem roundTo_significand {p : ℕ} {emin : ℤ} (hP : 0 < P) (hdigits : 2 ^ p < 10 ^ (P - 1))
    (hq : 0 < q) (hrep : Representable p emin q) :
    roundTo p emin (decimal P (significand P q)) = q := by
  refine roundTo_of_close hrep ((abs_decimal_sub_le hP hq).trans_lt ?_)
  have hdigits' : (2 : ℚ) ^ p < 10 ^ (P - 1) := by exact_mod_cast hdigits
  refine div_lt_div_of_pos_left hq (by positivity) ?_
  rw [pow_succ]
  linarith

end

end BinaryFloat
