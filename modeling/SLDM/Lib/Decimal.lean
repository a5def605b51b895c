/-
SLDM.Lib.Decimal — numbers as decimal text.

`toFixed d q` is what a C++ stream in `std::fixed` notation writes for `q`
with precision `d > 0`: the nearest multiple of `10 ^ -d`, an exact tie
going to the even one, and a sign for every negative number. `stod` is the
value `std::stod` reads at the start of a text, `none` standing for
`invalid_argument`; of the forms it knows only the plain decimal one is
modelled (no exponent, no hexadecimal number, no `inf`, no `nan`), which
is the form `toFixed` writes.

* `stod_toFixed` — reading back what was written is off by at most half a
  unit of the last decimal;
* `isSome_stod_prefix_iff` — a number cut short can be read as soon as one
  digit of it is there.

Nothing in this module is about a particular program.
-/
import Mathlib.Data.List.TakeWhile
import Mathlib.Data.Rat.Floor
import Mathlib.Tactic.Linarith
import Mathlib.Tactic.FieldSimp

namespace Decimal

/-! ## Writing -/

/-- The nearest natural number, the even one of two. -/
def roundHalfEven (x : ℚ) : ℕ :=
  let n := ⌊x⌋₊
  if x - n < 1 / 2 then n
  else if 1 / 2 < x - n then n + 1
  else if n % 2 = 0 then n else n + 1

def sign (q : ℚ) : List Char := if q < 0 then ['-'] else []

/-- `n` in decimal, with leading zeros up to `d` digits. -/
def padded (d n : ℕ) : List Char :=
  let digits := Nat.toDigits 10 n
  List.replicate (d - digits.length) '0' ++ digits

/-- `std::fixed << std::setprecision(d) << q`. -/
def toFixed (d : ℕ) (q : ℚ) : List Char :=
  let n := roundHalfEven (|q| * 10 ^ d)
  sign q ++ (Nat.toDigits 10 (n / 10 ^ d) ++ '.' :: padded d (n % 10 ^ d))

/-! ## Reading -/

/-- `isspace` in the C locale. -/
def isSpace (c : Char) : Bool := c = ' ' || (9 ≤ c.toNat && c.toNat ≤ 13)

/-- A number without a sign. -/
def mantissa (t : List Char) : Option ℚ :=
  let whole := t.takeWhile Char.isDigit
  let fraction := match t.dropWhile Char.isDigit with
    | '.' :: rest => rest.takeWhile Char.isDigit
    | _ => []
  if whole ++ fraction = [] then none
  else some (Nat.ofDigitChars 10 (whole ++ fraction) 0 / 10 ^ fraction.length)

/-- `std::stod`. -/
def stod (t : List Char) : Option ℚ :=
  match t.dropWhile isSpace with
  | '-' :: rest => (mantissa rest).map (- ·)
  | '+' :: rest => mantissa rest
  | rest => mantissa rest

/-- What `stod` leaves unread of a text it reads a number from. -/
def unread (t : List Char) : List Char :=
  let unsigned := match t.dropWhile isSpace with
    | '-' :: rest => rest
    | '+' :: rest => rest
    | rest => rest
  match unsigned.dropWhile Char.isDigit with
  | '.' :: rest => rest.dropWhile Char.isDigit
  | rest => rest

example : toFixed 6 (-450677001 / 10000000) = "-45.067700".toList := by decide +kernel

example : stod "-45.067700".toList = some (-450677 / 10000) := by decide +kernel

/-! ## Digits -/

theorem isDigit_toDigits {n : ℕ} : ∀ c ∈ Nat.toDigits 10 n, c.isDigit = true :=
  fun _ hc => Nat.isDigit_of_mem_toDigits (by decide) (by decide) hc

theorem toDigits_eq_cons (n : ℕ) : ∃ c rest, Nat.toDigits 10 n = c :: rest ∧ c.isDigit = true := by
  obtain ⟨c, rest, hcons⟩ := List.exists_cons_of_ne_nil (Nat.toDigits_ne_nil (n := n) (b := 10))
  exact ⟨c, rest, hcons, isDigit_toDigits c (hcons ▸ List.mem_cons_self)⟩

theorem isDigit_padded {d n : ℕ} : ∀ c ∈ padded d n, c.isDigit = true := by
  intro c hc
  rcases List.mem_append.mp hc with hzero | hdigit
  · rw [List.eq_of_mem_replicate hzero]
    decide
  · exact isDigit_toDigits c hdigit

/-- The characters a number is written with. -/
theorem mem_toFixed {d : ℕ} {q : ℚ} {c : Char} (h : c ∈ toFixed d q) :
    c = '-' ∨ c = '.' ∨ c.isDigit = true := by
  simp only [toFixed, List.mem_append, List.mem_cons] at h
  rcases h with hsign | hwhole | hpoint | hfraction
  · unfold sign at hsign
    split at hsign
    · exact Or.inl (List.mem_singleton.mp hsign)
    · exact absurd hsign List.not_mem_nil
  · exact Or.inr (Or.inr (isDigit_toDigits c hwhole))
  · exact Or.inr (Or.inl hpoint)
  · exact Or.inr (Or.inr (isDigit_padded c hfraction))

theorem length_padded {d n : ℕ} (hd : 0 < d) (hn : n < 10 ^ d) : (padded d n).length = d := by
  have hle := (Nat.length_toDigits_le_iff (n := n) (b := 10) (by decide) hd).mpr hn
  simp only [padded, List.length_append, List.length_replicate]
  omega

/-- The digits before and after the point are those of the number of
units of the last decimal. -/
theorem ofDigitChars_append_padded {d n : ℕ} (hd : 0 < d) :
    Nat.ofDigitChars 10 (Nat.toDigits 10 (n / 10 ^ d) ++ padded d (n % 10 ^ d)) 0 = n := by
  have hlt : n % 10 ^ d < 10 ^ d := Nat.mod_lt n (by positivity)
  rw [Nat.ofDigitChars_append, Nat.ofDigitChars_ten_toDigits, Nat.ofDigitChars_eq_ofDigitChars_zero,
    length_padded hd hlt]
  have hvalue : Nat.ofDigitChars 10 (padded d (n % 10 ^ d)) 0 = n % 10 ^ d := by
    rw [padded, Nat.ofDigitChars_append, Nat.ofDigitChars_replicate_zero, Nat.mul_zero,
      Nat.ofDigitChars_ten_toDigits]
  rw [hvalue]
  exact Nat.div_add_mod n (10 ^ d)

theorem takeWhile_digits {l : List Char} (h : ∀ c ∈ l, c.isDigit = true) (rest : List Char) :
    (l ++ '.' :: rest).takeWhile Char.isDigit = l ∧
      (l ++ '.' :: rest).dropWhile Char.isDigit = '.' :: rest := by
  have hdot : Char.isDigit '.' = false := by decide
  rw [List.takeWhile_append_of_pos h, List.dropWhile_append_of_pos h]
  simp [hdot]

/-! ## Reading what was written -/

theorem mantissa_fixed {d n : ℕ} (hd : 0 < d) :
    mantissa (Nat.toDigits 10 (n / 10 ^ d) ++ '.' :: padded d (n % 10 ^ d)) =
      some (n / 10 ^ d : ℚ) := by
  have hlt : n % 10 ^ d < 10 ^ d := Nat.mod_lt n (by positivity)
  have hsplit := takeWhile_digits (isDigit_toDigits (n := n / 10 ^ d)) (padded d (n % 10 ^ d))
  have hfrac : (padded d (n % 10 ^ d)).takeWhile Char.isDigit = padded d (n % 10 ^ d) :=
    List.takeWhile_eq_self_iff.mpr isDigit_padded
  simp only [mantissa, hsplit, hfrac]
  rw [if_neg (by simp [Nat.toDigits_ne_nil]), ofDigitChars_append_padded hd, length_padded hd hlt]

/-- No digit is a space. -/
theorem isSpace_of_isDigit {c : Char} (hc : c.isDigit = true) : isSpace c = false := by
  simp only [Char.isDigit, Bool.and_eq_true, decide_eq_true_eq] at hc
  have hlow : 48 ≤ c.toNat := hc.1
  have hne : c ≠ ' ' := by rintro rfl; revert hlow; decide
  simp only [isSpace, hne, decide_false, Bool.false_or, Bool.and_eq_false_iff,
    decide_eq_false_iff_not]
  omega

/-- The sign and what follows it. -/
theorem stod_sign {q : ℚ} {c : Char} (hc : c.isDigit = true) (rest : List Char) :
    stod (sign q ++ c :: rest) =
      (mantissa (c :: rest)).map (fun v => if q < 0 then -v else v) := by
  have hspace := isSpace_of_isDigit hc
  have hminus : c ≠ '-' := by rintro rfl; revert hc; decide
  have hplus : c ≠ '+' := by rintro rfl; revert hc; decide
  by_cases hq : q < 0
  · have hdash : isSpace '-' = false := by decide
    simp only [stod, sign, if_pos hq, List.singleton_append, List.dropWhile_cons, hdash,
      Bool.false_eq_true, if_false]
  · simp only [stod, sign, if_neg hq, List.nil_append, List.dropWhile_cons, hspace,
      Bool.false_eq_true, if_false, Option.map_id']
    split
    · rename_i heq; exact absurd (List.cons.inj heq).1 hminus
    · rename_i heq; exact absurd (List.cons.inj heq).1 hplus
    · rfl

theorem abs_roundHalfEven_sub_le {x : ℚ} (hx : 0 ≤ x) : |(roundHalfEven x : ℚ) - x| ≤ 1 / 2 := by
  have hlow : (⌊x⌋₊ : ℚ) ≤ x := Nat.floor_le hx
  have hhigh : x < ⌊x⌋₊ + 1 := Nat.lt_floor_add_one x
  unfold roundHalfEven
  rw [abs_le]
  simp only
  split_ifs <;> push_cast <;> constructor <;> linarith

/-- Reading back what was written. -/
theorem stod_toFixed {d : ℕ} (hd : 0 < d) (q : ℚ) :
    ∃ v, stod (toFixed d q) = some v ∧ |v - q| ≤ 1 / 2 / 10 ^ d := by
  have hpos : (0 : ℚ) < 10 ^ d := by positivity
  have hround := abs_roundHalfEven_sub_le (x := |q| * 10 ^ d) (by positivity)
  generalize hn : roundHalfEven (|q| * 10 ^ d) = n at hround
  obtain ⟨c, rest, hcons, hc⟩ := toDigits_eq_cons (n / 10 ^ d)
  have hread : stod (toFixed d q) = some (if q < 0 then -(n / 10 ^ d : ℚ) else n / 10 ^ d) := by
    have hm := mantissa_fixed (n := n) hd
    rw [hcons, List.cons_append] at hm
    simp only [toFixed, hn]
    rw [hcons, List.cons_append, stod_sign hc, hm, Option.map_some]
  refine ⟨_, hread, ?_⟩
  have hdiv : |(n / 10 ^ d : ℚ) - (|q|)| ≤ 1 / 2 / 10 ^ d := by
    have hrw : (n / 10 ^ d : ℚ) - |q| = (n - |q| * 10 ^ d) / 10 ^ d := by
      field_simp
    rw [hrw, abs_div, abs_of_pos hpos]
    exact div_le_div_of_nonneg_right hround hpos.le
  split_ifs with hq
  · rw [abs_of_neg hq] at hdiv
    rw [← abs_neg, show -(-(n / 10 ^ d : ℚ) - q) = n / 10 ^ d - -q by ring]
    exact hdiv
  · rw [abs_of_nonneg (not_lt.mp hq)] at hdiv
    exact hdiv

/-! ## Numbers cut short -/

theorem isSome_mantissa_cons {c : Char} (hc : c.isDigit = true) (rest : List Char) :
    (mantissa (c :: rest)).isSome = true := by
  simp only [mantissa, List.takeWhile_cons, hc, if_true, List.cons_append]
  rw [if_neg (List.cons_ne_nil _ _), Option.isSome_some]

/-- A number cut short can be read exactly when its first digit is there. -/
theorem isSome_stod_prefix_iff {d : ℕ} {q : ℚ} {p : List Char} (hp : p <+: toFixed d q) :
    (stod p).isSome = true ↔ (sign q).length < p.length := by
  generalize hn : roundHalfEven (|q| * 10 ^ d) = n
  simp only [toFixed, hn] at hp
  obtain ⟨c, rest, hcons, hc⟩ := toDigits_eq_cons (n / 10 ^ d)
  rw [hcons, List.cons_append] at hp
  by_cases hlen : (sign q).length < p.length
  · have hsign : sign q <+: p :=
      List.prefix_of_prefix_length_le (List.prefix_append _ _) hp (Nat.le_of_lt hlen)
    obtain ⟨r, rfl⟩ := hsign
    rw [List.prefix_append_right_inj] at hp
    cases r with
    | nil => simp at hlen
    | cons e r =>
      obtain ⟨rfl, -⟩ := List.cons_prefix_cons.mp hp
      rw [stod_sign hc, Option.isSome_map]
      exact iff_of_true (isSome_mantissa_cons hc r) hlen
  · have hsign : p <+: sign q :=
      List.prefix_of_prefix_length_le hp (List.prefix_append _ _) (not_lt.mp hlen)
    -- nothing, or a sign alone
    have hnone : stod p = none := by
      unfold sign at hsign
      split at hsign
      · rcases List.prefix_cons_iff.mp hsign with rfl | ⟨r, rfl, hr⟩
        · decide
        · rw [List.prefix_nil.mp hr]
          decide
      · rw [List.prefix_nil.mp hsign]
        decide
    rw [hnone]
    exact iff_of_false Bool.false_ne_true hlen

end Decimal
