/-
SLDM.Lib.NumberText — binary64 numbers as text.

A `Literal` is a number as JSON and most languages write it: a sign, digits
without a leading zero, a fraction and an exponent. `strtod` and `atoi` read
the longest number at the start of a text, `formatG P` is what `%.*g` prints
with precision `P`.

* `Literal.strtod_text`, `Literal.atoi_text` — a literal is read as what it stands
  for, whatever follows that does not continue it;
* `exists_literal_formatG` — what `%g` prints is a literal that stands for
  the `P` significant digits;
* `exists_literal_printDouble` — seventeen digits are read back as the number
  printed.

Nothing in this module is about a particular program.
-/
import SLDM.Lib.BinaryFloat
import Mathlib.Data.List.DropRight

namespace NumberText

open BinaryFloat Decimal

abbrev Text := List Char

/-! ## Doubles -/

/-- A finite double without its sign. -/
structure Magnitude where
  value : ℚ
  representable : Representable 53 (-1074) value
  bounded : value < 2 ^ 1024
  deriving DecidableEq

inductive Double where
  | finite (negative : Bool) (magnitude : Magnitude)
  | infinite (negative : Bool)
  | nan
  deriving DecidableEq

def signed (negative : Bool) (q : ℚ) : ℚ := if negative then -q else q

namespace Double

/-- `std::isfinite`. -/
def isFinite : Double → Bool
  | finite _ _ => true
  | _ => false

/-- `==` on doubles: the zeros are equal and `nan` is not equal to itself. -/
def eq : Double → Double → Bool
  | finite s x, finite t y => signed s x.value = signed t y.value
  | infinite s, infinite t => s = t
  | _, _ => false

/-- `<` on doubles: `nan` is not less than anything, and nothing is less. -/
def lt : Double → Double → Bool
  | finite s x, finite t y => signed s x.value < signed t y.value
  | finite _ _, infinite t => !t
  | infinite s, finite _ _ => s
  | infinite s, infinite t => s && !t
  | _, _ => false

/-- The double nearest to a magnitude. -/
def ofMagnitude (negative : Bool) (q : ℚ) : Double :=
  if h : roundTo 53 (-1074) q < 2 ^ 1024 then
    finite negative ⟨roundTo 53 (-1074) q, representable_roundTo (by decide) q, h⟩
  else infinite negative

/-- The double nearest to a number. -/
def ofRat (q : ℚ) : Double := ofMagnitude (decide (q < 0)) |q|

theorem eq_refl_iff {x : Double} : eq x x = true ↔ x ≠ nan := by
  cases x <;> simp [eq]

theorem ofMagnitude_of_roundTo {negative : Bool} {q : ℚ} {x : Magnitude}
    (h : roundTo 53 (-1074) q = x.value) : ofMagnitude negative q = finite negative x := by
  obtain ⟨v, hrep, hbound⟩ := x
  dsimp only at h
  subst h
  rw [ofMagnitude, dif_pos hbound]

/-- Rounding a number with its sign or its magnitude. -/
theorem eq_ofRat_signed (negative : Bool) {q : ℚ} (hq : 0 ≤ q) :
    eq (ofRat (signed negative q)) (ofMagnitude negative q) = true := by
  rcases hq.eq_or_lt with rfl | hpos
  · -- the sign of a zero is lost, and makes no difference
    have hzero : ∀ s, ofMagnitude s 0 = finite s ⟨0, roundTo_zero 53 (-1074) ▸
        representable_roundTo (by decide) 0, by norm_num⟩ :=
      fun s => ofMagnitude_of_roundTo (roundTo_zero 53 (-1074))
    cases negative <;> simp [ofRat, signed, hzero, eq]
  · have hrat : ofRat (signed negative q) = ofMagnitude negative q := by
      cases negative with
      | true => simp [ofRat, signed, hpos, abs_of_pos]
      | false => simp [ofRat, signed, not_lt.mpr hpos.le, abs_of_pos hpos]
    rw [hrat, eq_refl_iff, ofMagnitude]
    split <;> simp

end Double

/-! ## Literals -/

def signText (negative : Bool) : Text := if negative then ['-'] else []

/-- `%.*f` with precision `d`: the decimals of the double itself, not of the
number it was rounded from. -/
def Double.toFixed (d : ℕ) : Double → Text
  | finite negative x => signText negative ++ Decimal.toFixed d x.value
  | infinite negative => signText negative ++ "inf".toList
  | nan => "nan".toList

structure Exponent where
  mark : Char
  sign : Text
  digits : Text
  mark_eq : mark = 'e' ∨ mark = 'E'
  sign_eq : sign = [] ∨ sign = ['+'] ∨ sign = ['-']
  digits_ne_nil : digits ≠ []
  isDigit_digits : ∀ c ∈ digits, c.isDigit = true

namespace Exponent

def text (e : Exponent) : Text := e.mark :: (e.sign ++ e.digits)

def value (e : Exponent) : ℤ :=
  if e.sign = ['-'] then -(Nat.ofDigitChars 10 e.digits 0 : ℤ) else Nat.ofDigitChars 10 e.digits 0

end Exponent

/-- `fraction` is empty where there is no decimal point. -/
structure Literal where
  negative : Bool
  whole : Text
  fraction : Text
  exponent : Option Exponent
  whole_ne_nil : whole ≠ []
  isDigit_whole : ∀ c ∈ whole, c.isDigit = true
  no_leading_zero : ∀ c rest, whole = '0' :: c :: rest → False
  isDigit_fraction : ∀ c ∈ fraction, c.isDigit = true

namespace Literal

def fractionText (fraction : Text) : Text := if fraction = [] then [] else '.' :: fraction

def exponentText (exponent : Option Exponent) : Text := (exponent.map Exponent.text).getD []

def text (l : Literal) : Text :=
  signText l.negative ++ l.whole ++ fractionText l.fraction ++
    exponentText l.exponent

def exponentValue (exponent : Option Exponent) : ℤ := (exponent.map Exponent.value).getD 0

/-- What a literal stands for, without the sign. -/
def magnitude (l : Literal) : ℚ :=
  Nat.ofDigitChars 10 (l.whole ++ l.fraction) 0 *
    10 ^ (exponentValue l.exponent - l.fraction.length)

/-- What follows a literal does not continue it. -/
def StopsAt (l : Literal) (rest : Text) : Prop :=
  ∀ c ∈ rest.head?, c.isDigit = false ∧
    (l.exponent = none → c ≠ 'e' ∧ c ≠ 'E' ∧ (l.fraction = [] → c ≠ '.'))

end Literal

/-! ## Reading -/

def readSign : Text → Bool × Text
  | '-' :: t => (true, t)
  | '+' :: t => (false, t)
  | t => (false, t)

/-- The digits of a fraction and what follows them. -/
def readFraction : Text → Text × Text
  | '.' :: t => (t.takeWhile Char.isDigit, t.dropWhile Char.isDigit)
  | t => ([], t)

def readExponent : Text → ℤ
  | [] => 0
  | c :: t =>
    if c = 'e' ∨ c = 'E' then
      let value := Nat.ofDigitChars 10 ((readSign t).2.takeWhile Char.isDigit) 0
      if (readSign t).1 then -(value : ℤ) else value
    else 0

/-- `strtod`, for decimal numbers. -/
def strtod (t : Text) : Double :=
  let (negative, unsigned) := readSign (t.dropWhile isSpace)
  let whole := unsigned.takeWhile Char.isDigit
  let (fraction, rest) := readFraction (unsigned.dropWhile Char.isDigit)
  if whole ++ fraction = [] then Double.ofMagnitude false 0
  else
    Double.ofMagnitude negative
      (Nat.ofDigitChars 10 (whole ++ fraction) 0 * 10 ^ (readExponent rest - fraction.length))

/-- `atoi`, for numbers in the range of an `int`. -/
def atoi (t : Text) : ℤ :=
  let (negative, unsigned) := readSign (t.dropWhile isSpace)
  let value := Nat.ofDigitChars 10 (unsigned.takeWhile Char.isDigit) 0
  if negative then -(value : ℤ) else value

/-! ## Printing -/

/-- A fraction without its trailing zeros. -/
def stripZeros (t : Text) : Text := t.rdropWhile (· = '0')

/-- The exponent as `%e` prints it. -/
def printExponent (x : ℤ) : Text := 'e' :: (if x < 0 then '-' else '+') :: padded 2 x.natAbs

/-- `%.*g` of a magnitude with precision `P`. -/
def formatG (P : ℕ) (q : ℚ) : Text :=
  if q = 0 then ['0']
  else
    let (n, x) := significand P q
    let digits := Nat.toDigits 10 n
    if x < -4 ∨ P ≤ x then
      digits.take 1 ++ Literal.fractionText (stripZeros (digits.drop 1)) ++ printExponent x
    else if x < 0 then
      '0' :: Literal.fractionText (stripZeros (List.replicate (-x - 1).toNat '0' ++ digits))
    else
      digits.take (x + 1).toNat ++ Literal.fractionText (stripZeros (digits.drop (x + 1).toNat))

/-- `%.17g`. -/
def printDouble (negative : Bool) (x : Magnitude) : Text :=
  signText negative ++ formatG 17 x.value

/-- `%d`, and `%llu` of what is not negative. -/
def printInt (n : ℤ) : Text := signText (n < 0) ++ Nat.toDigits 10 n.natAbs

example : formatG 17 (3602879701896397 / 2 ^ 55) = "0.10000000000000001".toList := by
  decide +kernel

example : strtod "0.1".toList = strtod "0.10000000000000001".toList := by decide +kernel

/-! ## Reading a literal -/

/-- A run of characters is taken up to what ends it. -/
theorem takeWhile_append_of_stop {p : Char → Bool} {l rest : Text} (hl : ∀ c ∈ l, p c = true)
    (hrest : ∀ c ∈ rest.head?, p c = false) :
    (l ++ rest).takeWhile p = l ∧ (l ++ rest).dropWhile p = rest := by
  rw [List.takeWhile_append_of_pos hl, List.dropWhile_append_of_pos hl]
  cases rest with
  | nil => simp
  | cons c rest => simp [hrest c rfl]

/-- Every text is a run of characters and what ends it. -/
theorem exists_run (p : Char → Bool) (t : Text) :
    ∃ l rest, t = l ++ rest ∧ (∀ c ∈ l, p c = true) ∧ ∀ c ∈ rest.head?, p c = false := by
  induction t with
  | nil => exact ⟨[], [], rfl, by simp, by simp⟩
  | cons c t ih =>
    cases hc : p c with
    | false => exact ⟨[], c :: t, rfl, by simp, by simpa using hc⟩
    | true =>
      obtain ⟨l, rest, rfl, hl, hrest⟩ := ih
      exact ⟨c :: l, rest, rfl, List.forall_mem_cons.mpr ⟨hc, hl⟩, hrest⟩

theorem readSign_sign (negative : Bool) {c : Char} (hc : c.isDigit = true) (t : Text) :
    readSign (signText negative ++ c :: t) = (negative, c :: t) := by
  cases negative with
  | true => rfl
  | false =>
    have hminus : c ≠ '-' := by rintro rfl; revert hc; decide
    have hplus : c ≠ '+' := by rintro rfl; revert hc; decide
    simp only [signText, Bool.false_eq_true, if_false, List.nil_append]
    unfold readSign
    split
    · rename_i heq; exact absurd (List.cons.inj heq).1 hminus
    · rename_i heq; exact absurd (List.cons.inj heq).1 hplus
    · rfl

/-- A number starts with no space. -/
theorem dropWhile_isSpace_sign (negative : Bool) {c : Char} (hc : c.isDigit = true) (t : Text) :
    (signText negative ++ c :: t).dropWhile isSpace =
      signText negative ++ c :: t := by
  cases negative with
  | true => rfl
  | false => simp [signText, isSpace_of_isDigit hc]

namespace Exponent

theorem isDigit_mark (e : Exponent) : e.mark.isDigit = false := by
  rcases e.mark_eq with h | h <;> rw [h] <;> decide

theorem mark_ne_point (e : Exponent) : e.mark ≠ '.' := by
  rcases e.mark_eq with h | h <;> rw [h] <;> decide

theorem readExponent_text (e : Exponent) {rest : Text}
    (hrest : ∀ c ∈ rest.head?, c.isDigit = false) : readExponent (e.text ++ rest) = e.value := by
  obtain ⟨c, digits, hdigits⟩ := List.exists_cons_of_ne_nil e.digits_ne_nil
  have hc : c.isDigit = true := e.isDigit_digits c (by rw [hdigits]; exact List.mem_cons_self)
  have htake := (takeWhile_append_of_stop e.isDigit_digits hrest).1
  have hsign : readSign (e.sign ++ e.digits ++ rest) =
      (decide (e.sign = ['-']), e.digits ++ rest) := by
    rw [hdigits]
    rcases e.sign_eq with h | h | h <;> rw [h]
    · exact readSign_sign false hc (digits ++ rest)
    · rfl
    · rfl
  rw [text, List.cons_append, readExponent, if_pos e.mark_eq]
  simp only [hsign, htake, value, decide_eq_true_eq]

end Exponent

namespace Literal

variable (l : Literal)

/-- What follows the digits before the point does not continue them. -/
theorem stops_whole {rest : Text} (hrest : l.StopsAt rest) :
    ∀ c ∈ (fractionText l.fraction ++ exponentText l.exponent ++ rest).head?,
      c.isDigit = false := by
  intro c hc
  unfold fractionText at hc
  split at hc
  · cases he : l.exponent with
    | none =>
      rw [he] at hc
      exact (hrest c (by simpa [exponentText] using hc)).1
    | some e =>
      rw [he] at hc
      simp only [exponentText, Exponent.text, Option.map_some, Option.getD_some, List.nil_append,
        List.cons_append, List.head?_cons, Option.mem_def, Option.some.injEq] at hc
      exact hc ▸ e.isDigit_mark
  · simp only [List.cons_append, List.head?_cons, Option.mem_def, Option.some.injEq] at hc
    subst hc
    decide

/-- The same for the digits after the point. -/
theorem stops_fraction {rest : Text} (hrest : l.StopsAt rest) :
    ∀ c ∈ (exponentText l.exponent ++ rest).head?,
      c.isDigit = false ∧ (l.fraction = [] → c ≠ '.') := by
  intro c hc
  cases he : l.exponent with
  | none =>
    rw [he] at hc
    have hstop := hrest c (by simpa [exponentText] using hc)
    exact ⟨hstop.1, (hstop.2 he).2.2⟩
  | some e =>
    rw [he] at hc
    simp only [exponentText, Exponent.text, Option.map_some, Option.getD_some, List.cons_append,
      List.head?_cons, Option.mem_def, Option.some.injEq] at hc
    subst hc
    exact ⟨e.isDigit_mark, fun _ => e.mark_ne_point⟩

theorem readFraction_text {rest : Text} (hrest : l.StopsAt rest) :
    readFraction (fractionText l.fraction ++ exponentText l.exponent ++ rest) =
      (l.fraction, exponentText l.exponent ++ rest) := by
  have hstop := l.stops_fraction hrest
  rw [List.append_assoc]
  by_cases hf : l.fraction = []
  · rw [fractionText, if_pos hf, List.nil_append, hf]
    cases ht : exponentText l.exponent ++ rest with
    | nil => rfl
    | cons c t =>
      have hpoint : c ≠ '.' := (hstop c (by rw [ht]; rfl)).2 hf
      unfold readFraction
      split
      · rename_i heq; exact absurd (List.cons.inj heq).1 hpoint
      · rfl
  · have hsplit := takeWhile_append_of_stop l.isDigit_fraction fun c hc => (hstop c hc).1
    rw [fractionText, if_neg hf, List.cons_append, readFraction, hsplit.1, hsplit.2]

theorem readExponent_text {rest : Text} (hrest : l.StopsAt rest) :
    readExponent (exponentText l.exponent ++ rest) = exponentValue l.exponent := by
  cases he : l.exponent with
  | none =>
    cases rest with
    | nil => rfl
    | cons c t =>
      obtain ⟨he1, he2, -⟩ := (hrest c rfl).2 he
      simp [exponentText, exponentValue, readExponent, he1, he2]
  | some e => exact e.readExponent_text fun c hc => (hrest c hc).1

/-- A literal after its sign starts with a digit. -/
theorem text_append (rest : Text) :
    ∃ c t, c.isDigit = true ∧ l.whole = c :: t ∧ l.text ++ rest =
      signText l.negative ++
        c :: (t ++ (fractionText l.fraction ++ exponentText l.exponent ++ rest)) := by
  obtain ⟨c, t, hwhole⟩ := List.exists_cons_of_ne_nil l.whole_ne_nil
  refine ⟨c, t, l.isDigit_whole c (by rw [hwhole]; exact List.mem_cons_self), hwhole, ?_⟩
  simp only [text, hwhole, List.append_assoc, List.cons_append]

/-- A literal is read as what it stands for. -/
theorem strtod_text {rest : Text} (hrest : l.StopsAt rest) :
    strtod (l.text ++ rest) = Double.ofMagnitude l.negative l.magnitude := by
  obtain ⟨c, t, hc, hwhole, htext⟩ := l.text_append rest
  have hsplit := takeWhile_append_of_stop l.isDigit_whole (l.stops_whole hrest)
  rw [hwhole, List.cons_append] at hsplit
  rw [htext, strtod, dropWhile_isSpace_sign l.negative hc, readSign_sign l.negative hc]
  simp only [hsplit, l.readFraction_text hrest, l.readExponent_text hrest]
  rw [if_neg (by simp), magnitude, hwhole]

/-- So is the whole part of one by `atoi`. -/
theorem atoi_text {rest : Text} (hrest : l.StopsAt rest) :
    atoi (l.text ++ rest) = if l.negative then -(Nat.ofDigitChars 10 l.whole 0 : ℤ)
      else Nat.ofDigitChars 10 l.whole 0 := by
  obtain ⟨c, t, hc, hwhole, htext⟩ := l.text_append rest
  have hsplit := takeWhile_append_of_stop l.isDigit_whole (l.stops_whole hrest)
  rw [hwhole, List.cons_append] at hsplit
  rw [htext, atoi, dropWhile_isSpace_sign l.negative hc, readSign_sign l.negative hc]
  simp only [hsplit.1, hwhole]

end Literal

/-! ## Printing gives literals -/

theorem ofDigitChars_lt {l : Text} (h : ∀ c ∈ l, c.isDigit = true) :
    Nat.ofDigitChars 10 l 0 < 10 ^ l.length := by
  induction l using List.reverseRecOn with
  | nil => decide
  | append_singleton l c ih =>
    have hc := h c (List.mem_append_right l List.mem_cons_self)
    have hl := ih fun d hd => h d (List.mem_append_left _ hd)
    simp only [Char.isDigit, Bool.and_eq_true, decide_eq_true_eq, ge_iff_le,
      UInt32.le_iff_toNat_le] at hc
    have hdigit : c.toNat - '0'.toNat < 10 := by
      have hhigh : c.toNat ≤ 57 := hc.2
      have hzero : '0'.toNat = 48 := rfl
      omega
    rw [Nat.ofDigitChars_append, Nat.ofDigitChars_cons, Nat.ofDigitChars_nil, List.length_append,
      List.length_singleton, pow_succ]
    omega

theorem toDigits_ne_cons_zero (n : ℕ) (c : Char) (rest : Text) :
    Nat.toDigits 10 n ≠ '0' :: c :: rest := by
  intro h
  have hdigit : ∀ d ∈ c :: rest, d.isDigit = true := fun d hd =>
    isDigit_toDigits (n := n) d (by rw [h]; exact List.mem_cons_of_mem _ hd)
  have hvalue : n = Nat.ofDigitChars 10 (c :: rest) 0 := by
    conv_lhs => rw [← Nat.ofDigitChars_ten_toDigits (n := n), h]
    rfl
  have hlt := ofDigitChars_lt hdigit
  rw [← hvalue] at hlt
  have hlen := (Nat.length_toDigits_le_iff (b := 10) (by decide) (Nat.succ_pos _)).mpr hlt
  simp [h] at hlen

theorem exists_stripZeros (t : Text) : ∃ k, t = stripZeros t ++ List.replicate k '0' := by
  refine ⟨(t.rtakeWhile (· = '0')).length, ?_⟩
  have hzeros : t.rtakeWhile (· = '0') = List.replicate (t.rtakeWhile (· = '0')).length '0' :=
    List.eq_replicate_iff.mpr ⟨rfl, fun c hc => by simpa using List.mem_rtakeWhile_imp hc⟩
  rw [stripZeros, ← hzeros, List.rdropWhile_append_rtakeWhile]

/-- Zeros at the end of a fraction change nothing. -/
theorem stripZeros_value (whole t : Text) (x : ℤ) :
    (Nat.ofDigitChars 10 (whole ++ stripZeros t) 0 : ℚ) * 10 ^ (x - (stripZeros t).length) =
      Nat.ofDigitChars 10 (whole ++ t) 0 * 10 ^ (x - t.length) := by
  obtain ⟨k, hk⟩ := exists_stripZeros t
  generalize stripZeros t = s at hk
  subst hk
  rw [← List.append_assoc, Nat.ofDigitChars_append (l := whole ++ s),
    Nat.ofDigitChars_replicate_zero, List.length_append, List.length_replicate]
  push_cast
  rw [show x - (s.length : ℤ) = k + (x - (s.length + k)) by ring, zpow_add₀ (by norm_num),
    zpow_natCast]
  ring

/-- A literal from its digits, the zeros at the end of the fraction left
out. -/
def stripped (negative : Bool) (whole fraction : Text) (exponent : Option Exponent)
    (hne : whole ≠ []) (hwhole : ∀ c ∈ whole, c.isDigit = true)
    (hzero : ∀ c rest, whole = '0' :: c :: rest → False)
    (hfraction : ∀ c ∈ fraction, c.isDigit = true) : Literal where
  negative
  whole
  fraction := stripZeros fraction
  exponent
  whole_ne_nil := hne
  isDigit_whole := hwhole
  no_leading_zero := hzero
  isDigit_fraction := fun c hc => hfraction c ((List.rdropWhile_prefix _ fraction).subset hc)

section

variable {negative : Bool} {whole fraction : Text} {exponent : Option Exponent} {hne : whole ≠ []}
  {hwhole : ∀ c ∈ whole, c.isDigit = true} {hzero : ∀ c rest, whole = '0' :: c :: rest → False}
  {hfraction : ∀ c ∈ fraction, c.isDigit = true}

theorem text_stripped :
    (stripped negative whole fraction exponent hne hwhole hzero hfraction).text =
      signText negative ++ (whole ++ Literal.fractionText (stripZeros fraction) ++
        Literal.exponentText exponent) := by
  simp only [Literal.text, stripped, List.append_assoc]

theorem magnitude_stripped :
    (stripped negative whole fraction exponent hne hwhole hzero hfraction).magnitude =
      Nat.ofDigitChars 10 (whole ++ fraction) 0 *
        10 ^ (Literal.exponentValue exponent - fraction.length) :=
  stripZeros_value whole fraction (Literal.exponentValue exponent)

end

/-- The exponent `%e` prints. -/
def printedExponent (x : ℤ) : Exponent where
  mark := 'e'
  sign := [if x < 0 then '-' else '+']
  digits := padded 2 x.natAbs
  mark_eq := Or.inl rfl
  sign_eq := by split <;> simp
  digits_ne_nil := by simp [padded, Nat.toDigits_ne_nil]
  isDigit_digits := fun c hc => isDigit_padded c hc

theorem ofDigitChars_padded (d n : ℕ) : Nat.ofDigitChars 10 (padded d n) 0 = n := by
  rw [padded, Nat.ofDigitChars_append, Nat.ofDigitChars_replicate_zero, Nat.mul_zero,
    Nat.ofDigitChars_ten_toDigits]

theorem value_printedExponent (x : ℤ) : (printedExponent x).value = x := by
  unfold Exponent.value printedExponent
  simp only [ofDigitChars_padded]
  by_cases hx : x < 0
  · simp only [hx, if_true]
    omega
  · simp only [hx, if_false]
    rw [if_neg (by decide)]
    omega

section

variable {P : ℕ} {q : ℚ}

/-- The digits `%g` prints. -/
theorem length_digits_significand (hP : 1 < P) (hq : 0 < q) :
    (Nat.toDigits 10 (significand P q).1).length = P := by
  obtain ⟨hlow, hhigh⟩ := significand_bounds (P := P) (by omega) hq
  have hle := (Nat.length_toDigits_le_iff (b := 10) (by decide) (by omega)).mpr hhigh
  have hge : ¬ (Nat.toDigits 10 (significand P q).1).length ≤ P - 1 := fun h =>
    absurd ((Nat.length_toDigits_le_iff (b := 10) (by decide) (by omega)).mp h) (by omega)
  omega

/-- The first digits of a number, as what stands before the point. -/
theorem take_toDigits {n j : ℕ} (hj : 0 < j) :
    (Nat.toDigits 10 n).take j ≠ [] ∧
      ∀ c rest, (Nat.toDigits 10 n).take j = '0' :: c :: rest → False := by
  refine ⟨fun h => ?_, fun c rest h => ?_⟩
  · have hlen := congrArg List.length h
    have hpos := Nat.length_toDigits_pos (b := 10) (n := n)
    simp only [List.length_take, List.length_nil] at hlen
    omega
  · refine toDigits_ne_cons_zero n c (rest ++ (Nat.toDigits 10 n).drop j) ?_
    conv_lhs => rw [← List.take_append_drop j (Nat.toDigits 10 n), h]
    rfl

/-- Digits with the point after the first `j` of them. -/
theorem exists_literal_take {n j : ℕ} (hj : 0 < j) (negative : Bool) (exponent : Option Exponent) :
    ∃ l : Literal, l.negative = negative ∧
      l.text = signText negative ++ ((Nat.toDigits 10 n).take j ++
        Literal.fractionText (stripZeros ((Nat.toDigits 10 n).drop j)) ++
        Literal.exponentText exponent) ∧
      l.magnitude = n * 10 ^ (Literal.exponentValue exponent -
        ((Nat.toDigits 10 n).length - j : ℕ)) := by
  obtain ⟨hne, hlead⟩ := take_toDigits (n := n) hj
  have hdigit := isDigit_toDigits (n := n)
  refine ⟨stripped negative _ _ exponent hne
    (fun c hc => hdigit c (List.take_subset _ _ hc)) hlead
    (fun c hc => hdigit c (List.drop_subset j _ hc)), rfl, text_stripped, ?_⟩
  rw [magnitude_stripped, List.take_append_drop, Nat.ofDigitChars_ten_toDigits, List.length_drop]

/-- Digits after zeros that follow the point. -/
theorem exists_literal_zeros (n k : ℕ) (negative : Bool) :
    ∃ l : Literal, l.negative = negative ∧
      l.text = signText negative ++ ('0' ::
        Literal.fractionText (stripZeros (List.replicate k '0' ++ Nat.toDigits 10 n))) ∧
      l.magnitude = n * 10 ^ (-((k + (Nat.toDigits 10 n).length : ℕ) : ℤ)) := by
  have hfraction : ∀ c ∈ List.replicate k '0' ++ Nat.toDigits 10 n, c.isDigit = true := by
    intro c hc
    rcases List.mem_append.mp hc with hc | hc
    · rw [List.eq_of_mem_replicate hc]; decide
    · exact isDigit_toDigits c hc
  have hzero :
      Nat.ofDigitChars 10 (['0'] ++ (List.replicate k '0' ++ Nat.toDigits 10 n)) 0 = n := by
    rw [show ['0'] = List.replicate 1 '0' from rfl, Nat.ofDigitChars_append,
      Nat.ofDigitChars_append, Nat.ofDigitChars_replicate_zero, Nat.ofDigitChars_replicate_zero]
    simp only [Nat.mul_zero, Nat.ofDigitChars_ten_toDigits]
  refine ⟨stripped negative ['0'] (List.replicate k '0' ++ Nat.toDigits 10 n) none (by simp)
    (by simp) (by simp) hfraction, rfl, ?_, ?_⟩
  · rw [text_stripped]
    simp [Literal.exponentText]
  · rw [magnitude_stripped, hzero, List.length_append, List.length_replicate]
    simp [Literal.exponentValue]

/-- What `%g` prints is a literal for the digits it rounds to. -/
theorem exists_literal_formatG (hP : 1 < P) (hq : 0 < q) (negative : Bool) :
    ∃ l : Literal, l.negative = negative ∧ l.text = signText negative ++ formatG P q ∧
      l.magnitude = decimal P (significand P q) := by
  have hlen := length_digits_significand hP hq
  rw [formatG, if_neg hq.ne']
  simp only [decimal]
  generalize significand P q = s at hlen
  obtain ⟨n, x⟩ := s
  dsimp only at hlen ⊢
  by_cases hsci : x < -4 ∨ (P : ℤ) ≤ x
  · obtain ⟨l, hneg, htext, hmag⟩ :=
      exists_literal_take (n := n) one_pos negative (some (printedExponent x))
    refine ⟨l, hneg, ?_, ?_⟩
    · rw [if_pos hsci, htext]
      rfl
    · rw [hmag, hlen, Literal.exponentValue, Option.map_some, Option.getD_some,
        value_printedExponent, Nat.cast_sub hP.le, Nat.cast_one]
  · rw [if_neg hsci]
    by_cases hsmall : x < 0
    · obtain ⟨l, hneg, htext, hmag⟩ := exists_literal_zeros n (-x - 1).toNat negative
      refine ⟨l, hneg, by rw [if_pos hsmall, htext], ?_⟩
      rw [hmag, hlen]
      congr 2
      omega
    · obtain ⟨l, hneg, htext, hmag⟩ :=
        exists_literal_take (n := n) (j := (x + 1).toNat) (by omega) negative none
      refine ⟨l, hneg, ?_, ?_⟩
      · rw [if_neg hsmall, htext]
        simp [Literal.exponentText]
      · rw [hmag, hlen]
        simp only [Literal.exponentValue, Option.map_none, Option.getD_none]
        congr 2
        omega

end

/-- Seventeen digits are read back as the number printed. -/
theorem exists_literal_printDouble (negative : Bool) (x : Magnitude) :
    ∃ l : Literal, l.text = printDouble negative x ∧
      Double.ofMagnitude l.negative l.magnitude = .finite negative x := by
  have hx := x.representable.nonneg
  rcases hx.eq_or_lt with hzero | hpos
  · refine ⟨stripped negative ['0'] [] none (by simp) (by simp) (by simp) (by simp), ?_, ?_⟩
    · rw [text_stripped, printDouble, formatG, if_pos hzero.symm]
      simp [Literal.fractionText, stripZeros, Literal.exponentText]
    · rw [magnitude_stripped]
      refine Double.ofMagnitude_of_roundTo ?_
      rw [← hzero]
      convert roundTo_zero 53 (-1074)
      simp [Nat.ofDigitChars]
  · obtain ⟨l, hneg, htext, hmag⟩ := exists_literal_formatG (P := 17) (by decide) hpos negative
    refine ⟨l, htext, ?_⟩
    rw [hneg, hmag]
    exact Double.ofMagnitude_of_roundTo
      (roundTo_significand (by decide) (by norm_num) hpos x.representable)

/-- An integer is printed as a literal without fraction and exponent. -/
def printedInt (n : ℤ) : Literal where
  negative := decide (n < 0)
  whole := Nat.toDigits 10 n.natAbs
  fraction := []
  exponent := none
  whole_ne_nil := Nat.toDigits_ne_nil
  isDigit_whole := isDigit_toDigits
  no_leading_zero := fun c rest => toDigits_ne_cons_zero n.natAbs c rest
  isDigit_fraction := by simp

theorem text_printedInt (n : ℤ) : (printedInt n).text = printInt n := by
  simp [Literal.text, printedInt, printInt, Literal.fractionText, Literal.exponentText]

theorem magnitude_printedInt (n : ℤ) : (printedInt n).magnitude = |(n : ℚ)| := by
  simp [Literal.magnitude, printedInt, Literal.exponentValue, Nat.ofDigitChars_ten_toDigits,
    Nat.cast_natAbs]

theorem ofMagnitude_printedInt (n : ℤ) :
    Double.ofMagnitude (printedInt n).negative (printedInt n).magnitude = Double.ofRat n := by
  rw [magnitude_printedInt, Double.ofRat]
  congr 1
  exact decide_eq_decide.mpr (by exact_mod_cast Iff.rfl)

end NumberText
