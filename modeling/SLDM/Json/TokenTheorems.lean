/-
SLDM.Json.TokenTheorems — numbers and strings against the grammar.

`Ready str p rest` is a parse that has not failed and has `rest` still to
read. For each function there is an equation that says what it does where
the text starts with what it looks for, and an `Outcome`: it reads such a
text, or it fails with a message, and stays inside the text either way.

  §1 Reading characters
  §2 Numbers
  §3 Strings
-/
import SLDM.Json.Grammar

namespace SLDM.Json11

open NumberText

variable {str : Text}

/-! ## §1 Reading characters -/

structure Ready (str : Text) (p : JsonParser) (rest : Text) : Prop where
  failed : p.failed = false
  le : p.i ≤ str.length
  drop : str.drop p.i = rest

/-- A parse that has failed with a message. -/
structure Refused (str : Text) (p : JsonParser) : Prop where
  failed : p.failed = true
  err : p.err ≠ []
  le : p.i ≤ str.length

namespace Ready

variable {p : JsonParser} {t rest : Text}

theorem length (h : Ready str p rest) : p.i + rest.length = str.length := by
  have hlen := congrArg List.length h.drop
  have hle := h.le
  rw [List.length_drop] at hlen
  omega

theorem advance (h : Ready str p (t ++ rest)) : Ready str (p.advance t.length) rest where
  failed := h.failed
  le := by
    have hlen := h.length
    rw [List.length_append] at hlen
    show p.i + t.length ≤ str.length
    omega
  drop := by
    show str.drop (p.i + t.length) = rest
    rw [← List.drop_drop, h.drop, List.drop_left]

theorem advance_one {c : Char} (h : Ready str p (c :: rest)) : Ready str (p.advance 1) rest :=
  advance (t := [c]) h

theorem charAt (h : Ready str p rest) : charAt str p.i = some (rest.headD nul) := by
  have hlen := h.length
  unfold Json11.charAt
  cases rest with
  | nil => rw [if_pos (by simpa using hlen)]; rfl
  | cons c rest =>
    rw [if_neg (by rw [List.length_cons] at hlen; omega), ← List.head?_drop, h.drop]
    rfl

theorem substr (h : Ready str p rest) (n : ℕ) : substr str p.i n = some (rest.take n) := by
  rw [Json11.substr, if_pos h.le, h.drop]

/-- `fail` where nothing has failed before. -/
theorem refused_fail (h : Ready str p rest) {msg : Text} (hmsg : msg ≠ []) :
    Refused str (p.fail msg) where
  failed := rfl
  err := by
    show (if p.failed then p.err else msg) ≠ []
    rw [h.failed]
    exact hmsg
  le := h.le

end Ready

@[simp] theorem JsonParser.advance_zero (p : JsonParser) : p.advance 0 = p := rfl

theorem JsonParser.advance_advance (p : JsonParser) (m n : ℕ) :
    (p.advance m).advance n = p.advance (m + n) := by
  simp only [JsonParser.advance, Nat.add_assoc]

/-- `i--` after `i++`. -/
theorem JsonParser.back_advance_succ (p : JsonParser) (n : ℕ) :
    (p.advance (n + 1)).back = some (p.advance n) := rfl

/-- A run of characters is skipped. -/
theorem skipWhile_run {q : Char → Bool} (hq : q nul = false) : ∀ {turns i : ℕ} {t rest : Text},
    i + (t.length + rest.length) = str.length → str.drop i = t ++ rest →
    (∀ c ∈ t, q c = true) → (∀ c ∈ rest.head?, q c = false) → t.length < turns →
    skipWhile str q turns i = some (i + t.length)
  | 0, _, _, _, _, _, _, _, hturns => by omega
  | turns + 1, i, [], rest, hlen, hdrop, _, hrest, _ => by
      have hready : Ready str ⟨i, [], false⟩ rest := ⟨rfl, by simp at hlen ⊢; omega, hdrop⟩
      have hstop : q (rest.headD nul) = false := by
        cases rest with
        | nil => exact hq
        | cons c rest => exact hrest c rfl
      rw [skipWhile, hready.charAt]
      simp only [Option.bind_eq_bind, Option.bind_some, hstop, Bool.false_eq_true, if_false,
        List.length_nil, Nat.add_zero]
  | turns + 1, i, c :: t, rest, hlen, hdrop, ht, hrest, hturns => by
      obtain ⟨hc, ht⟩ := List.forall_mem_cons.mp ht
      rw [List.length_cons] at hlen hturns
      have hready : Ready str ⟨i, [], false⟩ (c :: (t ++ rest)) :=
        ⟨rfl, by show i ≤ str.length; omega, hdrop⟩
      have ih : skipWhile str q turns (i + 1) = some (i + 1 + t.length) :=
        skipWhile_run hq (by omega) (hready.advance_one).drop ht hrest (by omega)
      rw [skipWhile, hready.charAt]
      simp only [List.headD_cons, Option.bind_eq_bind, Option.bind_some, hc, if_true, ih,
        List.length_cons]
      congr 1
      omega

theorem Ready.skipWhile {q : Char → Bool} {p : JsonParser} {t rest : Text} (hq : q nul = false)
    (h : Ready str p (t ++ rest)) (ht : ∀ c ∈ t, q c = true)
    (hrest : ∀ c ∈ rest.head?, q c = false) :
    skipWhile str q (str.length + 1) p.i = some (p.i + t.length) := by
  have hlen := h.length
  rw [List.length_append] at hlen
  exact skipWhile_run hq hlen h.drop ht hrest (by omega)

theorem Ready.consumeWhitespace {p : JsonParser} {w rest : Text} (h : Ready str p (w ++ rest))
    (hw : Whitespace w) (hrest : ∀ c ∈ rest.head?, isWhitespace c = false) :
    p.consumeWhitespace str = some (p.advance w.length) := by
  rw [JsonParser.consumeWhitespace, h.skipWhile (by decide) hw hrest]
  rfl

/-- The next token is the first character that is not white space. -/
theorem Ready.getNextToken {p : JsonParser} {w rest : Text} {c : Char}
    (h : Ready str p (w ++ c :: rest)) (hw : Whitespace w) (hc : isWhitespace c = false) :
    p.getNextToken str = some (c, p.advance (w.length + 1)) := by
  have hnext := h.advance
  have hlen := hnext.length
  rw [List.length_cons] at hlen
  rw [JsonParser.getNextToken, h.consumeWhitespace hw (by simpa using hc)]
  simp only [Option.bind_eq_bind, Option.bind_some, hnext.failed, Bool.false_eq_true, if_false]
  rw [if_neg (by omega), hnext.charAt]
  simp [JsonParser.advance_advance]

/-- Where only white space is left there is none. -/
theorem Ready.getNextToken_end {p : JsonParser} {w : Text} (h : Ready str p w)
    (hw : Whitespace w) : ∃ p', p.getNextToken str = some (nul, p') ∧ Refused str p' ∧
      p'.i = str.length := by
  have happ : Ready str p (w ++ []) := by rwa [List.append_nil]
  have hnext := happ.advance
  have hlen : (p.advance w.length).i = str.length := by simpa using hnext.length
  rw [JsonParser.getNextToken, happ.consumeWhitespace hw (by simp)]
  simp only [Option.bind_eq_bind, Option.bind_some, hnext.failed, Bool.false_eq_true, if_false]
  rw [if_pos hlen]
  exact ⟨_, rfl, hnext.refused_fail (by simp), hlen⟩

/-! ## Outcomes

`G` is what a function looks for: `G t v` says that the text `t` reads as
`v`. -/

inductive Outcome {α : Type} (str : Text) (G : Text → α → Prop) (p : JsonParser) :
    Option (α × JsonParser) → Prop
  | accepts {t rest : Text} {v : α} : Ready str p (t ++ rest) → G t v →
      Outcome str G p (some (v, p.advance t.length))
  | refuses {v : α} {p' : JsonParser} : Refused str p' → Outcome str G p (some (v, p'))

/-- What an outcome says of the state that is left. -/
theorem Outcome.exists_ready {α : Type} {G : Text → α → Prop} {p : JsonParser}
    {out : Option (α × JsonParser)} (h : Outcome str G p out) :
    ∃ v p', out = some (v, p') ∧ (Refused str p' ∨
      ∃ t rest, Ready str p (t ++ rest) ∧ G t v ∧ p' = p.advance t.length ∧ Ready str p' rest) := by
  cases h with
  | accepts h hG => exact ⟨_, _, rfl, Or.inr ⟨_, _, h, hG, rfl, h.advance⟩⟩
  | refuses h => exact ⟨_, _, rfl, Or.inl h⟩

/-! ## §2 Numbers -/

/-- What follows a run of digits. -/
def NoDigit (rest : Text) : Prop := ∀ c ∈ rest.head?, c.isDigit = false

namespace Ready

variable {p : JsonParser} {rest : Text} {msg : Text}

theorem parseDigits {ds : Text} (h : Ready str p (ds ++ rest)) (hne : ds ≠ [])
    (hds : ∀ c ∈ ds, c.isDigit = true) (hrest : NoDigit rest) :
    JsonParser.parseDigits str msg p = some (p.advance ds.length) := by
  have hskip := h.skipWhile (by decide) hds hrest
  obtain ⟨c, ds, rfl⟩ := List.exists_cons_of_ne_nil hne
  rw [JsonParser.parseDigits, h.charAt, hskip]
  simp only [List.cons_append, List.headD_cons, Option.bind_eq_bind, Option.bind_some,
    hds c List.mem_cons_self, if_true]
  rfl

theorem parseDigits_refused (h : Ready str p rest) (hrest : NoDigit rest) (hmsg : msg ≠ []) :
    ∃ p', JsonParser.parseDigits str msg p = some p' ∧ Refused str p' := by
  have hdigit : (rest.headD nul).isDigit = false := by
    cases rest with
    | nil => rfl
    | cons c rest => exact hrest c rfl
  rw [JsonParser.parseDigits, h.charAt]
  simp only [Option.bind_eq_bind, Option.bind_some, hdigit, Bool.false_eq_true, if_false]
  exact ⟨_, rfl, h.refused_fail hmsg⟩

theorem parseFraction {fraction : Text}
    (h : Ready str p (Literal.fractionText fraction ++ rest))
    (hds : ∀ c ∈ fraction, c.isDigit = true) (hrest : fraction ≠ [] → NoDigit rest)
    (hpoint : fraction = [] → ∀ c ∈ rest.head?, c ≠ '.') :
    JsonParser.parseFraction str p = some (p.advance (Literal.fractionText fraction).length) := by
  rw [JsonParser.parseFraction, h.charAt]
  unfold Literal.fractionText at h ⊢
  by_cases hf : fraction = []
  · rw [if_pos hf] at h ⊢
    have hne : rest.headD nul ≠ '.' := by
      cases rest with
      | nil => decide
      | cons c rest => exact hpoint hf c rfl
    simp only [List.nil_append, Option.bind_eq_bind, Option.bind_some]
    rw [if_neg hne]
    rfl
  · rw [if_neg hf] at h ⊢
    simp only [List.cons_append, List.headD_cons, Option.bind_eq_bind, Option.bind_some, if_true]
    rw [(advance_one h).parseDigits hf hds (hrest hf), JsonParser.advance_advance,
      List.length_cons, Nat.add_comm]

theorem parseExponent {exponent : Option Exponent}
    (h : Ready str p (Literal.exponentText exponent ++ rest))
    (hrest : exponent ≠ none → NoDigit rest)
    (hmark : exponent = none → ∀ c ∈ rest.head?, c ≠ 'e' ∧ c ≠ 'E') :
    JsonParser.parseExponent str p = some (p.advance (Literal.exponentText exponent).length) := by
  rw [JsonParser.parseExponent, h.charAt]
  cases exponent with
  | none =>
    have hne : ¬ (rest.headD nul = 'e' ∨ rest.headD nul = 'E') := by
      cases rest with
      | nil => decide
      | cons c rest =>
        have hc := hmark rfl c rfl
        exact fun hor => hor.elim hc.1 hc.2
    simp only [Literal.exponentText, Option.map_none, Option.getD_none, List.nil_append,
      Option.bind_eq_bind, Option.bind_some]
    rw [if_neg hne]
    rfl
  | some e =>
    simp only [Literal.exponentText, Exponent.text, Option.map_some, Option.getD_some,
      List.cons_append, List.append_assoc, List.headD_cons, Option.bind_eq_bind,
      Option.bind_some] at h ⊢
    rw [if_pos e.mark_eq]
    have hnext := advance_one h
    obtain ⟨c, ds, hds⟩ := List.exists_cons_of_ne_nil e.digits_ne_nil
    have hc : c.isDigit = true := e.isDigit_digits c (by rw [hds]; exact List.mem_cons_self)
    rw [hnext.charAt]
    simp only [Option.bind_some]
    rcases e.sign_eq with hs | hs | hs <;> rw [hs] at hnext ⊢
    · have hplus : c ≠ '+' := by rintro rfl; revert hc; decide
      have hminus : c ≠ '-' := by rintro rfl; revert hc; decide
      rw [if_neg (by simp [hds, hplus, hminus])]
      rw [List.nil_append] at hnext
      rw [hnext.parseDigits e.digits_ne_nil e.isDigit_digits (hrest (by simp)),
        JsonParser.advance_advance]
      simp [Nat.add_comm]
    all_goals
      have hsigned : Ready str ((p.advance 1).advance 1) (e.digits ++ rest) := advance_one hnext
      rw [if_pos (by simp), hsigned.parseDigits e.digits_ne_nil e.isDigit_digits (hrest (by simp)),
        JsonParser.advance_advance, JsonParser.advance_advance]
      simp [Nat.add_comm, Nat.add_left_comm]

/-! ### A whole number -/

variable {l : Literal}

theorem length_text : l.text.length = (signText l.negative).length + l.whole.length +
    ((Literal.fractionText l.fraction).length + (Literal.exponentText l.exponent).length) := by
  simp only [Literal.text, List.length_append]
  omega

/-- Whether the integer part is all there is shows in the next character. -/
theorem headD_iff (hrest : l.StopsAt rest) :
    (let c := (Literal.fractionText l.fraction ++
      (Literal.exponentText l.exponent ++ rest)).headD nul
    c ≠ '.' ∧ c ≠ 'e' ∧ c ≠ 'E') ↔ l.fraction = [] ∧ l.exponent = none := by
  by_cases hf : l.fraction = []
  · rw [Literal.fractionText, if_pos hf, List.nil_append]
    cases he : l.exponent with
    | none =>
      refine iff_of_true ?_ ⟨hf, rfl⟩
      rw [Literal.exponentText, Option.map_none, Option.getD_none, List.nil_append]
      cases rest with
      | nil => decide
      | cons c rest =>
        obtain ⟨h1, h2, h3⟩ := (hrest c rfl).2 he
        exact ⟨h3 hf, h1, h2⟩
    | some e =>
      refine iff_of_false ?_ (by simp)
      rintro ⟨-, h1, h2⟩
      exact e.mark_eq.elim h1 h2
  · rw [Literal.fractionText, if_neg hf]
    exact iff_of_false (fun h => h.1 rfl) (fun h => hf h.1)

/-- The value read after the integer part. -/
theorem parseNumberTail {p₀ : JsonParser} (hstart : Ready str p₀ (l.text ++ rest))
    (h : Ready str p (Literal.fractionText l.fraction ++
      (Literal.exponentText l.exponent ++ rest)))
    (hi : p.i = p₀.i + ((signText l.negative).length + l.whole.length)) (hrest : l.StopsAt rest) :
    JsonParser.parseNumberTail str p₀.i p = some (numberJson l, p.advance
      ((Literal.fractionText l.fraction).length + (Literal.exponentText l.exponent).length)) := by
  have hhead := headD_iff hrest
  have hlen := length_text (l := l)
  rw [JsonParser.parseNumberTail, h.charAt]
  simp only [Option.bind_eq_bind, Option.bind_some]
  by_cases hint : l.fraction = [] ∧ l.exponent = none ∧ l.text.length ≤ 9
  · obtain ⟨hf, he, hshort⟩ := hint
    obtain ⟨hpoint, h1, h2⟩ := hhead.mpr ⟨hf, he⟩
    have hnone : (Literal.fractionText l.fraction).length +
        (Literal.exponentText l.exponent).length = 0 := by
      rw [hf, he]
      rfl
    have hvalue : numberJson l = .int (Int32.ofInt (if l.negative then
        -(Nat.ofDigitChars 10 l.whole 0 : ℤ) else Nat.ofDigitChars 10 l.whole 0)) :=
      if_pos ⟨hf, he, hshort⟩
    rw [if_pos ⟨hpoint, h1, h2, by omega⟩, hstart.drop, l.atoi_text hrest, hvalue, hnone,
      JsonParser.advance_zero]
  · have hlong : ¬ (l.fraction = [] ∧ l.exponent = none ∧ p.i - p₀.i ≤ 9) := by
      rintro ⟨hf, he, hle⟩
      refine hint ⟨hf, he, ?_⟩
      rw [hlen, hf, he]
      simp only [Literal.fractionText, Literal.exponentText, if_true, Option.map_none,
        Option.getD_none, List.length_nil]
      omega
    rw [if_neg fun hc => hlong (and_assoc.mp ⟨hhead.mp ⟨hc.1, hc.2.1, hc.2.2.1⟩, hc.2.2.2⟩)]
    have hfraction : JsonParser.parseFraction str p =
        some (p.advance (Literal.fractionText l.fraction).length) :=
      h.parseFraction l.isDigit_fraction (fun _ c hc => (l.stops_fraction hrest c hc).1)
        fun hf c hc => (l.stops_fraction hrest c hc).2 hf
    have hnext := h.advance
    have hexponent := hnext.parseExponent (fun _ c hc => (hrest c hc).1)
      fun he c hc => ⟨((hrest c hc).2 he).1, ((hrest c hc).2 he).2.1⟩
    have hlast := hnext.advance
    rw [hfraction]
    simp only [Option.bind_some, hnext.failed, Bool.false_eq_true, if_false, hexponent,
      hlast.failed]
    rw [hstart.drop, l.strtod_text hrest, numberJson, if_neg hint, JsonParser.advance_advance]

/-- The sign in front of a number is skipped. -/
theorem skip_sign {negative : Bool} {t : Text}
    (hminus : negative = false → ∀ c ∈ t.head?, c ≠ '-') :
    (if (signText negative ++ t).headD nul = '-' then p.advance 1 else p) =
      p.advance (signText negative).length := by
  cases negative with
  | true => rfl
  | false =>
    refine if_neg fun hhead => ?_
    cases t with
    | nil => exact absurd hhead (by decide)
    | cons c t => exact hminus rfl c rfl hhead

/-- The sign and the integer part. -/
theorem parseNumber_eq_tail {negative : Bool} {whole : Text}
    (h : Ready str p (signText negative ++ (whole ++ rest))) (hne : whole ≠ [])
    (hwhole : ∀ c ∈ whole, c.isDigit = true)
    (hzero : ∀ c t, whole = '0' :: c :: t → False) (hrest : NoDigit rest) :
    JsonParser.parseNumber str p =
      JsonParser.parseNumberTail str p.i
        (p.advance ((signText negative).length + whole.length)) := by
  obtain ⟨c, t, rfl⟩ := List.exists_cons_of_ne_nil hne
  have hc := hwhole c List.mem_cons_self
  have hnext := h.advance
  rw [List.cons_append] at h hnext
  have hminus : ∀ d ∈ (c :: (t ++ rest)).head?, d ≠ '-' := by
    rintro d hd rfl
    cases hd
    exact absurd hc (by decide)
  rw [JsonParser.parseNumber, h.charAt]
  simp only [Option.bind_eq_bind, Option.bind_some]
  rw [skip_sign fun _ => hminus, hnext.charAt]
  simp only [List.headD_cons, Option.bind_some]
  have htail := hnext.advance_one
  by_cases h0 : c = '0'
  · -- a leading zero is the only digit
    have ht : t = [] := by
      cases t with
      | nil => rfl
      | cons d t => exact (hzero d t (by rw [h0])).elim
    subst ht
    have hstop : (rest.headD nul).isDigit = false := by
      cases rest with
      | nil => rfl
      | cons d u => exact hrest d rfl
    rw [if_pos h0, htail.charAt]
    simp only [List.nil_append, Option.bind_some, hstop, Bool.false_eq_true, if_false]
    rw [JsonParser.advance_advance, List.length_singleton]
  · have hskip := htail.skipWhile (by decide)
      (fun d hd => hwhole d (List.mem_cons_of_mem c hd)) hrest
    rw [if_neg h0, hc, if_pos rfl,
      show (p.advance (signText negative).length).i + 1 =
        ((p.advance (signText negative).length).advance 1).i from rfl, hskip]
    simp only [Option.bind_some]
    rw [List.length_cons, Nat.add_comm t.length 1, ← Nat.add_assoc, ← JsonParser.advance_advance,
      ← JsonParser.advance_advance]
    rfl

theorem parseNumber (h : Ready str p (l.text ++ rest)) (hrest : l.StopsAt rest) :
    JsonParser.parseNumber str p = some (numberJson l, p.advance l.text.length) := by
  have htext : l.text ++ rest = signText l.negative ++ (l.whole ++ (Literal.fractionText l.fraction
      ++ (Literal.exponentText l.exponent ++ rest))) := by
    simp only [Literal.text, List.append_assoc]
  have hstop := l.stops_whole hrest
  rw [List.append_assoc] at hstop
  have hparts := htext ▸ h
  rw [hparts.parseNumber_eq_tail l.whole_ne_nil l.isDigit_whole l.no_leading_zero hstop,
    parseNumberTail h (by rw [← JsonParser.advance_advance]; exact hparts.advance.advance) rfl
      hrest,
    JsonParser.advance_advance, length_text]

/-! ### What is no number -/

theorem parseFraction_refused (h : Ready str p ('.' :: rest)) (hrest : NoDigit rest) :
    ∃ p', JsonParser.parseFraction str p = some p' ∧ Refused str p' := by
  rw [JsonParser.parseFraction, h.charAt]
  exact h.advance_one.parseDigits_refused hrest (by simp)

theorem parseExponent_refused {mark : Char} {sign : Text} (hmark : mark = 'e' ∨ mark = 'E')
    (hsign : sign = [] ∨ sign = ['+'] ∨ sign = ['-']) (h : Ready str p (mark :: (sign ++ rest)))
    (hrest : NoDigit rest) (hnosign : sign = [] → ∀ c ∈ rest.head?, c ≠ '+' ∧ c ≠ '-') :
    ∃ p', JsonParser.parseExponent str p = some p' ∧ Refused str p' := by
  have hnext := h.advance_one
  rw [JsonParser.parseExponent, h.charAt]
  simp only [List.headD_cons, Option.bind_eq_bind, Option.bind_some]
  rw [if_pos hmark, hnext.charAt]
  simp only [Option.bind_some]
  rcases hsign with rfl | rfl | rfl
  · have hne : ¬ ((rest.headD nul) = '+' ∨ (rest.headD nul) = '-') := by
      cases rest with
      | nil => decide
      | cons c rest => exact fun hor => hor.elim (hnosign rfl c rfl).1 (hnosign rfl c rfl).2
    rw [List.nil_append] at hnext ⊢
    rw [if_neg hne]
    exact hnext.parseDigits_refused hrest (by simp)
  · exact (advance_one hnext).parseDigits_refused hrest (by simp)
  · exact (advance_one hnext).parseDigits_refused hrest (by simp)

end Ready

/-- A text is an exponent and what ends it, or has one that is not
complete. -/
inductive ExponentCase : Text → Prop
  | present {exponent : Option Exponent} {rest : Text} (hrest : exponent ≠ none → NoDigit rest)
      (hmark : exponent = none → ∀ c ∈ rest.head?, c ≠ 'e' ∧ c ≠ 'E') :
      ExponentCase (Literal.exponentText exponent ++ rest)
  | cut {mark : Char} {sign rest : Text} (hmark : mark = 'e' ∨ mark = 'E')
      (hsign : sign = [] ∨ sign = ['+'] ∨ sign = ['-']) (hrest : NoDigit rest)
      (hnosign : sign = [] → ∀ c ∈ rest.head?, c ≠ '+' ∧ c ≠ '-') :
      ExponentCase (mark :: (sign ++ rest))

theorem exponentCase (t : Text) : ExponentCase t := by
  by_cases hmark : ∃ mark u, t = mark :: u ∧ (mark = 'e' ∨ mark = 'E')
  · obtain ⟨mark, u, rfl, hmark⟩ := hmark
    -- the sign, if there is one, and the digits after it
    obtain ⟨sign, v, rfl, hsign, hnosign⟩ : ∃ sign v, u = sign ++ v ∧
        (sign = [] ∨ sign = ['+'] ∨ sign = ['-']) ∧
        (sign = [] → ∀ c ∈ v.head?, c ≠ '+' ∧ c ≠ '-') := by
      cases u with
      | nil => exact ⟨[], [], rfl, Or.inl rfl, by simp⟩
      | cons c u =>
        by_cases hplus : c = '+'
        · exact ⟨['+'], u, by rw [hplus]; rfl, Or.inr (Or.inl rfl), by simp⟩
        · by_cases hminus : c = '-'
          · exact ⟨['-'], u, by rw [hminus]; rfl, Or.inr (Or.inr rfl), by simp⟩
          · exact ⟨[], c :: u, rfl, Or.inl rfl, by simp [hplus, hminus]⟩
    obtain ⟨ds, rest, rfl, hds, hrest⟩ := exists_run Char.isDigit v
    by_cases hne : ds = []
    · subst hne
      exact .cut hmark hsign hrest hnosign
    · have hcase : ExponentCase
          (Literal.exponentText (some ⟨mark, sign, ds, hmark, hsign, hne, hds⟩) ++ rest) :=
        .present (fun _ => hrest) (by simp)
      simpa [Literal.exponentText, Exponent.text] using hcase
  · exact @ExponentCase.present none t (by simp) fun _ c hc => by
      cases t with
      | nil => cases hc
      | cons d u =>
        obtain rfl : d = c := by simpa using hc
        exact not_or.mp fun hor => hmark ⟨d, u, rfl, hor⟩

/-- A text is a fraction and what ends it, or a point without digits. -/
inductive FractionCase : Text → Prop
  | present {fraction rest : Text} (hds : ∀ c ∈ fraction, c.isDigit = true)
      (hrest : fraction ≠ [] → NoDigit rest) (hpoint : fraction = [] → ∀ c ∈ rest.head?, c ≠ '.') :
      FractionCase (Literal.fractionText fraction ++ rest)
  | cut {rest : Text} (hrest : NoDigit rest) : FractionCase ('.' :: rest)

theorem fractionCase (t : Text) : FractionCase t := by
  by_cases hpoint : ∃ u, t = '.' :: u
  · obtain ⟨u, rfl⟩ := hpoint
    obtain ⟨ds, rest, rfl, hds, hrest⟩ := exists_run Char.isDigit u
    by_cases hne : ds = []
    · subst hne
      exact .cut hrest
    · have hcase : FractionCase (Literal.fractionText ds ++ rest) :=
        .present hds (fun _ => hrest) fun h => absurd h hne
      simpa [Literal.fractionText, hne] using hcase
  · exact @FractionCase.present [] t (by simp) (by simp) fun _ c hc => by
      cases t with
      | nil => cases hc
      | cons d u =>
        obtain rfl : d = c := by simpa using hc
        rintro rfl
        exact hpoint ⟨u, rfl⟩

/-- The sign and the integer part of what may be a number. -/
theorem exists_sign_run (t : Text) : ∃ negative ds rest, t = signText negative ++ (ds ++ rest) ∧
    (∀ c ∈ ds, c.isDigit = true) ∧ NoDigit rest ∧
    (negative = false → ∀ c ∈ (ds ++ rest).head?, c ≠ '-') := by
  by_cases hminus : ∃ u, t = '-' :: u
  · obtain ⟨u, rfl⟩ := hminus
    obtain ⟨ds, rest, rfl, hds, hrest⟩ := exists_run Char.isDigit u
    exact ⟨true, ds, rest, rfl, hds, hrest, by simp⟩
  · obtain ⟨ds, rest, rfl, hds, hrest⟩ := exists_run Char.isDigit t
    refine ⟨false, ds, rest, rfl, hds, hrest, fun _ c hc => ?_⟩
    rintro rfl
    obtain ⟨u, hu⟩ := List.head?_eq_some_iff.mp hc
    exact hminus ⟨u, hu⟩

namespace Ready

variable {p : JsonParser} {rest : Text}

/-- No digit where the integer part should be. -/
theorem parseNumber_refused_nil {negative : Bool} (h : Ready str p (signText negative ++ rest))
    (hrest : NoDigit rest) (hminus : negative = false → ∀ c ∈ rest.head?, c ≠ '-') :
    ∃ v p', JsonParser.parseNumber str p = some (v, p') ∧ Refused str p' := by
  have hnext := h.advance
  have hdigit : (rest.headD nul).isDigit = false := by
    cases rest with
    | nil => rfl
    | cons c rest => exact hrest c rfl
  have hzero : rest.headD nul ≠ '0' := by intro h0; rw [h0] at hdigit; revert hdigit; decide
  rw [JsonParser.parseNumber, h.charAt]
  simp only [Option.bind_eq_bind, Option.bind_some]
  rw [skip_sign hminus, hnext.charAt]
  simp only [Option.bind_some, hzero, if_false, hdigit, Bool.false_eq_true]
  exact ⟨_, _, rfl, hnext.refused_fail (by simp)⟩

/-- A zero followed by a digit. -/
theorem parseNumber_refused_zero {negative : Bool} {c : Char} (hc : c.isDigit = true)
    (h : Ready str p (signText negative ++ '0' :: c :: rest)) :
    ∃ v p', JsonParser.parseNumber str p = some (v, p') ∧ Refused str p' := by
  have hnext := h.advance
  have hminus : ∀ d ∈ ('0' :: c :: rest).head?, d ≠ '-' := by
    rintro d hd rfl
    cases hd
  rw [JsonParser.parseNumber, h.charAt]
  simp only [Option.bind_eq_bind, Option.bind_some]
  rw [skip_sign fun _ => hminus, hnext.charAt]
  simp only [List.headD_cons, Option.bind_some, if_true]
  rw [hnext.advance_one.charAt]
  simp only [List.headD_cons, Option.bind_some, hc, if_true]
  exact ⟨_, _, rfl, hnext.advance_one.refused_fail (by simp)⟩

/-- A fraction or an exponent that is not complete. -/
theorem parseNumberTail_refused (startPos : ℕ) (h : Ready str p rest)
    (hhead : ∃ c ∈ rest.head?, c = '.' ∨ c = 'e' ∨ c = 'E')
    (hcut : (∃ p', JsonParser.parseFraction str p = some p' ∧ Refused str p') ∨
      ∃ n u, JsonParser.parseFraction str p = some (p.advance n) ∧ Ready str (p.advance n) u ∧
        ∃ p', JsonParser.parseExponent str (p.advance n) = some p' ∧ Refused str p') :
    ∃ v p', JsonParser.parseNumberTail str startPos p = some (v, p') ∧ Refused str p' := by
  obtain ⟨c, hc, hmark⟩ := hhead
  obtain ⟨u, rfl⟩ := List.head?_eq_some_iff.mp hc
  rw [JsonParser.parseNumberTail, h.charAt]
  simp only [List.headD_cons, Option.bind_eq_bind, Option.bind_some]
  rw [if_neg (by rintro ⟨h1, h2, h3, -⟩; exact hmark.elim h1 fun hor => hor.elim h2 h3)]
  rcases hcut with ⟨p', hp', href⟩ | ⟨n, u, hn, hready, p', hp', href⟩
  · simp only [hp', Option.bind_some, href.failed, if_true]
    exact ⟨_, _, rfl, href⟩
  · simp only [hn, Option.bind_some, hready.failed, Bool.false_eq_true, if_false, hp', href.failed,
      if_true]
    exact ⟨_, _, rfl, href⟩

/-- A number is read or refused. -/
theorem parseNumber_outcome (h : Ready str p rest) :
    Outcome str (fun t v => ∃ l : Literal, t = l.text ∧ v = numberJson l) p
      (JsonParser.parseNumber str p) := by
  obtain ⟨negative, ds, u, rfl, hds, hu, hminus⟩ := exists_sign_run rest
  by_cases hne : ds = []
  · subst hne
    obtain ⟨v, p', hp', href⟩ := h.parseNumber_refused_nil hu hminus
    exact hp' ▸ .refuses href
  by_cases hzero : ∃ c t, ds = '0' :: c :: t
  · obtain ⟨c, t, rfl⟩ := hzero
    obtain ⟨v, p', hp', href⟩ :=
      parseNumber_refused_zero (hds c (by simp)) (by simpa using h)
    exact hp' ▸ .refuses href
  have hlead : ∀ c t, ds = '0' :: c :: t → False := fun c t ht => hzero ⟨c, t, ht⟩
  have htail := h.parseNumber_eq_tail hne hds hlead hu
  have hready : Ready str (p.advance ((signText negative).length + ds.length)) u := by
    rw [← JsonParser.advance_advance]
    exact h.advance.advance
  have hfraction := fractionCase u
  cases hfraction with
  | cut hrest =>
    obtain ⟨v, p', hp', href⟩ := hready.parseNumberTail_refused p.i
      ⟨'.', rfl, Or.inl rfl⟩ (Or.inl (hready.parseFraction_refused hrest))
    exact (htail.trans hp') ▸ .refuses href
  | @present fraction u hfrac hstop hpoint =>
    have hread := hready.parseFraction hfrac hstop hpoint
    have hexponent := exponentCase u
    cases hexponent with
    | @cut mark sign rest hmark hsign hrest hnosign =>
      have hcut := hready.advance.parseExponent_refused hmark hsign hrest hnosign
      have hhead : ∃ c ∈ (Literal.fractionText fraction ++ mark :: (sign ++ rest)).head?,
          c = '.' ∨ c = 'e' ∨ c = 'E' := by
        unfold Literal.fractionText
        split
        · exact ⟨mark, rfl, Or.inr hmark⟩
        · exact ⟨'.', rfl, Or.inl rfl⟩
      obtain ⟨v, p', hp', href⟩ := hready.parseNumberTail_refused p.i hhead
        (Or.inr ⟨_, _, hread, hready.advance, hcut⟩)
      exact (htail.trans hp') ▸ .refuses href
    | @present exponent rest hrest hmark =>
      let l : Literal := ⟨negative, ds, fraction, exponent, hne, hds, hlead, hfrac⟩
      have hstops : l.StopsAt rest := by
        intro c hc
        by_cases he : exponent = none
        · subst he
          have hmark' := hmark rfl c hc
          by_cases hf : fraction = []
          · subst hf
            exact ⟨hu c hc, fun _ => ⟨hmark'.1, hmark'.2, fun _ => hpoint rfl c hc⟩⟩
          · exact ⟨hstop hf c hc, fun _ => ⟨hmark'.1, hmark'.2, fun h => absurd h hf⟩⟩
        · exact ⟨hrest he c hc, fun h => absurd h he⟩
      have htext : signText negative ++ (ds ++ (Literal.fractionText fraction ++
          (Literal.exponentText exponent ++ rest))) = l.text ++ rest := by
        simp only [l, Literal.text, List.append_assoc]
      rw [htext] at h
      exact h.parseNumber hstops ▸ .accepts h ⟨l, rfl, rfl⟩

end Ready

/-! ## §3 Strings -/

namespace StringItem

/-- What an item adds to the string, after the code unit that is pending. -/
def emit (lastEscapedCodepoint : ℤ) : StringItem → Text
  | plain c => encodeUtf8 lastEscapedCodepoint ++ [c]
  | letter _ c => encodeUtf8 lastEscapedCodepoint ++ [c]
  | unicode digits =>
    if isLeadSurrogate lastEscapedCodepoint ∧ isTrailSurrogate (strtol16 digits) then
      encodeUtf8 (joinSurrogates lastEscapedCodepoint (strtol16 digits))
    else encodeUtf8 lastEscapedCodepoint

/-- The code unit that is pending after an item. -/
def pending (lastEscapedCodepoint : ℤ) : StringItem → ℤ
  | plain _ => -1
  | letter _ _ => -1
  | unicode digits =>
    if isLeadSurrogate lastEscapedCodepoint ∧ isTrailSurrogate (strtol16 digits) then -1
    else strtol16 digits

/-- The string read from some items after a pending code unit. -/
def decodeFrom : ℤ → List StringItem → Text
  | last, [] => encodeUtf8 last
  | last, item :: rest => emit last item ++ decodeFrom (pending last item) rest

theorem decodeFrom_spec (items : List StringItem) :
    decodeFrom (-1) items = decode items ∧
      ∀ digits, decodeFrom (strtol16 digits) items = decode (unicode digits :: items) := by
  have hnone : encodeUtf8 (-1) = [] := rfl
  have hlead : isLeadSurrogate (-1) = false := by decide
  induction items with
  | nil => exact ⟨rfl, fun digits => by simp [decodeFrom, decode]⟩
  | cons item rest ih =>
    obtain ⟨ih, ih'⟩ := ih
    cases item with
    | plain c => simp [decodeFrom, decode, emit, pending, hnone, ih]
    | letter ch c => simp [decodeFrom, decode, emit, pending, hnone, ih]
    | unicode digits =>
      refine ⟨?_, fun lead => ?_⟩
      · simp [decodeFrom, emit, pending, hnone, hlead, ih']
      · rw [decodeFrom, decode, emit, pending]
        split_ifs
        · rw [ih]
        · rw [ih']

theorem decodeFrom_neg_one (items : List StringItem) : decodeFrom (-1) items = decode items :=
  (decodeFrom_spec items).1

end StringItem

namespace Ready

variable {p : JsonParser} {rest : Text} {turns : ℕ} {out : Text} {last : ℤ}

/-- The closing quote. -/
theorem parseStringLoop_quote (h : Ready str p ('"' :: rest)) :
    JsonParser.parseStringLoop str (turns + 1) out last p =
      some (out ++ encodeUtf8 last, p.advance 1) := by
  have hlen := h.length
  rw [List.length_cons] at hlen
  rw [JsonParser.parseStringLoop, if_neg (by omega), h.charAt]
  simp only [List.headD_cons, Option.bind_eq_bind, Option.bind_some, if_true]

/-- One turn for each item. -/
theorem parseStringLoop_item {item : StringItem} (hitem : item.Valid)
    (h : Ready str p (item.text ++ rest)) :
    JsonParser.parseStringLoop str (turns + 1) out last p =
      JsonParser.parseStringLoop str turns (out ++ item.emit last) (item.pending last)
        (p.advance item.text.length) := by
  have hlen := h.length
  rw [List.length_append] at hlen
  cases item with
  | plain c =>
    obtain ⟨hquote, hback, hcontrol⟩ := hitem
    rw [StringItem.text, List.length_singleton] at hlen
    rw [JsonParser.parseStringLoop, if_neg (by omega), h.charAt]
    simp only [StringItem.text, List.cons_append, List.headD_cons, Option.bind_eq_bind,
      Option.bind_some]
    rw [if_neg hquote, if_neg (by omega), if_pos hback, List.append_assoc]
    rfl
  | letter ch c =>
    have hnext : Ready str (p.advance 1) (ch :: rest) := advance_one h
    have hlen' := hnext.length
    rw [List.length_cons] at hlen'
    have hu : ch ≠ 'u' := by rintro rfl; cases hitem
    rw [JsonParser.parseStringLoop, if_neg (by simp [StringItem.text] at hlen; omega), h.charAt]
    simp only [StringItem.text, List.cons_append, List.headD_cons, Option.bind_eq_bind,
      Option.bind_some]
    rw [if_neg (by decide), if_neg (by decide), if_neg (by simp), if_neg (by omega), hnext.charAt]
    simp only [List.headD_cons, Option.bind_some]
    rw [if_neg hu, show unescape ch = some c from hitem, JsonParser.advance_advance]
    simp only [List.append_assoc]
    rfl
  | unicode digits =>
    obtain ⟨hfour, hhex⟩ := hitem
    have hnext : Ready str (p.advance 1) ('u' :: (digits ++ rest)) := advance_one h
    have hlen' := hnext.length
    rw [List.length_cons] at hlen'
    have htake : (digits ++ rest).take 4 = digits := by rw [← hfour, List.take_left]
    rw [JsonParser.parseStringLoop, if_neg (by simp [StringItem.text] at hlen; omega), h.charAt]
    simp only [StringItem.text, List.cons_append, List.headD_cons, Option.bind_eq_bind,
      Option.bind_some]
    rw [if_neg (by decide), if_neg (by decide), if_neg (by simp), if_neg (by omega), hnext.charAt]
    simp only [List.headD_cons, Option.bind_some, if_true]
    rw [hnext.advance_one.substr, htake]
    simp only [Option.bind_some]
    rw [if_neg (by simpa [hfour] using hhex)]
    simp only [StringItem.emit, StringItem.pending, List.length_cons, hfour,
      JsonParser.advance_advance]
    split_ifs <;> rfl

/-- A text that is neither closed nor continued by an item. -/
theorem parseStringLoop_refused (h : Ready str p rest) (hquote : ∀ u, rest ≠ '"' :: u)
    (hitem : ∀ (item : StringItem) u, item.Valid → rest ≠ item.text ++ u) :
    ∃ v p', JsonParser.parseStringLoop str (turns + 1) out last p = some (v, p') ∧
      Refused str p' := by
  have hlen := h.length
  rw [JsonParser.parseStringLoop]
  cases rest with
  | nil =>
    rw [List.length_nil] at hlen
    rw [if_pos (by omega)]
    exact ⟨_, _, rfl, h.refused_fail (by simp)⟩
  | cons c rest =>
    rw [List.length_cons] at hlen
    rw [if_neg (by omega), h.charAt]
    have hnext := h.advance_one
    have hlen' := hnext.length
    have hc : c ≠ '"' := fun hc => hquote rest (by rw [hc])
    simp only [List.headD_cons, Option.bind_eq_bind, Option.bind_some]
    rw [if_neg hc]
    by_cases hcontrol : c.toNat ≤ 0x1f
    · rw [if_pos hcontrol]
      exact ⟨_, _, rfl, hnext.refused_fail (by simp)⟩
    have hback : c = '\\' := by
      by_contra hback
      exact hitem (.plain c) rest ⟨hc, hback, not_le.mp hcontrol⟩ rfl
    subst hback
    rw [if_neg hcontrol, if_neg (by simp)]
    cases rest with
    | nil =>
      rw [List.length_nil] at hlen'
      rw [if_pos (by omega)]
      exact ⟨_, _, rfl, hnext.refused_fail (by simp)⟩
    | cons ch rest =>
      rw [List.length_cons] at hlen'
      rw [if_neg (by omega), hnext.charAt]
      have hlast := hnext.advance_one
      simp only [List.headD_cons, Option.bind_some]
      by_cases hu : ch = 'u'
      · subst hu
        rw [if_pos rfl, hlast.substr]
        have hbad : (rest.take 4).length < 4 ∨ (rest.take 4).all isHexDigit = false := by
          by_contra hok
          rw [not_or, Bool.not_eq_false, List.all_eq_true] at hok
          have hfour : (rest.take 4).length = 4 := by
            have := List.length_take_le 4 rest
            omega
          refine hitem (.unicode (rest.take 4)) (rest.drop 4) ⟨hfour, hok.2⟩ ?_
          simp only [StringItem.text, List.cons_append, List.take_append_drop]
        simp only [Option.bind_some]
        rw [if_pos hbad]
        exact ⟨_, _, rfl, hlast.refused_fail (by simp)⟩
      · have hnone : unescape ch = none := by
          cases hch : unescape ch with
          | none => rfl
          | some d => exact absurd rfl (hitem (.letter ch d) rest hch)
        rw [if_neg hu, hnone]
        exact ⟨_, _, rfl, hlast.refused_fail (by simp)⟩

theorem parseStringLoop_items {items : List StringItem} : ∀ {turns : ℕ} {out : Text} {last : ℤ}
    {p : JsonParser}, (∀ item ∈ items, item.Valid) →
    Ready str p (items.flatMap StringItem.text ++ ['"'] ++ rest) → items.length < turns →
    JsonParser.parseStringLoop str turns out last p = some (out ++ StringItem.decodeFrom last items,
      p.advance (items.flatMap StringItem.text ++ ['"']).length) := by
  induction items with
  | nil =>
    intro turns out last p _ h hturns
    obtain ⟨turns, rfl⟩ : ∃ n, turns = n + 1 := ⟨turns - 1, by omega⟩
    exact h.parseStringLoop_quote
  | cons item items ih =>
    intro turns out last p hvalid h hturns
    obtain ⟨turns, rfl⟩ : ∃ n, turns = n + 1 := ⟨turns - 1, by omega⟩
    obtain ⟨hitem, hitems⟩ := List.forall_mem_cons.mp hvalid
    rw [List.flatMap_cons, List.append_assoc, List.append_assoc, ← List.append_assoc _ ['"']] at h
    rw [List.length_cons] at hturns
    rw [h.parseStringLoop_item hitem, ih hitems h.advance (by omega), JsonParser.advance_advance]
    simp only [StringItem.decodeFrom, List.append_assoc, List.flatMap_cons, List.length_append]

theorem parseString {s : StringLiteral} (h : Ready str p (s.body ++ rest)) :
    JsonParser.parseString str p = some (s.value, p.advance s.body.length) := by
  have hturns : s.items.length < str.length + 1 := by
    have hle : s.items.length ≤ s.body.length := by
      rw [StringLiteral.body, List.length_append]
      refine Nat.le_add_right_of_le ?_
      induction s.items with
      | nil => simp
      | cons item items ih =>
        have hpos : 1 ≤ item.text.length := by cases item <;> simp [StringItem.text]
        rw [List.flatMap_cons, List.length_append, List.length_cons]
        omega
    have hlen := h.length
    rw [List.length_append] at hlen
    omega
  rw [JsonParser.parseString, parseStringLoop_items s.valid h hturns, List.nil_append,
    StringItem.decodeFrom_neg_one]
  rfl

/-- What stands at the start of a text inside a string. -/
theorem string_cases (rest : Text) : (∃ u, rest = '"' :: u) ∨
    (∃ (item : StringItem) (u : Text), item.Valid ∧ rest = item.text ++ u) ∨
    (∀ u, rest ≠ '"' :: u) ∧ ∀ (item : StringItem) u, item.Valid → rest ≠ item.text ++ u := by
  by_cases hquote : ∃ u, rest = '"' :: u
  · exact Or.inl hquote
  · by_cases hitem : ∃ (item : StringItem) (u : Text), item.Valid ∧ rest = item.text ++ u
    · exact Or.inr (Or.inl hitem)
    · exact Or.inr (Or.inr ⟨fun u hu => hquote ⟨u, hu⟩,
        fun item u hvalid hu => hitem ⟨item, u, hvalid, hu⟩⟩)

theorem parseStringLoop_outcome : ∀ {turns : ℕ} (out : Text) (last : ℤ) {p : JsonParser}
    {rest : Text}, Ready str p rest → rest.length < turns →
    Outcome str (fun t v => ∃ s : StringLiteral, t = s.body ∧
      v = out ++ StringItem.decodeFrom last s.items) p
      (JsonParser.parseStringLoop str turns out last p)
  | 0, _, _, _, _, _, hturns => by omega
  | turns + 1, out, last, p, rest, h, hturns => by
      rcases string_cases rest with ⟨u, rfl⟩ | ⟨item, u, hitem, rfl⟩ | ⟨hquote, hitem⟩
      · rw [h.parseStringLoop_quote]
        exact .accepts (t := ['"']) h ⟨⟨[], by simp⟩, rfl, rfl⟩
      · have hpos : 1 ≤ item.text.length := by cases item <;> simp [StringItem.text]
        rw [List.length_append] at hturns
        have hturns' : u.length < turns := by omega
        have ih := parseStringLoop_outcome (out ++ item.emit last) (item.pending last) h.advance
          hturns'
        rw [h.parseStringLoop_item hitem]
        obtain ⟨v, p', hout, href | ⟨t, w, hw, hG, hp', -⟩⟩ := ih.exists_ready
        · exact hout ▸ .refuses href
        · obtain ⟨s, rfl, rfl⟩ := hG
          have hu : u = s.body ++ w := h.advance.drop.symm.trans hw.drop
          subst hu
          rw [hout, hp', JsonParser.advance_advance, ← List.length_append]
          refine .accepts (by rwa [List.append_assoc])
            ⟨⟨item :: s.items, List.forall_mem_cons.mpr ⟨hitem, s.valid⟩⟩, ?_, ?_⟩
          · simp only [StringLiteral.body, List.flatMap_cons, List.append_assoc]
          · simp only [StringItem.decodeFrom, List.append_assoc]
      · obtain ⟨v, p', hout, href⟩ := h.parseStringLoop_refused hquote hitem
        exact hout ▸ .refuses href

theorem parseString_outcome (h : Ready str p rest) :
    Outcome str (fun t v => ∃ s : StringLiteral, t = s.body ∧ v = s.value) p
      (JsonParser.parseString str p) := by
  have hlen := h.length
  have hturns : rest.length < str.length + 1 := by omega
  have hloop := parseStringLoop_outcome [] (-1) h hturns
  simp only [List.nil_append, StringItem.decodeFrom_neg_one] at hloop
  exact hloop

end Ready

end SLDM.Json11
