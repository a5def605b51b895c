/-
SLDM.Json.Grammar — what a JSON text is and what it stands for.

The grammar is the one of the JSON standard, written down on its own and
not read off the parser: `Value n t v` says that `t` is white space and a
value `v` whose innermost parts are in fewer than `n` arrays and objects.
`Elements` and `Members` are what follows an opening bracket, up to the
closing one; they are parametrised by what a value inside is, so that the
nesting can be counted by the recursion of `Value`.

Numbers are the literals of `NumberText`. In a string a `\u` escape is a
UTF-16 code unit: a lead surrogate right before a trail surrogate is one
code point, any other unit is encoded as it is.
-/
import SLDM.Json.JsonParser

namespace SLDM.Json11

open NumberText

def Whitespace (t : Text) : Prop := ∀ c ∈ t, isWhitespace c = true

/-! ## Strings -/

/-- A character of a string as it is written. -/
inductive StringItem where
  | plain (c : Char)
  | letter (ch c : Char)
  | unicode (digits : Text)

namespace StringItem

def text : StringItem → Text
  | plain c => [c]
  | letter ch _ => ['\\', ch]
  | unicode digits => '\\' :: 'u' :: digits

def Valid : StringItem → Prop
  | plain c => c ≠ '"' ∧ c ≠ '\\' ∧ 0x1f < c.toNat
  | letter ch c => unescape ch = some c
  | unicode digits => digits.length = 4 ∧ ∀ c ∈ digits, isHexDigit c = true

/-- What the items of a string stand for. -/
def decode : List StringItem → Text
  | [] => []
  | plain c :: rest => c :: decode rest
  | letter _ c :: rest => c :: decode rest
  | unicode lead :: unicode trail :: rest =>
    if isLeadSurrogate (strtol16 lead) ∧ isTrailSurrogate (strtol16 trail) then
      encodeUtf8 (joinSurrogates (strtol16 lead) (strtol16 trail)) ++ decode rest
    else encodeUtf8 (strtol16 lead) ++ decode (unicode trail :: rest)
  | unicode digits :: rest => encodeUtf8 (strtol16 digits) ++ decode rest

end StringItem

structure StringLiteral where
  items : List StringItem
  valid : ∀ item ∈ items, item.Valid

namespace StringLiteral

/-- The items and the closing quote. -/
def body (s : StringLiteral) : Text := s.items.flatMap StringItem.text ++ ['"']

def text (s : StringLiteral) : Text := '"' :: s.body

def value (s : StringLiteral) : Text := StringItem.decode s.items

end StringLiteral

/-! ## Numbers -/

/-- A number of at most nine characters and no fraction or exponent is an
integer, any other one a double. -/
def numberJson (l : Literal) : Json :=
  if l.fraction = [] ∧ l.exponent = none ∧ l.text.length ≤ 9 then
    .int (Int32.ofInt (if l.negative then -(Nat.ofDigitChars 10 l.whole 0 : ℤ)
      else Nat.ofDigitChars 10 l.whole 0))
  else .double (Double.ofMagnitude l.negative l.magnitude)

/-! ## Values -/

section

variable (V : Text → Json → Prop)

/-- The elements of an array and the closing bracket. -/
inductive Elements : Text → List Json → Prop
  | last {t w : Text} {v : Json} : V t v → Whitespace w → Elements (t ++ (w ++ [']'])) [v]
  | more {t w w' u : Text} {v : Json} {vs : List Json} : V t v → Whitespace w → Whitespace w' →
      Elements u vs → Elements (t ++ (w ++ ',' :: (w' ++ u))) (v :: vs)

/-- The members of an object and the closing brace. -/
inductive Members : Text → List (Text × Json) → Prop
  | last {s : StringLiteral} {w w' t w'' : Text} {v : Json} : Whitespace w → Whitespace w' →
      V t v → Whitespace w'' →
      Members (s.text ++ (w ++ ':' :: (w' ++ (t ++ (w'' ++ ['}']))))) [(s.value, v)]
  | more {s : StringLiteral} {w w' t w'' w₃ u : Text} {v : Json} {es : List (Text × Json)} :
      Whitespace w → Whitespace w' → V t v → Whitespace w'' → Whitespace w₃ → Members u es →
      Members (s.text ++ (w ++ ':' :: (w' ++ (t ++ (w'' ++ ',' :: (w₃ ++ u))))))
        ((s.value, v) :: es)

/-- A value in terms of the values inside it. -/
inductive ValueOf : Text → Json → Prop
  | nullName : ValueOf "null".toList .null
  | trueName : ValueOf "true".toList (.boolean true)
  | falseName : ValueOf "false".toList (.boolean false)
  | number (l : Literal) : ValueOf l.text (numberJson l)
  | string (s : StringLiteral) : ValueOf s.text (.string s.value)
  | emptyArray {w : Text} : Whitespace w → ValueOf ('[' :: (w ++ [']'])) (.array [])
  | array {w u : Text} {vs : List Json} : Whitespace w → Elements V u vs →
      ValueOf ('[' :: (w ++ u)) (.array vs)
  | emptyObject {w : Text} : Whitespace w → ValueOf ('{' :: (w ++ ['}'])) (.object [])
  | object {w u : Text} {es : List (Text × Json)} : Whitespace w → Members V u es →
      ValueOf ('{' :: (w ++ u)) (.object (SortedMap.ofEntries es))

end

/-- A value in fewer than `n` arrays and objects. -/
def Value : ℕ → Text → Json → Prop
  | 0 => fun _ _ => False
  | n + 1 => ValueOf (Value n)

/-- A whole text that stands for a value. -/
def JsonText (str : Text) (v : Json) : Prop :=
  ∃ w t w', Whitespace w ∧ Value (maxDepth + 1) t v ∧ Whitespace w' ∧ str = w ++ (t ++ w')

/-! ## How texts start -/

theorem isWhitespace_of_isDigit {c : Char} (hc : c.isDigit = true) : isWhitespace c = false := by
  simp only [isWhitespace, Bool.or_eq_false_iff, decide_eq_false_iff_not]
  refine ⟨⟨⟨?_, ?_⟩, ?_⟩, ?_⟩ <;> rintro rfl <;> revert hc <;> decide

/-- The first character of a number. -/
theorem head_literal (l : Literal) :
    ∃ c u, l.text = c :: u ∧ (c = '-' ∨ c.isDigit = true) := by
  obtain ⟨c, u, hc, -, htext⟩ := l.text_append []
  rw [List.append_nil] at htext
  cases hneg : l.negative with
  | true => exact ⟨'-', _, by rw [htext, hneg]; rfl, Or.inl rfl⟩
  | false => exact ⟨c, _, by rw [htext, hneg]; rfl, Or.inr hc⟩

/-- A value starts with no white space and no bracket that closes one. -/
theorem ValueOf.head {V : Text → Json → Prop} {t : Text} {v : Json} (h : ValueOf V t v) :
    ∃ c u, t = c :: u ∧ isWhitespace c = false ∧ c ≠ ']' := by
  cases h with
  | nullName => exact ⟨'n', _, rfl, by decide, by decide⟩
  | trueName => exact ⟨'t', _, rfl, by decide, by decide⟩
  | falseName => exact ⟨'f', _, rfl, by decide, by decide⟩
  | number l =>
    obtain ⟨c, u, htext, rfl | hc⟩ := head_literal l
    · exact ⟨'-', u, htext, by decide, by decide⟩
    · exact ⟨c, u, htext, isWhitespace_of_isDigit hc, by rintro rfl; revert hc; decide⟩
  | string s => exact ⟨'"', _, rfl, by decide, by decide⟩
  | emptyArray _ => exact ⟨'[', _, rfl, by decide, by decide⟩
  | array _ _ => exact ⟨'[', _, rfl, by decide, by decide⟩
  | emptyObject _ => exact ⟨'{', _, rfl, by decide, by decide⟩
  | object _ _ => exact ⟨'{', _, rfl, by decide, by decide⟩

theorem Value.head {n : ℕ} {t : Text} {v : Json} (h : Value n t v) :
    ∃ c u, t = c :: u ∧ isWhitespace c = false ∧ c ≠ ']' := by
  cases n with
  | zero => exact h.elim
  | succ n => exact ValueOf.head h

end SLDM.Json11
