/-
SLDM.Json.RoundTrip — what is dumped is parsed back.

`reread v` is what the parser gives for the text of `v`: strings come back
byte for byte, a number comes back as the kind its text has (an `int` of up
to nine characters, else a double), a double that is not finite comes back
as `null`. `parse_dump_iff` says that this is what happens exactly when no
value inside is in more than `max_depth` arrays and objects, and
`equals_reread_iff` that the result is equal to `v` when all its doubles
are finite.
-/
import SLDM.Json.ParserTheorems

namespace SLDM.Json11

open NumberText
open SLDM.Json11.Json

/-! ## Strings -/

theorem decode_unicode {digits : Text} (h : isLeadSurrogate (strtol16 digits) = false)
    (items : List StringItem) :
    StringItem.decode (.unicode digits :: items) =
      encodeUtf8 (strtol16 digits) ++ StringItem.decode items := by
  cases items with
  | nil => rfl
  | cons item items =>
    cases item with
    | plain c => rfl
    | letter ch c => rfl
    | unicode trail =>
      rw [StringItem.decode, if_neg (by simp [h])]

/-- Items that are written as `t` and stand for `s`. -/
def Writes (t s : Text) : Prop :=
  ∃ items : List StringItem, (∀ item ∈ items, item.Valid) ∧
    items.flatMap StringItem.text = t ∧ StringItem.decode items = s

theorem Writes.plain {c : Char} {t s : Text} (hc : (StringItem.plain c).Valid) (h : Writes t s) :
    Writes (c :: t) (c :: s) := by
  obtain ⟨items, hitems, rfl, rfl⟩ := h
  exact ⟨.plain c :: items, List.forall_mem_cons.mpr ⟨hc, hitems⟩, rfl, rfl⟩

theorem Writes.letter {ch c : Char} {t s : Text} (hc : unescape ch = some c) (h : Writes t s) :
    Writes ('\\' :: ch :: t) (c :: s) := by
  obtain ⟨items, hitems, rfl, rfl⟩ := h
  exact ⟨.letter ch c :: items, List.forall_mem_cons.mpr ⟨hc, hitems⟩, rfl, rfl⟩

theorem Writes.unicode {digits t s : Text} (hdigits : (StringItem.unicode digits).Valid)
    (hlead : isLeadSurrogate (strtol16 digits) = false) (h : Writes t s) :
    Writes ('\\' :: 'u' :: (digits ++ t)) (encodeUtf8 (strtol16 digits) ++ s) := by
  obtain ⟨items, hitems, rfl, rfl⟩ := h
  exact ⟨.unicode digits :: items, List.forall_mem_cons.mpr ⟨hdigits, hitems⟩, rfl,
    decode_unicode hlead items⟩

/-- The escape of a control character. -/
theorem unicodeEscape_control : ∀ code < 0x20, ∃ digits : Text,
    unicodeEscape code = '\\' :: 'u' :: digits ∧ (digits.length = 4 ∧
      ∀ c ∈ digits, isHexDigit c = true) ∧ isLeadSurrogate (strtol16 digits) = false ∧
      encodeUtf8 (strtol16 digits) = [Char.ofNat code] := by
  intro code hcode
  refine ⟨(unicodeEscape code).drop 2, rfl, ?_⟩
  rw [← List.all_eq_true]
  revert code
  decide +kernel

theorem writes_dumpChars (s : Text) : Writes (dumpChars s) s := by
  fun_induction dumpChars s with
  | case1 => exact ⟨[], by simp, rfl, rfl⟩
  | case2 rest ih =>
    exact @Writes.unicode "2028".toList _ _ ⟨rfl, List.all_eq_true.mp (by decide)⟩ (by decide) ih
  | case3 rest ih =>
    exact @Writes.unicode "2029".toList _ _ ⟨rfl, List.all_eq_true.mp (by decide)⟩ (by decide) ih
  | case4 ch rest h₁ h₂ ih =>
    split_ifs with hback hquote hb hf hn hr ht hcontrol
    · subst hback; exact Writes.letter rfl ih
    · subst hquote; exact Writes.letter rfl ih
    · subst hb; exact Writes.letter rfl ih
    · subst hf; exact Writes.letter rfl ih
    · subst hn; exact Writes.letter rfl ih
    · subst hr; exact Writes.letter rfl ih
    · subst ht; exact Writes.letter rfl ih
    · obtain ⟨digits, htext, hdigits, hlead, hvalue⟩ :=
        unicodeEscape_control ch.toNat (Nat.lt_succ_of_le hcontrol)
      have hwrites := Writes.unicode hdigits hlead ih
      rw [hvalue, Char.ofNat_toNat] at hwrites
      rw [htext]
      exact hwrites
    · exact Writes.plain ⟨hquote, hback, not_le.mp hcontrol⟩ ih

/-- A dumped string is a literal for the string. -/
theorem exists_literal_dumpString (s : Text) :
    ∃ l : StringLiteral, l.text = dumpString s ∧ l.value = s := by
  obtain ⟨items, hvalid, htext, hvalue⟩ := writes_dumpChars s
  exact ⟨⟨items, hvalid⟩, by rw [StringLiteral.text, StringLiteral.body, htext]; rfl, hvalue⟩

/-! ## Numbers -/

/-- What the parser makes of a number. -/
def rereadNumber (t : Text) : Json :=
  if t.all (fun c => c.isDigit || c = '-') ∧ t.length ≤ 9 then .int (Int32.ofInt (atoi t))
  else .double (strtod t)

theorem stopsAt_nil (l : Literal) : l.StopsAt [] := by intro c hc; cases hc

theorem all_text_iff (l : Literal) : l.text.all (fun c => c.isDigit || c = '-') = true ↔
    l.fraction = [] ∧ l.exponent = none := by
  rw [Literal.text, List.all_append, List.all_append, List.all_append, Bool.and_eq_true,
    Bool.and_eq_true, Bool.and_eq_true]
  have hsign : (signText l.negative).all (fun c => c.isDigit || c = '-') = true := by
    cases l.negative <;> decide
  have hwhole : l.whole.all (fun c => c.isDigit || c = '-') = true :=
    List.all_eq_true.mpr fun c hc => by simp [l.isDigit_whole c hc]
  have hfraction : (Literal.fractionText l.fraction).all (fun c => c.isDigit || c = '-') = true ↔
      l.fraction = [] := by
    unfold Literal.fractionText
    split
    · simp [*]
    · simp [*]
  have hexponent : (Literal.exponentText l.exponent).all (fun c => c.isDigit || c = '-') = true ↔
      l.exponent = none := by
    cases he : l.exponent with
    | none => simp [Literal.exponentText]
    | some e =>
      have hmark := e.isDigit_mark
      have hne : e.mark ≠ '-' := by rcases e.mark_eq with h | h <;> rw [h] <;> decide
      simp [Literal.exponentText, Exponent.text, hmark, hne]
  rw [hfraction, hexponent]
  simp only [hsign, hwhole, true_and]

theorem numberJson_eq (l : Literal) : numberJson l = rereadNumber l.text := by
  have hatoi := l.atoi_text (stopsAt_nil l)
  have hstrtod := l.strtod_text (stopsAt_nil l)
  rw [List.append_nil] at hatoi hstrtod
  rw [numberJson, rereadNumber, hatoi, hstrtod]
  simp only [all_text_iff, and_assoc]

/-! ## Values -/

mutual

/-- What the parser gives for a dumped value. -/
def reread : Json → Json
  | .null => .null
  | .double (.finite negative x) => rereadNumber (printDouble negative x)
  | .double _ => .null
  | .int value => rereadNumber (printInt value.toInt)
  | .uint64 value => rereadNumber (printInt value.toNat)
  | .boolean value => .boolean value
  | .string value => .string value
  | .array values => .array (rereadArray values)
  | .object values => .object (rereadObject values)

def rereadArray : List Json → List Json
  | [] => []
  | value :: rest => reread value :: rereadArray rest

def rereadObject : List (Text × Json) → List (Text × Json)
  | [] => []
  | (key, value) :: rest => (key, reread value) :: rereadObject rest

end

theorem keys_rereadObject (values : List (Text × Json)) :
    (rereadObject values).map Prod.fst = values.map Prod.fst := by
  induction values with
  | nil => rfl
  | cons e values ih => rw [rereadObject, List.map_cons, List.map_cons, ih]

theorem sorted_iff_keys {values : List (Text × Json)} :
    SortedMap.Sorted values ↔ (values.map Prod.fst).Pairwise (· < ·) :=
  List.pairwise_map.symm

theorem ofEntries_rereadObject {values : List (Text × Json)} (h : SortedMap.Sorted values) :
    SortedMap.ofEntries (rereadObject values) = rereadObject values := by
  refine SortedMap.ofEntries_of_sorted (sorted_iff_keys.mpr ?_)
  rw [keys_rereadObject]
  exact sorted_iff_keys.mp h

theorem whitespace_space : Whitespace [' '] := by simp [Whitespace, isWhitespace]

theorem value_number {n : ℕ} (l : Literal) : Value (n + 1) l.text (rereadNumber l.text) := by
  rw [← numberJson_eq]
  exact .number l

mutual

/-- A dumped value is a text of the grammar. -/
theorem value_dump : ∀ (j : Json) {n : ℕ}, j.WellFormed → j.nesting < n →
    Value n (dump j) (reread j)
  | .null, n + 1, _, _ => .nullName
  | .double (.finite negative x), n + 1, _, _ => by
      obtain ⟨l, htext, -⟩ := exists_literal_printDouble negative x
      rw [dump, reread, ← htext]
      exact value_number l
  | .double (.infinite _), n + 1, _, _ => .nullName
  | .double .nan, n + 1, _, _ => .nullName
  | .int value, n + 1, _, _ => by
      rw [dump, reread, ← text_printedInt]
      exact value_number _
  | .uint64 value, n + 1, _, _ => by
      rw [dump, reread, ← text_printedInt]
      exact value_number _
  | .boolean value, n + 1, _, _ => by
      cases value with
      | true => exact .trueName
      | false => exact .falseName
  | .string value, n + 1, _, _ => by
      obtain ⟨l, htext, hvalue⟩ := exists_literal_dumpString value
      rw [dump, reread, ← htext, ← hvalue]
      exact .string l
  | .array [], n + 1, _, _ => .emptyArray whitespace_nil
  | .array (value :: rest), n + 1, hwf, hn => by
      rw [Json.WellFormed, Json.WellFormedArray] at hwf
      rw [nesting, nestingArray] at hn
      rw [dump, dumpArray]
      simp only [separator, if_true, List.nil_append, List.append_assoc]
      exact .array (w := []) whitespace_nil
        (elements_dump value rest hwf.1 hwf.2 (by omega) (by omega))
  | .object [], n + 1, _, _ => .emptyObject whitespace_nil
  | .object ((key, value) :: rest), n + 1, hwf, hn => by
      obtain ⟨hsorted, hwf⟩ := hwf
      rw [Json.WellFormedObject] at hwf
      rw [nesting, nestingObject] at hn
      rw [dump, dumpObject, reread, ← ofEntries_rereadObject hsorted]
      simp only [separator, if_true, List.nil_append, List.append_assoc]
      exact .object (w := []) whitespace_nil
        (members_dump key value rest hwf.1 hwf.2 (by omega) (by omega))

theorem elements_dump : ∀ (value : Json) (rest : List Json) {n : ℕ}, value.WellFormed →
    WellFormedArray rest → value.nesting < n → nestingArray rest ≤ n →
    Elements (Value n) (dump value ++ (dumpArray false rest ++ [']'])) (rereadArray (value :: rest))
  | value, [], n, hv, _, hn, _ => .last (value_dump value hv hn) whitespace_nil
  | value, next :: rest, n, hv, hrest, hn, hnrest => by
      rw [Json.WellFormedArray] at hrest
      rw [nestingArray] at hnrest
      have hmore := elements_dump next rest hrest.1 hrest.2 (by omega) (by omega) (n := n)
      have helements := Elements.more (value_dump value hv hn) whitespace_nil whitespace_space hmore
      rw [rereadArray]
      simpa only [dumpArray, separator, Bool.false_eq_true, if_false, List.nil_append,
        List.cons_append, List.append_assoc] using helements

theorem members_dump : ∀ (key : Text) (value : Json) (rest : List (Text × Json)) {n : ℕ},
    value.WellFormed → WellFormedObject rest → value.nesting < n → nestingObject rest ≤ n →
    Members (Value n) (dumpString key ++ ([':', ' '] ++ (dump value ++
      (dumpObject false rest ++ ['}'])))) (rereadObject ((key, value) :: rest))
  | key, value, [], n, hv, _, hn, _ => by
      obtain ⟨l, htext, hvalue⟩ := exists_literal_dumpString key
      have hmembers := Members.last (s := l) whitespace_nil whitespace_space
        (value_dump value hv hn) whitespace_nil
      rw [htext, hvalue] at hmembers
      exact hmembers
  | key, value, (key', next) :: rest, n, hv, hrest, hn, hnrest => by
      rw [Json.WellFormedObject] at hrest
      rw [nestingObject] at hnrest
      obtain ⟨l, htext, hvalue⟩ := exists_literal_dumpString key
      have hmore := members_dump key' next rest hrest.1 hrest.2 (by omega) (by omega) (n := n)
      have hmembers := Members.more (s := l) whitespace_nil whitespace_space
        (value_dump value hv hn) whitespace_nil whitespace_space hmore
      rw [htext, hvalue] at hmembers
      rw [rereadObject]
      simpa only [dumpObject, separator, Bool.false_eq_true, if_false, List.nil_append,
        List.cons_append, List.append_assoc] using hmembers

end

/-! ## Nesting -/

theorem nestingArray_le_iff {values : List Json} {n : ℕ} :
    nestingArray values ≤ n ↔ ∀ value ∈ values, value.nesting < n := by
  induction values with
  | nil => simp [nestingArray]
  | cons value rest ih =>
    rw [nestingArray, max_le_iff, ih, List.forall_mem_cons]
    exact and_congr_left' Nat.succ_le_iff

theorem nestingObject_le_iff {values : List (Text × Json)} {n : ℕ} :
    nestingObject values ≤ n ↔ ∀ e ∈ values, e.2.nesting < n := by
  induction values with
  | nil => simp [nestingObject]
  | cons e rest ih =>
    rw [nestingObject, max_le_iff, ih, List.forall_mem_cons]
    exact and_congr_left' Nat.succ_le_iff

theorem Elements.forall {V : Text → Json → Prop} {P : Json → Prop} (hV : ∀ t v, V t v → P v)
    {u : Text} {vs : List Json} (h : Elements V u vs) : ∀ v ∈ vs, P v := by
  induction h with
  | last hv _ => exact List.forall_mem_singleton.mpr (hV _ _ hv)
  | more hv _ _ _ ih => exact List.forall_mem_cons.mpr ⟨hV _ _ hv, ih⟩

theorem Members.forall {V : Text → Json → Prop} {P : Json → Prop} (hV : ∀ t v, V t v → P v)
    {u : Text} {es : List (Text × Json)} (h : Members V u es) : ∀ e ∈ es, P e.2 := by
  induction h with
  | last _ _ hv _ => exact List.forall_mem_singleton.mpr (hV _ _ hv)
  | more _ _ hv _ _ _ ih => exact List.forall_mem_cons.mpr ⟨hV _ _ hv, ih⟩

theorem nesting_rereadNumber (t : Text) : (rereadNumber t).nesting = 0 := by
  unfold rereadNumber
  split <;> rfl

/-- The levels of a text bound the nesting of its value. -/
theorem nesting_lt_of_value : ∀ {n : ℕ} {t : Text} {v : Json}, Value n t v → v.nesting < n
  | 0, _, _, h => h.elim
  | n + 1, _, _, h => by
      have ih : ∀ t v, Value n t v → v.nesting < n := fun _ _ h => nesting_lt_of_value h
      cases h with
      | nullName => exact Nat.succ_pos n
      | trueName => exact Nat.succ_pos n
      | falseName => exact Nat.succ_pos n
      | number l =>
        rw [numberJson_eq, nesting_rereadNumber]
        exact Nat.succ_pos n
      | string s => exact Nat.succ_pos n
      | emptyArray _ => exact Nat.succ_pos n
      | array _ hu =>
        rw [nesting]
        exact Nat.lt_succ_of_le (nestingArray_le_iff.mpr (hu.forall ih))
      | emptyObject _ => exact Nat.succ_pos n
      | object _ hu =>
        rw [nesting]
        exact Nat.lt_succ_of_le (nestingObject_le_iff.mpr fun e he =>
          hu.forall ih e (SortedMap.mem_ofEntries he))

mutual

theorem nesting_reread : ∀ j : Json, (reread j).nesting = j.nesting
  | .null => rfl
  | .double (.finite _ _) => nesting_rereadNumber _
  | .double (.infinite _) => rfl
  | .double .nan => rfl
  | .int _ => nesting_rereadNumber _
  | .uint64 _ => nesting_rereadNumber _
  | .boolean _ => rfl
  | .string _ => rfl
  | .array values => nesting_rereadArray values
  | .object values => nesting_rereadObject values

theorem nesting_rereadArray : ∀ values, nestingArray (rereadArray values) = nestingArray values
  | [] => rfl
  | value :: rest => by
      rw [rereadArray, nestingArray, nestingArray, nesting_reread value, nesting_rereadArray rest]

theorem nesting_rereadObject :
    ∀ values, nestingObject (rereadObject values) = nestingObject values
  | [] => rfl
  | (key, value) :: rest => by
      rw [rereadObject, nestingObject, nestingObject, nesting_reread value,
        nesting_rereadObject rest]

end

/-! ## More levels -/

theorem Elements.mono {V V' : Text → Json → Prop} (hV : ∀ t v, V t v → V' t v) {u : Text}
    {vs : List Json} (h : Elements V u vs) : Elements V' u vs := by
  induction h with
  | last hv hw => exact .last (hV _ _ hv) hw
  | more hv hw hw' _ ih => exact .more (hV _ _ hv) hw hw' ih

theorem Members.mono {V V' : Text → Json → Prop} (hV : ∀ t v, V t v → V' t v) {u : Text}
    {es : List (Text × Json)} (h : Members V u es) : Members V' u es := by
  induction h with
  | last hw hw' hv hw'' => exact .last hw hw' (hV _ _ hv) hw''
  | more hw hw' hv hw'' hw₃ _ ih => exact .more hw hw' (hV _ _ hv) hw'' hw₃ ih

theorem Value.mono : ∀ {n m : ℕ} {t : Text} {v : Json}, n ≤ m → Value n t v → Value m t v
  | 0, _, _, _, _, h => h.elim
  | n + 1, 0, _, _, hle, _ => by omega
  | n + 1, m + 1, _, _, hle, h => by
      have ih : ∀ t v, Value n t v → Value m t v := fun _ _ h => Value.mono (by omega) h
      cases h with
      | nullName => exact .nullName
      | trueName => exact .trueName
      | falseName => exact .falseName
      | number l => exact .number l
      | string s => exact .string s
      | emptyArray hw => exact .emptyArray hw
      | array hw hu => exact .array hw (hu.mono ih)
      | emptyObject hw => exact .emptyObject hw
      | object hw hu => exact .object hw (hu.mono ih)

/-- Whatever the levels, a text stands for one value at most. -/
theorem value_unique {n m : ℕ} {t t' w w' : Text} {v v' : Json} (h : Value n t v)
    (h' : Value m t' v') (hw : Whitespace w) (hw' : Whitespace w') {u : Text}
    (hu : Whitespace u) (heq : t ++ u = w ++ (t' ++ w')) : v = v' := by
  have hstart : Ready (t ++ u) ⟨0, [], false⟩ ([] ++ (t ++ u)) := ⟨rfl, Nat.zero_le _, rfl⟩
  have hstart' : Ready (t ++ u) ⟨0, [], false⟩ (w ++ (t' ++ w')) :=
    ⟨rfl, Nat.zero_le _, heq ▸ rfl⟩
  have hread := (reads_parseJson (t ++ u) (max n m)).reads whitespace_nil
    (h.mono (le_max_left n m)) hstart (noNumber_whitespace hu)
  have hread' := (reads_parseJson (t ++ u) (max n m)).reads hw (h'.mono (le_max_right n m))
    hstart' (noNumber_whitespace hw')
  rw [hread] at hread'
  exact (Prod.mk.inj (Option.some.inj hread')).1

/-! ## The round trip -/

/-- A value is parsed back exactly when it is not nested too deeply. -/
theorem parse_dump_iff {j : Json} (h : j.WellFormed) :
    Json.parse (dump j) = some (reread j, []) ↔ j.nesting ≤ maxDepth := by
  rw [parse_eq_iff]
  constructor
  · rintro ⟨w, t, w', -, hv, -, -⟩
    have hlt := nesting_lt_of_value hv
    rw [nesting_reread] at hlt
    exact Nat.le_of_lt_succ hlt
  · intro hle
    exact ⟨[], dump j, [], whitespace_nil, value_dump j h (Nat.lt_succ_of_le hle), whitespace_nil,
      by simp⟩

/-- A value nested more deeply is refused. -/
theorem parse_dump_of_lt {j : Json} (h : j.WellFormed) (hlt : maxDepth < j.nesting) :
    ∃ err, err ≠ [] ∧ Json.parse (dump j) = some (.null, err) := by
  rcases parse_cases (dump j) with ⟨v, ⟨w, t, w', hw, hv, hw', heq⟩, -⟩ | hrefused
  · have hdump := value_dump j h (Nat.lt_succ_self j.nesting)
    have hsame := value_unique hdump hv hw hw' whitespace_nil (by rwa [List.append_nil])
    have hle := nesting_lt_of_value hv
    rw [← hsame, nesting_reread] at hle
    omega
  · exact hrefused

/-! ## Equality -/

/-- A number is equal to another one when their `number_value`s are. -/
theorem equals_number {a b : Json} (ha : a.type = .number) (hb : b.type = .number) :
    a.equals b = Double.eq a.numberValue b.numberValue := by
  cases a with
  | double x => rw [equals.eq_def]; simp [hb, numberValue]
  | int x => rw [equals.eq_def]; simp [hb, numberValue]
  | uint64 x => rw [equals.eq_def]; simp [hb, numberValue]
  | _ => cases ha

theorem type_rereadNumber (t : Text) : (rereadNumber t).type = .number := by
  unfold rereadNumber
  split <;> rfl

theorem eq_ofMagnitude (negative : Bool) (q : ℚ) :
    Double.eq (Double.ofMagnitude negative q) (Double.ofMagnitude negative q) = true := by
  rw [Double.eq_refl_iff, Double.ofMagnitude]
  split <;> simp

/-- Nine characters make an `int` without overflow. -/
theorem toInt_of_short {l : Literal} (h : l.text.length ≤ 9) :
    (Int32.ofInt (if l.negative then -(Nat.ofDigitChars 10 l.whole 0 : ℤ)
      else Nat.ofDigitChars 10 l.whole 0)).toInt =
      if l.negative then -(Nat.ofDigitChars 10 l.whole 0 : ℤ)
        else Nat.ofDigitChars 10 l.whole 0 := by
  have hlen : l.whole.length ≤ 9 := by
    rw [Ready.length_text] at h
    omega
  have hlt : Nat.ofDigitChars 10 l.whole 0 < 10 ^ 9 :=
    (ofDigitChars_lt l.isDigit_whole).trans_le (Nat.pow_le_pow_right (by decide) hlen)
  generalize Nat.ofDigitChars 10 l.whole 0 = n at hlt
  refine Int32.toInt_ofInt_of_le ?_ ?_ <;> split <;> simp <;> omega

/-- A number keeps its `number_value`. -/
theorem numberValue_numberJson (l : Literal) :
    Double.eq (numberJson l).numberValue (Double.ofMagnitude l.negative l.magnitude) = true := by
  unfold numberJson
  split
  · rename_i hint
    obtain ⟨hf, he, hshort⟩ := hint
    have hmag : l.magnitude = Nat.ofDigitChars 10 l.whole 0 := by
      simp [Literal.magnitude, hf, he, Literal.exponentValue]
    rw [numberValue, toInt_of_short hshort, hmag]
    have hsigned := Double.eq_ofRat_signed l.negative
      (q := (Nat.ofDigitChars 10 l.whole 0 : ℚ)) (Nat.cast_nonneg _)
    cases hneg : l.negative with
    | true => simpa [signed, hneg] using hsigned
    | false => simpa [signed, hneg] using hsigned
  · exact eq_ofMagnitude _ _

theorem equals_rereadNumber {l : Literal} {j : Json} (hj : j.type = .number)
    (hvalue : Double.ofMagnitude l.negative l.magnitude = j.numberValue) :
    (rereadNumber l.text).equals j = true := by
  rw [equals_number (type_rereadNumber _) hj, ← numberJson_eq, ← hvalue]
  exact numberValue_numberJson l

mutual

/-- What is parsed back is equal to what was dumped, doubles that are not
finite apart. -/
theorem equals_reread_iff : ∀ j : Json, (reread j).equals j = true ↔ j.Finite
  | .null => by simp [reread, equals, Json.Finite]
  | .double (.finite negative x) => by
      obtain ⟨l, htext, hvalue⟩ := exists_literal_printDouble negative x
      rw [reread, ← htext]
      exact iff_of_true (equals_rereadNumber rfl hvalue) rfl
  | .double (.infinite _) => by simp [reread, equals, Json.Finite, Double.isFinite]
  | .double .nan => by simp [reread, equals, Json.Finite, Double.isFinite]
  | .int value => by
      rw [reread, ← text_printedInt]
      exact iff_of_true (equals_rereadNumber rfl (ofMagnitude_printedInt _)) trivial
  | .uint64 value => by
      rw [reread, ← text_printedInt]
      exact iff_of_true (equals_rereadNumber rfl (ofMagnitude_printedInt _)) trivial
  | .boolean value => by simp [reread, equals, Json.Finite]
  | .string value => by simp [reread, equals, Json.Finite]
  | .array values => by
      rw [reread, equals, Json.Finite]
      exact equalsArray_reread_iff values
  | .object values => by
      rw [reread, equals, Json.Finite]
      exact equalsObject_reread_iff values

theorem equalsArray_reread_iff :
    ∀ values, equalsArray (rereadArray values) values = true ↔ FiniteArray values
  | [] => by simp [rereadArray, equalsArray, FiniteArray]
  | value :: rest => by
      rw [rereadArray, equalsArray, FiniteArray, Bool.and_eq_true, equals_reread_iff value,
        equalsArray_reread_iff rest]

theorem equalsObject_reread_iff :
    ∀ values, equalsObject (rereadObject values) values = true ↔ FiniteObject values
  | [] => by simp [rereadObject, equalsObject, FiniteObject]
  | (key, value) :: rest => by
      rw [rereadObject, equalsObject, FiniteObject, Bool.and_eq_true, Bool.and_eq_true,
        equals_reread_iff value, equalsObject_reread_iff rest]
      simp

end

/-! ## Reading what was written -/

theorem rereadArray_eq_map : ∀ values : List Json, rereadArray values = values.map reread
  | [] => rfl
  | value :: rest => by rw [rereadArray, rereadArray_eq_map rest, List.map_cons]

theorem find_rereadObject (key : Text) : ∀ values : List (Text × Json),
    SortedMap.find key (rereadObject values) = (SortedMap.find key values).map reread
  | [] => rfl
  | (k, value) :: rest => by
      rw [rereadObject, SortedMap.find_cons, SortedMap.find_cons, find_rereadObject key rest]
      split <;> rfl

theorem wellFormedObject_iff {values : List (Text × Json)} :
    Json.WellFormedObject values ↔ ∀ e ∈ values, e.2.WellFormed := by
  induction values with
  | nil => simp [Json.WellFormedObject]
  | cons e values ih => simp [Json.WellFormedObject, ih]

theorem wellFormedArray_iff {values : List Json} :
    Json.WellFormedArray values ↔ ∀ value ∈ values, value.WellFormed := by
  induction values with
  | nil => simp [Json.WellFormedArray]
  | cons value values ih => simp [Json.WellFormedArray, ih]

theorem item_rereadNumber (key t : Text) : (rereadNumber t).item key = .null := by
  unfold rereadNumber
  split <;> rfl

theorem item_reread (key : Text) (j : Json) : (reread j).item key = reread (j.item key) := by
  cases j with
  | object values =>
    rw [reread, Json.item, Json.item, find_rereadObject]
    cases SortedMap.find key values <;> rfl
  | double x =>
    cases x with
    | finite negative x => exact item_rereadNumber key _
    | _ => rfl
  | int n => exact item_rereadNumber key _
  | uint64 n => exact item_rereadNumber key _
  | _ => rfl

/-- A number is read back as an equal number. -/
theorem number_reread {j : Json} (hj : j.type = .number) (hfin : j.Finite) :
    (reread j).type = .number ∧ Double.eq (reread j).numberValue j.numberValue = true := by
  have htype : (reread j).type = .number := by
    cases j with
    | double x =>
      cases x with
      | finite negative x => exact type_rereadNumber _
      | _ => cases hfin
    | int n => exact type_rereadNumber _
    | uint64 n => exact type_rereadNumber _
    | _ => cases hj
  refine ⟨htype, ?_⟩
  rw [← equals_number htype hj]
  exact (equals_reread_iff j).mpr hfin

/-- What is dumped is parsed back to an equal value as long as it is finite
and nested in no more than `max_depth` levels; below that it is refused. -/
theorem parse_dump {j : Json} (h : j.WellFormed) :
    (j.nesting ≤ maxDepth →
      ∃ j', Json.parse (dump j) = some (j', []) ∧ (j'.equals j = true ↔ j.Finite)) ∧
    (maxDepth < j.nesting → ∃ err, err ≠ [] ∧ Json.parse (dump j) = some (.null, err)) :=
  ⟨fun hle => ⟨reread j, (parse_dump_iff h).mpr hle, equals_reread_iff j⟩, parse_dump_of_lt h⟩

/-- The reply to a request about a place with no vehicle around. -/
theorem parse_dump_reply :
    let j := Json.object [("error".toList, .string "ok".toList),
      ("reference_lat".toList, .double (.ofRat (45 / 2))), ("vehicles".toList, .array [])]
    ∃ j', Json.parse (dump j) = some (j', []) ∧ (j'.equals j = true ↔ j.Finite) := by
  intro j
  have hsorted : j.WellFormed := by
    refine ⟨?_, trivial, trivial, trivial, trivial⟩
    simp [SortedMap.Sorted]
    decide
  exact (parse_dump hsorted).1 (by simp [j, nesting, nestingObject, nestingArray, maxDepth])

end SLDM.Json11
