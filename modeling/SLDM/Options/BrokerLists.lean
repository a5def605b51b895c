/-
SLDM.Options.BrokerLists — the comma-separated lists that configure the
additional AMQP clients.

`AMQPCLIENT_CONFIG_FIELDS` lists the fields of `broker_options_t` with
their types, and one macro generates a function for each of them that
reads a list and fills the field of one client after the other. The branch
for `long` reads the start of the argument instead of the current item, so
every client gets the first number of the list (`fill_iff`).

Texts are lists of bytes, written as characters. `strtok_r` and `strtol`
follow the C standard, with a `long` of 64 bits; what is printed to
`stderr` is left out.
-/
import Mathlib.Logic.Function.Basic
import SLDM.Lib.Decimal
import SLDM.Lib.Lines

namespace SLDM.Options

open Lines Decimal

/-! ## Strings of options -/

/-- `options_string`. -/
structure OptionsString where
  buf : Option Text
  len : ℤ
deriving DecidableEq, Repr

/-- `options_string_declare`. -/
def optionsStringDeclare : OptionsString := ⟨none, -1⟩

/-- `MAX_OPTIONS_STRING_LEN`. -/
def maxOptionsStringLen : ℤ := 512

def optionsStringPush (newOptionsString : OptionsString) (charBuff : Text) :
    Bool × OptionsString :=
  if newOptionsString.buf.isSome then (false, newOptionsString)
  else
    let len : ℤ := charBuff.length + 1
    if len ≤ 0 ∨ len > maxOptionsStringLen then (false, newOptionsString)
    else (true, ⟨some charBuff, len⟩)

/-! ## The C library -/

/-- `strtok_r` with the delimiter `,`: the token and what is saved for the
next call. -/
def strtok (s : Text) : Option (Text × Text) :=
  let s := s.dropWhile (· == ',')
  if s.isEmpty then none
  else some (s.takeWhile (· != ','), (s.dropWhile (· != ',')).drop 1)

/-- The string left at the start of the argument: `strtok_r` has ended the
first token with a null character. -/
def firstToken (optarg : Text) : Text :=
  optarg.takeWhile (· == ',') ++ (optarg.dropWhile (· == ',')).takeWhile (· != ',')

def longMin : ℤ := -2 ^ 63

def longMax : ℤ := 2 ^ 63 - 1

/-- An optional sign. -/
def splitSign : Text → Bool × Text
  | '-' :: s => (true, s)
  | '+' :: s => (false, s)
  | s => (false, s)

/-- `strtol` in base 10. Without digits it answers 0, and out of range the
closest `long`. -/
def strtol (s : Text) : ℤ :=
  let (negative, s) := splitSign (s.dropWhile isSpace)
  let n : ℤ := Nat.ofDigitChars 10 (s.takeWhile Char.isDigit) 0
  max longMin (min longMax (if negative then -n else n))

/-! ## The options of a broker -/

/-- The types the macro knows. -/
inductive ConfigType
  | optionsString
  | bool
  | long
deriving DecidableEq, Repr

/-- What a field of a type holds. -/
abbrev ConfigType.Value : ConfigType → Type
  | .optionsString => OptionsString
  | .bool => Bool
  | .long => ℤ

/-- The names in `AMQPCLIENT_CONFIG_FIELDS`. -/
inductive ConfigField
  | amqpUsername
  | amqpPassword
  | amqpReconnect
  | amqpAllowSasl
  | amqpAllowInsecure
  | brokerUrl
  | brokerTopic
  | amqpIdleTimeout
  | amqpReconnectAfterLocalTimeoutExpired
deriving DecidableEq, Repr

/-- Their types. -/
def ConfigField.type : ConfigField → ConfigType
  | .amqpUsername => .optionsString
  | .amqpPassword => .optionsString
  | .amqpReconnect => .bool
  | .amqpAllowSasl => .bool
  | .amqpAllowInsecure => .bool
  | .brokerUrl => .optionsString
  | .brokerTopic => .optionsString
  | .amqpIdleTimeout => .long
  | .amqpReconnectAfterLocalTimeoutExpired => .bool

/-- `broker_options_t`. -/
abbrev BrokerOptions := (field : ConfigField) → field.type.Value

def textTrue : Text := "true".toList

def textFalse : Text := "false".toList

def textDefault : Text := "default".toList

/-- The branches of the macro for one client: the new value of the field,
`none` where the function returns `false`. -/
def readItem : (type : ConfigType) → (optarg strPtr : Text) → type.Value → Option type.Value
  | .optionsString, _, strPtr, old =>
    if strPtr = [' '] then some (optionsStringPush old []).2
    else some (optionsStringPush old strPtr).2
  | .bool, _, strPtr, _ =>
    if strPtr = textTrue then some true
    else if strPtr = textFalse then some false
    else if strPtr = textDefault then some false
    else none
  | .long, optarg, _, _ =>
    -- the source passes `optarg` where it means `str_ptr`
    some (strtol (firstToken optarg))

/-- The loop from client `i` on, for the given number of clients left:
`cnt`, or `none` for an early `return false`. `cnt` counts with `i`. -/
def fillLoop (field : ConfigField) (optarg : Text) :
    ℕ → ℕ → Text → (ℕ → BrokerOptions) → Option ℕ × (ℕ → BrokerOptions)
  | 0, i, _, brokerOpts => (some i, brokerOpts)
  | left + 1, i, rest, brokerOpts =>
    match strtok rest with
    | none => (some i, brokerOpts)
    | some (strPtr, rest) =>
      match readItem field.type optarg strPtr (brokerOpts i field) with
      | none => (none, brokerOpts)
      | some v => fillLoop field optarg left (i + 1) rest
          (Function.update brokerOpts i (Function.update (brokerOpts i) field v))

/-- `AMQPCLIENT_FIELDS_ARRAY_FILL_DECLARE`. -/
def fillAMQPClientOptionsArray (field : ConfigField) (optarg : Text) (numClients : ℕ)
    (brokerOpts : ℕ → BrokerOptions) : Bool × (ℕ → BrokerOptions) :=
  match fillLoop field optarg numClients 0 optarg brokerOpts with
  | (some cnt, brokerOpts) => (cnt == numClients, brokerOpts)
  | (none, brokerOpts) => (false, brokerOpts)

def fillAMQPClientOptionsArrayAmqpUsername := fillAMQPClientOptionsArray .amqpUsername

def fillAMQPClientOptionsArrayAmqpPassword := fillAMQPClientOptionsArray .amqpPassword

def fillAMQPClientOptionsArrayAmqpReconnect := fillAMQPClientOptionsArray .amqpReconnect

def fillAMQPClientOptionsArrayAmqpAllowSasl := fillAMQPClientOptionsArray .amqpAllowSasl

def fillAMQPClientOptionsArrayAmqpAllowInsecure := fillAMQPClientOptionsArray .amqpAllowInsecure

def fillAMQPClientOptionsArrayBrokerUrl := fillAMQPClientOptionsArray .brokerUrl

def fillAMQPClientOptionsArrayBrokerTopic := fillAMQPClientOptionsArray .brokerTopic

def fillAMQPClientOptionsArrayAmqpIdleTimeout := fillAMQPClientOptionsArray .amqpIdleTimeout

def fillAMQPClientOptionsArrayAmqpReconnectAfterLocalTimeoutExpired :=
  fillAMQPClientOptionsArray .amqpReconnectAfterLocalTimeoutExpired

/-! ## What a list is meant to say -/

/-- The number a decimal text stands for. -/
def decimalValue (item : Text) : ℤ :=
  let (negative, digits) := splitSign item
  let n : ℤ := Nat.ofDigitChars 10 digits 0
  if negative then -n else n

/-- An item that is valid for a type: a string shorter than the limit, one
of three words, or the decimal form of a `long`. -/
def ValidItem : ConfigType → Text → Prop
  | .optionsString, item => (item.length : ℤ) < maxOptionsStringLen
  | .bool, item => item = textTrue ∨ item = textFalse ∨ item = textDefault
  | .long, item => (splitSign item).2 ≠ [] ∧ (∀ c ∈ (splitSign item).2, c.isDigit = true) ∧
    longMin ≤ decimalValue item ∧ decimalValue item ≤ longMax

/-- The value of an item. A single space stands for the empty string. -/
def itemValue : (type : ConfigType) → Text → type.Value
  | .optionsString, item =>
    let text := if item = [' '] then [] else item
    ⟨some text, text.length + 1⟩
  | .bool, item => decide (item = textTrue)
  | .long, item => decimalValue item

/-- A field nothing has been stored in. -/
def Unset : (type : ConfigType) → type.Value → Prop
  | .optionsString, s => s.buf = none
  | .bool, _ => True
  | .long, _ => True

/-- The items of a list. -/
structure Items (type : ConfigType) (items : List Text) : Prop where
  nonempty : ∀ item ∈ items, item ≠ []
  commaFree : ∀ item ∈ items, ',' ∉ item
  valid : ∀ item ∈ items, ValidItem type item

/-- The argument on the command line. -/
def joinItems (items : List Text) : Text := [','].intercalate items

theorem Items.tail {type : ConfigType} {item : Text} {items : List Text}
    (h : Items type (item :: items)) : Items type items where
  nonempty := fun _ hmem => h.nonempty _ (List.mem_cons_of_mem _ hmem)
  commaFree := fun _ hmem => h.commaFree _ (List.mem_cons_of_mem _ hmem)
  valid := fun _ hmem => h.valid _ (List.mem_cons_of_mem _ hmem)

/-! ## Tokens -/

theorem joinItems_cons (item : Text) (items : List Text) :
    joinItems (item :: items) = item ++ (if items = [] then [] else ',' :: joinItems items) := by
  unfold joinItems
  cases items with
  | nil => rw [if_pos rfl, List.append_nil, List.intercalate_singleton]
  | cons next items => rw [if_neg (List.cons_ne_nil _ _), List.intercalate_cons_cons]; simp

section Tokens

variable {item : Text}

/-- An item in front of a list ends at the comma. -/
theorem takeWhile_joinItems (hcomma : ',' ∉ item) (items : List Text) :
    (joinItems (item :: items)).takeWhile (· != ',') = item ∧
      (joinItems (item :: items)).dropWhile (· != ',') =
        if items = [] then [] else ',' :: joinItems items := by
  have hall : ∀ c ∈ item, (c != ',') = true := by
    intro c hc
    rw [bne_iff_ne]
    rintro rfl
    exact hcomma hc
  rw [joinItems_cons, List.takeWhile_append_of_pos hall, List.dropWhile_append_of_pos hall]
  split <;> simp

/-- A list does not begin with a comma. -/
theorem joinItems_eq_cons (hne : item ≠ []) (hcomma : ',' ∉ item) (items : List Text) :
    ∃ c rest, joinItems (item :: items) = c :: rest ∧ (c == ',') = false := by
  cases item with
  | nil => exact absurd rfl hne
  | cons c item =>
    refine ⟨c, _, joinItems_cons (c :: item) items, ?_⟩
    rw [beq_eq_false_iff_ne]
    rintro rfl
    exact hcomma List.mem_cons_self

/-- `strtok_r` takes the items one after the other. -/
theorem strtok_joinItems (hne : item ≠ []) (hcomma : ',' ∉ item) (items : List Text) :
    strtok (joinItems (item :: items)) = some (item, joinItems items) := by
  obtain ⟨htake, hdrop⟩ := takeWhile_joinItems hcomma items
  obtain ⟨c, rest, hcons, hc⟩ := joinItems_eq_cons hne hcomma items
  have hkeep : (joinItems (item :: items)).dropWhile (· == ',') = joinItems (item :: items) := by
    rw [hcons, List.dropWhile_cons, if_neg (by rw [hc]; decide)]
  have hnot : (joinItems (item :: items)).isEmpty = false := by
    rw [hcons]
    rfl
  unfold strtok
  simp only [hkeep, hnot, htake, hdrop, Bool.false_eq_true, if_false]
  split
  · rename_i hnil
    rw [hnil]
    rfl
  · rfl

/-- What is left of the argument is its first item. -/
theorem firstToken_joinItems (hne : item ≠ []) (hcomma : ',' ∉ item) (items : List Text) :
    firstToken (joinItems (item :: items)) = item := by
  obtain ⟨htake, -⟩ := takeWhile_joinItems hcomma items
  obtain ⟨c, rest, hcons, hc⟩ := joinItems_eq_cons hne hcomma items
  have hkeep : (joinItems (item :: items)).dropWhile (· == ',') = joinItems (item :: items) := by
    rw [hcons, List.dropWhile_cons, if_neg (by rw [hc]; decide)]
  have hnone : (joinItems (item :: items)).takeWhile (· == ',') = [] := by
    rw [hcons, List.takeWhile_cons, if_neg (by rw [hc]; decide)]
  rw [firstToken, hkeep, hnone, htake, List.nil_append]

end Tokens

/-! ## Reading an item -/

/-- What the macro stores for an item. -/
def storedValue : (type : ConfigType) → (optarg item : Text) → type.Value
  | .optionsString, _, item => itemValue .optionsString item
  | .bool, _, item => itemValue .bool item
  | .long, optarg, _ => strtol (firstToken optarg)

theorem readItem_valid {type : ConfigType} {item : Text} {old : type.Value}
    (hvalid : ValidItem type item) (hunset : Unset type old) (optarg : Text) :
    readItem type optarg item old = some (storedValue type optarg item) := by
  cases type with
  | optionsString =>
    have hlen : (item.length : ℤ) < 512 := hvalid
    have hbuf : old.buf = none := hunset
    have hpush : ∀ text : Text, (text.length : ℤ) < 512 →
        (optionsStringPush old text).2 = ⟨some text, text.length + 1⟩ := by
      intro text htext
      unfold optionsStringPush
      rw [hbuf, if_neg (by decide), maxOptionsStringLen]
      exact congrArg Prod.snd (if_neg (by omega))
    simp only [readItem, storedValue, itemValue]
    split
    · rw [hpush [] (by decide)]
    · rw [hpush item hlen]
  | bool =>
    have hfalse : textFalse ≠ textTrue := by decide
    have hdefault : textDefault ≠ textTrue := by decide
    have hother : textDefault ≠ textFalse := by decide
    simp only [readItem, storedValue, itemValue]
    rcases hvalid with rfl | rfl | rfl
    · rw [if_pos rfl, decide_eq_true rfl]
    · rw [if_neg hfalse, if_pos rfl, decide_eq_false hfalse]
    · rw [if_neg hdefault, if_neg hother, if_pos rfl, decide_eq_false hdefault]
  | long => rfl

/-- A sign is not a space, and neither is a digit. -/
theorem isSpace_head {c : Char} {rest : Text}
    (hall : ∀ d ∈ (splitSign (c :: rest)).2, d.isDigit = true) : isSpace c = false := by
  unfold splitSign at hall
  split at hall
  · rename_i heq
    obtain ⟨rfl, -⟩ := List.cons.inj heq
    decide
  · rename_i heq
    obtain ⟨rfl, -⟩ := List.cons.inj heq
    decide
  · exact isSpace_of_isDigit (hall c List.mem_cons_self)

/-- `strtol` reads a decimal `long`. -/
theorem strtol_valid {item : Text} (hvalid : ValidItem .long item) :
    strtol item = decimalValue item := by
  obtain ⟨hdigits, hall, hmin, hmax⟩ := hvalid
  have hspace : item.dropWhile isSpace = item := by
    cases item with
    | nil => rfl
    | cons c rest =>
      rw [List.dropWhile_cons, isSpace_head hall, if_neg (by decide)]
  have hread : (splitSign item).2.takeWhile Char.isDigit = (splitSign item).2 :=
    List.takeWhile_eq_self_iff.mpr hall
  unfold strtol decimalValue
  unfold decimalValue at hmin hmax
  rw [hspace]
  simp only [hread]
  rw [min_eq_right hmax, max_eq_right hmin]

theorem storedValue_eq_iff {type : ConfigType} {first item : Text} {items : List Text}
    (h : Items type (first :: items)) :
    storedValue type (joinItems (first :: items)) item = itemValue type item ↔
      (type = .long → decimalValue item = decimalValue first) := by
  have hfirst := firstToken_joinItems (h.nonempty _ List.mem_cons_self)
    (h.commaFree _ List.mem_cons_self) items
  cases type with
  | optionsString => exact iff_of_true rfl nofun
  | bool => exact iff_of_true rfl nofun
  | long =>
    have hvalue := strtol_valid (h.valid _ List.mem_cons_self)
    simp only [storedValue, itemValue, hfirst, hvalue, forall_const]
    exact eq_comm

/-! ## The loop -/

/-- The loop over a valid list: it stops at the last item or the last
client, and the `j`-th item goes to the client `j` places on. -/
theorem fillLoop_joinItems {field : ConfigField} (optarg : Text) (left : ℕ) {items : List Text}
    (h : Items field.type items) {i : ℕ} {brokerOpts : ℕ → BrokerOptions}
    (hunset : ∀ j < items.length, Unset field.type (brokerOpts (i + j) field)) :
    ∃ brokerOpts', fillLoop field optarg (items.length + left) i (joinItems items) brokerOpts =
        (some (i + items.length), brokerOpts') ∧
      (∀ j < i, brokerOpts' j field = brokerOpts j field) ∧
      ∀ j (hj : j < items.length),
        brokerOpts' (i + j) field = storedValue field.type optarg items[j] := by
  induction items generalizing i brokerOpts with
  | nil =>
    refine ⟨brokerOpts, ?_, fun _ _ => rfl, fun j hj => absurd hj (Nat.not_lt_zero j)⟩
    cases left with
    | zero => rfl
    | succ left => rfl
  | cons item items ih =>
    have hnow : Unset field.type (brokerOpts i field) := hunset 0 (by simp)
    have hread := readItem_valid (h.valid _ List.mem_cons_self) hnow optarg
    have hlater : ∀ j < items.length, Unset field.type (Function.update brokerOpts i
        (Function.update (brokerOpts i) field (storedValue field.type optarg item))
        (i + 1 + j) field) := by
      intro j hj
      rw [Function.update_of_ne (by omega), Nat.add_assoc, Nat.add_comm 1 j]
      exact hunset (j + 1) (by simpa using hj)
    obtain ⟨brokerOpts', hloop, hbefore, hafter⟩ := ih h.tail hlater
    refine ⟨brokerOpts', ?_, ?_, ?_⟩
    · rw [List.length_cons, Nat.add_right_comm, fillLoop,
        strtok_joinItems (h.nonempty _ List.mem_cons_self) (h.commaFree _ List.mem_cons_self)]
      simp only [hread]
      rw [hloop, Nat.add_right_comm i 1, Nat.add_assoc]
    · intro j hj
      rw [hbefore j (by omega), Function.update_of_ne (by omega)]
    · intro j hj
      cases j with
      | zero =>
        rw [Nat.add_zero, hbefore i (by omega), Function.update_self, Function.update_self]
        rfl
      | succ j =>
        have hj' : j < items.length := by simpa using hj
        have hlast := hafter j hj'
        rw [Nat.add_assoc, Nat.add_comm 1 j] at hlast
        exact hlast

/-- With one client for each item the function returns `true`, and every
client has the value of its own item. -/
def AssignsEach (field : ConfigField) (items : List Text) (brokerOpts : ℕ → BrokerOptions) : Prop :=
  (fillAMQPClientOptionsArray field (joinItems items) items.length brokerOpts).1 = true ∧
    ∀ i (hi : i < items.length),
      (fillAMQPClientOptionsArray field (joinItems items) items.length brokerOpts).2 i field =
        itemValue field.type items[i]

/-- A valid list is assigned position by position exactly when the field is
not a `long` or all items denote one number. With fewer items than clients
the function returns `false`. -/
theorem fill_iff (field : ConfigField) (items : List Text)
    (hitems : Items field.type items) (brokerOpts : ℕ → BrokerOptions)
    (hunset : ∀ i < items.length, Unset field.type (brokerOpts i field)) :
    (AssignsEach field items brokerOpts ↔
      (field.type = .long → ∀ first ∈ items.head?, ∀ item ∈ items,
        decimalValue item = decimalValue first)) ∧
    ∀ n, items.length < n →
      (fillAMQPClientOptionsArray field (joinItems items) n brokerOpts).1 = false := by
  have hunset' : ∀ j < items.length, Unset field.type (brokerOpts (0 + j) field) := by
    intro j hj
    rw [Nat.zero_add]
    exact hunset j hj
  constructor
  · obtain ⟨brokerOpts', hloop, -, hstored⟩ :=
      fillLoop_joinItems (joinItems items) 0 hitems hunset'
    rw [Nat.add_zero, Nat.zero_add] at hloop
    unfold AssignsEach fillAMQPClientOptionsArray
    simp only [hloop, beq_self_eq_true, true_and]
    cases items with
    | nil => exact iff_of_true (fun i hi => absurd hi (Nat.not_lt_zero i)) nofun
    | cons first rest => ?_
    have hvalue : ∀ i (hi : i < (first :: rest).length),
        brokerOpts' i field = itemValue field.type (first :: rest)[i] ↔
          (field.type = .long → decimalValue (first :: rest)[i] = decimalValue first) := by
      intro i hi
      have hi' := hstored i hi
      rw [Nat.zero_add] at hi'
      rw [hi', storedValue_eq_iff hitems]
    constructor
    · intro hall hlong first' hfirst item hitem
      cases hfirst
      obtain ⟨i, hi, rfl⟩ := List.mem_iff_getElem.mp hitem
      exact (hvalue i hi).mp (hall i hi) hlong
    · intro hall i hi
      exact (hvalue i hi).mpr fun hlong => hall hlong _ rfl _ (List.getElem_mem hi)
  · intro n hn
    obtain ⟨left, rfl⟩ := Nat.exists_eq_add_of_lt hn
    obtain ⟨brokerOpts', hloop, -, -⟩ :=
      fillLoop_joinItems (joinItems items) (left + 1) hitems hunset'
    rw [Nat.zero_add, ← Nat.add_assoc] at hloop
    unfold fillAMQPClientOptionsArray
    simp only [hloop, beq_eq_false_iff_ne]
    omega

/-- Clients nothing has been set for yet. -/
def unsetClients : ℕ → BrokerOptions := fun _ field =>
  match field with
  | .amqpUsername | .amqpPassword | .brokerUrl | .brokerTopic => optionsStringDeclare
  | .amqpReconnect | .amqpAllowSasl | .amqpAllowInsecure
  | .amqpReconnectAfterLocalTimeoutExpired => false
  | .amqpIdleTimeout => (0 : ℤ)

theorem fill_iff_two_urls :
    (AssignsEach .brokerUrl [['a'], ['b']] unsetClients ↔
      (ConfigField.brokerUrl.type = .long → ∀ first ∈ [['a'], ['b']].head?,
        ∀ item ∈ [['a'], ['b']], decimalValue item = decimalValue first)) ∧
    ∀ n, 2 < n →
      (fillAMQPClientOptionsArray .brokerUrl (joinItems [['a'], ['b']]) n unsetClients).1 =
        false :=
  fill_iff .brokerUrl [['a'], ['b']]
    ⟨by decide, by decide, fun item hitem => by
      rcases List.mem_cons.mp hitem with rfl | hitem
      · exact show (1 : ℤ) < 512 by decide
      · rw [List.mem_singleton.mp hitem]
        exact show (1 : ℤ) < 512 by decide⟩
    unsetClients fun _ _ => rfl

/-- Two timeouts, `5,7`: the second client gets 5 as well. -/
theorem two_timeouts_not_assigned :
    ¬ AssignsEach .amqpIdleTimeout [['5'], ['7']] unsetClients := by
  intro hassigned
  have hsecond : (5 : ℤ) = 7 := hassigned.2 1 (by decide)
  cases hsecond

end SLDM.Options
