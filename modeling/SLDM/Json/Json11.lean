/-
SLDM.Json.Json11 — the JSON values of `json11.cpp` and their text.

`Json` has one constructor for each class derived from `JsonValue`: three
kinds of number share the type tag `NUMBER`, the third (`JsonUint64`) is
this project's own. A `std::string` is a list of characters below 256, one
for each byte. A `Json::object` is the list of its entries in key order;
`WellFormed` says that it is in that order.

A value is a `shared_ptr`; that `operator==` first compares the pointers
makes a difference for a value with a `nan` inside only, and is left out.
Left out as well: `operator<`, comments, `parse_multi` and `has_shape`,
which nothing uses.
-/
import SLDM.Lib.NumberText
import SLDM.Lib.SortedMap
import Mathlib.Data.Char
import Mathlib.Data.List.Lex

namespace SLDM.Json11

open NumberText

/-! ## Values -/

inductive Json where
  | null
  | double (value : Double)
  | int (value : Int32)
  | uint64 (value : UInt64)
  | boolean (value : Bool)
  | string (value : Text)
  | array (values : List Json)
  | object (values : List (Text × Json))

instance : Inhabited Json := ⟨.null⟩

/-- `Json::Type`. -/
inductive JsonType where
  | nul
  | number
  | bool
  | string
  | array
  | object
  deriving DecidableEq, Repr

namespace Json

def type : Json → JsonType
  | null => .nul
  | double _ => .number
  | int _ => .number
  | uint64 _ => .number
  | boolean _ => .bool
  | string _ => .string
  | array _ => .array
  | object _ => .object

/-- `number_value()`: 0 for what is not a number. -/
def numberValue : Json → Double
  | double value => value
  | int value => Double.ofRat value.toInt
  | uint64 value => Double.ofRat value.toNat
  | _ => Double.ofRat 0

/-- `string_value()`. -/
def stringValue : Json → Text
  | string value => value
  | _ => []

/-- `array_items()`. -/
def arrayItems : Json → List Json
  | array values => values
  | _ => []

/-- `operator[]` with a key. -/
def item (key : Text) : Json → Json
  | object values => (SortedMap.find key values).getD null
  | _ => null

/-! ## Comparison -/

mutual

/-- `operator==`. -/
def equals : Json → Json → Bool
  | null, null => true
  | boolean a, boolean b => a = b
  | string a, string b => a = b
  | array as, array bs => equalsArray as bs
  | object as, object bs => equalsObject as bs
  | double a, b => b.type = .number && Double.eq a b.numberValue
  | int a, b => b.type = .number && Double.eq (Double.ofRat a.toInt) b.numberValue
  | uint64 a, b => b.type = .number && Double.eq (Double.ofRat a.toNat) b.numberValue
  | _, _ => false

def equalsArray : List Json → List Json → Bool
  | [], [] => true
  | a :: as, b :: bs => equals a b && equalsArray as bs
  | _, _ => false

def equalsObject : List (Text × Json) → List (Text × Json) → Bool
  | [], [] => true
  | (k, a) :: as, (l, b) :: bs => k = l && equals a b && equalsObject as bs
  | _, _ => false

end

/-! ## Serialization -/

/-- `\u%04x`. -/
def unicodeEscape (code : ℕ) : Text :=
  let digits := Nat.toDigits 16 code
  '\\' :: 'u' :: (List.replicate (4 - digits.length) '0' ++ digits)

/-- The loop over the characters of a string. The three bytes of U+2028
and U+2029 are written as one escape. -/
def dumpChars : Text → Text
  | [] => []
  | 'â' :: '\x80' :: '¨' :: rest => unicodeEscape 0x2028 ++ dumpChars rest
  | 'â' :: '\x80' :: '©' :: rest => unicodeEscape 0x2029 ++ dumpChars rest
  | ch :: rest =>
    (if ch = '\\' then ['\\', '\\']
    else if ch = '"' then ['\\', '"']
    else if ch = '\x08' then ['\\', 'b']
    else if ch = '\x0c' then ['\\', 'f']
    else if ch = '\n' then ['\\', 'n']
    else if ch = '\r' then ['\\', 'r']
    else if ch = '\t' then ['\\', 't']
    else if ch.toNat ≤ 0x1f then unicodeEscape ch.toNat
    else [ch]) ++ dumpChars rest

def dumpString (value : Text) : Text := '"' :: (dumpChars value ++ ['"'])

/-- What stands before an element, `", "` unless it is the first one. -/
def separator (first : Bool) : Text := if first then [] else [',', ' ']

mutual

/-- `Json::dump`. -/
def dump : Json → Text
  | null => "null".toList
  | double (.finite negative x) => printDouble negative x
  | double _ => "null".toList
  | int value => printInt value.toInt
  | uint64 value => printInt value.toNat
  | boolean value => if value then "true".toList else "false".toList
  | string value => dumpString value
  | array values => '[' :: (dumpArray true values ++ [']'])
  | object values => '{' :: (dumpObject true values ++ ['}'])

def dumpArray (first : Bool) : List Json → Text
  | [] => []
  | value :: rest => separator first ++ dump value ++ dumpArray false rest

def dumpObject (first : Bool) : List (Text × Json) → Text
  | [] => []
  | (key, value) :: rest =>
    separator first ++ dumpString key ++ [':', ' '] ++ dump value ++ dumpObject false rest

end

/-! ## Shape -/

mutual

/-- Every object inside lists its entries in key order. -/
def WellFormed : Json → Prop
  | array values => WellFormedArray values
  | object values => SortedMap.Sorted values ∧ WellFormedObject values
  | _ => True

def WellFormedArray : List Json → Prop
  | [] => True
  | value :: rest => WellFormed value ∧ WellFormedArray rest

def WellFormedObject : List (Text × Json) → Prop
  | [] => True
  | (_, value) :: rest => WellFormed value ∧ WellFormedObject rest

end

mutual

/-- How many arrays and objects enclose the innermost value. -/
def nesting : Json → ℕ
  | array values => nestingArray values
  | object values => nestingObject values
  | _ => 0

def nestingArray : List Json → ℕ
  | [] => 0
  | value :: rest => max (nesting value + 1) (nestingArray rest)

def nestingObject : List (Text × Json) → ℕ
  | [] => 0
  | (_, value) :: rest => max (nesting value + 1) (nestingObject rest)

end

mutual

/-- No double inside is infinite or `nan`. -/
def Finite : Json → Prop
  | double value => value.isFinite = true
  | array values => FiniteArray values
  | object values => FiniteObject values
  | _ => True

def FiniteArray : List Json → Prop
  | [] => True
  | value :: rest => Finite value ∧ FiniteArray rest

def FiniteObject : List (Text × Json) → Prop
  | [] => True
  | (_, value) :: rest => Finite value ∧ FiniteObject rest

end

end Json

end SLDM.Json11
