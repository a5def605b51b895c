/-
SLDM.Json.JsonParser — the parser of `json11.cpp`.

The text is read at an index. `str[i]` is the terminating NUL at the end
of the text and outside the string behind it, where it is `none` here; so
is a `--` of the index 0 and a loop that is not left after one turn for
each character and one more. A parse that gives `some` has read nothing
outside the text, and `parse_isSome` is that every parse does.

Comments are not part of the default strategy, the only one in use.
-/
import SLDM.Json.Json11

namespace SLDM.Json11

open NumberText

/-- `max_depth`. -/
def maxDepth : ℕ := 200

/-- The NUL that terminates a string. -/
def nul : Char := '\x00'

/-- The state of a parse, `JsonParser` without its constant members. -/
structure JsonParser where
  i : ℕ
  err : Text
  failed : Bool
  deriving DecidableEq, Repr

/-! ## Helpers -/

/-- `esc`. Bytes from 128 on are negative as a `char`. -/
def esc (c : Char) : Text :=
  if 0x20 ≤ c.toNat ∧ c.toNat ≤ 0x7f then
    ['\'', c, '\'', ' ', '('] ++ printInt c.toNat ++ [')']
  else ['('] ++ printInt (if c.toNat < 128 then c.toNat else c.toNat - 256) ++ [')']

/-- The white space of `consume_whitespace`. -/
def isWhitespace (c : Char) : Bool := c = ' ' || c = '\r' || c = '\n' || c = '\t'

def isHexDigit (c : Char) : Bool :=
  ('a' ≤ c && c ≤ 'f') || ('A' ≤ c && c ≤ 'F') || ('0' ≤ c && c ≤ '9')

def hexDigit (c : Char) : ℕ :=
  if c ≤ '9' then c.toNat - '0'.toNat
  else if c ≤ 'F' then c.toNat - 'A'.toNat + 10
  else c.toNat - 'a'.toNat + 10

/-- `strtol` with base 16, for hexadecimal digits. -/
def strtol16 (digits : Text) : ℕ := digits.foldl (fun n c => 16 * n + hexDigit c) 0

/-- `encode_utf8`; a negative code point adds nothing. -/
def encodeUtf8 (pt : ℤ) : Text :=
  if pt < 0 then []
  else
    let pt := pt.toNat
    if pt < 0x80 then [Char.ofNat pt]
    else if pt < 0x800 then
      [Char.ofNat (pt >>> 6 ||| 0xC0), Char.ofNat (pt &&& 0x3F ||| 0x80)]
    else if pt < 0x10000 then
      [Char.ofNat (pt >>> 12 ||| 0xE0), Char.ofNat (pt >>> 6 &&& 0x3F ||| 0x80),
        Char.ofNat (pt &&& 0x3F ||| 0x80)]
    else
      [Char.ofNat (pt >>> 18 ||| 0xF0), Char.ofNat (pt >>> 12 &&& 0x3F ||| 0x80),
        Char.ofNat (pt >>> 6 &&& 0x3F ||| 0x80), Char.ofNat (pt &&& 0x3F ||| 0x80)]

def isLeadSurrogate (pt : ℤ) : Bool := 0xD800 ≤ pt && pt ≤ 0xDBFF

def isTrailSurrogate (pt : ℤ) : Bool := 0xDC00 ≤ pt && pt ≤ 0xDFFF

/-- The code point of a surrogate pair. -/
def joinSurrogates (lead trail : ℤ) : ℤ :=
  ((((lead - 0xD800).toNat <<< 10) ||| (trail - 0xDC00).toNat) + 0x10000 : ℕ)

/-- What a one-letter escape stands for. -/
def unescape (ch : Char) : Option Char :=
  if ch = 'b' then some '\x08'
  else if ch = 'f' then some '\x0c'
  else if ch = 'n' then some '\n'
  else if ch = 'r' then some '\r'
  else if ch = 't' then some '\t'
  else if ch = '"' ∨ ch = '\\' ∨ ch = '/' then some ch
  else none

/-- `fail`. The first message is the one that stays. -/
def JsonParser.fail (p : JsonParser) (msg : Text) : JsonParser :=
  { p with err := if p.failed then p.err else msg, failed := true }

/-- `i += n`. -/
def JsonParser.advance (p : JsonParser) (n : ℕ) : JsonParser := { p with i := p.i + n }

/-- `i--`. -/
def JsonParser.back (p : JsonParser) : Option JsonParser :=
  if p.i = 0 then none else some { p with i := p.i - 1 }

section

variable (str : Text)

/-- `str[i]`. -/
def charAt (i : ℕ) : Option Char := if i = str.length then some nul else str[i]?

/-- `str.substr(i, n)`, which throws for an index behind the end. -/
def substr (i n : ℕ) : Option Text :=
  if i ≤ str.length then some ((str.drop i).take n) else none

/-- `while(q(str[i])) i++;` -/
def skipWhile (q : Char → Bool) : ℕ → ℕ → Option ℕ
  | 0, _ => none
  | turns + 1, i => do
    let c ← charAt str i
    if q c then skipWhile q turns (i + 1) else some i

namespace JsonParser

def consumeWhitespace (p : JsonParser) : Option JsonParser := do
  let i ← skipWhile str isWhitespace (str.length + 1) p.i
  some { p with i }

/-- `get_next_token`. -/
def getNextToken (p : JsonParser) : Option (Char × JsonParser) := do
  let p ← consumeWhitespace str p
  if p.failed then some (nul, p)
  else if p.i = str.length then some (nul, p.fail "unexpected end of input".toList)
  else
    let c ← charAt str p.i
    some (c, p.advance 1)

/-- The loop of `parse_string`. -/
def parseStringLoop : ℕ → Text → ℤ → JsonParser → Option (Text × JsonParser)
  | 0, _, _, _ => none
  | turns + 1, out, lastEscapedCodepoint, p =>
    if p.i = str.length then
      some ([], p.fail "unexpected end of input in string".toList)
    else do
      let ch ← charAt str p.i
      let p := p.advance 1
      if ch = '"' then some (out ++ encodeUtf8 lastEscapedCodepoint, p)
      else if ch.toNat ≤ 0x1f then
        some ([], p.fail ("unescaped ".toList ++ esc ch ++ " in string".toList))
      -- the usual case
      else if ch ≠ '\\' then
        parseStringLoop turns (out ++ encodeUtf8 lastEscapedCodepoint ++ [ch]) (-1) p
      else if p.i = str.length then
        some ([], p.fail "unexpected end of input in string".toList)
      else
        let ch ← charAt str p.i
        let p := p.advance 1
        if ch = 'u' then
          let digits ← substr str p.i 4
          if digits.length < 4 ∨ digits.all isHexDigit = false then
            some ([], p.fail ("bad \\u escape: ".toList ++ digits))
          else
            let codepoint : ℤ := strtol16 digits
            if isLeadSurrogate lastEscapedCodepoint ∧ isTrailSurrogate codepoint then
              parseStringLoop turns
                (out ++ encodeUtf8 (joinSurrogates lastEscapedCodepoint codepoint)) (-1)
                (p.advance 4)
            else
              parseStringLoop turns (out ++ encodeUtf8 lastEscapedCodepoint) codepoint
                (p.advance 4)
        else
          match unescape ch with
          | some c => parseStringLoop turns (out ++ encodeUtf8 lastEscapedCodepoint ++ [c]) (-1) p
          | none => some ([], p.fail ("invalid escape character ".toList ++ esc ch))

/-- `parse_string`. -/
def parseString (p : JsonParser) : Option (Text × JsonParser) :=
  parseStringLoop str (str.length + 1) [] (-1) p

/-- `i++` over the digits, at least one. -/
def parseDigits (msg : Text) (p : JsonParser) : Option JsonParser := do
  let c ← charAt str p.i
  if c.isDigit then
    let i ← skipWhile str Char.isDigit (str.length + 1) p.i
    some { p with i }
  else some (p.fail msg)

/-- The decimal part of a number. -/
def parseFraction (p : JsonParser) : Option JsonParser := do
  let c ← charAt str p.i
  if c = '.' then
    parseDigits str "at least one digit required in fractional part".toList (p.advance 1)
  else some p

/-- The exponent part of a number. -/
def parseExponent (p : JsonParser) : Option JsonParser := do
  let c ← charAt str p.i
  if c = 'e' ∨ c = 'E' then
    let p := p.advance 1
    let c ← charAt str p.i
    let p := if c = '+' ∨ c = '-' then p.advance 1 else p
    parseDigits str "at least one digit required in exponent".toList p
  else some p

/-- `parse_number` after the integer part. -/
def parseNumberTail (startPos : ℕ) (p : JsonParser) : Option (Json × JsonParser) := do
  let c ← charAt str p.i
  if c ≠ '.' ∧ c ≠ 'e' ∧ c ≠ 'E' ∧ p.i - startPos ≤ 9 then
    some (.int (Int32.ofInt (atoi (str.drop startPos))), p)
  else
    let p ← parseFraction str p
    if p.failed then some (.null, p)
    else
      let p ← parseExponent str p
      if p.failed then some (.null, p)
      else some (.double (strtod (str.drop startPos)), p)

/-- `parse_number`. -/
def parseNumber (p : JsonParser) : Option (Json × JsonParser) := do
  let startPos := p.i
  let c ← charAt str p.i
  let p := if c = '-' then p.advance 1 else p
  let c ← charAt str p.i
  if c = '0' then
    let p := p.advance 1
    let c ← charAt str p.i
    if c.isDigit then some (.null, p.fail "leading 0s not permitted in numbers".toList)
    else parseNumberTail str startPos p
  else if c.isDigit then
    let i ← skipWhile str Char.isDigit (str.length + 1) (p.i + 1)
    parseNumberTail str startPos { p with i }
  else some (.null, p.fail ("invalid ".toList ++ esc c ++ " in number".toList))

/-- `expect`. -/
def expect (expected : Text) (res : Json) (p : JsonParser) : Option (Json × JsonParser) := do
  let p ← p.back
  let got ← substr str p.i expected.length
  if got = expected then some (res, p.advance expected.length)
  else some (.null, p.fail ("parse error: expected ".toList ++ expected ++ ", got ".toList ++ got))

section

variable (parseJson : JsonParser → Option (Json × JsonParser))

/-- The key, the colon and the value of an entry. Where one of them is
missing the parse fails and what is returned does not matter. -/
def parseEntry (ch : Char) (p : JsonParser) : Option ((Text × Json) × JsonParser) :=
  if ch ≠ '"' then some (([], .null), p.fail ("expected '\"' in object, got ".toList ++ esc ch))
  else do
    let (key, p) ← parseString str p
    if p.failed then some (([], .null), p)
    else
      let (ch, p) ← getNextToken str p
      if ch ≠ ':' then
        some (([], .null), p.fail ("expected ':' in object, got ".toList ++ esc ch))
      else
        let (value, p) ← parseJson p
        some ((key, value), p)

/-- The loop over the entries of an object. `ch` is the token read last. -/
def parseObjectLoop : ℕ → List (Text × Json) → Char → JsonParser → Option (Json × JsonParser)
  | 0, _, _, _ => none
  | turns + 1, data, ch, p => do
    let ((key, value), p) ← parseEntry str parseJson ch p
    let data := SortedMap.set key value data
    if p.failed then some (.null, p)
    else
      let (ch, p) ← getNextToken str p
      if ch = '}' then some (.object data, p)
      else if ch ≠ ',' then
        some (.null, p.fail ("expected ',' in object, got ".toList ++ esc ch))
      else
        let (ch, p) ← getNextToken str p
        parseObjectLoop turns data ch p

/-- The loop over the elements of an array. The token read last is given
back first; whether reading it failed shows in the next element. -/
def parseArrayLoop : ℕ → List Json → JsonParser → Option (Json × JsonParser)
  | 0, _, _ => none
  | turns + 1, data, p => do
    let p ← p.back
    let (value, p) ← parseJson p
    let data := data ++ [value]
    if p.failed then some (.null, p)
    else
      let (ch, p) ← getNextToken str p
      if ch = ']' then some (.array data, p)
      else if ch ≠ ',' then
        some (.null, p.fail ("expected ',' in list, got ".toList ++ esc ch))
      else
        let (_, p) ← getNextToken str p
        parseArrayLoop turns data p

/-- The branches of `parse_json` on its first token. -/
def parseToken (ch : Char) (p : JsonParser) : Option (Json × JsonParser) :=
  if ch = '-' ∨ ch.isDigit then do
    let p ← p.back
    parseNumber str p
  else if ch = 't' then expect str "true".toList (.boolean true) p
  else if ch = 'f' then expect str "false".toList (.boolean false) p
  else if ch = 'n' then expect str "null".toList .null p
  else if ch = '"' then do
    let (value, p) ← parseString str p
    some (.string value, p)
  else if ch = '{' then do
    let (ch, p) ← getNextToken str p
    if ch = '}' then some (.object [], p)
    else parseObjectLoop str parseJson (str.length + 1) [] ch p
  else if ch = '[' then do
    let (ch, p) ← getNextToken str p
    if ch = ']' then some (.array [], p)
    else parseArrayLoop str parseJson (str.length + 1) [] p
  else some (.null, p.fail ("expected value, got ".toList ++ esc ch))

end

/-- `parse_json`, with the levels that are left: `max_depth + 1 - depth`. -/
def parseJson : ℕ → JsonParser → Option (Json × JsonParser)
  | 0, p => some (.null, p.fail "exceeded maximum nesting depth".toList)
  | levels + 1, p => do
    let (ch, p) ← getNextToken str p
    if p.failed then some (.null, p)
    else parseToken str (parseJson levels) ch p

end JsonParser

/-- `Json::parse`: the value and `err`. -/
def Json.parse : Option (Json × Text) := do
  let (result, p) ← JsonParser.parseJson str (maxDepth + 1) ⟨0, [], false⟩
  -- check for any trailing garbage
  let p ← JsonParser.consumeWhitespace str p
  if p.failed then some (.null, p.err)
  else if p.i ≠ str.length then
    let c ← charAt str p.i
    some (.null, (p.fail ("unexpected trailing ".toList ++ esc c)).err)
  else some (result, p.err)

end

end SLDM.Json11
