/-
SLDM.Lib.Selector — message selectors.

A subscriber hands a selector to the broker, a condition on the properties
of a message. This is the part of the language that compares properties
with patterns: `name LIKE 'pattern'`, several of them joined by `OR`. In a
pattern `%` stands for any characters and `_` for one, and in a literal two
quotes stand for one. A comparison with a property that a message does not
have is neither true nor false. A message is selected when the whole is
true.

* `like_append_percent` — a pattern with one `%`, at its end, asks for a
  prefix;
* `parse_anyLikeText` — comparisons of one property joined by `OR` are read
  as what they were written for;
* `selects_anyLikeText` — so they select by one pattern or another.

Nothing in this module is about a particular program.
-/
import Mathlib.Data.List.Infix

namespace Selector

abbrev Text := List Char

/-! ## Patterns -/

/-- `value LIKE pattern`. -/
def like : Text → Text → Bool
  | [], value => value.isEmpty
  | c :: pattern, value =>
    if c = '%' then value.tails.any (like pattern)
    else match value with
      | [] => false
      | d :: rest => (c = '_' || c = d) && like pattern rest

theorem like_append_percent {t : Text} (ht : '%' ∉ t ∧ '_' ∉ t) (value : Text) :
    like (t ++ ['%']) value = true ↔ t <+: value := by
  induction t generalizing value with
  | nil =>
    refine iff_of_true ?_ List.nil_prefix
    simp only [List.nil_append, like, if_true, List.any_eq_true]
    exact ⟨[], (List.mem_tails _ _).mpr List.nil_suffix, rfl⟩
  | cons c t ih =>
    simp only [List.mem_cons, not_or] at ht
    obtain ⟨⟨hpercent, htp⟩, hunderscore, htu⟩ := ht
    cases value with
    | nil => simp [like, Ne.symm hpercent]
    | cons d rest =>
      simp [like, Ne.symm hpercent, Ne.symm hunderscore, ih ⟨htp, htu⟩, List.cons_prefix_cons]

/-! ## Conditions -/

inductive Expr where
  | like (property pattern : Text)
  | or (a b : Expr)
  deriving DecidableEq, Repr

/-- The truth value for a message with these properties; `none` is the
unknown one. -/
def Expr.eval (properties : Text → Option Text) : Expr → Option Bool
  | like property pattern => (properties property).map (Selector.like pattern)
  | or a b =>
    match a.eval properties, b.eval properties with
    | some true, _ => some true
    | _, some true => some true
    | some false, some false => some false
    | _, _ => none

theorem eval_or_eq_true {properties : Text → Option Text} {a b : Expr} :
    (Expr.or a b).eval properties = some true ↔
      a.eval properties = some true ∨ b.eval properties = some true := by
  rw [Expr.eval]
  rcases a.eval properties with _ | _ | _ <;> rcases b.eval properties with _ | _ | _ <;> simp

theorem eval_like_eq_true {properties : Text → Option Text} {property pattern : Text} :
    (Expr.like property pattern).eval properties = some true ↔
      ∃ value, properties property = some value ∧ like pattern value = true := by
  rw [Expr.eval, Option.map_eq_some_iff]

/-- One of some patterns. -/
def anyLike (property pattern : Text) : List Text → Expr
  | [] => .like property pattern
  | next :: rest => .or (.like property pattern) (anyLike property next rest)

theorem eval_anyLike {properties : Text → Option Text} (property pattern : Text)
    (rest : List Text) :
    (anyLike property pattern rest).eval properties = some true ↔
      ∃ value, properties property = some value ∧ ∃ q ∈ pattern :: rest, like q value = true := by
  induction rest generalizing pattern with
  | nil => simp [anyLike, eval_like_eq_true]
  | cons next rest ih =>
    rw [anyLike, eval_or_eq_true, eval_like_eq_true, ih]
    simp only [List.mem_cons, exists_eq_or_imp]
    rw [← exists_or]
    exact exists_congr fun value => (and_or_left).symm

/-! ## Texts -/

inductive Token where
  | word (text : Text)
  | literal (value : Text)
  deriving DecidableEq, Repr

/-- What has been read of the token under way; after a `quote` the literal
has ended unless another quote follows. -/
inductive Lexer where
  | between
  | word (read : Text)
  | literal (read : Text)
  | quote (read : Text)
  deriving DecidableEq, Repr

def lex : Lexer → Text → Option (List Token)
  | .between, [] => some []
  | .between, c :: rest =>
    if c = ' ' then lex .between rest
    else if c = '\'' then lex (.literal []) rest
    else lex (.word [c]) rest
  | .word read, [] => some [.word read]
  | .word read, c :: rest =>
    if c = ' ' then (lex .between rest).map (.word read :: ·)
    else if c = '\'' then (lex (.literal []) rest).map (.word read :: ·)
    else lex (.word (read ++ [c])) rest
  | .literal _, [] => none
  | .literal read, c :: rest =>
    if c = '\'' then lex (.quote read) rest else lex (.literal (read ++ [c])) rest
  | .quote read, [] => some [.literal read]
  | .quote read, c :: rest =>
    if c = '\'' then lex (.literal (read ++ [c])) rest
    else if c = ' ' then (lex .between rest).map (.literal read :: ·)
    else (lex (.word [c]) rest).map (.literal read :: ·)

/-- Keywords are not case-sensitive. -/
def isKeyword (keyword : String) (word : Text) : Bool := word.map Char.toUpper = keyword.toList

def parseTokens : List Token → Option Expr
  | .word property :: .word operator :: .literal pattern :: rest =>
    if isKeyword "LIKE" operator && !isKeyword "LIKE" property && !isKeyword "OR" property then
      match rest with
      | [] => some (.like property pattern)
      | .word connective :: rest =>
        if isKeyword "OR" connective then (parseTokens rest).map (.or (.like property pattern))
        else none
      | .literal _ :: _ => none
    else none
  | _ => none

def parse (selector : Text) : Option Expr := (lex .between selector).bind parseTokens

/-- The message with these properties is selected. -/
def Selects (selector : Text) (properties : Text → Option Text) : Prop :=
  ∃ e, parse selector = some e ∧ e.eval properties = some true

instance (selector : Text) (properties : Text → Option Text) :
    Decidable (Selects selector properties) :=
  decidable_of_iff ((parse selector).bind (Expr.eval properties) = some true)
    (by simp [Selects, Option.bind_eq_some_iff])

/-! ## Comparisons joined by OR -/

def likeText (property pattern : Text) : Text :=
  property ++ (" LIKE '".toList ++ (pattern ++ ['\'']))

def anyLikeText (property pattern : Text) : List Text → Text
  | [] => likeText property pattern
  | next :: rest => likeText property pattern ++ (" OR ".toList ++ anyLikeText property next rest)

/-- The name of a property. -/
structure IsName (property : Text) : Prop where
  ne_nil : property ≠ []
  no_blank : ' ' ∉ property
  no_quote : '\'' ∉ property
  not_like : isKeyword "LIKE" property = false
  not_or : isKeyword "OR" property = false

theorem lex_word {t : Text} (hblank : ' ' ∉ t) (hquote : '\'' ∉ t) (read rest : Text) :
    lex (.word read) (t ++ ' ' :: rest) =
      (lex .between rest).map (Token.word (read ++ t) :: ·) := by
  induction t generalizing read with
  | nil => simp [lex]
  | cons c t ih =>
    simp only [List.mem_cons, not_or] at hblank hquote
    rw [List.cons_append, lex, if_neg (Ne.symm hblank.1), if_neg (Ne.symm hquote.1),
      ih hblank.2 hquote.2, List.append_assoc, List.singleton_append]

theorem lex_literal {t : Text} (hquote : '\'' ∉ t) (read rest : Text) :
    lex (.literal read) (t ++ '\'' :: rest) = lex (.quote (read ++ t)) rest := by
  induction t generalizing read with
  | nil => simp [lex]
  | cons c t ih =>
    simp only [List.mem_cons, not_or] at hquote
    rw [List.cons_append, lex, if_neg (Ne.symm hquote.1), ih hquote.2, List.append_assoc,
      List.singleton_append]

section Written

variable {property : Text} (hname : IsName property)

include hname

/-- A comparison and what comes behind it. -/
theorem lex_likeText {pattern : Text} (hquote : '\'' ∉ pattern) (rest : Text) :
    lex .between (likeText property pattern ++ rest) =
      (lex (.quote pattern) rest).map
        ([Token.word property, Token.word "LIKE".toList] ++ ·) := by
  obtain ⟨c, t, rfl⟩ := List.exists_cons_of_ne_nil hname.ne_nil
  have hblank := hname.no_blank
  have hnoquote := hname.no_quote
  simp only [List.mem_cons, not_or] at hblank hnoquote
  have hopen : " LIKE '".toList = ' ' :: ("LIKE".toList ++ [' ', '\'']) := by decide
  have hkeyword : lex .between ("LIKE".toList ++ ' ' :: '\'' :: (pattern ++ '\'' :: rest)) =
      (lex (.quote pattern) rest).map (Token.word "LIKE".toList :: ·) := by
    have hword := lex_word (t := "IKE".toList) (by decide) (by decide) ['L']
      ('\'' :: (pattern ++ '\'' :: rest))
    rw [lex, if_neg (by decide), if_pos rfl, lex_literal hquote] at hword
    exact hword
  rw [likeText, hopen]
  simp only [List.cons_append, List.append_assoc, List.nil_append]
  rw [lex, if_neg (Ne.symm hblank.1), if_neg (Ne.symm hnoquote.1), lex_word hblank.2 hnoquote.2,
    hkeyword, Option.map_map]
  rfl

theorem parseTokens_like (pattern : Text) :
    parseTokens [.word property, .word "LIKE".toList, .literal pattern] =
      some (.like property pattern) := by
  have hlike : isKeyword "LIKE" "LIKE".toList = true := by decide
  rw [parseTokens]
  simp only [hlike, hname.not_like, hname.not_or, Bool.not_false, Bool.and_self, if_true]

theorem parseTokens_or (pattern : Text) (rest : List Token) :
    parseTokens (.word property :: .word "LIKE".toList :: .literal pattern ::
        .word "OR".toList :: rest) =
      (parseTokens rest).map (.or (.like property pattern)) := by
  have hlike : isKeyword "LIKE" "LIKE".toList = true := by decide
  have hor : isKeyword "OR" "OR".toList = true := by decide
  rw [parseTokens]
  simp only [hlike, hor, hname.not_like, hname.not_or, Bool.not_false, Bool.and_self, if_true]

theorem parse_anyLikeText {pattern : Text} {rest : List Text}
    (hquote : ∀ q ∈ pattern :: rest, '\'' ∉ q) :
    parse (anyLikeText property pattern rest) = some (anyLike property pattern rest) := by
  induction rest generalizing pattern with
  | nil =>
    have hlex := lex_likeText hname (hquote pattern List.mem_cons_self) []
    rw [List.append_nil] at hlex
    rw [parse, anyLikeText, hlex]
    exact parseTokens_like hname pattern
  | cons next rest ih =>
    obtain ⟨hpattern, hrest⟩ := List.forall_mem_cons.mp hquote
    have hconnective (t : Text) : lex (.quote pattern) (" OR ".toList ++ t) =
        (lex .between t).map ([Token.literal pattern, Token.word "OR".toList] ++ ·) := by
      have hword := lex_word (t := "R".toList) (by decide) (by decide) ['O'] t
      show (lex .between ('O' :: ("R".toList ++ ' ' :: t))).map _ = _
      rw [lex, if_neg (by decide), if_neg (by decide), hword, Option.map_map]
      rfl
    have hparse := ih hrest
    rw [parse] at hparse
    rw [parse, anyLikeText, lex_likeText hname hpattern, hconnective]
    obtain ⟨tokens, htokens, hparse⟩ := Option.bind_eq_some_iff.mp hparse
    rw [htokens]
    show parseTokens (.word property :: .word "LIKE".toList :: .literal pattern ::
      .word "OR".toList :: tokens) = _
    rw [parseTokens_or hname, hparse]
    rfl

/-- What comparisons joined by `OR` select. -/
theorem selects_anyLikeText {pattern : Text} {rest : List Text}
    (hquote : ∀ q ∈ pattern :: rest, '\'' ∉ q) (properties : Text → Option Text) :
    Selects (anyLikeText property pattern rest) properties ↔
      ∃ value, properties property = some value ∧ ∃ q ∈ pattern :: rest, like q value = true := by
  rw [← eval_anyLike, Selects, parse_anyLikeText hname hquote]
  simp

end Written

end Selector
