/-
SLDM.Json.ParserTheorems — the parser accepts the texts of the grammar.

The loops over the elements of an array and the members of an object are
proved for any parser of the values inside that does what `Reads` says:
it reads a value with white space in front of it, and it has an outcome
whatever the text. `parse_json` does so at every level, by induction on
the levels that are left.

`parse_isSome` — no parse reads outside its text, and every parse ends;
`parse_eq_iff` — the parser accepts exactly the texts of the grammar, with
the value the grammar gives; `parse_err_iff` — a text is refused with a
message, and only then.
-/
import SLDM.Json.TokenTheorems

namespace SLDM.Json11

open NumberText

variable {str : Text}

/-! ## Values inside -/

/-- White space and a value after it. -/
def Spaced (V : Text → Json → Prop) (t : Text) (v : Json) : Prop :=
  ∃ w u, t = w ++ u ∧ Whitespace w ∧ V u v

/-- What follows a value does not continue a number. -/
def NoNumber (rest : Text) : Prop :=
  ∀ c ∈ rest.head?, c.isDigit = false ∧ c ≠ 'e' ∧ c ≠ 'E' ∧ c ≠ '.'

/-- A parser of values. -/
structure Reads (str : Text) (V : Text → Json → Prop)
    (parseJson : JsonParser → Option (Json × JsonParser)) : Prop where
  head : ∀ {t v}, V t v → ∃ c u, t = c :: u ∧ isWhitespace c = false ∧ c ≠ ']'
  reads : ∀ {p w t v rest}, Whitespace w → V t v → Ready str p (w ++ (t ++ rest)) →
    NoNumber rest → parseJson p = some (v, p.advance (w.length + t.length))
  outcome : ∀ {p rest}, Ready str p rest → Outcome str (Spaced V) p (parseJson p)
  refused : ∀ {p}, Refused str p → ∃ v p', parseJson p = some (v, p') ∧ Refused str p'

theorem Refused.fail {p : JsonParser} (h : Refused str p) (msg : Text) :
    Refused str (p.fail msg) where
  failed := rfl
  err := by
    show (if p.failed then p.err else msg) ≠ []
    rw [h.failed]
    exact h.err
  le := h.le

/-- Once a parse has failed there is no token, and the message stays. -/
theorem Refused.getNextToken {p : JsonParser} (h : Refused str p) :
    ∃ p', p.getNextToken str = some (nul, p') ∧ Refused str p' := by
  obtain ⟨w, u, hdrop, hw, hu⟩ := exists_run isWhitespace (str.drop p.i)
  have hready : Ready str { p with failed := false } (w ++ u) := ⟨rfl, h.le, hdrop⟩
  have hskip := hready.skipWhile (by decide) hw hu
  rw [JsonParser.getNextToken, JsonParser.consumeWhitespace, hskip]
  simp only [Option.bind_eq_bind, Option.bind_some, h.failed, if_true]
  exact ⟨_, rfl, rfl, h.err, hready.advance.le⟩

/-- A token, or the end of the text. -/
theorem Ready.getNextToken_cases {p : JsonParser} {rest : Text} (h : Ready str p rest) :
    (∃ p', p.getNextToken str = some (nul, p') ∧ Refused str p' ∧ p'.i = str.length) ∨
    ∃ w c u, rest = w ++ c :: u ∧ Whitespace w ∧ isWhitespace c = false ∧
      p.getNextToken str = some (c, p.advance (w.length + 1)) ∧
      Ready str (p.advance w.length) (c :: u) ∧ Ready str (p.advance (w.length + 1)) u := by
  obtain ⟨w, u, rfl, hw, hu⟩ := exists_run isWhitespace rest
  cases u with
  | nil =>
    rw [List.append_nil] at h
    exact Or.inl (h.getNextToken_end hw)
  | cons c u =>
    have hc := hu c rfl
    have hnext := h.advance
    refine Or.inr ⟨w, c, u, rfl, hw, hc, h.getNextToken hw hc, hnext, ?_⟩
    rw [← JsonParser.advance_advance]
    exact hnext.advance_one

theorem whitespace_nil : Whitespace [] := by simp [Whitespace]

theorem noNumber_append {w : Text} {c : Char} (hw : Whitespace w)
    (hc : c.isDigit = false ∧ c ≠ 'e' ∧ c ≠ 'E' ∧ c ≠ '.') (rest : Text) :
    NoNumber (w ++ c :: rest) := by
  intro d hd
  cases w with
  | nil =>
    obtain rfl : c = d := by simpa using hd
    exact hc
  | cons e w =>
    obtain rfl : e = d := by simpa using hd
    have he := hw e List.mem_cons_self
    simp only [isWhitespace, Bool.or_eq_true, decide_eq_true_eq] at he
    rcases he with ((rfl | rfl) | rfl) | rfl <;> decide

theorem noNumber_whitespace {w : Text} (hw : Whitespace w) : NoNumber w := by
  intro d hd
  have hspace := hw d (List.mem_of_mem_head? hd)
  simp only [isWhitespace, Bool.or_eq_true, decide_eq_true_eq] at hspace
  rcases hspace with ((rfl | rfl) | rfl) | rfl <;> decide

/-! ## Arrays -/

section

variable {V : Text → Json → Prop} {parseJson : JsonParser → Option (Json × JsonParser)}

theorem Elements.head (hV : Reads str V parseJson) {u : Text} {vs : List Json}
    (hu : Elements V u vs) : ∃ c u', u = c :: u' ∧ isWhitespace c = false ∧ c ≠ ']' := by
  cases hu with
  | last ht _ =>
    obtain ⟨c, t', rfl, hc⟩ := hV.head ht
    exact ⟨c, _, rfl, hc⟩
  | more ht _ _ _ =>
    obtain ⟨c, t', rfl, hc⟩ := hV.head ht
    exact ⟨c, _, rfl, hc⟩

theorem Elements.length_le {u : Text} {vs : List Json} (hu : Elements V u vs) :
    vs.length ≤ u.length := by
  induction hu with
  | last _ _ =>
    simp only [List.length_append, List.length_cons, List.length_nil]
    omega
  | more _ _ _ _ ih =>
    simp only [List.length_append, List.length_cons]
    omega

theorem parseArrayLoop_elements (hV : Reads str V parseJson) {u : Text} {vs : List Json}
    (hu : Elements V u vs) : ∀ {turns : ℕ} {data : List Json} {p p₀ : JsonParser} {rest : Text},
    p.back = some p₀ → Ready str p₀ (u ++ rest) → vs.length ≤ turns →
    JsonParser.parseArrayLoop str parseJson turns data p =
      some (.array (data ++ vs), p₀.advance u.length) := by
  induction hu with
  | @last t w v ht hw =>
    intro turns data p p₀ rest hback h hturns
    obtain ⟨turns, rfl⟩ : ∃ n, turns = n + 1 := ⟨turns - 1, by simp at hturns; omega⟩
    simp only [List.append_assoc, List.cons_append, List.nil_append] at h
    have hread := hV.reads whitespace_nil ht h (noNumber_append hw (by decide) rest)
    rw [List.length_nil, Nat.zero_add] at hread
    have hnext := h.advance
    rw [JsonParser.parseArrayLoop, hback]
    simp only [Option.bind_eq_bind, Option.bind_some, hread, hnext.failed, Bool.false_eq_true,
      if_false, hnext.getNextToken hw (by decide), if_true, JsonParser.advance_advance]
    simp only [List.length_append, List.length_singleton]
  | @more t w w' u v vs ht hw hw' hu ih =>
    intro turns data p p₀ rest hback h hturns
    obtain ⟨turns, rfl⟩ : ∃ n, turns = n + 1 := ⟨turns - 1, by simp at hturns; omega⟩
    rw [List.length_cons] at hturns
    simp only [List.append_assoc, List.cons_append] at h
    have hread := hV.reads whitespace_nil ht h (noNumber_append hw (by decide) _)
    rw [List.length_nil, Nat.zero_add] at hread
    have hnext := h.advance
    have hcomma := hnext.advance.advance_one
    -- the token after the comma is where the next element starts
    obtain ⟨c, u', hhead, hc, -⟩ := hu.head hV
    have hstart := hcomma.advance
    have htoken : Ready str (((p₀.advance t.length).advance w.length).advance 1)
        (w' ++ c :: (u' ++ rest)) := by rw [hhead] at hcomma; exact hcomma
    rw [JsonParser.parseArrayLoop, hback]
    simp only [Option.bind_eq_bind, Option.bind_some, hread, hnext.failed, Bool.false_eq_true,
      if_false, hnext.getNextToken hw (by decide)]
    rw [if_neg (by decide), if_neg (by simp), ← JsonParser.advance_advance,
      htoken.getNextToken hw' hc]
    simp only [Option.bind_some]
    rw [ih (JsonParser.back_advance_succ _ _) hstart (by omega)]
    simp only [List.append_assoc, List.singleton_append, JsonParser.advance_advance,
      List.length_append, List.length_cons, Option.some.injEq, Prod.mk.injEq, true_and]
    congr 1
    omega

/-- Reading the next element fails once anything has failed. -/
theorem parseArrayLoop_refused (hV : Reads str V parseJson) (turns : ℕ) (data : List Json)
    {p : JsonParser} (hpos : 0 < p.i) (h : Refused str p) :
    ∃ v p', JsonParser.parseArrayLoop str parseJson (turns + 1) data p = some (v, p') ∧
      Refused str p' := by
  have hle := h.le
  have hback : p.back = some { p with i := p.i - 1 } := if_neg (by omega)
  have hready : Refused str { p with i := p.i - 1 } :=
    ⟨h.failed, h.err, by show p.i - 1 ≤ str.length; omega⟩
  obtain ⟨v, p', hout, href⟩ := hV.refused hready
  rw [JsonParser.parseArrayLoop, hback]
  simp only [Option.bind_eq_bind, Option.bind_some, hout, href.failed, if_true]
  exact ⟨_, _, rfl, href⟩

/-- White space in front of what is none. -/
theorem eq_nil_of_append {w t rest : Text} {c : Char} {u : Text} (hw : Whitespace w)
    (hc : isWhitespace c = false) (h : w ++ t ++ rest = c :: u) : w = [] := by
  cases w with
  | nil => rfl
  | cons d w =>
    obtain rfl : d = c := (List.cons.inj h).1
    exact absurd (hw d List.mem_cons_self) (by simp [hc])

theorem parseArrayLoop_outcome (hV : Reads str V parseJson) : ∀ {turns : ℕ} (data : List Json)
    {p p₀ : JsonParser} {c : Char} {rest : Text}, p.back = some p₀ → Ready str p₀ (c :: rest) →
    isWhitespace c = false → rest.length < turns →
    Outcome str (fun t v => ∃ vs, Elements V t vs ∧ v = .array (data ++ vs)) p₀
      (JsonParser.parseArrayLoop str parseJson turns data p)
  | 0, _, _, _, _, _, _, _, _, hturns => by omega
  | turns + 1, data, p, p₀, c, rest, hback, h, hc, hturns => by
      obtain ⟨v, p₁, hout, hcase⟩ := (hV.outcome h).exists_ready
      rw [JsonParser.parseArrayLoop, hback]
      simp only [Option.bind_eq_bind, Option.bind_some, hout]
      rcases hcase with href | ⟨t, rest₁, ht, ⟨w₀, t, rfl, hw₀, hv⟩, rfl, h₁⟩
      · rw [if_pos href.failed]
        exact .refuses href
      have hrest : w₀ ++ t ++ rest₁ = c :: rest := ht.drop.symm.trans h.drop
      obtain rfl := eq_nil_of_append hw₀ hc hrest
      obtain ⟨c₀, t₀, ht₀, -⟩ := hV.head hv
      have hshort : rest₁.length ≤ rest.length := by
        have hlen := congrArg List.length hrest
        rw [ht₀] at hlen
        simp only [List.nil_append, List.length_append, List.length_cons] at hlen
        omega
      rw [h₁.failed, if_neg (by simp)]
      rcases h₁.getNextToken_cases with
        ⟨p₂, hout₂, href, -⟩ | ⟨w, ch, u, rfl, hw, hch, hout₂, -, h₂⟩
      · simp only [hout₂, Option.bind_some]
        rw [if_neg (by decide), if_pos (by decide)]
        exact .refuses (href.fail _)
      simp only [hout₂, Option.bind_some]
      by_cases hclose : ch = ']'
      · subst hclose
        rw [if_pos rfl, JsonParser.advance_advance, ← Nat.add_assoc]
        have hacc : Ready str p₀ ((t ++ (w ++ [']'])) ++ u) := by
          simpa only [List.nil_append, List.append_assoc, List.cons_append] using ht
        have htext : (([] : Text) ++ t).length + w.length + 1 = (t ++ (w ++ [']'])).length := by
          simp only [List.nil_append, List.length_append, List.length_singleton, Nat.add_assoc]
        rw [htext]
        exact .accepts hacc ⟨[v], .last hv hw, rfl⟩
      rw [if_neg hclose]
      by_cases hcomma : ch = ','
      · subst hcomma
        rw [if_neg (by simp)]
        obtain ⟨turns, rfl⟩ : ∃ n, turns = n + 1 := ⟨turns - 1, by
          simp only [List.length_append, List.length_cons] at hshort; omega⟩
        rcases h₂.getNextToken_cases with
          ⟨p₃, hout₃, href, hend⟩ | ⟨w', c', u', rfl, hw', hc', hout₃, h₃, -⟩
        · simp only [hout₃, Option.bind_some]
          have hpos : 0 < p₃.i := by
            have hlen := h.length
            rw [List.length_cons] at hlen
            omega
          obtain ⟨v', p', hp', href'⟩ := parseArrayLoop_refused hV turns
            (data ++ [v]) hpos href
          exact hp' ▸ .refuses href'
        · simp only [hout₃, Option.bind_some]
          have hturns' : u'.length < turns + 1 := by
            simp only [List.length_append, List.length_cons] at hshort; omega
          have ih := parseArrayLoop_outcome hV (data ++ [v])
            (JsonParser.back_advance_succ _ w'.length) h₃ hc' hturns'
          obtain ⟨v', p', hp', href | ⟨t', rest', ht', ⟨vs, hvs, rfl⟩, rfl, -⟩⟩ := ih.exists_ready
          · exact hp' ▸ .refuses href
          · have hu' : c' :: u' = t' ++ rest' := h₃.drop.symm.trans ht'.drop
            rw [hp']
            simp only [JsonParser.advance_advance]
            have hacc : Ready str p₀ ((t ++ (w ++ ',' :: (w' ++ t'))) ++ rest') := by
              rw [hu'] at ht
              simpa only [List.nil_append, List.append_assoc, List.cons_append] using ht
            have htext : ([] ++ t).length + (w.length + 1) + w'.length + t'.length =
                (t ++ (w ++ ',' :: (w' ++ t'))).length := by
              simp only [List.nil_append, List.length_append, List.length_cons]
              omega
            simp only [← Nat.add_assoc] at htext ⊢
            rw [htext]
            exact .accepts hacc ⟨v :: vs, .more hv hw hw' hvs, by simp⟩
      · rw [if_pos hcomma]
        exact .refuses (h₂.refused_fail (by simp))

/-! ## Objects -/

/-- The map after setting some entries. -/
def setAll (data es : List (Text × Json)) : List (Text × Json) :=
  es.foldl (fun m e => SortedMap.set e.1 e.2 m) data

/-- An entry of an object without what follows it. -/
def Entry (V : Text → Json → Prop) (t : Text) (e : Text × Json) : Prop :=
  ∃ (s : StringLiteral) (w w' u : Text), t = s.text ++ (w ++ ':' :: (w' ++ u)) ∧ Whitespace w ∧
    Whitespace w' ∧ e.1 = s.value ∧ V u e.2

theorem Entry.head {t : Text} {e : Text × Json} (h : Entry V t e) : ∃ u, t = '"' :: u := by
  obtain ⟨s, w, w', u, rfl, -⟩ := h
  exact ⟨_, rfl⟩

theorem parseEntry_entry (hV : Reads str V parseJson) {t rest : Text} {e : Text × Json}
    (ht : Entry V t e) {p₀ : JsonParser} (h : Ready str p₀ (t ++ rest)) (hrest : NoNumber rest) :
    JsonParser.parseEntry str parseJson '"' (p₀.advance 1) = some (e, p₀.advance t.length) := by
  obtain ⟨s, w, w', u, rfl, hw, hw', hkey, hu⟩ := ht
  simp only [StringLiteral.text, List.append_assoc, List.cons_append] at h
  have hstring := h.advance_one
  have hcolon := hstring.advance
  have hvalue := hcolon.advance.advance_one
  have hread := hV.reads hw' hu hvalue hrest
  rw [JsonParser.parseEntry, if_neg (by simp), hstring.parseString]
  simp only [Option.bind_eq_bind, Option.bind_some, hcolon.failed, Bool.false_eq_true, if_false]
  rw [hcolon.getNextToken hw (by decide), ← JsonParser.advance_advance]
  simp only [Option.bind_some, ne_eq, not_true, if_false]
  rw [hread, ← hkey]
  simp only [Option.bind_some, JsonParser.advance_advance, StringLiteral.text, List.length_append,
    List.length_cons, Option.some.injEq, Prod.mk.injEq, true_and]
  congr 1
  omega

theorem parseEntry_outcome (hV : Reads str V parseJson) {c : Char} {rest : Text}
    {p₀ : JsonParser} (h : Ready str p₀ (c :: rest)) :
    Outcome str (Entry V) p₀ (JsonParser.parseEntry str parseJson c (p₀.advance 1)) := by
  rw [JsonParser.parseEntry]
  by_cases hquote : c = '"'
  swap
  · rw [if_pos hquote]
    exact .refuses (h.advance_one.refused_fail (by simp))
  subst hquote
  obtain ⟨key, p₁, hout, href | ⟨t, rest₁, ht, ⟨s, rfl, rfl⟩, rfl, h₁⟩⟩ :=
    h.advance_one.parseString_outcome.exists_ready
  · rw [if_neg (by simp), hout]
    simp only [Option.bind_eq_bind, Option.bind_some, href.failed, if_true]
    exact .refuses href
  rw [if_neg (by simp), hout]
  simp only [Option.bind_eq_bind, Option.bind_some, h₁.failed, Bool.false_eq_true, if_false]
  rcases h₁.getNextToken_cases with ⟨p₂, hout₂, href, -⟩ | ⟨w, ch, u, rfl, hw, hch, hout₂, -, h₂⟩
  · simp only [hout₂, Option.bind_some]
    rw [if_pos (by decide)]
    exact .refuses (href.fail _)
  simp only [hout₂, Option.bind_some]
  by_cases hcolon : ch = ':'
  swap
  · rw [if_pos hcolon]
    exact .refuses (h₂.refused_fail (by simp))
  subst hcolon
  rw [if_neg (by simp)]
  obtain ⟨v, p₃, hout₃, href | ⟨t, rest₃, ht₃, ⟨w', t, rfl, hw', hv⟩, rfl, -⟩⟩ :=
    (hV.outcome h₂).exists_ready
  · simp only [hout₃, Option.bind_some]
    exact .refuses href
  · rw [hout₃]
    simp only [Option.bind_some, JsonParser.advance_advance]
    have hu : u = w' ++ t ++ rest₃ := h₂.drop.symm.trans ht₃.drop
    have hrest : rest = s.body ++ (w ++ ':' :: u) := h.advance_one.drop.symm.trans ht.drop
    have hacc : Ready str p₀ (s.text ++ (w ++ ':' :: (w' ++ t)) ++ rest₃) := by
      rw [hrest, hu] at h
      simpa only [StringLiteral.text, List.append_assoc, List.cons_append] using h
    have htext : 1 + (s.body.length + (w.length + 1 + (w' ++ t).length)) =
        (s.text ++ (w ++ ':' :: (w' ++ t))).length := by
      simp only [StringLiteral.text, List.length_append, List.length_cons]
      omega
    simp only [Nat.add_assoc] at htext ⊢
    rw [htext]
    exact .accepts hacc ⟨s, w, w', t, rfl, hw, hw', rfl, hv⟩

theorem Members.head {u : Text} {es : List (Text × Json)} (h : Members V u es) :
    ∃ u', u = '"' :: u' := by
  cases h with
  | last _ _ _ _ => exact ⟨_, rfl⟩
  | more _ _ _ _ _ _ => exact ⟨_, rfl⟩

theorem Members.length_le {u : Text} {es : List (Text × Json)} (hu : Members V u es) :
    es.length ≤ u.length := by
  induction hu with
  | last _ _ _ _ =>
    simp only [List.length_append, List.length_cons, List.length_nil]
    omega
  | more _ _ _ _ _ _ ih =>
    simp only [List.length_append, List.length_cons]
    omega

theorem parseObjectLoop_members (hV : Reads str V parseJson) {u : Text}
    {es : List (Text × Json)} (hu : Members V u es) : ∀ {turns : ℕ} {data : List (Text × Json)}
    {p₀ : JsonParser} {rest : Text}, Ready str p₀ (u ++ rest) → es.length ≤ turns →
    JsonParser.parseObjectLoop str parseJson turns data '"' (p₀.advance 1) =
      some (.object (setAll data es), p₀.advance u.length) := by
  induction hu with
  | @last s w w' t w'' v hw hw' ht hw'' =>
    intro turns data p₀ rest h hturns
    obtain ⟨turns, rfl⟩ : ∃ n, turns = n + 1 := ⟨turns - 1, by simp at hturns; omega⟩
    have hentry : Entry V (s.text ++ (w ++ ':' :: (w' ++ t))) (s.value, v) :=
      ⟨s, w, w', t, rfl, hw, hw', rfl, ht⟩
    have hsplit : Ready str p₀ ((s.text ++ (w ++ ':' :: (w' ++ t))) ++ (w'' ++ '}' :: rest)) := by
      simpa only [List.append_assoc, List.cons_append, List.nil_append] using h
    have hread := parseEntry_entry hV hentry hsplit (noNumber_append hw'' (by decide) rest)
    have hnext := hsplit.advance
    rw [JsonParser.parseObjectLoop, hread]
    simp only [Option.bind_eq_bind, Option.bind_some, hnext.failed, Bool.false_eq_true, if_false,
      hnext.getNextToken hw'' (by decide), if_true, JsonParser.advance_advance]
    simp only [List.length_append, List.length_cons, List.length_nil, Nat.add_assoc, setAll,
      List.foldl_cons, List.foldl_nil, Nat.zero_add]
    congr 3
    omega
  | @more s w w' t w'' w₃ u v es hw hw' ht hw'' hw₃ hu ih =>
    intro turns data p₀ rest h hturns
    obtain ⟨turns, rfl⟩ : ∃ n, turns = n + 1 := ⟨turns - 1, by simp at hturns; omega⟩
    rw [List.length_cons] at hturns
    have hentry : Entry V (s.text ++ (w ++ ':' :: (w' ++ t))) (s.value, v) :=
      ⟨s, w, w', t, rfl, hw, hw', rfl, ht⟩
    have hsplit : Ready str p₀ ((s.text ++ (w ++ ':' :: (w' ++ t))) ++
        (w'' ++ ',' :: (w₃ ++ (u ++ rest)))) := by
      simpa only [List.append_assoc, List.cons_append, List.nil_append] using h
    have hread := parseEntry_entry hV hentry hsplit (noNumber_append hw'' (by decide) _)
    have hnext := hsplit.advance
    have hcomma := hnext.advance.advance_one
    obtain ⟨u', hhead⟩ := hu.head
    have htoken : Ready str (((p₀.advance (s.text ++ (w ++ ':' :: (w' ++ t))).length).advance
        w''.length).advance 1) (w₃ ++ '"' :: (u' ++ rest)) := by
      rw [hhead] at hcomma; exact hcomma
    rw [JsonParser.parseObjectLoop, hread]
    simp only [Option.bind_eq_bind, Option.bind_some, hnext.failed, Bool.false_eq_true, if_false,
      hnext.getNextToken hw'' (by decide)]
    rw [if_neg (by decide), if_neg (by simp), ← JsonParser.advance_advance,
      htoken.getNextToken hw₃ (by decide)]
    simp only [Option.bind_some]
    rw [← JsonParser.advance_advance, ih hcomma.advance (by omega)]
    simp only [JsonParser.advance_advance, setAll, List.foldl_cons, List.length_append,
      List.length_cons]
    congr 3
    omega

theorem parseObjectLoop_outcome (hV : Reads str V parseJson) : ∀ {turns : ℕ}
    (data : List (Text × Json)) {p₀ : JsonParser} {c : Char} {rest : Text},
    Ready str p₀ (c :: rest) → rest.length < turns →
    Outcome str (fun t v => ∃ es, Members V t es ∧ v = .object (setAll data es)) p₀
      (JsonParser.parseObjectLoop str parseJson turns data c (p₀.advance 1))
  | 0, _, _, _, _, _, hturns => by omega
  | turns + 1, data, p₀, c, rest, h, hturns => by
      obtain ⟨⟨key, value⟩, p₁, hout, hcase⟩ := (parseEntry_outcome hV h).exists_ready
      rw [JsonParser.parseObjectLoop, hout]
      simp only [Option.bind_eq_bind, Option.bind_some]
      rcases hcase with href | ⟨t, rest₁, ht, hentry, rfl, h₁⟩
      · rw [if_pos href.failed]
        exact .refuses href
      obtain ⟨t', ht'⟩ := hentry.head
      have hshort : rest₁.length ≤ rest.length := by
        have hlen := congrArg List.length (ht.drop.symm.trans h.drop)
        rw [ht'] at hlen
        simp only [List.length_append, List.length_cons] at hlen
        omega
      obtain ⟨s, w, w', u, rfl, hw, hw', hkey, hu⟩ := hentry
      obtain rfl : key = s.value := hkey
      rw [h₁.failed, if_neg (by simp)]
      rcases h₁.getNextToken_cases with
        ⟨p₂, hout₂, href, -⟩ | ⟨w'', ch, u', rfl, hw'', hch, hout₂, -, h₂⟩
      · simp only [hout₂, Option.bind_some]
        rw [if_neg (by decide), if_pos (by decide)]
        exact .refuses (href.fail _)
      simp only [hout₂, Option.bind_some]
      by_cases hclose : ch = '}'
      · subst hclose
        rw [if_pos rfl, JsonParser.advance_advance]
        have hacc : Ready str p₀
            ((s.text ++ (w ++ ':' :: (w' ++ (u ++ (w'' ++ ['}']))))) ++ u') := by
          simpa only [List.append_assoc, List.cons_append, List.nil_append] using ht
        have htext : (s.text ++ (w ++ ':' :: (w' ++ u))).length + (w''.length + 1) =
            (s.text ++ (w ++ ':' :: (w' ++ (u ++ (w'' ++ ['}']))))).length := by
          simp only [List.length_append, List.length_cons, List.length_nil]
          omega
        rw [htext]
        exact .accepts hacc ⟨[(s.value, value)], .last hw hw' hu hw'', rfl⟩
      rw [if_neg hclose]
      by_cases hcomma : ch = ','
      · subst hcomma
        rw [if_neg (by simp)]
        obtain ⟨turns, rfl⟩ : ∃ n, turns = n + 1 := ⟨turns - 1, by
          simp only [List.length_append, List.length_cons] at hshort; omega⟩
        rcases h₂.getNextToken_cases with
          ⟨p₃, hout₃, href, -⟩ | ⟨w₃, c', v', rfl, hw₃, -, hout₃, h₃, -⟩
        · simp only [hout₃, Option.bind_some]
          rw [JsonParser.parseObjectLoop, JsonParser.parseEntry, if_pos (by decide)]
          exact .refuses (href.fail _)
        · simp only [hout₃, Option.bind_some]
          have hturns' : v'.length < turns + 1 := by
            simp only [List.length_append, List.length_cons] at hshort; omega
          have ih := parseObjectLoop_outcome hV (SortedMap.set s.value value data) h₃ hturns'
          rw [← JsonParser.advance_advance]
          obtain ⟨x, p', hp', href | ⟨t'', rest', ht'', ⟨es, hes, rfl⟩, rfl, -⟩⟩ := ih.exists_ready
          · exact hp' ▸ .refuses href
          · have hrest' : c' :: v' = t'' ++ rest' := h₃.drop.symm.trans ht''.drop
            rw [hp']
            simp only [JsonParser.advance_advance]
            have hacc : Ready str p₀ ((s.text ++ (w ++ ':' :: (w' ++
                (u ++ (w'' ++ ',' :: (w₃ ++ t'')))))) ++ rest') := by
              rw [hrest'] at ht
              simpa only [List.append_assoc, List.cons_append] using ht
            have htext : (s.text ++ (w ++ ':' :: (w' ++ u))).length + (w''.length + 1) +
                w₃.length + t''.length =
                (s.text ++ (w ++ ':' :: (w' ++ (u ++ (w'' ++ ',' :: (w₃ ++ t'')))))).length := by
              simp only [List.length_append, List.length_cons]
              omega
            simp only [← Nat.add_assoc] at htext ⊢
            rw [htext]
            exact .accepts hacc ⟨(s.value, value) :: es, .more hw hw' hu hw'' hw₃ hes, rfl⟩
      · rw [if_pos hcomma]
        exact .refuses (h₂.refused_fail (by simp))

end

/-! ## Values -/

/-- What is read after some text is read with it. -/
theorem Outcome.prepend {α : Type} {G G' : Text → α → Prop} {p : JsonParser} {w rest : Text}
    {out : Option (α × JsonParser)} (h : Ready str p (w ++ rest))
    (hout : Outcome str G (p.advance w.length) out) (hG : ∀ u v, G u v → G' (w ++ u) v) :
    Outcome str G' p out := by
  cases hout with
  | @accepts t rest' v hready hv =>
    have hrest : rest = t ++ rest' := h.advance.drop.symm.trans hready.drop
    rw [JsonParser.advance_advance, ← List.length_append]
    have hread : Ready str p (w ++ t ++ rest') := by
      rwa [List.append_assoc, ← hrest]
    exact .accepts hread (hG t v hv)
  | refuses href => exact .refuses href

/-- What is read is read with what weaker things say of it. -/
theorem Outcome.mono {α : Type} {G G' : Text → α → Prop} {p : JsonParser}
    {out : Option (α × JsonParser)} (hout : Outcome str G p out) (hG : ∀ u v, G u v → G' u v) :
    Outcome str G' p out := by
  cases hout with
  | accepts hready hv => exact .accepts hready (hG _ _ hv)
  | refuses href => exact .refuses href

/-- What an outcome says of a computation that goes on with the value. -/
theorem Outcome.map {α β : Type} {G : Text → α → Prop} {G' : Text → β → Prop} {p : JsonParser}
    {out : Option (α × JsonParser)} (f : α → β) (hout : Outcome str G p out)
    (hG : ∀ u v, G u v → G' u (f v)) :
    Outcome str G' p (out.bind fun r => some (f r.1, r.2)) := by
  cases hout with
  | accepts hready hv => exact .accepts hready (hG _ _ hv)
  | refuses href => exact .refuses href

theorem expect_read {expected rest : Text} {res : Json} {p₀ : JsonParser}
    (h : Ready str p₀ (expected ++ rest)) :
    JsonParser.expect str expected res (p₀.advance 1) =
      some (res, p₀.advance expected.length) := by
  rw [JsonParser.expect, JsonParser.back_advance_succ p₀ 0, JsonParser.advance_zero]
  simp only [Option.bind_eq_bind, Option.bind_some, h.substr, List.take_left, if_true]

theorem expect_outcome {expected rest : Text} {res : Json} {p₀ : JsonParser}
    (h : Ready str p₀ rest) :
    Outcome str (fun t v => t = expected ∧ v = res) p₀
      (JsonParser.expect str expected res (p₀.advance 1)) := by
  by_cases hpre : rest.take expected.length = expected
  · have hsplit : Ready str p₀ (expected ++ rest.drop expected.length) := by
      have htake := List.take_append_drop expected.length rest
      rw [hpre] at htake
      rwa [htake]
    rw [expect_read hsplit]
    exact .accepts hsplit ⟨rfl, rfl⟩
  · rw [JsonParser.expect, JsonParser.back_advance_succ p₀ 0, JsonParser.advance_zero]
    simp only [Option.bind_eq_bind, Option.bind_some, h.substr, hpre, if_false]
    exact .refuses (h.refused_fail (by simp))

section

variable {V : Text → Json → Prop} {parseJson : JsonParser → Option (Json × JsonParser)}
  {p₀ : JsonParser} {rest : Text}

theorem setAll_nil (es : List (Text × Json)) : setAll [] es = SortedMap.ofEntries es := rfl

/-- What follows an opening brace. -/
theorem parseToken_object_outcome (hV : Reads str V parseJson) (h : Ready str p₀ ('{' :: rest)) :
    Outcome str (ValueOf V) p₀ (JsonParser.parseToken str parseJson '{' (p₀.advance 1)) := by
  have hnext := h.advance_one
  have hlen := h.length
  rw [JsonParser.parseToken, if_neg (by decide), if_neg (by decide), if_neg (by decide),
    if_neg (by decide), if_neg (by decide), if_pos rfl]
  rcases hnext.getNextToken_cases with ⟨p₁, hout, href, -⟩ | ⟨w, c, u, rfl, hw, hc, hout, h₁, h₂⟩
  · simp only [hout, Option.bind_eq_bind, Option.bind_some]
    rw [if_neg (by decide), JsonParser.parseObjectLoop, JsonParser.parseEntry, if_pos (by decide)]
    exact .refuses (href.fail _)
  simp only [hout, Option.bind_eq_bind, Option.bind_some]
  refine Outcome.prepend (w := ['{']) h ?_ fun u v (hv : ∃ t, u = w ++ t ∧
    ValueOf V ('{' :: (w ++ t)) v) => by obtain ⟨t, rfl, hv⟩ := hv; exact hv
  refine Outcome.prepend (w := w) hnext ?_ fun u v hv => ⟨u, rfl, hv⟩
  rw [← JsonParser.advance_advance]
  by_cases hclose : c = '}'
  · subst hclose
    rw [if_pos rfl]
    exact .accepts (t := ['}']) h₁ (.emptyObject hw)
  · rw [if_neg hclose]
    have hturns : u.length < str.length + 1 := by
      simp only [List.length_append, List.length_cons] at hlen; omega
    have hloop := parseObjectLoop_outcome hV [] h₁ hturns
    refine Outcome.mono hloop fun t v hv => ?_
    obtain ⟨es, hes, rfl⟩ := hv
    exact .object hw hes

theorem parseToken_array_outcome (hV : Reads str V parseJson) (h : Ready str p₀ ('[' :: rest)) :
    Outcome str (ValueOf V) p₀ (JsonParser.parseToken str parseJson '[' (p₀.advance 1)) := by
  have hnext := h.advance_one
  have hlen := h.length
  rw [JsonParser.parseToken, if_neg (by decide), if_neg (by decide), if_neg (by decide),
    if_neg (by decide), if_neg (by decide), if_neg (by decide), if_pos rfl]
  rcases hnext.getNextToken_cases with
    ⟨p₁, hout, href, hend⟩ | ⟨w, c, u, rfl, hw, hc, hout, h₁, h₂⟩
  · simp only [hout, Option.bind_eq_bind, Option.bind_some]
    rw [if_neg (by decide)]
    obtain ⟨v, p', hp', href'⟩ := parseArrayLoop_refused hV str.length []
      (by rw [List.length_cons] at hlen; omega) href
    exact hp' ▸ .refuses href'
  simp only [hout, Option.bind_eq_bind, Option.bind_some]
  refine Outcome.prepend (w := ['[']) h ?_ fun u v (hv : ∃ t, u = w ++ t ∧
    ValueOf V ('[' :: (w ++ t)) v) => by obtain ⟨t, rfl, hv⟩ := hv; exact hv
  refine Outcome.prepend (w := w) hnext ?_ fun u v hv => ⟨u, rfl, hv⟩
  by_cases hclose : c = ']'
  · subst hclose
    rw [if_pos rfl, ← JsonParser.advance_advance]
    exact .accepts (t := [']']) h₁ (.emptyArray hw)
  · rw [if_neg hclose]
    have hturns : u.length < str.length + 1 := by
      simp only [List.length_append, List.length_cons] at hlen; omega
    have hloop := parseArrayLoop_outcome hV [] (JsonParser.back_advance_succ _ _) h₁ hc hturns
    refine Outcome.mono hloop fun t v hv => ?_
    obtain ⟨vs, hvs, rfl⟩ := hv
    exact .array hw hvs

/-- Every first token has an outcome. -/
theorem parseToken_outcome (hV : Reads str V parseJson) {c : Char}
    (h : Ready str p₀ (c :: rest)) :
    Outcome str (ValueOf V) p₀ (JsonParser.parseToken str parseJson c (p₀.advance 1)) := by
  have hword : ∀ expected res, ValueOf V expected res →
      Outcome str (ValueOf V) p₀ (JsonParser.expect str expected res (p₀.advance 1)) := by
    intro expected res hv
    refine Outcome.mono (expect_outcome h) fun t v htv => ?_
    obtain ⟨rfl, rfl⟩ := htv
    exact hv
  by_cases hobject : c = '{'
  · subst hobject
    exact parseToken_object_outcome hV h
  by_cases harray : c = '['
  · subst harray
    exact parseToken_array_outcome hV h
  rw [JsonParser.parseToken]
  by_cases hnumber : c = '-' ∨ c.isDigit
  · rw [if_pos hnumber, JsonParser.back_advance_succ p₀ 0, JsonParser.advance_zero]
    refine Outcome.mono h.parseNumber_outcome fun t v htv => ?_
    obtain ⟨l, rfl, rfl⟩ := htv
    exact .number l
  rw [if_neg hnumber]
  by_cases ht : c = 't'
  · rw [if_pos ht]; exact hword _ _ .trueName
  rw [if_neg ht]
  by_cases hf : c = 'f'
  · rw [if_pos hf]; exact hword _ _ .falseName
  rw [if_neg hf]
  by_cases hn : c = 'n'
  · rw [if_pos hn]; exact hword _ _ .nullName
  rw [if_neg hn]
  by_cases hquote : c = '"'
  · subst hquote
    rw [if_pos rfl]
    have hstring : Outcome str
        (fun t v => ∃ s : StringLiteral, t = s.body ∧ v = Json.string s.value)
        (p₀.advance 1) ((JsonParser.parseString str (p₀.advance 1)).bind fun r =>
          some (Json.string r.1, r.2)) := by
      refine h.advance_one.parseString_outcome.map Json.string ?_
      rintro u v ⟨s, rfl, rfl⟩
      exact ⟨s, rfl, rfl⟩
    refine Outcome.prepend (w := ['"']) h hstring ?_
    rintro u v ⟨s, rfl, rfl⟩
    exact .string s
  rw [if_neg hquote, if_neg hobject, if_neg harray]
  exact .refuses (h.advance_one.refused_fail (by simp))

/-- A value is read from its first token on. -/
theorem parseToken_value (hV : Reads str V parseJson) {c : Char} {t u : Text} {v : Json}
    (hv : ValueOf V t v) (ht : t = c :: u) (h : Ready str p₀ (t ++ rest)) (hrest : NoNumber rest) :
    JsonParser.parseToken str parseJson c (p₀.advance 1) = some (v, p₀.advance t.length) := by
  cases hv with
  | nullName =>
    obtain rfl : 'n' = c := (List.cons.inj ht).1
    exact expect_read h
  | trueName =>
    obtain rfl : 't' = c := (List.cons.inj ht).1
    exact expect_read h
  | falseName =>
    obtain rfl : 'f' = c := (List.cons.inj ht).1
    exact expect_read h
  | number l =>
    obtain ⟨d, w, htext, hd⟩ := head_literal l
    obtain rfl : d = c := (List.cons.inj (htext.symm.trans ht)).1
    have hstops : l.StopsAt rest := fun e he =>
      ⟨(hrest e he).1, fun _ => ⟨(hrest e he).2.1, (hrest e he).2.2.1, fun _ => (hrest e he).2.2.2⟩⟩
    rw [JsonParser.parseToken, if_pos hd, JsonParser.back_advance_succ p₀ 0,
      JsonParser.advance_zero]
    exact h.parseNumber hstops
  | string s =>
    obtain rfl : '"' = c := (List.cons.inj ht).1
    have hbody : Ready str (p₀.advance 1) (s.body ++ rest) := h.advance_one
    rw [JsonParser.parseToken, if_neg (by decide), if_neg (by decide), if_neg (by decide),
      if_neg (by decide), if_pos rfl, hbody.parseString]
    simp only [Option.bind_eq_bind, Option.bind_some, JsonParser.advance_advance]
    rw [Nat.add_comm]
    rfl
  | @emptyArray w hw =>
    obtain rfl : '[' = c := (List.cons.inj ht).1
    have hnext : Ready str (p₀.advance 1) (w ++ ']' :: rest) := by
      simp only [List.append_assoc, List.cons_append, List.nil_append] at h
      exact h.advance_one
    rw [JsonParser.parseToken, if_neg (by decide), if_neg (by decide), if_neg (by decide),
      if_neg (by decide), if_neg (by decide), if_neg (by decide), if_pos rfl,
      hnext.getNextToken hw (by decide)]
    simp only [Option.bind_eq_bind, Option.bind_some, if_true, JsonParser.advance_advance,
      List.length_cons, List.length_append, List.length_nil]
    rw [Nat.add_comm 1]
  | @array w u' vs hw hu =>
    obtain rfl : '[' = c := (List.cons.inj ht).1
    obtain ⟨d, u'', rfl, hd, hclose⟩ := hu.head hV
    have hnext : Ready str (p₀.advance 1) (w ++ d :: (u'' ++ rest)) := by
      simp only [List.append_assoc, List.cons_append] at h
      exact h.advance_one
    have hturns : vs.length ≤ str.length + 1 := by
      have hle := hu.length_le
      have hlen := h.length
      simp only [List.length_append, List.length_cons] at hle hlen
      omega
    rw [JsonParser.parseToken, if_neg (by decide), if_neg (by decide), if_neg (by decide),
      if_neg (by decide), if_neg (by decide), if_neg (by decide), if_pos rfl,
      hnext.getNextToken hw hd]
    simp only [Option.bind_eq_bind, Option.bind_some]
    rw [if_neg hclose, parseArrayLoop_elements hV hu (JsonParser.back_advance_succ _ _)
      hnext.advance hturns]
    simp only [List.nil_append, JsonParser.advance_advance, List.length_cons, List.length_append]
    congr 3
    omega
  | @emptyObject w hw =>
    obtain rfl : '{' = c := (List.cons.inj ht).1
    have hnext : Ready str (p₀.advance 1) (w ++ '}' :: rest) := by
      simp only [List.append_assoc, List.cons_append, List.nil_append] at h
      exact h.advance_one
    rw [JsonParser.parseToken, if_neg (by decide), if_neg (by decide), if_neg (by decide),
      if_neg (by decide), if_neg (by decide), if_pos rfl, hnext.getNextToken hw (by decide)]
    simp only [Option.bind_eq_bind, Option.bind_some, if_true, JsonParser.advance_advance,
      List.length_cons, List.length_append, List.length_nil]
    rw [Nat.add_comm 1]
  | @object w u' es hw hu =>
    obtain rfl : '{' = c := (List.cons.inj ht).1
    obtain ⟨u'', rfl⟩ := hu.head
    have hnext : Ready str (p₀.advance 1) (w ++ '"' :: (u'' ++ rest)) := by
      simp only [List.append_assoc, List.cons_append] at h
      exact h.advance_one
    have hturns : es.length ≤ str.length + 1 := by
      have hle := hu.length_le
      have hlen := h.length
      simp only [List.length_append, List.length_cons] at hle hlen
      omega
    rw [JsonParser.parseToken, if_neg (by decide), if_neg (by decide), if_neg (by decide),
      if_neg (by decide), if_neg (by decide), if_pos rfl, hnext.getNextToken hw (by decide)]
    simp only [Option.bind_eq_bind, Option.bind_some]
    rw [if_neg (by decide), ← JsonParser.advance_advance,
      parseObjectLoop_members hV hu hnext.advance hturns]
    simp only [setAll_nil, JsonParser.advance_advance, List.length_cons, List.length_append]
    congr 3
    omega

end

/-- `parse_json` reads the values of the grammar, at every level. -/
theorem reads_parseJson (str : Text) :
    ∀ levels, Reads str (Value levels) (JsonParser.parseJson str levels)
  | 0 =>
    { head := fun h => h.elim
      reads := fun _ h => h.elim
      outcome := fun h => .refuses (h.refused_fail (by simp))
      refused := fun h => ⟨_, _, rfl, h.fail _⟩ }
  | levels + 1 =>
    { head := ValueOf.head
      reads := by
        intro p w t v rest hw hv h hrest
        obtain ⟨c, u, ht, hc, -⟩ := ValueOf.head hv
        have hnext := h.advance
        have htoken : Ready str p (w ++ c :: (u ++ rest)) := by rwa [ht] at h
        have hread := parseToken_value (reads_parseJson str levels) hv ht hnext hrest
        rw [JsonParser.parseJson, htoken.getNextToken hw hc]
        simp only [Option.bind_eq_bind, Option.bind_some]
        rw [← JsonParser.advance_advance, if_neg (by simp [JsonParser.advance, h.failed]), hread,
          JsonParser.advance_advance]
      outcome := by
        intro p rest h
        rw [JsonParser.parseJson]
        rcases h.getNextToken_cases with
          ⟨p', hout, href, -⟩ | ⟨w, c, u, rfl, hw, hc, hout, h₁, -⟩
        · simp only [hout, Option.bind_eq_bind, Option.bind_some, href.failed, if_true]
          exact .refuses href
        · simp only [hout, Option.bind_eq_bind, Option.bind_some]
          rw [← JsonParser.advance_advance, if_neg (by simp [JsonParser.advance, h.failed])]
          exact (parseToken_outcome (reads_parseJson str levels) h₁).prepend h
            fun t v hv => ⟨w, t, rfl, hw, hv⟩
      refused := by
        intro p h
        obtain ⟨p', hout, href⟩ := h.getNextToken
        rw [JsonParser.parseJson, hout]
        simp only [Option.bind_eq_bind, Option.bind_some, href.failed, if_true]
        exact ⟨_, _, rfl, href⟩ }

/-! ## Texts -/

theorem Refused.consumeWhitespace {p : JsonParser} (h : Refused str p) :
    ∃ p', p.consumeWhitespace str = some p' ∧ p'.failed = true ∧ p'.err = p.err := by
  obtain ⟨w, u, hdrop, hw, hu⟩ := exists_run isWhitespace (str.drop p.i)
  have hready : Ready str { p with failed := false } (w ++ u) := ⟨rfl, h.le, hdrop⟩
  have hskip := hready.skipWhile (by decide) hw hu
  rw [JsonParser.consumeWhitespace, hskip]
  exact ⟨_, rfl, h.failed, rfl⟩

/-- What a parse gives: the value of the text, or `null` and a message. -/
theorem parse_cases (str : Text) : (∃ v, JsonText str v ∧ Json.parse str = some (v, [])) ∨
    ∃ err, err ≠ [] ∧ Json.parse str = some (.null, err) := by
  have hstart : Ready str ⟨0, [], false⟩ str := ⟨rfl, Nat.zero_le _, rfl⟩
  obtain ⟨v, p, hout, href | ⟨t, rest, ht, ⟨w, t, rfl, hw, hv⟩, rfl, h⟩⟩ :=
    ((reads_parseJson str (maxDepth + 1)).outcome hstart).exists_ready
  · obtain ⟨p', hp', hfailed, herr⟩ := href.consumeWhitespace
    refine Or.inr ⟨p.err, href.err, ?_⟩
    rw [Json.parse, hout]
    simp only [Option.bind_eq_bind, Option.bind_some, hp', hfailed, if_true, herr]
  obtain ⟨w', u, rfl, hw', hu⟩ := exists_run isWhitespace rest
  have hnext := h.advance
  have hlen := hnext.length
  rw [Json.parse, hout]
  simp only [Option.bind_eq_bind, Option.bind_some, h.consumeWhitespace hw' hu, hnext.failed,
    Bool.false_eq_true, if_false]
  cases u with
  | nil =>
    refine Or.inl ⟨v, ⟨w, t, w', hw, hv, hw', ?_⟩, ?_⟩
    · have hstr := hstart.drop.symm.trans ht.drop
      simpa only [List.append_nil, List.append_assoc] using hstr
    · rw [if_neg (by rw [List.length_nil] at hlen; omega)]
      rfl
  | cons c u =>
    rw [if_pos (by rw [List.length_cons] at hlen; omega), hnext.charAt]
    refine Or.inr ⟨_, ?_, rfl⟩
    exact (hnext.refused_fail (by simp)).err

/-- No parse reads outside its text, and every parse ends. -/
theorem parse_isSome (str : Text) : (Json.parse str).isSome = true := by
  rcases parse_cases str with ⟨v, -, h⟩ | ⟨err, -, h⟩ <;> rw [h] <;> rfl

theorem parse_of_jsonText {v : Json} (h : JsonText str v) : Json.parse str = some (v, []) := by
  obtain ⟨w, t, w', hw, hv, hw', rfl⟩ := h
  have hstart : Ready (w ++ (t ++ w')) ⟨0, [], false⟩ (w ++ (t ++ w')) :=
    ⟨rfl, Nat.zero_le _, rfl⟩
  have hread := (reads_parseJson (w ++ (t ++ w')) (maxDepth + 1)).reads hw hv hstart
    (noNumber_whitespace hw')
  have hnext := hstart.advance.advance
  rw [JsonParser.advance_advance] at hnext
  have hend : Ready (w ++ (t ++ w'))
      ((⟨0, [], false⟩ : JsonParser).advance (w.length + t.length)) (w' ++ []) := by
    rwa [List.append_nil]
  rw [Json.parse, hread]
  simp only [Option.bind_eq_bind, Option.bind_some, hend.consumeWhitespace hw' (by simp),
    hend.advance.failed, Bool.false_eq_true, if_false]
  rw [if_neg (by have hlen := hend.advance.length; rw [List.length_nil] at hlen; omega)]
  rfl

/-- The parser accepts the texts of the grammar, with their values. -/
theorem parse_eq_iff {str : Text} {v : Json} : Json.parse str = some (v, []) ↔ JsonText str v := by
  refine ⟨fun h => ?_, parse_of_jsonText⟩
  rcases parse_cases str with ⟨v', hv', h'⟩ | ⟨err, herr, h'⟩
  · obtain rfl : v' = v := by simpa using h'.symm.trans h
    exact hv'
  · obtain ⟨-, rfl⟩ : Json.null = v ∧ err = [] := by simpa using h'.symm.trans h
    exact absurd rfl herr

/-- A text stands for one value at most. -/
theorem jsonText_unique {str : Text} {v v' : Json} (h : JsonText str v) (h' : JsonText str v') :
    v = v' := by
  simpa using (parse_of_jsonText h).symm.trans (parse_of_jsonText h')

/-- There is a message exactly where a text stands for no value. -/
theorem parse_err_iff {str err : Text} {v : Json} (h : Json.parse str = some (v, err)) :
    err ≠ [] ↔ ∀ v', ¬ JsonText str v' := by
  refine ⟨fun herr v' hv' => ?_, fun hno herr => ?_⟩
  · obtain ⟨-, rfl⟩ : v' = v ∧ [] = err := by simpa using (parse_of_jsonText hv').symm.trans h
    exact herr rfl
  · subst herr
    exact hno v (parse_eq_iff.mp h)

/-- A text is parsed to the one value it stands for, or to `null` and a
message when it stands for none. -/
theorem parse_spec (str : Text) : ∃ v err, Json.parse str = some (v, err) ∧
    (err = [] → ∀ v', JsonText str v' ↔ v' = v) ∧
    (err ≠ [] → v = .null ∧ ∀ v', ¬ JsonText str v') := by
  rcases parse_cases str with ⟨v, hv, h⟩ | ⟨err, herr, h⟩
  · refine ⟨v, [], h, fun _ v' => ⟨fun hv' => jsonText_unique hv' hv, ?_⟩,
      fun hne => absurd rfl hne⟩
    rintro rfl
    exact hv
  · exact ⟨.null, err, h, fun hnil => absurd hnil herr, fun _ => ⟨rfl, (parse_err_iff h).mp herr⟩⟩

end SLDM.Json11
