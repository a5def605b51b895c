/-
SLDM.QuadKey.PairwiseUnify — the older `unifyQuadkeys`.

Where `unifyQuadkeys2` sorts the vector and looks at four neighbours, this
function compares every key with every other one, pass after pass. A key
whose three siblings are there becomes its parent. Two slips are modelled as
they stand. A `continue` for keys of different lengths also skips the end of
the row, so that a key may drop out of the vector and leave its comparisons
in `vk`; and the loop over `vk` counts on only while the entries match, so
that it is not left when one does not.

§1 The function.
§2 Marks    — what `finder` has in `chars` is a set of digits (`charsOf`).
§3 A row    — one turn of the loop over `k` is `Scanned.turn`; a key is left
              out (`Skipped`), kept or replaced by its parent
              (`unifyRow_skipped`, `unifyRow_kept`, `unifyRow_parent`); with
              old comparisons in `vk` the loop runs for ever
              (`unifyRow_stuck`).
§4 A pass   — in terms of the keys that are not left out
              (`unifyRows_some`, `unifyRows_ok`).
-/
import SLDM.QuadKey.Duplicates
import SLDM.QuadKey.Unify

namespace SLDM.QuadKey

open PrefixCover

/-! ## §1 The function -/

/-- `key[l]`. Behind the last digit stands the terminating `'\0'`; other
indices outside the key are not read unless the key of the row is empty. -/
def charAt (key : Key) (l : ℤ) : Char := if 0 ≤ l then key.getD l.toNat '\x00' else '\x00'

/-- `key.substr(0, n)`, which is also what `compare(0, n, …)` reads of a key.
A negative `n` is converted to a count beyond every length. -/
def substr (key : Key) (n : ℤ) : Key := if n < 0 then key else key.take n.toNat

/-- `chars = {}`. -/
def noChars : List ℕ := [0, 0, 0, 0]

/-- One `if … else if` chain of `finder`. -/
def mark (c : Char) (chars : List ℕ) : List ℕ :=
  if c = '0' then chars.set 0 1
  else if c = '1' then chars.set 1 2
  else if c = '2' then chars.set 2 3
  else if c = '3' then chars.set 3 4
  else chars

/-- The result of `finder`, with the array it has by reference. -/
def finder (vi vk : Key) (l : ℤ) (chars : List ℕ) : Bool × List ℕ :=
  let chars' := mark (charAt vk l) (mark (charAt vi l) chars)
  if chars' = [1, 2, 3, 4] then (true, noChars) else (false, chars')

/-- The variables of the loop over `k`. -/
structure Row where
  chars : List ℕ
  complete : Bool
  vk : List Key
deriving DecidableEq, Repr

/-- The first `if` in the loop over `k`; `none` is its `continue`. -/
def compareKey (i : ℕ) (key : Key) (l : ℤ) (k : ℕ) (other : Key) (row : Row) : Option Row :=
  if i ≠ k ∧ substr key (l + 1) = substr other (l + 1) then
    if key.length ≠ other.length then none
    else
      let (found, chars) := finder key other (l + 1) row.chars
      some { chars := if found then noChars else chars
             complete := row.complete || found
             vk := row.vk ++ [substr other (l + 1)] }
  else some row

/-- The loop over `k` on the keys from `k` on, and whether it reaches one of
the two `if`s for the last key. -/
def scanRow (i : ℕ) (key : Key) (l : ℤ) : ℕ → List Key → Row → Row × Bool
  | _, [], row => (row, false)
  | k, other :: rest, row =>
    match compareKey i key l k other row with
    | none => scanRow i key l (k + 1) rest row
    | some row' => if rest.isEmpty then (row', true) else scanRow i key l (k + 1) rest row'

/-- One turn of the loop over `j`. `vk` is not empty when the loop is
entered, so that `vk.size()-1` does not wrap around. -/
def stepBack (key : Key) (vk : List Key) : ℕ × ℤ × List ℕ → Option (ℕ × ℤ × List ℕ)
  | (j, l, chars) =>
    match vk[j]? with
    | none => none
    | some entry =>
      if substr key (l + 1) = substr entry (l + 1) then
        let (found, chars') := finder key entry (l + 1) chars
        some (j + 1, if found then l - 1 else l, if found then noChars else chars')
      else some (j, l, chars)

/-- The variables of a pass. -/
structure Pass where
  vf : List Key
  loop : Bool
  vk : List Key
deriving DecidableEq, Repr

/-- One turn of the loop over `i`; no result when the fuel for the loop over
`j` is used up. -/
def unifyRow (fuel : ℕ) (quadKeys : List Key) (i : ℕ) (key : Key) (pass : Pass) : Option Pass :=
  let l : ℤ := key.length - 2
  match scanRow i key l 0 quadKeys ⟨noChars, false, pass.vk⟩ with
  -- `continue` at the last key: nothing is written, `vk` is not cleared
  | (row, false) => some { pass with vk := row.vk }
  | (row, true) =>
    if row.complete then
      (Loops.exec (stepBack key row.vk) fuel (0, l, row.chars)).map fun s =>
        ⟨pass.vf ++ [substr key (s.2.1 + 1)], true, []⟩
    else some ⟨pass.vf ++ [substr key (l + 2)], pass.loop, []⟩

/-- The loop over `i` on the keys from `i` on. -/
def unifyRows (fuel : ℕ) (quadKeys : List Key) : ℕ → List Key → Pass → Option Pass
  | _, [], pass => some pass
  | i, key :: rest, pass =>
    (unifyRow fuel quadKeys i key pass).bind (unifyRows fuel quadKeys (i + 1) rest)

/-- `while(loop)`, for at most `turns` passes. -/
def unifyLoop (fuel : ℕ) : ℕ → List Key → List Key → Option (Except StdException (List Key))
  | 0, _, _ => none
  | turns + 1, quadKeys, vk =>
    -- `quadKeys.size()-1` wraps around, and `quadKeys.at(0)` throws
    if quadKeys.isEmpty then some (.error .outOfRange)
    else
      (unifyRows fuel quadKeys 0 quadKeys ⟨[], false, vk⟩).bind fun pass =>
        if pass.loop then unifyLoop fuel turns pass.vf pass.vk else some (.ok pass.vf)

def unifyQuadkeys (fuel : ℕ) (quadKeys : List Key) : Option (Except StdException (List Key)) :=
  (unifyLoop fuel fuel quadKeys []).map fun united => united.map removeDuplicates

/-! ## §2 Marks -/

/-- `chars` when the digits of `seen` are marked. -/
def charsOf (seen : List Char) : List ℕ :=
  [if '0' ∈ seen then 1 else 0, if '1' ∈ seen then 2 else 0, if '2' ∈ seen then 3 else 0,
    if '3' ∈ seen then 4 else 0]

theorem charsOf_nil : charsOf [] = noChars := rfl

theorem mark_charsOf (c : Char) (seen : List Char) :
    mark c (charsOf seen) = charsOf (c :: seen) := by
  by_cases hdigit : c ∈ digits
  · simp only [digits, List.mem_cons, List.not_mem_nil, or_false] at hdigit
    rcases hdigit with rfl | rfl | rfl | rfl <;> simp [mark, charsOf]
  · simp only [digits, List.mem_cons, List.not_mem_nil, or_false, not_or] at hdigit
    obtain ⟨h0, h1, h2, h3⟩ := hdigit
    simp [mark, charsOf, h0, h1, h2, h3, Ne.symm h0, Ne.symm h1, Ne.symm h2, Ne.symm h3]

theorem charsOf_eq_iff {seen : List Char} :
    charsOf seen = [1, 2, 3, 4] ↔ ∀ d ∈ digits, d ∈ seen := by
  simp [charsOf, digits]

theorem finder_of_all {vi vk : Key} {l : ℤ} {seen : List Char}
    (hall : ∀ d ∈ digits, d ∈ charAt vk l :: charAt vi l :: seen) :
    finder vi vk l (charsOf seen) = (true, noChars) := by
  unfold finder
  rw [mark_charsOf, mark_charsOf]
  exact if_pos (charsOf_eq_iff.mpr hall)

theorem finder_of_not {vi vk : Key} {l : ℤ} {seen : List Char}
    (hnot : ¬ ∀ d ∈ digits, d ∈ charAt vk l :: charAt vi l :: seen) :
    finder vi vk l (charsOf seen) = (false, charsOf (charAt vk l :: charAt vi l :: seen)) := by
  unfold finder
  rw [mark_charsOf, mark_charsOf]
  exact if_neg fun heq => hnot (charsOf_eq_iff.mp heq)

/-- After four digits `finder` has emptied the array itself. -/
theorem finder_reset (vi vk : Key) (l : ℤ) (chars : List ℕ) :
    (if (finder vi vk l chars).1 then noChars else (finder vi vk l chars).2) =
      (finder vi vk l chars).2 := by
  unfold finder
  by_cases hall : mark (charAt vk l) (mark (charAt vi l) chars) = [1, 2, 3, 4]
  · simp only [if_pos hall, if_true]
  · simp only [if_neg hall, Bool.false_eq_true, if_false]

/-- The marks between two calls of `finder` in the row of a key that ends in
`own`: none, or among others that of `own`, but never all four. -/
structure Marks (own : Char) (seen : List Char) : Prop where
  own_mem : seen = [] ∨ own ∈ seen
  not_all : ¬ ∀ d ∈ digits, d ∈ seen

theorem marks_nil (own : Char) : Marks own [] :=
  ⟨Or.inl rfl, fun hall => absurd (hall '0' (by decide)) List.not_mem_nil⟩

/-- The key's own digit never completes the four. -/
theorem Marks.not_all_own {own : Char} {seen : List Char} (h : Marks own seen) :
    ¬ ∀ d ∈ digits, d ∈ '\x00' :: own :: seen := by
  intro hall
  have hother : ∀ d ∈ digits, d = own ∨ d ∈ seen := by
    intro d hd
    rcases List.mem_cons.mp (hall d hd) with rfl | hmem
    · exact absurd hd (by decide)
    · exact List.mem_cons.mp hmem
  rcases h.own_mem with rfl | hown
  · have hzero := (hother '0' (by decide)).resolve_right List.not_mem_nil
    have hone := (hother '1' (by decide)).resolve_right List.not_mem_nil
    exact absurd (hzero.trans hone.symm) (by decide)
  · refine h.not_all fun d hd => ?_
    rcases hother d hd with rfl | hmem
    · exact hown
    · exact hmem

/-! ## §3 A row -/

section Row

variable {X : Key} {own : Char}

theorem substr_parent (other : Key) :
    substr other (((X ++ [own]).length : ℤ) - 2 + 1) = other.take X.length := by
  have hl : (((X ++ [own]).length : ℤ) - 2 + 1) = X.length := by simp; omega
  unfold substr
  rw [hl, if_neg (by omega), Int.toNat_natCast]

theorem substr_parent_self : substr (X ++ [own]) (((X ++ [own]).length : ℤ) - 2 + 1) = X := by
  rw [substr_parent, List.take_left]

theorem substr_whole : substr (X ++ [own]) (((X ++ [own]).length : ℤ) - 2 + 2) = X ++ [own] := by
  have hl : (((X ++ [own]).length : ℤ) - 2 + 2) = (X ++ [own]).length := by omega
  unfold substr
  rw [hl, if_neg (by omega), Int.toNat_natCast, List.take_length]

theorem charAt_last (d : Char) :
    charAt (X ++ [d]) (((X ++ [own]).length : ℤ) - 2 + 1) = d := by
  have hl : (((X ++ [own]).length : ℤ) - 2 + 1) = X.length := by simp; omega
  unfold charAt
  rw [hl, if_pos (by omega), Int.toNat_natCast]
  simp

theorem charAt_end : charAt X (((X ++ [own]).length : ℤ) - 2 + 1) = '\x00' := by
  have hl : (((X ++ [own]).length : ℤ) - 2 + 1) = X.length := by simp; omega
  unfold charAt
  rw [hl, if_pos (by omega), Int.toNat_natCast]
  simp

variable (X own) in
/-- What a comparison does: a sibling is noted, a key of another length
below or above the parent is passed over, any other key does not count. -/
theorem compareKey_cases (i k : ℕ) (other : Key) (row : Row) :
    (∃ d, i ≠ k ∧ other = X ++ [d] ∧
      compareKey i (X ++ [own]) (((X ++ [own]).length : ℤ) - 2) k other row =
        some { chars := (finder (X ++ [own]) (X ++ [d]) (((X ++ [own]).length : ℤ) - 2 + 1)
                 row.chars).2
               complete := row.complete || (finder (X ++ [own]) (X ++ [d])
                 (((X ++ [own]).length : ℤ) - 2 + 1) row.chars).1
               vk := row.vk ++ [X] }) ∨
    (i ≠ k ∧ X <+: other ∧ other.length ≠ X.length + 1 ∧
      compareKey i (X ++ [own]) (((X ++ [own]).length : ℤ) - 2) k other row = none) ∨
    ((i = k ∨ ¬ X <+: other) ∧
      compareKey i (X ++ [own]) (((X ++ [own]).length : ℤ) - 2) k other row = some row) := by
  unfold compareKey
  rw [substr_parent_self, substr_parent]
  by_cases hmatch : i ≠ k ∧ X <+: other
  · obtain ⟨hne, hpre⟩ := hmatch
    rw [if_pos ⟨hne, List.prefix_iff_eq_take.mp hpre⟩, List.length_append,
      List.length_singleton]
    by_cases hlen : other.length = X.length + 1
    · left
      obtain ⟨s, rfl⟩ := hpre
      rw [List.length_append, Nat.add_left_cancel_iff] at hlen
      obtain ⟨d, rfl⟩ := List.length_eq_one_iff.mp hlen
      refine ⟨d, hne, rfl, ?_⟩
      rw [if_neg (by simp), List.take_left]
      simp only [finder_reset]
    · exact Or.inr (Or.inl ⟨hne, hpre, hlen, by rw [if_pos (Ne.symm hlen)]⟩)
  · right; right
    rw [List.prefix_iff_eq_take] at hmatch
    rw [if_neg hmatch, List.prefix_iff_eq_take]
    rw [not_and_or, not_not] at hmatch
    exact ⟨hmatch, rfl⟩

/-- What the loop over `k` has found in the keys `done`. -/
structure Scanned (X : Key) (own : Char) (vk done : List Key) (row : Row) : Prop where
  vk_eq : ∃ m ≤ done.length, row.vk = vk ++ List.replicate m X
  marks : ∃ seen, row.chars = charsOf seen ∧ Marks own seen ∧
    (∀ d ∈ seen, d = own ∨ X ++ [d] ∈ done) ∧
    (row.complete = false → ∀ d ∈ digits, X ++ [d] ∈ done → d = own ∨ d ∈ seen)
  all_of_complete : row.complete = true → ∀ d ∈ digits, d = own ∨ X ++ [d] ∈ done

theorem scanned_nil (vk : List Key) : Scanned X own vk [] ⟨noChars, false, vk⟩ where
  vk_eq := ⟨0, Nat.le_refl 0, (List.append_nil vk).symm⟩
  marks := ⟨[], charsOf_nil.symm, marks_nil own, fun _ hd => absurd hd List.not_mem_nil,
    fun _ _ _ hmem => absurd hmem List.not_mem_nil⟩
  all_of_complete := fun hcomplete => absurd hcomplete Bool.false_ne_true

variable {vk done : List Key} {row : Row}

/-- A key that is no other sibling changes nothing. -/
theorem Scanned.pass {other : Key} (h : Scanned X own vk done row)
    (hother : ∀ d, X ++ [d] = other → d = own) : Scanned X own vk (done ++ [other]) row where
  vk_eq := by
    obtain ⟨m, hm, heq⟩ := h.vk_eq
    exact ⟨m, hm.trans (by simp), heq⟩
  marks := by
    obtain ⟨seen, hchars, hmarks, hsound, hall⟩ := h.marks
    refine ⟨seen, hchars, hmarks, fun d hd => (hsound d hd).imp_right (List.mem_append_left _),
      fun hopen d hd hmem => ?_⟩
    rcases List.mem_append.mp hmem with hdone | hnew
    · exact hall hopen d hd hdone
    · exact Or.inl (hother d (List.mem_singleton.mp hnew))
  all_of_complete := fun hcomplete d hd =>
    (h.all_of_complete hcomplete d hd).imp_right (List.mem_append_left _)

/-- Another sibling is marked; with the fourth the row is complete. -/
theorem Scanned.sibling (h : Scanned X own vk done row) (d : Char) :
    Scanned X own vk (done ++ [X ++ [d]])
      { chars := (finder (X ++ [own]) (X ++ [d]) (((X ++ [own]).length : ℤ) - 2 + 1) row.chars).2
        complete := row.complete || (finder (X ++ [own]) (X ++ [d])
          (((X ++ [own]).length : ℤ) - 2 + 1) row.chars).1
        vk := row.vk ++ [X] } := by
  obtain ⟨m, hm, hvk⟩ := h.vk_eq
  obtain ⟨seen, hchars, hmarks, hsound, hopen⟩ := h.marks
  have hlonger : ∃ m ≤ (done ++ [X ++ [d]]).length,
      row.vk ++ [X] = vk ++ List.replicate m X :=
    ⟨m + 1, by simpa using hm, by rw [hvk, List.append_assoc, List.replicate_succ']⟩
  have hsound' : ∀ c ∈ d :: own :: seen, c = own ∨ X ++ [c] ∈ done ++ [X ++ [d]] := by
    intro c hc
    rcases List.mem_cons.mp hc with rfl | hc
    · exact Or.inr (List.mem_append_right _ (List.mem_singleton_self _))
    · rcases List.mem_cons.mp hc with rfl | hc
      · exact Or.inl rfl
      · exact (hsound c hc).imp_right (List.mem_append_left _)
  rw [hchars]
  by_cases hall : ∀ c ∈ digits, c ∈ d :: own :: seen
  · rw [finder_of_all (by rw [charAt_last, charAt_last]; exact hall)]
    refine ⟨hlonger, ⟨[], charsOf_nil.symm, marks_nil own, fun c hc => absurd hc List.not_mem_nil,
      fun hnot => absurd hnot (by simp)⟩, fun _ c hc => hsound' c (hall c hc)⟩
  · rw [finder_of_not (by rw [charAt_last, charAt_last]; exact hall), charAt_last, charAt_last]
    refine ⟨hlonger, ⟨d :: own :: seen, rfl, ⟨Or.inr (by simp), hall⟩, hsound', ?_⟩, ?_⟩
    · intro hnot c hc hmem
      rw [Bool.or_false] at hnot
      rcases List.mem_append.mp hmem with hdone | hnew
      · exact (hopen hnot c hc hdone).imp_right fun hseen => by simp [hseen]
      · right
        rw [List.append_cancel_left (List.mem_singleton.mp hnew) |> List.singleton_inj.mp]
        exact List.mem_cons_self
    · intro hcomplete c hc
      rw [Bool.or_false] at hcomplete
      exact (h.all_of_complete hcomplete c hc).imp_right (List.mem_append_left _)

/-- The row is complete when the four siblings are there. -/
theorem Scanned.complete_iff (h : Scanned X own vk done row) (hown : own ∈ digits)
    (hmem : X ++ [own] ∈ done) : row.complete = true ↔ Family digits done X := by
  constructor
  · intro hcomplete d hd
    rcases h.all_of_complete hcomplete d hd with rfl | hdone
    · exact hmem
    · exact hdone
  · intro hfam
    by_contra hnot
    rw [Bool.not_eq_true] at hnot
    obtain ⟨seen, -, hmarks, -, hopen⟩ := h.marks
    refine hmarks.not_all_own fun d hd => ?_
    rcases hopen hnot d hd (hfam d hd) with rfl | hseen
    · simp
    · simp [hseen]

/-- A key that a pass leaves out: the last key `z` lies below or above its
parent and has another length. -/
def Skipped (z key : Key) : Prop := key.dropLast <+: z ∧ z.length ≠ key.length

instance (z key : Key) : Decidable (Skipped z key) :=
  inferInstanceAs (Decidable (key.dropLast <+: z ∧ z.length ≠ key.length))

theorem skipped_iff {z : Key} :
    Skipped z (X ++ [own]) ↔ X <+: z ∧ z.length ≠ X.length + 1 := by
  unfold Skipped
  rw [List.dropLast_concat, List.length_append, List.length_singleton]

/-- One turn of the loop over `k`. At the last key a comparison that is
passed over leaves the row unwritten. -/
theorem scanRow_cons (i : ℕ) (key : Key) (l : ℤ) (k : ℕ) (other : Key) (rest : List Key)
    (row : Row) :
    scanRow i key l k (other :: rest) row =
      if rest.isEmpty then
        ((compareKey i key l k other row).getD row, (compareKey i key l k other row).isSome)
      else scanRow i key l (k + 1) rest ((compareKey i key l k other row).getD row) := by
  rw [scanRow]
  cases compareKey i key l k other row with
  | none => cases rest <;> rfl
  | some row' => rfl

/-- A comparison with the next key, which `continue` ends when it is the
last key and the row's key is left out. -/
theorem Scanned.turn (h : Scanned X own vk done row) {i : ℕ} {other : Key}
    (hself : i = done.length → X ++ [own] = other) :
    Scanned X own vk (done ++ [other]) ((compareKey i (X ++ [own])
      (((X ++ [own]).length : ℤ) - 2) done.length other row).getD row) ∧
    (compareKey i (X ++ [own]) (((X ++ [own]).length : ℤ) - 2) done.length other
      row).isSome = !decide (Skipped other (X ++ [own])) := by
  rcases compareKey_cases X own i done.length other row with
    ⟨d, -, rfl, heq⟩ | ⟨-, hpre, hlen, heq⟩ | ⟨hother, heq⟩
  · rw [heq, decide_eq_false fun hskip => (skipped_iff.mp hskip).2 (by simp)]
    exact ⟨h.sibling d, rfl⟩
  · rw [heq, decide_eq_true (skipped_iff.mpr ⟨hpre, hlen⟩)]
    exact ⟨h.pass fun d heq' => absurd (by rw [← heq']; simp) hlen, rfl⟩
  · have hnot : ¬ Skipped other (X ++ [own]) := by
      intro hskip
      rcases hother with hsame | hnot
      · exact (skipped_iff.mp hskip).2 (by rw [← hself hsame]; simp)
      · exact hnot (skipped_iff.mp hskip).1
    rw [heq, decide_eq_false hnot]
    refine ⟨h.pass fun d heq' => ?_, rfl⟩
    rcases hother with hsame | hbeside
    · rw [← heq'] at hself
      exact (List.singleton_inj.mp (List.append_cancel_left (hself hsame))).symm
    · exact absurd ⟨[d], heq'⟩ hbeside

/-- The loop over `k`. -/
theorem scanRow_eq {i : ℕ} {z : Key} {rest : List Key} (h : Scanned X own vk done row)
    (hi : (done ++ rest)[i]? = some (X ++ [own])) (hz : rest.getLast? = some z) :
    ∃ row', Scanned X own vk (done ++ rest) row' ∧
      scanRow i (X ++ [own]) (((X ++ [own]).length : ℤ) - 2) done.length rest row =
        (row', !decide (Skipped z (X ++ [own]))) := by
  induction rest generalizing done row with
  | nil => cases hz
  | cons other rest ih =>
    have hself : i = done.length → X ++ [own] = other := by
      rintro rfl
      rw [List.getElem?_append_right (Nat.le_refl _), Nat.sub_self] at hi
      exact (Option.some.inj hi).symm
    obtain ⟨hrow, hwritten⟩ := h.turn hself
    rw [scanRow_cons]
    by_cases hrest : rest = []
    · subst hrest
      rw [List.getLast?_singleton] at hz
      cases hz
      exact ⟨_, hrow, by rw [hwritten]; rfl⟩
    · have hlen : (done ++ [other]).length = done.length + 1 := by simp
      have hlater := ih hrow (by rw [List.append_assoc]; exact hi)
        (by rw [← hz, List.getLast?_cons_of_ne_nil hrest])
      rw [List.append_assoc, hlen] at hlater
      rw [if_neg (by rw [List.isEmpty_iff]; exact hrest)]
      exact hlater

/-- The whole loop over `k`. -/
theorem scanRow_whole {q : List Key} {i : ℕ} {z : Key} (vk : List Key)
    (hi : q[i]? = some (X ++ [own])) (hz : q.getLast? = some z) :
    ∃ row, Scanned X own vk q row ∧
      scanRow i (X ++ [own]) (((X ++ [own]).length : ℤ) - 2) 0 q ⟨noChars, false, vk⟩ =
        (row, !decide (Skipped z (X ++ [own]))) := by
  obtain ⟨row, hrow, heq⟩ := scanRow_eq (scanned_nil vk) (by rw [List.nil_append]; exact hi) hz
  exact ⟨row, hrow, heq⟩

/-- The loop over `j` passes the parent. -/
theorem stepBack_parent {m j : ℕ} (hj : j < m) {seen : List Char} (hmarks : Marks own seen) :
    stepBack (X ++ [own]) (List.replicate m X) (j, ((X ++ [own]).length : ℤ) - 2, charsOf seen) =
      some (j + 1, ((X ++ [own]).length : ℤ) - 2, charsOf ('\x00' :: own :: seen)) := by
  have hentry : (List.replicate m X)[j]? = some X := by
    rw [List.getElem?_replicate, if_pos hj]
  simp only [stepBack, hentry]
  rw [substr_parent_self, substr_parent, List.take_length, if_pos rfl,
    finder_of_not (by rw [charAt_last, charAt_end]; exact hmarks.not_all_own), charAt_last,
    charAt_end]
  rfl

theorem stepBack_end {m j : ℕ} (hj : m ≤ j) (l : ℤ) (chars : List ℕ) :
    stepBack (X ++ [own]) (List.replicate m X) (j, l, chars) = none := by
  have hentry : (List.replicate m X)[j]? = none := by simpa using hj
  simp only [stepBack, hentry]

theorem Marks.own_again {seen : List Char} (h : Marks own seen) :
    Marks own ('\x00' :: own :: seen) :=
  ⟨Or.inr (by simp), h.not_all_own⟩

/-- Over its own comparisons the loop over `j` is left, and `l` is as
before. -/
theorem exec_stepBack_ok {m n j fuel : ℕ} (hj : j + n = m) (hfuel : n < fuel) {seen : List Char}
    (hmarks : Marks own seen) :
    ∃ chars, Loops.exec (stepBack (X ++ [own]) (List.replicate m X)) fuel
      (j, ((X ++ [own]).length : ℤ) - 2, charsOf seen) =
        some (m, ((X ++ [own]).length : ℤ) - 2, chars) := by
  induction n generalizing j fuel seen with
  | zero =>
    obtain ⟨fuel, rfl⟩ : ∃ f, fuel = f + 1 := ⟨fuel - 1, by omega⟩
    obtain rfl : j = m := hj
    exact ⟨_, Loops.exec_of_done (stepBack_end (Nat.le_refl j) _ _) fuel⟩
  | succ n ih =>
    obtain ⟨fuel, rfl⟩ : ∃ f, fuel = f + 1 := ⟨fuel - 1, by omega⟩
    rw [Loops.exec_of_turn (stepBack_parent (by omega) hmarks)]
    exact ih (by omega) (by omega) hmarks.own_again

theorem exec_stepBack_some {m j fuel : ℕ} {seen : List Char} (hmarks : Marks own seen)
    {s : ℕ × ℤ × List ℕ}
    (hs : Loops.exec (stepBack (X ++ [own]) (List.replicate m X)) fuel
      (j, ((X ++ [own]).length : ℤ) - 2, charsOf seen) = some s) :
    s.2.1 = ((X ++ [own]).length : ℤ) - 2 := by
  refine (Loops.exec_of_invariant
    (I := fun s : ℕ × ℤ × List ℕ => s.2.1 = ((X ++ [own]).length : ℤ) - 2 ∧
      ∃ seen, s.2.2 = charsOf seen ∧ Marks own seen) ?_ ⟨rfl, seen, rfl, hmarks⟩ hs).1.1
  rintro ⟨j, l, chars⟩ s' ⟨rfl, seen, rfl, hmarks⟩ hturn
  by_cases hj : j < m
  · rw [stepBack_parent hj hmarks] at hturn
    cases hturn
    exact ⟨rfl, _, rfl, hmarks.own_again⟩
  · rw [stepBack_end (not_lt.mp hj)] at hturn
    cases hturn

/-- An entry that does not match is never passed. -/
theorem exec_stepBack_stuck {entry : Key} (hne : X ≠ entry.take X.length) (entries : List Key)
    (fuel : ℕ) (chars : List ℕ) :
    Loops.exec (stepBack (X ++ [own]) (entry :: entries)) fuel
      (0, ((X ++ [own]).length : ℤ) - 2, chars) = none := by
  have hturn : stepBack (X ++ [own]) (entry :: entries)
      (0, ((X ++ [own]).length : ℤ) - 2, chars) =
        some (0, ((X ++ [own]).length : ℤ) - 2, chars) := by
    simp only [stepBack, List.getElem?_cons_zero]
    rw [substr_parent_self, substr_parent, if_neg hne]
  induction fuel with
  | zero => rfl
  | succ fuel ih => rw [Loops.exec_of_turn hturn, ih]

variable {q : List Key} {i fuel : ℕ} {z : Key} {pass : Pass}

/-- A key left out leaves its comparisons in `vk`. -/
theorem unifyRow_skipped (hi : q[i]? = some (X ++ [own])) (hz : q.getLast? = some z)
    (hskip : Skipped z (X ++ [own])) :
    ∃ m, unifyRow fuel q i (X ++ [own]) pass =
      some { pass with vk := pass.vk ++ List.replicate m X } := by
  obtain ⟨row, hrow, heq⟩ := scanRow_whole pass.vk hi hz
  rw [decide_eq_true hskip] at heq
  obtain ⟨m, -, hvk⟩ := hrow.vk_eq
  refine ⟨m, ?_⟩
  simp only [unifyRow, heq, Bool.not_true, hvk]

/-- A key without its three siblings is kept. -/
theorem unifyRow_kept (hi : q[i]? = some (X ++ [own])) (hz : q.getLast? = some z)
    (hown : own ∈ digits) (hskip : ¬ Skipped z (X ++ [own])) (hfam : ¬ Family digits q X) :
    unifyRow fuel q i (X ++ [own]) pass = some ⟨pass.vf ++ [X ++ [own]], pass.loop, []⟩ := by
  obtain ⟨row, hrow, heq⟩ := scanRow_whole pass.vk hi hz
  rw [decide_eq_false hskip] at heq
  have hopen : ¬ row.complete = true :=
    fun hcomplete => hfam ((hrow.complete_iff hown (List.mem_of_getElem? hi)).mp hcomplete)
  simp only [unifyRow, heq, Bool.not_false, if_neg hopen, substr_whole]

/-- With them it becomes its parent, when `vk` holds no old comparisons and
the fuel is enough. -/
theorem unifyRow_parent (hi : q[i]? = some (X ++ [own])) (hz : q.getLast? = some z)
    (hown : own ∈ digits) (hskip : ¬ Skipped z (X ++ [own])) (hfam : Family digits q X)
    (hvk : pass.vk = []) :
    (q.length < fuel →
      unifyRow fuel q i (X ++ [own]) pass = some ⟨pass.vf ++ [X], true, []⟩) ∧
    ∀ pass', unifyRow fuel q i (X ++ [own]) pass = some pass' →
      pass' = ⟨pass.vf ++ [X], true, []⟩ := by
  obtain ⟨row, hrow, heq⟩ := scanRow_whole pass.vk hi hz
  rw [decide_eq_false hskip] at heq
  have hcomplete := (hrow.complete_iff hown (List.mem_of_getElem? hi)).mpr hfam
  obtain ⟨m, hm, hrep⟩ := hrow.vk_eq
  obtain ⟨seen, hchars, hmarks, -, -⟩ := hrow.marks
  rw [hvk, List.nil_append] at hrep
  simp only [unifyRow, heq, Bool.not_false, if_pos hcomplete, hrep, hchars]
  constructor
  · intro hfuel
    obtain ⟨chars, hexec⟩ := exec_stepBack_ok (X := X) (Nat.zero_add m)
      (lt_of_le_of_lt hm hfuel) hmarks
    rw [hexec, Option.map_some, substr_parent_self]
  · intro pass' hpass
    obtain ⟨s, hs, rfl⟩ := Option.map_eq_some_iff.mp hpass
    rw [exec_stepBack_some hmarks hs, substr_parent_self]

/-- With an old comparison first in `vk` that does not match, the row is
never finished. -/
theorem unifyRow_stuck (hi : q[i]? = some (X ++ [own])) (hz : q.getLast? = some z)
    (hown : own ∈ digits) (hskip : ¬ Skipped z (X ++ [own])) (hfam : Family digits q X)
    {entry : Key} {entries : List Key} (hvk : pass.vk = entry :: entries)
    (hne : X ≠ entry.take X.length) :
    unifyRow fuel q i (X ++ [own]) pass = none := by
  obtain ⟨row, hrow, heq⟩ := scanRow_whole pass.vk hi hz
  rw [decide_eq_false hskip] at heq
  have hcomplete := (hrow.complete_iff hown (List.mem_of_getElem? hi)).mpr hfam
  obtain ⟨m, -, hrep⟩ := hrow.vk_eq
  rw [hvk, List.cons_append] at hrep
  simp only [unifyRow, heq, Bool.not_false, if_pos hcomplete, hrep, exec_stepBack_stuck hne,
    Option.map_none]

end Row

/-! ## §4 A pass -/

instance (D : List Char) (v : List Key) (X : Key) : Decidable (Family D v X) :=
  inferInstanceAs (Decidable (∀ d ∈ D, X ++ [d] ∈ v))

/-- The keys a pass does not leave out. -/
def kept (z : Key) (v : List Key) : List Key := v.filter fun key => ¬ Skipped z key

/-- What a pass makes of a key. -/
def raised (q : List Key) (key : Key) : Key :=
  if Family digits q key.dropLast then key.dropLast else key

theorem mem_kept {z key : Key} {v : List Key} : key ∈ kept z v ↔ key ∈ v ∧ ¬ Skipped z key := by
  rw [kept, List.mem_filter, decide_eq_true_iff]

/-- The vector has the words of the prefix-free list `v`, in any order and
number, and none is empty. -/
structure SameWords (q v : List Key) : Prop where
  code : Code digits v
  mem_iff : ∀ x, x ∈ q ↔ x ∈ v
  nil_not_mem : [] ∉ v

section Pass

variable {q v : List Key} {z : Key}

theorem SameWords.exists_concat (h : SameWords q v) {key : Key} (hkey : key ∈ q) :
    ∃ X own, key = X ++ [own] ∧ own ∈ digits := by
  rw [h.mem_iff] at hkey
  rcases List.eq_nil_or_concat' key with rfl | ⟨X, own, rfl⟩
  · exact absurd hkey h.nil_not_mem
  · exact ⟨X, own, rfl, h.code.words _ hkey own (by simp)⟩

/-- An old comparison in `vk`: the parent of a key that was left out. -/
def Stale (z entry : Key) : Prop := entry <+: z ∧ entry ≠ z ∧ entry.length + 1 ≠ z.length

/-- The last key lies below the parent of a key left out, not on it. -/
theorem SameWords.stale (h : SameWords q v) (hz : z ∈ q) {X : Key} {own : Char}
    (hkey : X ++ [own] ∈ q) (hskip : Skipped z (X ++ [own])) : Stale z X := by
  obtain ⟨hpre, hlen⟩ := skipped_iff.mp hskip
  refine ⟨hpre, ?_, hlen.symm⟩
  rintro rfl
  have heq := h.code.prefixFree X ((h.mem_iff X).mp hz) _ ((h.mem_iff _).mp hkey)
    (List.prefix_append X [own])
  exact absurd (congrArg List.length heq) (by simp)

/-- An old comparison never matches a key that is not left out. -/
theorem Stale.ne_take {entry X : Key} {own : Char} (h : Stale z entry)
    (hskip : ¬ Skipped z (X ++ [own])) : X ≠ entry.take X.length := by
  intro heq
  obtain ⟨hpre, hne, hlen⟩ := h
  have hX : X <+: entry := List.prefix_iff_eq_take.mpr heq
  rw [skipped_iff, not_and, not_not] at hskip
  have hshort := hskip (hX.trans hpre)
  have hle := hX.length_le
  have hlt := hpre.length_le
  refine hne (hpre.eq_of_length ?_)
  omega

/-- What the row of a key does when it is finished. -/
theorem SameWords.unifyRow_cases (h : SameWords q v) (hz : q.getLast? = some z) {fuel i : ℕ}
    {key : Key} (hi : q[i]? = some key) {pass pass' : Pass} (hstale : ∀ e ∈ pass.vk, Stale z e)
    (hrow : unifyRow fuel q i key pass = some pass') :
    (Skipped z key ∧ pass'.vf = pass.vf ∧ pass'.loop = pass.loop ∧ ∀ e ∈ pass'.vk, Stale z e) ∨
    (¬ Skipped z key ∧ pass'.vf = pass.vf ++ [raised q key] ∧
      (pass'.loop = true ↔ pass.loop = true ∨ Family digits q key.dropLast) ∧ pass'.vk = []) := by
  have hkey := List.mem_of_getElem? hi
  obtain ⟨X, own, rfl, hown⟩ := h.exists_concat hkey
  by_cases hskip : Skipped z (X ++ [own])
  · left
    obtain ⟨m, heq⟩ : ∃ m, unifyRow fuel q i (X ++ [own]) pass =
        some { pass with vk := pass.vk ++ List.replicate m X } := unifyRow_skipped hi hz hskip
    rw [heq] at hrow
    cases hrow
    refine ⟨hskip, rfl, rfl, fun e he => ?_⟩
    rcases List.mem_append.mp he with hold | hnew
    · exact hstale e hold
    · rw [List.eq_of_mem_replicate hnew]
      exact h.stale (List.mem_of_getLast? hz) hkey hskip
  · right
    unfold raised
    rw [List.dropLast_concat]
    by_cases hfam : Family digits q X
    · rw [if_pos hfam]
      have hvk : pass.vk = [] := by
        cases hvk : pass.vk with
        | nil => rfl
        | cons entry entries =>
          have hentry := hstale entry (by rw [hvk]; exact List.mem_cons_self)
          rw [unifyRow_stuck hi hz hown hskip hfam hvk (hentry.ne_take hskip)] at hrow
          cases hrow
      rw [(unifyRow_parent hi hz hown hskip hfam hvk).2 pass' hrow]
      exact ⟨hskip, rfl, by simp [hfam], rfl⟩
    · rw [unifyRow_kept hi hz hown hskip hfam] at hrow
      cases hrow
      rw [if_neg hfam]
      exact ⟨hskip, rfl, by simp [hfam], rfl⟩

/-- The head of the rows from `i` on. -/
theorem of_drop_eq_cons {i : ℕ} {key : Key} {rest : List Key} (h : q.drop i = key :: rest) :
    q[i]? = some key ∧ q.drop (i + 1) = rest := by
  constructor
  · rw [← Nat.add_zero i, ← List.getElem?_drop, h]
    rfl
  · rw [← List.drop_drop, h]
    rfl

/-- What the rows from `i` on do when they are finished. -/
theorem SameWords.unifyRows_some (h : SameWords q v) (hz : q.getLast? = some z) {fuel i : ℕ}
    {rest : List Key} (hrest : q.drop i = rest) {pass pass' : Pass}
    (hstale : ∀ e ∈ pass.vk, Stale z e) (hrows : unifyRows fuel q i rest pass = some pass') :
    pass'.vf = pass.vf ++ (kept z rest).map (raised q) ∧
    (pass'.loop = true ↔
      pass.loop = true ∨ ∃ key ∈ kept z rest, Family digits q key.dropLast) ∧
    (rest ≠ [] → pass'.vk = []) := by
  induction rest generalizing i pass with
  | nil =>
    cases hrows
    simp [kept]
  | cons key rest ih =>
    obtain ⟨pass₁, hrow, hrows⟩ := Option.bind_eq_some_iff.mp hrows
    obtain ⟨hi, hlater⟩ := of_drop_eq_cons hrest
    have hlast : rest = [] → ¬ Skipped z key := by
      rintro rfl hskip
      have hkey : key = z := by
        have hend : (q.drop i).getLast? = some z := by
          rw [List.getLast?_drop, if_neg, hz]
          have hlen := congrArg List.length hrest
          simp only [List.length_drop, List.length_singleton] at hlen
          omega
        rw [hrest] at hend
        exact Option.some.inj hend
      exact hskip.2 (by rw [hkey])
    rcases h.unifyRow_cases hz hi hstale hrow with ⟨hskip, hvf, hloop, hstale₁⟩ |
      ⟨hskip, hvf, hloop, hvk⟩
    · obtain ⟨hvf', hloop', hvk'⟩ := ih hlater hstale₁ hrows
      have hkept : kept z (key :: rest) = kept z rest :=
        List.filter_cons_of_neg (by simpa using hskip)
      rw [hkept]
      refine ⟨by rw [hvf', hvf], by rw [hloop', hloop], fun _ => hvk' fun hnil => hlast hnil hskip⟩
    · obtain ⟨hvf', hloop', hvk'⟩ := ih hlater (by rw [hvk]; simp) hrows
      have hkept : kept z (key :: rest) = key :: kept z rest :=
        List.filter_cons_of_pos (by simpa using hskip)
      rw [hkept]
      refine ⟨by rw [hvf', hvf]; simp, ?_, fun _ => ?_⟩
      · rw [hloop', hloop]
        simp [or_assoc]
      · by_cases hnil : rest = []
        · subst hnil
          cases hrows
          exact hvk
        · exact hvk' hnil

/-- When no key is left out the rows are finished. -/
theorem SameWords.unifyRows_ok (h : SameWords q v) (hz : q.getLast? = some z)
    (hno : ∀ key ∈ q, ¬ Skipped z key) {fuel : ℕ} (hfuel : q.length < fuel) {i : ℕ}
    {rest : List Key} (hrest : q.drop i = rest) {pass : Pass} (hvk : pass.vk = []) :
    ∃ pass', unifyRows fuel q i rest pass = some pass' := by
  induction rest generalizing i pass with
  | nil => exact ⟨pass, rfl⟩
  | cons key rest ih =>
    obtain ⟨hi, hlater⟩ := of_drop_eq_cons hrest
    have hkey := List.mem_of_getElem? hi
    obtain ⟨X, own, rfl, hown⟩ := h.exists_concat hkey
    by_cases hfam : Family digits q X
    · have hrow : unifyRow fuel q i (X ++ [own]) pass = some ⟨pass.vf ++ [X], true, []⟩ :=
        (unifyRow_parent hi hz hown (hno _ hkey) hfam hvk).1 hfuel
      rw [unifyRows, hrow]
      exact ih hlater rfl
    · have hrow : unifyRow fuel q i (X ++ [own]) pass =
          some ⟨pass.vf ++ [X ++ [own]], pass.loop, []⟩ :=
        unifyRow_kept hi hz hown (hno _ hkey) hfam
      rw [unifyRows, hrow]
      exact ih hlater rfl

end Pass

end SLDM.QuadKey
