/-
SLDM.QuadKey.Compression — fewer and shorter quadkeys.

`unifyQuadkeys2` replaces four sibling quadkeys that follow one another in
the sorted vector by their parent, one level in each pass; `checkdim`
shortens the longest quadkeys until the filter string is small enough.
`vector::at` throws, so both passes over a vector live in `Except`.
-/
import Mathlib.Algebra.Order.BigOperators.Group.List
import Mathlib.Data.Char
import Mathlib.Data.List.Lex
import Mathlib.Data.List.Sort
import SLDM.QuadKey.TileSystem

namespace SLDM.QuadKey

/-- The exceptions the standard library throws here. -/
inductive StdException
  | outOfRange
  | invalidArgument
deriving DecidableEq, Repr

/-- What the standard library leaves open or computes in floating point:
the Mercator ordinate of a latitude, and where `std::sort`, which is not
stable, puts quadkeys of one length. -/
structure Platform where
  mercatorY : ℚ → ℚ
  sortByLength : List Key → List Key
  sortByLength_perm : ∀ v, (sortByLength v).Perm v
  sortByLength_sorted : ∀ v, (sortByLength v).Pairwise (·.length ≤ ·.length)

/-- `vector::at`. -/
def vectorAt {α : Type} (v : List α) (i : ℕ) : Except StdException α :=
  match v[i]? with
  | some x => .ok x
  | none => .error .outOfRange

theorem bind_eq_ok {ε α β : Type} {x : Except ε α} {f : α → Except ε β} {b : β} :
    x >>= f = .ok b ↔ ∃ a, x = .ok a ∧ f a = .ok b := by
  cases x with
  | error e => exact iff_of_false (fun h => by cases h) (by rintro ⟨_, h, -⟩; cases h)
  | ok a =>
    constructor
    · intro h
      exact ⟨a, rfl, h⟩
    · intro hex
      obtain ⟨_, h, hf⟩ := hex
      cases h
      exact hf

/-! ## Uniting siblings -/

/-- `main_part == quadKeys.at(i).substr(…) && quadKeys.at(i).back() == digit`. -/
def siblingAt (quadKeys : List Key) (mainPart : Key) (i : ℕ) (digit : Char) :
    Except StdException Bool := do
  let key ← vectorAt quadKeys i
  return mainPart == key.dropLast && key.getLast? == some digit

/-- The condition of the `if`, evaluated from left to right. -/
def startsQuad (quadKeys : List Key) (i : ℕ) (key : Key) : Except StdException Bool := do
  -- below four keys `quadKeys.size()-4` wraps around and bounds nothing
  if (quadKeys.length < 4 || i ≤ quadKeys.length - 4) && key.getLast? == some '0' then
    if ← siblingAt quadKeys key.dropLast (i + 1) '1' then
      if ← siblingAt quadKeys key.dropLast (i + 2) '2' then
        siblingAt quadKeys key.dropLast (i + 3) '3'
      else return false
    else return false
  else return false

/-- One pass from index `i` on: the vector `vf` it fills and
`reduction_occurred`. -/
def unifyPass (quadKeys : List Key) : ℕ → ℕ → Except StdException (List Key × Bool)
  | 0, _ => .ok ([], false)
  | fuel + 1, i =>
    if i < quadKeys.length then do
      let key ← vectorAt quadKeys i
      if ← startsQuad quadKeys i key then
        let (vf, _) ← unifyPass quadKeys fuel (i + 3 + 1)
        return (key.dropLast :: vf, true)
      else
        let (vf, reductionOccurred) ← unifyPass quadKeys fuel (i + 1)
        return (key :: vf, reductionOccurred)
    else .ok ([], false)

/-- At most `m_levelOfDetail` passes, the last one without effect. -/
def unifyPasses : ℕ → List Key → Except StdException (List Key)
  | 0, quadKeys => .ok quadKeys
  | v + 1, quadKeys => do
    let (vf, reductionOccurred) ← unifyPass quadKeys quadKeys.length 0
    if reductionOccurred then unifyPasses v vf else return quadKeys

def unifyQuadkeys2 (p : Platform) (ts : QuadKeyTS) (quadKeys : List Key) :
    Except StdException (List Key) := do
  let united ← unifyPasses ts.levelOfDetail (quadKeys.insertionSort (· ≤ ·))
  return p.sortByLength united

/-! ## Limiting the size of the filter -/

/-- `std::accumulate(…, -4, …)` in `int`. -/
def filterLength (vf : List Key) : ℤ :=
  vf.foldl (fun sum elem => Int.bmod (sum + elem.length + 21) (2 ^ 32)) (-4)

/-- What `checkdim` compares with `max_length`; the addition is one of `int`
too. -/
def filterDimension (vf : List Key) : ℤ := Int.bmod (filterLength vf + 180) (2 ^ 32)

/-- The loop over `j`: the first quadkey of length `l` loses its last digit
and goes to the end; without one `l` is decremented. -/
def shortenOne (vf : List Key) (l : ℕ) : List Key × ℕ :=
  match vf.findIdx? (·.length == l) with
  | some j => ((vf ++ [(vf[j]?.getD []).take (l - 1)]).eraseIdx j, l)
  | none => (vf, if vf.isEmpty then l else l - 1)

/-- One turn of the `while` loop. It is left in the middle, before the
duplicates are removed, when `l` has reached 0. -/
def checkdimTurn : List Key × ℕ → Option (List Key × ℕ)
  | (vf, l) =>
    if l ≠ 0 ∧ 100000 ≤ filterDimension vf then
      let (vf', l') := shortenOne vf l
      some (if l' < 1 then vf' else removeDuplicates vf', l')
    else none

/-- The digits left to remove. -/
def digitsLeft (s : List Key × ℕ) : ℕ := (s.1.map List.length).sum + s.2

def checkdim (ts : QuadKeyTS) (quadKeys : List Key) : List Key :=
  (Loops.drive checkdimTurn (digitsLeft (quadKeys, ts.levelOfDetail))
    (quadKeys, ts.levelOfDetail)).1

/-- The quadkeys of an area as `getQuadKeyFilter` computes them. -/
def computeQuadKeys (p : Platform) (ts : QuadKeyTS) (area : Area) :
    Except StdException (List Key) := do
  let quadKeys ← unifyQuadkeys2 p ts (latLonToQuadKeyRange p.mercatorY ts area)
  return checkdim ts quadKeys

/-- What a turn of a pass does: the parent of four siblings goes into
`vf`, or the key itself. -/
theorem unifyPass_cases {v : List Key} {fuel i : ℕ} {vf : List Key} {r : Bool}
    (hi : i < v.length) (h : unifyPass v (fuel + 1) i = .ok (vf, r)) :
    ∃ key, vectorAt v i = .ok key ∧
      ((startsQuad v i key = .ok true ∧ ∃ rest r',
          unifyPass v fuel (i + 3 + 1) = .ok (rest, r') ∧ vf = key.dropLast :: rest ∧ r = true) ∨
        (startsQuad v i key = .ok false ∧ ∃ rest,
          unifyPass v fuel (i + 1) = .ok (rest, r) ∧ vf = key :: rest)) := by
  rw [unifyPass, if_pos hi] at h
  obtain ⟨key, hkey, h⟩ := bind_eq_ok.mp h
  obtain ⟨united, hunited, h⟩ := bind_eq_ok.mp h
  refine ⟨key, hkey, ?_⟩
  cases united with
  | true =>
    obtain ⟨⟨rest, r'⟩, hrest, h⟩ := bind_eq_ok.mp h
    cases h
    exact Or.inl ⟨hunited, rest, r', hrest, rfl, rfl⟩
  | false =>
    obtain ⟨⟨rest, r'⟩, hrest, h⟩ := bind_eq_ok.mp h
    cases h
    exact Or.inr ⟨hunited, rest, hrest, rfl⟩

/-! ## The loops are left -/

theorem sum_length_removeDuplicates (v : List Key) :
    ((removeDuplicates v).map List.length).sum ≤ (v.map List.length).sum :=
  List.Sublist.sum_le_sum ((removeDuplicates_sublist v).map List.length) fun _ _ => Nat.zero_le _

/-- What the loop over `j` does: a key of length `l` moves to the end without
its last digit, or there is none. -/
theorem shortenOne_cases (vf : List Key) (l : ℕ) :
    (∃ front key back, vf = front ++ key :: back ∧ key.length = l ∧
      shortenOne vf l = (front ++ back ++ [key.take (l - 1)], l)) ∨
    ((∀ key ∈ vf, key.length ≠ l) ∧ shortenOne vf l = (vf, if vf.isEmpty then l else l - 1)) := by
  unfold shortenOne
  cases hfind : vf.findIdx? (·.length == l) with
  | none =>
    right
    refine ⟨fun key hkey heq => ?_, rfl⟩
    have hno := List.findIdx?_eq_none_iff.mp hfind key hkey
    simp only [heq, beq_self_eq_true, Bool.true_eq_false] at hno
  | some j =>
    left
    obtain ⟨hlt, hlen, -⟩ := List.findIdx?_eq_some_iff_getElem.mp hfind
    refine ⟨vf.take j, vf[j], vf.drop (j + 1), ?_, by simpa using hlen, ?_⟩
    · rw [List.cons_getElem_drop_succ, List.take_append_drop]
    · simp only [List.eraseIdx_append_of_lt_length hlt, List.eraseIdx_eq_take_drop_succ,
        List.getElem?_eq_getElem hlt, Option.getD_some]

/-- Every key of the new vector begins an old one. -/
theorem exists_of_mem_shortenOne {vf : List Key} {l : ℕ} {key' : Key}
    (h : key' ∈ (shortenOne vf l).1) : ∃ key ∈ vf, key' <+: key := by
  rcases shortenOne_cases vf l with ⟨front, key, back, rfl, -, heq⟩ | ⟨-, heq⟩
  · rw [heq, List.mem_append, List.mem_append, List.mem_singleton] at h
    rcases h with (hfront | hback) | rfl
    · exact ⟨key', List.mem_append_left _ hfront, List.prefix_refl key'⟩
    · exact ⟨key', List.mem_append_right _ (List.mem_cons_of_mem key hback),
        List.prefix_refl key'⟩
    · exact ⟨key, List.mem_append_right _ List.mem_cons_self, List.take_prefix _ key⟩
  · rw [heq] at h
    exact ⟨key', h, List.prefix_refl key'⟩

/-- Every old key begins like one of the new vector. -/
theorem exists_mem_shortenOne {vf : List Key} (l : ℕ) {key : Key} (h : key ∈ vf) :
    ∃ key' ∈ (shortenOne vf l).1, key' <+: key := by
  rcases shortenOne_cases vf l with ⟨front, longest, back, rfl, -, heq⟩ | ⟨-, heq⟩
  · rw [heq]
    rcases List.mem_append.mp h with hfront | hrest
    · exact ⟨key, List.mem_append_left _ (List.mem_append_left _ hfront), List.prefix_refl key⟩
    · rcases List.mem_cons.mp hrest with rfl | hback
      · exact ⟨_, List.mem_append_right _ List.mem_cons_self, List.take_prefix _ key⟩
      · exact ⟨key, List.mem_append_left _ (List.mem_append_right _ hback),
          List.prefix_refl key⟩
  · rw [heq]
    exact ⟨key, h, List.prefix_refl key⟩

/-- A turn removes a digit or lowers `l`. -/
theorem digitsLeft_shortenOne {vf : List Key} {l : ℕ} (hl : l ≠ 0) (hvf : vf ≠ []) :
    digitsLeft (shortenOne vf l) < digitsLeft (vf, l) := by
  rcases shortenOne_cases vf l with ⟨front, key, back, rfl, hlen, heq⟩ | ⟨-, heq⟩
  · rw [heq]
    simp only [digitsLeft, List.map_append, List.sum_append, List.map_cons, List.sum_cons,
      List.map_nil, List.sum_nil, List.length_take]
    omega
  · rw [heq]
    simp only [digitsLeft, List.isEmpty_iff, if_neg hvf]
    omega

theorem digitsLeft_checkdimTurn : ∀ s s', checkdimTurn s = some s' →
    digitsLeft s' < digitsLeft s
  | (vf, l), s', h => by
      simp only [checkdimTurn] at h
      split at h
      · rename_i hcond
        have hvf : vf ≠ [] := by
          intro heq
          subst heq
          have hlen := hcond.2
          revert hlen
          decide
        have hlt := digitsLeft_shortenOne hcond.1 hvf
        have hle := sum_length_removeDuplicates (shortenOne vf l).1
        cases h
        simp only [digitsLeft] at hlt ⊢
        split <;> omega
      · cases h

theorem checkdim_ends (ts : QuadKeyTS) (quadKeys : List Key) :
    Loops.EndsIn checkdimTurn (quadKeys, ts.levelOfDetail)
      (Loops.drive checkdimTurn (digitsLeft (quadKeys, ts.levelOfDetail))
        (quadKeys, ts.levelOfDetail)) :=
  Loops.endsIn_drive digitsLeft_checkdimTurn (Nat.le_refl _)

/-! ## Quadkeys stay quadkeys -/

/-- Every key of a vector is made of digits. -/
def AllQuadKeys (v : List Key) : Prop := ∀ key ∈ v, IsQuadKey key

theorem IsQuadKey.subset {key key' : Key} (h : IsQuadKey key) (hsub : key' ⊆ key) :
    IsQuadKey key' :=
  fun c hc => h c (hsub hc)

theorem AllQuadKeys.vectorAt {v : List Key} (h : AllQuadKeys v) {i : ℕ} {key : Key}
    (hkey : vectorAt v i = .ok key) : IsQuadKey key := by
  unfold QuadKey.vectorAt at hkey
  split at hkey
  · rename_i hx
    cases hkey
    exact h key (List.mem_of_getElem? hx)
  · cases hkey

theorem allQuadKeys_cons {key : Key} {v : List Key} (hkey : IsQuadKey key) (h : AllQuadKeys v) :
    AllQuadKeys (key :: v) := by
  intro k hk
  rcases List.mem_cons.mp hk with rfl | hk
  · exact hkey
  · exact h k hk

theorem AllQuadKeys.unifyPass {v : List Key} (h : AllQuadKeys v) {fuel i : ℕ} {vf : List Key}
    {r : Bool} (hpass : unifyPass v fuel i = .ok (vf, r)) : AllQuadKeys vf := by
  induction fuel generalizing i vf r with
  | zero =>
    cases hpass
    exact fun _ hmem => absurd hmem List.not_mem_nil
  | succ fuel ih =>
    by_cases hi : i < v.length
    · obtain ⟨key, hkey, ⟨-, rest, r', hrest, rfl, -⟩ | ⟨-, rest, hrest, rfl⟩⟩ :=
        unifyPass_cases hi hpass
      · exact allQuadKeys_cons ((h.vectorAt hkey).subset (List.dropLast_subset key)) (ih hrest)
      · exact allQuadKeys_cons (h.vectorAt hkey) (ih hrest)
    · rw [QuadKey.unifyPass, if_neg hi] at hpass
      cases hpass
      exact fun _ hmem => absurd hmem List.not_mem_nil

theorem AllQuadKeys.unifyPasses {n : ℕ} {v w : List Key} (h : AllQuadKeys v)
    (hw : unifyPasses n v = .ok w) : AllQuadKeys w := by
  induction n generalizing v with
  | zero =>
    cases hw
    exact h
  | succ n ih =>
    obtain ⟨⟨vf, reductionOccurred⟩, hpass, hw⟩ := bind_eq_ok.mp hw
    cases reductionOccurred with
    | true => exact ih (h.unifyPass hpass) hw
    | false =>
      cases hw
      exact h

theorem AllQuadKeys.shortenOne {vf : List Key} (h : AllQuadKeys vf) (l : ℕ) :
    AllQuadKeys (shortenOne vf l).1 := by
  intro key' hkey'
  obtain ⟨key, hkey, hpre⟩ := exists_of_mem_shortenOne hkey'
  exact (h key hkey).subset hpre.subset

theorem AllQuadKeys.checkdim {v : List Key} (h : AllQuadKeys v) (ts : QuadKeyTS) :
    AllQuadKeys (checkdim ts v) := by
  refine Loops.drive_of_invariant (I := fun s : List Key × ℕ => AllQuadKeys s.1) ?_ h
  intro s s' hI hs
  obtain ⟨vf, l⟩ := s
  simp only [checkdimTurn] at hs
  split at hs
  · cases hs
    have hshort := hI.shortenOne l
    simp only
    split
    · exact hshort
    · exact fun key hkey => hshort key ((removeDuplicates_sublist _).subset hkey)
  · cases hs

theorem allQuadKeys_compute {p : Platform} {ts : QuadKeyTS} {area : Area} {keys : List Key}
    (h : computeQuadKeys p ts area = .ok keys) : AllQuadKeys keys := by
  obtain ⟨sorted, hsorted, h⟩ := bind_eq_ok.mp h
  obtain ⟨united, hunited, hsorted⟩ := bind_eq_ok.mp hsorted
  cases hsorted
  cases h
  have hrange : AllQuadKeys
      ((latLonToQuadKeyRange p.mercatorY ts area).insertionSort (· ≤ ·)) :=
    fun key hkey => isQuadKey_of_mem_range key ((List.perm_insertionSort _ _).mem_iff.mp hkey)
  refine AllQuadKeys.checkdim (fun key hkey => ?_) ts
  exact hrange.unifyPasses hunited key ((p.sortByLength_perm united).mem_iff.mp hkey)

end SLDM.QuadKey
