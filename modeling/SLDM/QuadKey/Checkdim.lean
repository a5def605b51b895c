/-
SLDM.QuadKey.Checkdim — `checkdim` makes the filter small enough and keeps
the area.

A turn of the loop shortens one of the longest keys, or finds that there
is none of length `l` and lowers `l`. `Shrunk` is what every turn keeps:
no key is longer than `l`, the keys are distinct, and they cover the input
and nothing that does not begin like it. When `l` has reached 0 the keys
are empty, and as they are distinct there is at most one, so the loop is
never left with a filter that is too long.
-/
import SLDM.QuadKey.Duplicates
import SLDM.QuadKey.FilterCache

namespace SLDM.QuadKey

open Lines

/-! ## The length of the filter -/

/-- In the range of an `int` nothing wraps around. -/
theorem foldl_filterLength {v : List Key} : ∀ {sum : ℤ}, -2 ^ 31 ≤ sum →
    sum + weight 21 v < 2 ^ 31 →
    v.foldl (fun sum elem => Int.bmod (sum + elem.length + 21) (2 ^ 32)) sum =
      sum + weight 21 v := by
  induction v with
  | nil =>
    intro sum _ _
    exact (add_zero sum).symm
  | cons key v ih =>
    intro sum hlow hhigh
    rw [weight_cons, Nat.cast_add, Nat.cast_add, Nat.cast_ofNat] at hhigh ⊢
    have hstep : Int.bmod (sum + key.length + 21) (2 ^ 32) = sum + key.length + 21 := by
      refine Int.bmod_eq_of_le ?_ ?_
      · norm_num
        omega
      · norm_num
        omega
    rw [List.foldl_cons, hstep, ih (by omega) (by omega)]
    ring

theorem filterDimension_eq {v : List Key} (h : weight 21 v + 176 < 2 ^ 31) :
    filterDimension v = weight 21 v + 176 := by
  have hlength : filterLength v = -4 + weight 21 v :=
    foldl_filterLength (by norm_num) (by omega)
  rw [filterDimension, hlength, Int.bmod_eq_of_le (by omega) (by omega)]
  ring

/-! ## One turn -/

/-- What the turns keep of the input. -/
structure Shrunk (v vf : List Key) (l : ℕ) : Prop where
  length_le : ∀ key ∈ vf, key.length ≤ l
  covered : ∀ key ∈ v, ∃ key' ∈ vf, key' <+: key
  below : ∀ key' ∈ vf, ∃ key ∈ v, key' <+: key
  weight_le : weight 21 vf ≤ weight 21 v

section Turn

variable {v vf : List Key} {l : ℕ}

/-- The filter does not get longer. -/
theorem weight_shortenOne_le (vf : List Key) (l : ℕ) :
    weight 21 (shortenOne vf l).1 ≤ weight 21 vf := by
  rcases shortenOne_cases vf l with ⟨front, key, back, rfl, -, heq⟩ | ⟨-, heq⟩
  · have hle : (key.take (l - 1)).length ≤ key.length := List.length_take_le' _ key
    rw [heq]
    simp only [weight_append, weight_cons, weight_nil]
    omega
  · rw [heq]

/-- The counter stays at the length of the longest key or above it. -/
theorem length_le_shortenOne (hlen : ∀ key ∈ vf, key.length ≤ l) (hvf : vf ≠ []) :
    ∀ key ∈ (shortenOne vf l).1, key.length ≤ (shortenOne vf l).2 := by
  intro key' hkey'
  rcases shortenOne_cases vf l with ⟨_, _, _, -, -, heq⟩ | ⟨hnone, heq⟩
  · obtain ⟨key, hkey, hpre⟩ := exists_of_mem_shortenOne hkey'
    rw [heq]
    exact hpre.length_le.trans (hlen key hkey)
  · rw [heq] at hkey' ⊢
    have hle := hlen key' hkey'
    have hne := hnone key' hkey'
    simp only [List.isEmpty_iff, if_neg hvf]
    omega

/-- Shortening one key, or lowering `l`. -/
theorem Shrunk.shortenOne (h : Shrunk v vf l) (hvf : vf ≠ []) :
    Shrunk v (shortenOne vf l).1 (shortenOne vf l).2 where
  length_le := length_le_shortenOne h.length_le hvf
  covered := by
    intro key hkey
    obtain ⟨key', hkey', hpre⟩ := h.covered key hkey
    obtain ⟨key'', hkey'', hpre'⟩ := exists_mem_shortenOne l hkey'
    exact ⟨key'', hkey'', hpre'.trans hpre⟩
  below := by
    intro key'' hkey''
    obtain ⟨key', hkey', hpre'⟩ := exists_of_mem_shortenOne hkey''
    obtain ⟨key, hkey, hpre⟩ := h.below key' hkey'
    exact ⟨key, hkey, hpre'.trans hpre⟩
  weight_le := (weight_shortenOne_le vf l).trans h.weight_le

/-- Removing duplicates. -/
theorem Shrunk.removeDuplicates (h : Shrunk v vf l) : Shrunk v (removeDuplicates vf) l where
  length_le := fun key hkey => h.length_le key (mem_removeDuplicates.mp hkey)
  covered := by
    intro key hkey
    obtain ⟨key', hmem, hpre⟩ := h.covered key hkey
    exact ⟨key', mem_removeDuplicates.mpr hmem, hpre⟩
  below := fun key hkey => h.below key (mem_removeDuplicates.mp hkey)
  weight_le :=
    (weight_sublist 21 (removeDuplicates_sublist vf)).trans h.weight_le

/-- The keys are distinct after a turn: `l` reaches 0 in a turn that shortens
no key. -/
theorem nodup_checkdimTurn {s s' : List Key × ℕ} (hnodup : s.1.Nodup)
    (hs : checkdimTurn s = some s') : s'.1.Nodup := by
  obtain ⟨vf, l⟩ := s
  simp only [checkdimTurn] at hs
  split at hs
  · rename_i hcond
    cases hs
    simp only
    split
    · rename_i hzero
      rcases shortenOne_cases vf l with ⟨front, key, back, -, -, heq⟩ | ⟨-, heq⟩
      · rw [heq] at hzero
        exact absurd (Nat.lt_one_iff.mp hzero) hcond.1
      · rw [heq]
        exact hnodup
    · exact (removeDuplicates_eq _).2
  · cases hs

theorem shrunk_checkdimTurn {s s' : List Key × ℕ} (h : Shrunk v s.1 s.2)
    (hs : checkdimTurn s = some s') : Shrunk v s'.1 s'.2 := by
  obtain ⟨vf, l⟩ := s
  simp only [checkdimTurn] at hs
  split at hs
  · rename_i hcond
    have hvf : vf ≠ [] := by
      rintro rfl
      revert hcond
      simp [filterDimension, filterLength, Int.bmod]
    cases hs
    have hshort := h.shortenOne hvf
    simp only
    split
    · exact hshort
    · exact hshort.removeDuplicates
  · cases hs

end Turn

/-! ## The loop -/

/-- Distinct keys without a digit are at most one. -/
theorem weight_of_empty {vf : List Key} (hnodup : vf.Nodup)
    (hempty : ∀ key ∈ vf, key.length ≤ 0) : weight 21 vf ≤ 21 := by
  match vf with
  | [] => exact Nat.zero_le 21
  | [key] =>
    have hlen := hempty key List.mem_cons_self
    rw [weight_cons, weight_nil]
    omega
  | key :: key' :: rest =>
    have hkey : key = [] :=
      List.eq_nil_of_length_eq_zero (Nat.le_zero.mp (hempty key List.mem_cons_self))
    have hkey' : key' = [] :=
      List.eq_nil_of_length_eq_zero (Nat.le_zero.mp (hempty key' (by simp)))
    rw [hkey, hkey'] at hnodup
    exact absurd List.mem_cons_self (List.nodup_cons.mp hnodup).1

/-- A filter that is small enough is left alone. -/
theorem checkdim_of_small (ts : QuadKeyTS) {v : List Key} (h : weight 21 v + 176 < 100000) :
    checkdim ts v = v := by
  have hdone : checkdimTurn (v, ts.levelOfDetail) = none := by
    simp only [checkdimTurn]
    rw [if_neg]
    rintro ⟨-, hbound⟩
    rw [filterDimension_eq (by omega)] at hbound
    omega
  rw [checkdim, Loops.drive_of_done hdone]

/-- Where the loop is left. -/
theorem checkdim_exit (ts : QuadKeyTS) {v : List Key} (hnodup : v.Nodup)
    (hlen : ∀ key ∈ v, key.length ≤ ts.levelOfDetail) (hsize : weight 21 v + 176 < 2 ^ 31) :
    ∃ l, Loops.EndsIn checkdimTurn (v, ts.levelOfDetail) (checkdim ts v, l) ∧
      Shrunk v (checkdim ts v) l ∧ (checkdim ts v).Nodup ∧
      weight 21 (checkdim ts v) + 176 < 100000 := by
  have hends := checkdim_ends ts v
  have hstart : Shrunk v v ts.levelOfDetail ∧ v.Nodup :=
    ⟨⟨hlen, fun key hkey => ⟨key, hkey, List.prefix_refl key⟩,
      fun key hkey => ⟨key, hkey, List.prefix_refl key⟩, Nat.le_refl _⟩, hnodup⟩
  obtain ⟨fuel, hexec⟩ := hends
  obtain ⟨⟨hshrunk, hdistinct⟩, hdone⟩ := Loops.exec_of_invariant
    (I := fun s : List Key × ℕ => Shrunk v s.1 s.2 ∧ s.1.Nodup)
    (fun s s' hI hs => ⟨shrunk_checkdimTurn hI.1 hs, nodup_checkdimTurn hI.2 hs⟩) hstart hexec
  refine ⟨_, ⟨fuel, hexec⟩, hshrunk, hdistinct, ?_⟩
  show weight 21 (Loops.drive checkdimTurn _ _).1 + 176 < 100000
  generalize Loops.drive checkdimTurn (digitsLeft (v, ts.levelOfDetail)) (v, ts.levelOfDetail) = s
    at hshrunk hdistinct hdone
  obtain ⟨vf, l⟩ := s
  simp only [checkdimTurn] at hdone
  split at hdone
  · cases hdone
  · rename_i hcond
    rw [not_and_or, not_not, not_le] at hcond
    rcases hcond with rfl | hbound
    · have hle : weight 21 vf ≤ 21 := weight_of_empty hdistinct hshrunk.length_le
      show weight 21 vf + 176 < 100000
      omega
    · have hle : weight 21 vf ≤ weight 21 v := hshrunk.weight_le
      rw [filterDimension_eq (by omega)] at hbound
      show weight 21 vf + 176 < 100000
      omega

/-- `checkdim` and the loop inside it terminate, with distinct keys that cover the input and lie
on the way to it; the filter string made of them has the length `checkdim`
counts, which leaves room for 180 more characters, and an input that does
so already is returned as it is. -/
theorem checkdim_shrinks (ts : QuadKeyTS) (v : List Key) (hnodup : v.Nodup)
    (hlen : ∀ key ∈ v, key.length ≤ ts.levelOfDetail)
    (hsize : (v.map (·.length + 21)).sum + 176 < 2 ^ 31) :
    (∃ l, Loops.EndsIn checkdimTurn (v, ts.levelOfDetail) (checkdim ts v, l)) ∧
      (∀ vf, ∃ i, Loops.EndsIn eraseTurn (0, vf) (i, removeDuplicates vf)) ∧
      (∀ key ∈ v, ∃ key' ∈ checkdim ts v, key' <+: key) ∧
      (∀ key' ∈ checkdim ts v, ∃ key ∈ v, key' <+: key) ∧
      (checkdim ts v).Nodup ∧
      (checkdim ts v ≠ [] →
        (appendClauses [] (checkdim ts v)).length =
            ((checkdim ts v).map (·.length + 21)).sum - 4 ∧
          (appendClauses [] (checkdim ts v)).length + 180 < 100000) ∧
      ((v.map (·.length + 21)).sum - 4 + 180 < 100000 → checkdim ts v = v) := by
  rw [← weight_eq_sum] at hsize
  obtain ⟨l, hends, hshrunk, hdistinct, hfits⟩ := checkdim_exit ts hnodup hlen hsize
  refine ⟨⟨l, hends⟩, fun vf => ⟨_, removeDuplicates_ends vf⟩, hshrunk.covered, hshrunk.below,
    hdistinct, ?_, ?_⟩
  · intro hne
    have hlength := length_appendClauses [] hne
    rw [List.length_nil] at hlength
    rw [← weight_eq_sum]
    omega
  · intro hsmall
    rw [← weight_eq_sum] at hsmall
    exact checkdim_of_small ts (by omega)

/-- Level 60000, where two keys are too long for one filter. -/
def deepLevel : QuadKeyTS :=
  { QuadKeyTS.new with levelOfDetail := 60000, levelOfDetail_pos := Nat.succ_pos 59999 }

/-- Two keys of `n` digits. -/
def longKeys (n : ℕ) : List Key := [List.replicate n '0', List.replicate n '1']

theorem sum_longKeys (n : ℕ) : ((longKeys n).map (·.length + 21)).sum = n + 21 + (n + 21) := by
  simp [longKeys]

theorem length_of_mem_longKeys {n : ℕ} {key : Key} (h : key ∈ longKeys n) : key.length = n := by
  rcases List.mem_cons.mp h with rfl | h
  · exact List.length_replicate
  · rw [List.mem_singleton.mp h]
    exact List.length_replicate

theorem nodup_longKeys (n : ℕ) : (longKeys (n + 1)).Nodup := by
  simp [longKeys, List.replicate_succ]

/-- Two long keys are shortened. -/
theorem checkdim_shrinks_longKeys :
    100000 ≤ ((longKeys 60000).map (·.length + 21)).sum - 4 + 180 ∧
      (∀ key ∈ longKeys 60000, ∃ key' ∈ checkdim deepLevel (longKeys 60000), key' <+: key) ∧
      (checkdim deepLevel (longKeys 60000)).Nodup ∧
      (appendClauses [] (checkdim deepLevel (longKeys 60000))).length + 180 < 100000 := by
  have hsum := sum_longKeys 60000
  have hlen : ∀ key ∈ longKeys 60000, key.length ≤ deepLevel.levelOfDetail := fun key hkey =>
    (length_of_mem_longKeys hkey).le
  obtain ⟨-, -, hcovered, -, hdistinct, hfilter, -⟩ :=
    checkdim_shrinks deepLevel (longKeys 60000) (nodup_longKeys 59999) hlen
      (by rw [hsum]; norm_num)
  have hne : checkdim deepLevel (longKeys 60000) ≠ [] := by
    obtain ⟨key, hkey, -⟩ := hcovered _ List.mem_cons_self
    exact List.ne_nil_of_mem hkey
  exact ⟨by rw [hsum]; norm_num, hcovered, hdistinct, (hfilter hne).2⟩

end SLDM.QuadKey
