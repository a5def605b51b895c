/-
SLDM.QuadKey.Duplicates — what the loop that removes duplicates leaves.

The loop erases any other key equal to the one it stands at, and looks for
duplicates from the front of the vector each time. What it stands behind
has no duplicate (`Settled`), so the key it erases always comes later, and
the first occurrence of every key stays where it is
(`removeDuplicates_eq`).
-/
import Mathlib.Data.List.Nodup
import SLDM.QuadKey.TileSystem

namespace SLDM.QuadKey

/-! ## Erasing a later duplicate -/

theorem firstDuplicate_eq_none {v : List Key} {i : ℕ} :
    firstDuplicate v i = none ↔ ∀ k < v.length, i ≠ k → v[i]? ≠ v[k]? := by
  unfold firstDuplicate
  rw [List.find?_eq_none]
  refine forall_congr' fun k => ?_
  rw [List.mem_range]
  simp only [Bool.and_eq_true, decide_eq_true_eq, beq_iff_eq, not_and]

theorem firstDuplicate_eq_some {v : List Key} {i k : ℕ} (h : firstDuplicate v i = some k) :
    i ≠ k ∧ v[i]? = v[k]? := by
  have hfound := List.find?_some h
  simp only [Bool.and_eq_true, decide_eq_true_eq, beq_iff_eq] at hfound
  exact hfound

/-- A key that occurs earlier does not count. -/
theorem eraseDups_eraseIdx {v : List Key} {i k : ℕ} (hik : i < k) (hk : k < v.length)
    (heq : v[i]? = v[k]?) : (v.eraseIdx k).eraseDups = v.eraseDups := by
  have hsplit : v = v.take k ++ v[k] :: v.drop (k + 1) := by
    rw [List.cons_getElem_drop_succ, List.take_append_drop]
  have hearlier : v[k] ∈ v.take k := by
    rw [List.getElem?_eq_getElem hk] at heq
    refine List.mem_of_getElem? (i := i) ?_
    rw [List.getElem?_take_of_lt hik, heq]
  conv_rhs => rw [hsplit]
  rw [List.eraseIdx_eq_take_drop_succ, List.eraseDups_append, List.eraseDups_append,
    List.cons_removeAll]
  simp [hearlier]

/-- Without duplicates nothing is removed. -/
theorem eraseDups_of_nodup : ∀ {v : List Key}, v.Nodup → v.eraseDups = v
  | [], _ => rfl
  | a :: t, h => by
      obtain ⟨hnot, ht⟩ := List.nodup_cons.mp h
      have hkeep : t.filter (fun b => !b == a) = t := by
        rw [List.filter_eq_self]
        intro b hb
        rw [Bool.not_eq_true', beq_eq_false_iff_ne]
        rintro rfl
        exact hnot hb
      rw [List.eraseDups_cons, hkeep, eraseDups_of_nodup ht]

/-! ## The loop -/

/-- The keys before `i` have no duplicate. -/
def Settled (i : ℕ) (v : List Key) : Prop := ∀ j < i, firstDuplicate v j = none

/-- A duplicate of the key at `i` comes after it. -/
theorem Settled.lt {i k : ℕ} {v : List Key} (h : Settled i v) (hi : i < v.length)
    (hk : firstDuplicate v i = some k) : i < k := by
  obtain ⟨hne, heq⟩ := firstDuplicate_eq_some hk
  by_contra hle
  have hlt : k < i := by omega
  exact firstDuplicate_eq_none.mp (h k hlt) i hi (by omega) heq.symm

theorem Settled.eraseIdx {i k : ℕ} {v : List Key} (h : Settled i v) (hik : i < k)
    (hk : k < v.length) : Settled i (v.eraseIdx k) := by
  intro j hj
  rw [firstDuplicate_eq_none]
  intro m hm hne
  have hold := firstDuplicate_eq_none.mp (h j hj)
  rw [List.length_eraseIdx_of_lt hk] at hm
  rw [List.getElem?_eraseIdx_of_lt (by omega)]
  by_cases hmk : m < k
  · rw [List.getElem?_eraseIdx_of_lt hmk]
    exact hold m (by omega) hne
  · rw [List.getElem?_eraseIdx_of_ge (by omega)]
    exact hold (m + 1) (by omega) (by omega)

theorem Settled.nodup {i : ℕ} {v : List Key} (h : Settled i v) (hi : v.length ≤ i) : v.Nodup := by
  rw [List.nodup_iff_getElem?_ne_getElem?]
  intro j k hjk hk
  exact firstDuplicate_eq_none.mp (h j (by omega)) k hk (by omega)

/-- A turn keeps the first occurrences, and what the loop stands behind has
no duplicate. -/
theorem Settled.turn {v : List Key} {s s' : ℕ × List Key}
    (h : s.2.eraseDups = v.eraseDups ∧ Settled s.1 s.2) (hturn : eraseTurn s = some s') :
    s'.2.eraseDups = v.eraseDups ∧ Settled s'.1 s'.2 := by
  obtain ⟨i, w⟩ := s
  obtain ⟨hsame, hsettled⟩ := h
  simp only [eraseTurn] at hturn
  split at hturn
  · rename_i hi
    split at hturn
    · rename_i k hk
      cases hturn
      have hlt := hsettled.lt hi hk
      refine ⟨?_, hsettled.eraseIdx hlt (firstDuplicate_lt hk)⟩
      rw [← hsame]
      exact eraseDups_eraseIdx hlt (firstDuplicate_lt hk) (firstDuplicate_eq_some hk).2
    · rename_i hnone
      cases hturn
      refine ⟨hsame, fun j hj => ?_⟩
      rcases Nat.lt_succ_iff_lt_or_eq.mp hj with hlt | rfl
      · exact hsettled j hlt
      · exact hnone
  · cases hturn

/-- The loop is left behind the last key. -/
theorem length_le_of_eraseTurn {s : ℕ × List Key} (hdone : eraseTurn s = none) :
    s.2.length ≤ s.1 := by
  obtain ⟨i, w⟩ := s
  simp only [eraseTurn] at hdone
  split at hdone
  · split at hdone <;> cases hdone
  · rename_i hi
    exact not_lt.mp hi

/-- The loop leaves the first occurrence of every key, in the order of the
vector. -/
theorem removeDuplicates_eq (v : List Key) :
    removeDuplicates v = v.eraseDups ∧ (removeDuplicates v).Nodup := by
  obtain ⟨fuel, hexec⟩ := removeDuplicates_ends v
  obtain ⟨⟨hsame, hsettled⟩, hdone⟩ := Loops.exec_of_invariant
    (I := fun s : ℕ × List Key => s.2.eraseDups = v.eraseDups ∧ Settled s.1 s.2)
    (fun _ _ => Settled.turn) ⟨rfl, fun j hj => absurd hj (Nat.not_lt_zero j)⟩ hexec
  have hnodup := hsettled.nodup (length_le_of_eraseTurn hdone)
  exact ⟨(eraseDups_of_nodup hnodup).symm.trans hsame, hnodup⟩

theorem mem_removeDuplicates {v : List Key} {key : Key} : key ∈ removeDuplicates v ↔ key ∈ v := by
  rw [(removeDuplicates_eq v).1, List.mem_eraseDups]

end SLDM.QuadKey
