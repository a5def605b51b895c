/-
SLDM.Lib.KeyedList — lists whose elements carry different keys, under the
operations on positions.

An element is looked up with `find?` by its key. Changing, removing or
adding one element changes what is found under its own key and nothing
else.

Nothing in this module is about a particular program.
-/
import Mathlib.Data.List.InsertIdx
import Mathlib.Data.List.Nodup

namespace KeyedList

variable {α β : Type*} [DecidableEq β] (key : α → β)

/-- In a list with different keys, every element is found under its key. -/
theorem find?_of_mem {l : List α} (hl : (l.map key).Nodup) {a : α} (ha : a ∈ l) :
    l.find? (fun x => key x == key a) = some a := by
  induction l with
  | nil => cases ha
  | cons c l ih =>
    rw [List.map_cons, List.nodup_cons] at hl
    rcases List.mem_cons.mp ha with rfl | ha
    · simp
    · have hne : key c ≠ key a := fun h => hl.1 (h ▸ List.mem_map_of_mem ha)
      simp [hne, ih hl.2 ha]

/-- In a list with different keys, replacing an element of a key changes
what is found under this key only. -/
theorem find?_set {l : List α} (hl : (l.map key).Nodup) {i : ℕ} {a b : α} (hi : l[i]? = some a)
    (hkey : key b = key a) (k : β) : (l.set i b).find? (fun x => key x == k) =
      if key a = k then some b else l.find? fun x => key x == k := by
  induction l generalizing i with
  | nil => simp at hi
  | cons c l ih =>
    rw [List.map_cons, List.nodup_cons] at hl
    cases i with
    | zero =>
      obtain rfl : c = a := by simpa using hi
      by_cases hk : key c = k
      · simp [hkey, hk]
      · simp [hkey, hk]
    | succ i =>
      have hi : l[i]? = some a := by simpa using hi
      have hne : key c ≠ key a := fun h =>
        hl.1 (h ▸ List.mem_map_of_mem (List.mem_of_getElem? hi))
      rw [List.set_cons_succ]
      by_cases hc : key c = k
      · have hak : ¬ key a = k := fun h => hne (hc.trans h.symm)
        simp [hc, hak]
      · simp [hc, ih hl.2 hi]

/-- In a list with different keys, removing an element leaves nothing
under its key. -/
theorem find?_eraseIdx {l : List α} (hl : (l.map key).Nodup) {i : ℕ} {a : α} (hi : l[i]? = some a)
    (k : β) : (l.eraseIdx i).find? (fun x => key x == k) =
      if key a = k then none else l.find? fun x => key x == k := by
  induction l generalizing i with
  | nil => simp at hi
  | cons c l ih =>
    rw [List.map_cons, List.nodup_cons] at hl
    cases i with
    | zero =>
      obtain rfl : c = a := by simpa using hi
      rw [List.eraseIdx_cons_zero]
      by_cases hk : key c = k
      · rw [if_pos hk, List.find?_eq_none]
        exact fun x hx h => hl.1 (hk.trans (beq_iff_eq.mp h).symm ▸ List.mem_map_of_mem hx)
      · simp [hk]
    | succ i =>
      have hi : l[i]? = some a := by simpa using hi
      have hne : key c ≠ key a := fun h =>
        hl.1 (h ▸ List.mem_map_of_mem (List.mem_of_getElem? hi))
      rw [List.eraseIdx_cons_succ]
      by_cases hc : key c = k
      · have hak : ¬ key a = k := fun h => hne (hc.trans h.symm)
        simp [hc, hak]
      · simp [hc, ih hl.2 hi]

theorem key_ne_of_mem_eraseIdx {l : List α} (hl : (l.map key).Nodup) {i : ℕ} {a b : α}
    (hi : l[i]? = some a) (hb : b ∈ l.eraseIdx i) : key b ≠ key a := by
  have hnone := find?_eraseIdx key hl hi (key a)
  rw [if_pos rfl, List.find?_eq_none] at hnone
  simpa using hnone b hb

/-- Removing the element at a position removes it from what the list is
mapped to, if that has no duplicates. -/
theorem map_eraseIdx {γ : Type*} [DecidableEq γ] (f : α → γ) {l : List α} (hl : (l.map f).Nodup)
    {i : ℕ} {a : α} (hi : l[i]? = some a) : (l.eraseIdx i).map f = (l.map f).erase (f a) := by
  obtain ⟨hlt, rfl⟩ := List.getElem?_eq_some_iff.mp hi
  have hidx : (l.map f).idxOf (f l[i]) = i := by
    have h := hl.idxOf_getElem i (by rwa [List.length_map])
    rwa [List.getElem_map] at h
  rw [List.erase_eq_eraseIdx_of_idxOf hidx, List.eraseIdx_map]

/-- A new element with a new key is what is found under it. -/
theorem find?_append_new {l : List α} {a : α} (ha : key a ∉ l.map key) (k : β) :
    (l ++ [a]).find? (fun x => key x == k) =
      if key a = k then some a else l.find? fun x => key x == k := by
  rw [List.find?_append]
  by_cases hk : key a = k
  · have hnone : l.find? (fun x => key x == k) = none := by
      rw [List.find?_eq_none]
      exact fun x hx h => ha (hk.trans (beq_iff_eq.mp h).symm ▸ List.mem_map_of_mem hx)
    simp [hnone, hk]
  · simp [hk]

end KeyedList
