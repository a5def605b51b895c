/-
SLDM.Lib.SortedMap — ordered maps as lists of their entries.

A `std::map` walked from its begin to its end is a list of pairs whose keys
increase. `set` is `m[k] = v`, `find` is what the map holds for a key.

* `sorted_set`, `find_set` — setting a key keeps the order and changes that
  key alone;
* `ofEntries_of_sorted` — a map is what setting its entries one after the
  other gives.

Nothing in this module is about a particular program.
-/
import Mathlib.Order.Lattice
import Mathlib.Data.List.Basic
import Mathlib.Order.Defs.LinearOrder

namespace SortedMap

variable {κ ν : Type*} [LinearOrder κ]

def Sorted (m : List (κ × ν)) : Prop := m.Pairwise fun a b => a.1 < b.1

/-- `m[k] = v`. -/
def set (k : κ) (v : ν) : List (κ × ν) → List (κ × ν)
  | [] => [(k, v)]
  | e :: m =>
    if k < e.1 then (k, v) :: e :: m
    else if k = e.1 then (k, v) :: m
    else e :: set k v m

/-- The value under a key. -/
def find (k : κ) : List (κ × ν) → Option ν
  | [] => none
  | e :: m => if k = e.1 then some e.2 else find k m

/-- The map of some entries, set one after the other. -/
def ofEntries (es : List (κ × ν)) : List (κ × ν) := es.foldl (fun m e => set e.1 e.2 m) []

variable {k : κ} {v : ν} {m : List (κ × ν)}

@[simp] theorem find_nil : find k ([] : List (κ × ν)) = none := rfl

theorem find_cons {e : κ × ν} : find k (e :: m) = if k = e.1 then some e.2 else find k m := rfl

/-- The entries after setting a key. -/
theorem mem_set {e : κ × ν} (h : e ∈ set k v m) : e = (k, v) ∨ e ∈ m := by
  induction m with
  | nil => exact Or.inl (List.mem_singleton.mp h)
  | cons d m ih =>
    rw [set] at h
    split_ifs at h
    · exact List.mem_cons.mp h
    · exact (List.mem_cons.mp h).imp_right (List.mem_cons_of_mem d)
    · rcases List.mem_cons.mp h with rfl | hrest
      · exact Or.inr List.mem_cons_self
      · exact (ih hrest).imp_right (List.mem_cons_of_mem d)

theorem sorted_set (h : Sorted m) (k : κ) (v : ν) : Sorted (set k v m) := by
  induction m with
  | nil => exact List.pairwise_singleton _ _
  | cons d m ih =>
    obtain ⟨hd, hm⟩ := List.pairwise_cons.mp h
    rw [set]
    split_ifs with hlt heq
    · refine List.pairwise_cons.mpr ⟨fun e he => ?_, h⟩
      rcases List.mem_cons.mp he with rfl | he
      · exact hlt
      · exact hlt.trans (hd e he)
    · exact List.pairwise_cons.mpr ⟨fun e he => heq ▸ hd e he, hm⟩
    · refine List.pairwise_cons.mpr ⟨fun e he => ?_, ih hm⟩
      rcases mem_set he with rfl | he
      · exact lt_of_le_of_ne (not_lt.mp hlt) (Ne.symm heq)
      · exact hd e he

theorem find_set (k' : κ) : find k' (set k v m) = if k' = k then some v else find k' m := by
  induction m with
  | nil => rfl
  | cons d m ih =>
    rw [set]
    by_cases hlt : k < d.1
    · rw [if_pos hlt, find_cons]
    · rw [if_neg hlt]
      by_cases heq : k = d.1
      · rw [if_pos heq, find_cons, find_cons, ← heq]
        split_ifs <;> rfl
      · rw [if_neg heq, find_cons, ih, find_cons]
        by_cases hk : k' = k
        · simp [hk, heq]
        · simp [hk]

/-- A key above all others comes last. -/
theorem set_of_forall_lt (h : ∀ e ∈ m, e.1 < k) : set k v m = m ++ [(k, v)] := by
  induction m with
  | nil => rfl
  | cons d m ih =>
    obtain ⟨hd, hm⟩ := List.forall_mem_cons.mp h
    rw [set, if_neg (not_lt.mpr hd.le), if_neg hd.ne', ih hm, List.cons_append]

theorem foldl_set_of_sorted {es : List (κ × ν)} (h : Sorted (m ++ es)) :
    es.foldl (fun m e => set e.1 e.2 m) m = m ++ es := by
  induction es generalizing m with
  | nil => simp
  | cons e es ih =>
    have hlt : ∀ d ∈ m, d.1 < e.1 := fun d hd =>
      (List.pairwise_append.mp h).2.2 d hd e List.mem_cons_self
    rw [List.foldl_cons, set_of_forall_lt hlt, ih (by simpa using h)]
    simp

theorem ofEntries_of_sorted {es : List (κ × ν)} (h : Sorted es) : ofEntries es = es :=
  foldl_set_of_sorted h

theorem mem_ofEntries {es : List (κ × ν)} {e : κ × ν} (h : e ∈ ofEntries es) : e ∈ es := by
  have hall : ∀ (es m : List (κ × ν)), e ∈ es.foldl (fun m e => set e.1 e.2 m) m →
      e ∈ m ∨ e ∈ es := by
    intro es
    induction es with
    | nil => exact fun m hm => Or.inl hm
    | cons d es ih =>
      intro m hm
      rcases ih _ hm with hset | hrest
      · rcases mem_set hset with rfl | hm
        · exact Or.inr List.mem_cons_self
        · exact Or.inl hm
      · exact Or.inr (List.mem_cons_of_mem d hrest)
  exact (hall es [] h).resolve_left List.not_mem_nil

theorem sorted_ofEntries (es : List (κ × ν)) : Sorted (ofEntries es) := by
  suffices h : ∀ m : List (κ × ν), Sorted m → Sorted (es.foldl (fun m e => set e.1 e.2 m) m) from
    h [] List.Pairwise.nil
  induction es with
  | nil => exact fun m hm => hm
  | cons e es ih => exact fun m hm => ih _ (sorted_set hm e.1 e.2)

theorem find_foldl_set {es m : List (κ × ν)} (hkey : k ∉ es.map Prod.fst) :
    find k (es.foldl (fun m e => set e.1 e.2 m) m) = find k m := by
  induction es generalizing m with
  | nil => rfl
  | cons e es ih =>
    rw [List.map_cons, List.mem_cons, not_or] at hkey
    rw [List.foldl_cons, ih hkey.2, find_set, if_neg hkey.1]

/-- A key set once keeps its value. -/
theorem find_ofEntries {es : List (κ × ν)} (hkeys : (es.map Prod.fst).Nodup) (h : (k, v) ∈ es) :
    find k (ofEntries es) = some v := by
  obtain ⟨pre, post, rfl⟩ := List.append_of_mem h
  have hpost : k ∉ post.map Prod.fst := by
    rw [List.map_append, List.map_cons] at hkeys
    exact (List.nodup_cons.mp (List.nodup_append.mp hkeys).2.1).1
  rw [ofEntries, List.foldl_append, List.foldl_cons, find_foldl_set hpost, find_set, if_pos rfl]

end SortedMap
