/-
SLDM.Lib.NestedMap — two-level association maps.

A `Nested κ₁ κ₂ ν` maps an outer key to a SLOT, and a slot maps an inner
key to a value. Both levels are Mathlib's `AList`, whose keys are
distinct by construction, so no theorem here carries a hypothesis about
duplicate keys.

The module gives the two-level map its flat reading:

* `find m a b` — the value under the key pair `(a, b)`;
* `cells m` — every key pair with its value, each pair once
  (`mem_cells`, `nodup_keys`);
* `size m` — the number of cells, with `size_insert_new` and
  `size_insert_old` for a slot that is written back with one more cell,
  or with a cell replaced;
* `retain p m` — the cells whose value passes `p`; emptied slots stay in
  the outer map. `size_retain` counts what is dropped.

Nothing in this module is about a particular program.
-/
import Mathlib.Data.List.AList
import Mathlib.Data.Finset.Card

namespace NestedMap

variable {κ κ₁ κ₂ ν : Type}

/-- A one-level map. -/
abbrev Slot (κ ν : Type) := AList fun _ : κ => ν

/-- A two-level map. -/
abbrev Nested (κ₁ κ₂ ν : Type) := AList fun _ : κ₁ => Slot κ₂ ν

/-! ## Keeping the values that pass a test -/

namespace Slot

/-- The entries whose value passes `p`. -/
def retain (p : ν → Bool) (s : Slot κ ν) : Slot κ ν where
  entries := s.entries.filter fun e => p e.2
  nodupKeys := s.nodupKeys.sublist List.filter_sublist

@[simp] theorem entries_retain (p : ν → Bool) (s : Slot κ ν) :
    (retain p s).entries = s.entries.filter fun e => p e.2 := rfl

theorem mem_entries [DecidableEq κ] {s : Slot κ ν} {k : κ} {v : ν} :
    ⟨k, v⟩ ∈ s.entries ↔ s.lookup k = some v :=
  (AList.mem_lookup_iff (s := s)).symm

theorem lookup_retain [DecidableEq κ] (p : ν → Bool) (s : Slot κ ν) (k : κ) :
    (retain p s).lookup k = (s.lookup k).filter p := by
  ext v
  rw [← mem_entries, entries_retain, List.mem_filter, mem_entries,
    Option.filter_eq_some_iff]

/-- The entries kept and the values dropped add up. -/
theorem length_retain (p : ν → Bool) (s : Slot κ ν) :
    (retain p s).entries.length + ((s.entries.map (·.2)).filter fun v => !p v).length
      = s.entries.length := by
  rw [entries_retain, List.filter_map, List.length_map]
  exact List.length_eq_length_filter_add (l := s.entries) _ |>.symm

end Slot

/-! ## Cells -/

/-- Every slot rewritten in place; the outer keys stay. -/
def mapSlots (f : Slot κ₂ ν → Slot κ₂ ν) (m : Nested κ₁ κ₂ ν) : Nested κ₁ κ₂ ν where
  entries := m.entries.map fun e => ⟨e.1, f e.2⟩
  nodupKeys := List.NodupKeys.map₂ (fun _ => f) m.entries m.nodupKeys

/-- The cells whose value passes `p`. An emptied slot is kept. -/
def retain (p : ν → Bool) (m : Nested κ₁ κ₂ ν) : Nested κ₁ κ₂ ν :=
  mapSlots (Slot.retain p) m

/-- Every key pair with its value. -/
def cells (m : Nested κ₁ κ₂ ν) : List ((κ₁ × κ₂) × ν) :=
  m.entries.flatMap fun e => e.2.entries.map fun f => ((e.1, f.1), f.2)

/-- The values of all cells, slot by slot. -/
def values (m : Nested κ₁ κ₂ ν) : List ν := (cells m).map Prod.snd

theorem values_eq (m : Nested κ₁ κ₂ ν) :
    values m = m.entries.flatMap fun e => e.2.entries.map fun f => f.2 := by
  simp [values, cells, List.map_flatMap, Function.comp_def]

/-- The number of cells. -/
def size (m : Nested κ₁ κ₂ ν) : ℕ := (cells m).length

/-- No key pair occurs twice among the cells. -/
theorem nodup_keys (m : Nested κ₁ κ₂ ν) : ((cells m).map Prod.fst).Nodup := by
  have hmap : (cells m).map Prod.fst
      = m.entries.flatMap fun e => e.2.entries.map fun f => (e.1, f.1) := by
    simp [cells, List.map_flatMap, Function.comp_def]
  rw [hmap, List.nodup_flatMap]
  constructor
  · intro e _
    have hinner : e.2.entries.map (fun f => (e.1, f.1)) = e.2.keys.map (Prod.mk e.1) := by
      simp [AList.keys, List.keys, Function.comp_def]
    rw [hinner]
    exact e.2.keys_nodup.map (Prod.mk_right_injective e.1)
  · refine (List.nodupKeys_iff_pairwise.mp m.nodupKeys).imp ?_
    intro e e' hne
    change List.Disjoint _ _
    rw [List.disjoint_left]
    intro x hx hx'
    obtain ⟨f, _, rfl⟩ := List.mem_map.mp hx
    obtain ⟨f', _, heq⟩ := List.mem_map.mp hx'
    exact hne (Prod.ext_iff.mp heq).1.symm

/-- Rewriting the slots changes the cells slot by slot. -/
theorem cells_retain (p : ν → Bool) (m : Nested κ₁ κ₂ ν) :
    cells (retain p m) = (cells m).filter fun c => p c.2 := by
  simp only [cells, retain, mapSlots, List.flatMap_map, List.filter_flatMap, List.filter_map,
    Slot.entries_retain]
  rfl

/-- The cells kept and the cells dropped add up. -/
theorem size_retain (p : ν → Bool) (m : Nested κ₁ κ₂ ν) :
    size (retain p m) + ((values m).filter fun v => !p v).length = size m := by
  rw [size, cells_retain, size, values, List.filter_map, List.length_map]
  exact List.length_eq_length_filter_add (l := cells m) _ |>.symm

/-! ## The flat reading -/

section Find

variable [DecidableEq κ₁] [DecidableEq κ₂]

/-- The value under a key pair. -/
def find (m : Nested κ₁ κ₂ ν) (a : κ₁) (b : κ₂) : Option ν :=
  (m.lookup a).bind fun s => s.lookup b

@[simp] theorem find_empty (a : κ₁) (b : κ₂) :
    find (∅ : Nested κ₁ κ₂ ν) a b = none := by
  simp [find]

theorem find_of_lookup {m : Nested κ₁ κ₂ ν} {a : κ₁} {s : Slot κ₂ ν}
    (h : m.lookup a = some s) (b : κ₂) : find m a b = s.lookup b := by
  simp [find, h]

theorem find_of_lookup_none {m : Nested κ₁ κ₂ ν} {a : κ₁}
    (h : m.lookup a = none) (b : κ₂) : find m a b = none := by
  simp [find, h]

theorem find_retain (p : ν → Bool) (m : Nested κ₁ κ₂ ν) (a : κ₁) (b : κ₂) :
    find (retain p m) a b = (find m a b).filter p := by
  have hl : (retain p m).lookup a = (m.lookup a).map (Slot.retain p) :=
    List.dlookup_map₂ (f := fun _ => Slot.retain p) a
  unfold find
  rw [hl]
  cases m.lookup a with
  | none => rfl
  | some s => exact Slot.lookup_retain p s b

theorem mem_cells {m : Nested κ₁ κ₂ ν} {a : κ₁} {b : κ₂} {v : ν} :
    ((a, b), v) ∈ cells m ↔ find m a b = some v := by
  simp only [cells, List.mem_flatMap, List.mem_map, find, Option.bind_eq_some_iff]
  constructor
  · intro hex
    obtain ⟨⟨a', s⟩, he, ⟨b', v'⟩, hf, heq⟩ := hex
    obtain ⟨⟨rfl, rfl⟩, rfl⟩ : (a' = a ∧ b' = b) ∧ v' = v := by simpa using heq
    exact ⟨s, Slot.mem_entries.mp he, Slot.mem_entries.mp hf⟩
  · intro hex
    obtain ⟨s, ha, hb⟩ := hex
    exact ⟨⟨a, s⟩, Slot.mem_entries.mpr ha, ⟨b, v⟩, Slot.mem_entries.mpr hb, rfl⟩

/-- The slot of an outer key, as `operator[]` gives it: empty if absent. -/
def slot (m : Nested κ₁ κ₂ ν) (a : κ₁) : Slot κ₂ ν := (m.lookup a).getD ∅

theorem find_eq_slot (m : Nested κ₁ κ₂ ν) (a : κ₁) (b : κ₂) :
    find m a b = (slot m a).lookup b := by
  unfold find slot
  cases m.lookup a with
  | none => simp
  | some s => rfl

/-- The flat reading of a whole slot written under an outer key. -/
theorem find_insert_slot (m : Nested κ₁ κ₂ ν) (a : κ₁) (s : Slot κ₂ ν) (a' : κ₁) (b' : κ₂) :
    find (m.insert a s) a' b' = if a' = a then s.lookup b' else find m a' b' := by
  by_cases ha : a' = a
  · subst ha
    rw [find_of_lookup (AList.lookup_insert m), if_pos rfl]
  · simp [find, AList.lookup_insert_ne ha, ha]

/-- The flat reading of a slot written back with one cell set. -/
theorem find_insert_cell {m : Nested κ₁ κ₂ ν} {a : κ₁} {s : Slot κ₂ ν}
    (hs : ∀ b, find m a b = s.lookup b) (b : κ₂) (v : ν) (a' : κ₁) (b' : κ₂) :
    find (m.insert a (s.insert b v)) a' b'
      = if (a', b') = (a, b) then some v else find m a' b' := by
  by_cases ha : a' = a
  · subst ha
    rw [find_of_lookup (AList.lookup_insert m), hs b']
    by_cases hb : b' = b
    · subst hb; simp
    · simp [AList.lookup_insert_ne hb, hb]
  · simp [find, AList.lookup_insert_ne ha, ha]

/-- Rewrite the value under a key pair, starting from `d` if there is none:
a compound assignment through two `operator[]`. -/
def modify (d : ν) (f : ν → ν) (m : Nested κ₁ κ₂ ν) (a : κ₁) (b : κ₂) : Nested κ₁ κ₂ ν :=
  m.insert a ((slot m a).insert b (f ((find m a b).getD d)))

theorem find_modify (d : ν) (f : ν → ν) (m : Nested κ₁ κ₂ ν) (a : κ₁) (b : κ₂)
    (a' : κ₁) (b' : κ₂) :
    find (modify d f m a b) a' b'
      = if (a', b') = (a, b) then some (f ((find m a b).getD d)) else find m a' b' :=
  find_insert_cell (fun b => find_eq_slot m a b) b _ a' b'

theorem find_modify_self (d : ν) (f : ν → ν) (m : Nested κ₁ κ₂ ν) (a : κ₁) (b : κ₂) :
    find (modify d f m a b) a b = some (f ((find m a b).getD d)) := by
  rw [find_modify, if_pos rfl]

theorem find_modify_ne (d : ν) (f : ν → ν) (m : Nested κ₁ κ₂ ν) {a : κ₁} {b : κ₂}
    {a' : κ₁} {b' : κ₂} (h : (a', b') ≠ (a, b)) :
    find (modify d f m a b) a' b' = find m a' b' := by
  rw [find_modify, if_neg h]

/-! ## Counting cells -/

/-- The key pairs in use. -/
def keySet (m : Nested κ₁ κ₂ ν) : Finset (κ₁ × κ₂) := ((cells m).map Prod.fst).toFinset

theorem mem_keySet {m : Nested κ₁ κ₂ ν} {k : κ₁ × κ₂} :
    k ∈ keySet m ↔ (find m k.1 k.2).isSome := by
  rw [keySet, List.mem_toFinset, List.mem_map, Option.isSome_iff_exists]
  constructor
  · intro hex
    obtain ⟨⟨⟨a, b⟩, v⟩, hmem, rfl⟩ := hex
    exact ⟨v, mem_cells.mp hmem⟩
  · intro hex
    obtain ⟨v, hv⟩ := hex
    exact ⟨(k, v), mem_cells.mpr hv, rfl⟩

theorem size_eq_card (m : Nested κ₁ κ₂ ν) : size m = (keySet m).card := by
  rw [keySet, List.toFinset_card_of_nodup (nodup_keys m), List.length_map, size]

theorem keySet_insert_cell {m : Nested κ₁ κ₂ ν} {a : κ₁} {s : Slot κ₂ ν}
    (hs : ∀ b, find m a b = s.lookup b) (b : κ₂) (v : ν) :
    keySet (m.insert a (s.insert b v)) = insert (a, b) (keySet m) := by
  ext ⟨a', b'⟩
  rw [Finset.mem_insert, mem_keySet, mem_keySet, find_insert_cell hs]
  by_cases h : (a', b') = (a, b) <;> simp [h]

/-- Writing a slot back with a new cell adds one cell. -/
theorem size_insert_new {m : Nested κ₁ κ₂ ν} {a : κ₁} {s : Slot κ₂ ν}
    (hs : ∀ b, find m a b = s.lookup b) {b : κ₂} (v : ν) (hb : find m a b = none) :
    size (m.insert a (s.insert b v)) = size m + 1 := by
  have hnot : (a, b) ∉ keySet m := by rw [mem_keySet]; simp [hb]
  rw [size_eq_card, keySet_insert_cell hs, Finset.card_insert_of_notMem hnot, size_eq_card]

/-- Writing a slot back with a cell replaced keeps the count. -/
theorem size_insert_old {m : Nested κ₁ κ₂ ν} {a : κ₁} {s : Slot κ₂ ν}
    (hs : ∀ b, find m a b = s.lookup b) {b : κ₂} (v : ν) {v' : ν}
    (hb : find m a b = some v') : size (m.insert a (s.insert b v)) = size m := by
  have hmem : (a, b) ∈ keySet m := by rw [mem_keySet]; simp [hb]
  rw [size_eq_card, keySet_insert_cell hs, Finset.insert_eq_of_mem hmem, size_eq_card]

/-- The cells under an outer key and the cells elsewhere. -/
theorem size_eq_add_slot (m : Nested κ₁ κ₂ ν) (a : κ₁) :
    size m = ((keySet m).filter fun k => k.1 ≠ a).card + (slot m a).entries.length := by
  have hslot : (slot m a).entries.length = ((keySet m).filter fun k => k.1 = a).card := by
    have hinj : Function.Injective (Prod.mk a : κ₂ → κ₁ × κ₂) := Prod.mk_right_injective a
    have himage : (keySet m).filter (fun k => k.1 = a)
        = ((slot m a).keys.toFinset).map ⟨Prod.mk a, hinj⟩ := by
      ext ⟨a', b⟩
      rw [Finset.mem_filter, mem_keySet, Finset.mem_map]
      constructor
      · intro hex
        obtain ⟨hb, rfl⟩ := hex
        rw [find_eq_slot, AList.lookup_isSome] at hb
        exact ⟨b, List.mem_toFinset.mpr hb, rfl⟩
      · intro hex
        obtain ⟨b', hb', heq⟩ := hex
        obtain ⟨rfl, rfl⟩ := Prod.ext_iff.mp heq
        refine ⟨?_, rfl⟩
        rw [find_eq_slot, AList.lookup_isSome]
        exact List.mem_toFinset.mp hb'
    rw [himage, Finset.card_map, List.toFinset_card_of_nodup (slot m a).keys_nodup, AList.keys,
      List.keys, List.length_map]
  have hsplit := Finset.card_filter_add_card_filter_not (s := keySet m) (fun k => k.1 = a)
  rw [size_eq_card, hslot, ← hsplit, Nat.add_comm]

/-- Writing a whole slot changes the count by what the slot gains. -/
theorem size_insert_slot (m : Nested κ₁ κ₂ ν) (a : κ₁) (s : Slot κ₂ ν) :
    size (m.insert a s) + (slot m a).entries.length = size m + s.entries.length := by
  have hrest : (keySet (m.insert a s)).filter (fun k => k.1 ≠ a)
      = (keySet m).filter fun k => k.1 ≠ a := by
    ext ⟨a', b⟩
    rw [Finset.mem_filter, Finset.mem_filter, mem_keySet, mem_keySet]
    refine and_congr_left fun hne => ?_
    rw [find_insert_slot, if_neg hne]
  have hslot : slot (m.insert a s) a = s := by rw [slot, AList.lookup_insert, Option.getD_some]
  rw [size_eq_add_slot (m.insert a s) a, hslot, hrest, size_eq_add_slot m a]
  omega

/-! ## Erasing a cell -/

/-- The flat reading of a slot written back without one of its keys. -/
theorem find_insert_erase (m : Nested κ₁ κ₂ ν) (a : κ₁) (b : κ₂) (a' : κ₁) (b' : κ₂) :
    find (m.insert a ((slot m a).erase b)) a' b'
      = if (a', b') = (a, b) then none else find m a' b' := by
  rw [find_insert_slot]
  by_cases ha : a' = a
  · subst ha
    by_cases hb : b' = b
    · subst hb; simp [AList.lookup_erase]
    · simp [AList.lookup_erase_ne hb, hb, find_eq_slot]
  · simp [ha]

theorem keySet_insert_erase (m : Nested κ₁ κ₂ ν) (a : κ₁) (b : κ₂) :
    keySet (m.insert a ((slot m a).erase b)) = (keySet m).erase (a, b) := by
  ext ⟨a', b'⟩
  rw [Finset.mem_erase, mem_keySet, mem_keySet, find_insert_erase]
  by_cases h : (a', b') = (a, b) <;> simp [h]

/-- Erasing a cell removes one cell. -/
theorem size_insert_erase {m : Nested κ₁ κ₂ ν} {a : κ₁} {b : κ₂} {v : ν}
    (h : find m a b = some v) : size (m.insert a ((slot m a).erase b)) + 1 = size m := by
  have hmem : (a, b) ∈ keySet m := by rw [mem_keySet]; simp [h]
  rw [size_eq_card, size_eq_card, keySet_insert_erase, Finset.card_erase_add_one hmem]

/-- Erasing a key that is not there removes nothing. -/
theorem size_insert_erase_absent {m : Nested κ₁ κ₂ ν} {a : κ₁} {b : κ₂}
    (h : find m a b = none) : size (m.insert a ((slot m a).erase b)) = size m := by
  have hnot : (a, b) ∉ keySet m := by rw [mem_keySet]; simp [h]
  rw [size_eq_card, size_eq_card, keySet_insert_erase, Finset.erase_eq_of_notMem hnot]

theorem size_modify_new (d : ν) (f : ν → ν) {m : Nested κ₁ κ₂ ν} {a : κ₁} {b : κ₂}
    (h : find m a b = none) : size (modify d f m a b) = size m + 1 :=
  size_insert_new (fun b => find_eq_slot m a b) _ h

theorem size_modify_old (d : ν) (f : ν → ν) {m : Nested κ₁ κ₂ ν} {a : κ₁} {b : κ₂} {v : ν}
    (h : find m a b = some v) : size (modify d f m a b) = size m :=
  size_insert_old (fun b => find_eq_slot m a b) _ h

end Find

end NestedMap
