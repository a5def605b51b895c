/-
SLDM.Store.Removal — sequences of operations that include `remove`.

`remove` looks the station up under its two keys and then erases the
whole station ID from the lower map, whose keys are the lower 16 bits.
Below 65536 the two are the same; from there on the erased key never
occurs, so the entry stays and only the cardinality goes down. The
abstract map of `SLDM.Store.Refinement` gets a removal of its own, and a
run refines it exactly as long as the stations removed have a zero upper
half (`LowHalf`).

`consistent_iff` is the result about runs: the answers of `remove`, the
frame, the cardinality and the absence of `LDMMAP_MAP_FULL`, against that
condition.
-/
import SLDM.Store.Refinement
import SLDM.Lib.Runs

namespace SLDM.Store

open NestedMap Runs

/-! ## Operations with removal -/

/-- The operations of the database, `remove` included. -/
inductive StoreOp where
  | other (op : Op)
  | remove (stationID : UInt64)

/-- The station ID the operation is given is below 2^32. -/
def StoreOp.IdBelow32 : StoreOp → Prop
  | .other op => op.IdBelow32
  | .remove stationID => stationID < 0x100000000

/-- An operation on a station ID below 2^32. -/
abbrev StoreOp32 := { op : StoreOp // op.IdBelow32 }

/-- One operation. -/
def LDMMap.perform (haversineDist : Distance) (m : LDMMap) : StoreOp → Answer × LDMMap
  | .other op => m.exec haversineDist op
  | .remove stationID =>
    let (retval, m) := m.remove stationID
    (.code retval, m)

/-- One operation, as a step. -/
def LDMMap.step (haversineDist : Distance) (m : LDMMap) (op : StoreOp32) : Option LDMMap :=
  some (m.perform haversineDist op.1).2

/-! ## The property and the condition -/

/-- The cardinality is the number of entries. -/
def Counts (m : LDMMap) : Prop := m.card.toNat = size m.ldmmap

/-- `remove` answers `LDMMAP_OK` exactly for a stored station, which is
then gone, and leaves every other station alone; `insert` does not answer
`LDMMAP_MAP_FULL`. -/
def Removes (haversineDist : Distance) (m : LDMMap) (op : StoreOp32) : Prop :=
  match op.1 with
  | .remove id =>
    ((m.remove id).1 = .ok ↔ ∃ e, m.lookup id = (.ok, some e)) ∧
      ((m.remove id).1 = .ok → (m.remove id).2.lookup id = (.itemNotFound, none)) ∧
      ∀ id', id' < 0x100000000 → id' ≠ id → (m.remove id).2.lookup id' = m.lookup id'
  | .other (.insert v junk) => (m.insert haversineDist v junk).1 ≠ .mapFull
  | .other _ => True

/-- A removal that finds its station is given an ID whose upper half is
zero. -/
def LowHalf (m : LDMMap) (op : StoreOp32) : Prop :=
  match op.1 with
  | .remove id => (m.entry id).isSome → id < 0x10000
  | .other _ => True

/-! ## What a removal does -/

namespace LDMMap

variable {m : LDMMap} {id : UInt64}

theorem remove_absent (h : m.entry id = none) : m.remove id = (.itemNotFound, m) := by
  unfold remove
  rw [h]
  split <;> rfl

theorem remove_present {e : ReturnedVehicleData} (h : m.entry id = some e) :
    m.remove id = (.ok, ⟨m.ldmmap.insert (keyUpper id)
      ((slot m.ldmmap (keyUpper id)).erase id.toUInt32), m.card - 1⟩) := by
  unfold remove
  cases hup : m.ldmmap.lookup (keyUpper id) with
  | none => rw [entry_eq_none_of_lookup hup] at h; cases h
  | some s => rw [h]; rfl

end LDMMap

/-- Below 65536 the key erased is the lower key. -/
theorem toUInt32_eq_keyLower {id : UInt64} (h : id < 0x10000) : id.toUInt32 = keyLower id := by
  have hlt : id.toNat < 65536 := UInt64.lt_iff_toNat_lt.mp h
  apply UInt32.toNat_inj.mp
  rw [keyLower_toNat, UInt64.toNat_toUInt32]
  omega

/-- From 65536 on it is the lower key of no station. -/
theorem toUInt32_ne_keyLower {id : UInt64} (h : ¬ id < 0x10000) (hid : id < 0x100000000)
    (id' : UInt64) : id.toUInt32 ≠ keyLower id' := by
  intro heq
  have hnat := congrArg UInt32.toNat heq
  have hlt : id.toNat < 4294967296 := UInt64.lt_iff_toNat_lt.mp hid
  have hge : ¬ id.toNat < 65536 := fun hh => h (UInt64.lt_iff_toNat_lt.mpr hh)
  rw [keyLower_toNat, UInt64.toNat_toUInt32] at hnat
  omega

/-- The map without a station. -/
def StationMap.remove (a : StationMap) (id : UInt64) : StationMap := Function.update a id none

section Simulation

variable {haversineDist : Distance} {m : LDMMap} {a : StationMap} {id : UInt64}

/-- The count of a database related to some map. -/
theorem Related.counts (h : Related haversineDist m a) : Counts m := by
  have hsize := h.size_le
  rw [Counts, h.card, UInt64.toNat_ofNat', Nat.mod_eq_of_lt (by omega)]

/-- Removing a stored station below 65536 removes it from the abstract map. -/
theorem Related.remove (h : Related haversineDist m a) {e : ReturnedVehicleData}
    (hentry : m.entry id = some e) (hid : id < 0x10000) :
    Related haversineDist (m.remove id).2 (a.remove id) := by
  rw [LDMMap.remove_present hentry, toUInt32_eq_keyLower hid]
  have hid32 : id < 0x100000000 := by
    rw [UInt64.lt_iff_toNat_lt] at hid ⊢
    exact Nat.lt_trans hid (by decide)
  have hfind := find_insert_erase m.ldmmap (keyUpper id) (keyLower id)
  refine ⟨fun id' hid' => ?_, fun id' r hr => ?_, fun id' r hr => ?_, fun ku kl e' he' => ?_, ?_⟩
  · rw [LDMMap.entry, hfind]
    by_cases heq : id' = id
    · subst heq; simp [StationMap.remove]
    · rw [if_neg fun hk => heq (keys_injective hid' hid32 hk), StationMap.remove,
        Function.update_of_ne heq]
      exact h.entry id' hid'
  · by_cases heq : id' = id
    · rw [heq]; exact hid32
    · rw [StationMap.remove, Function.update_of_ne heq] at hr
      exact h.below32 id' r hr
  · by_cases heq : id' = id
    · rw [heq, StationMap.remove, Function.update_self] at hr; cases hr
    · rw [StationMap.remove, Function.update_of_ne heq] at hr
      exact h.stationID id' r hr
  · rw [hfind] at he'
    split at he'
    · cases he'
    · exact h.cell ku kl e' he'
  · have hsize := size_insert_erase (show find m.ldmmap (keyUpper id) (keyLower id) = some e
      from hentry)
    rw [h.card, ← hsize, UInt64.ofNat_add]
    exact UInt64.add_sub_cancel _ _

/-- Removing a stored station from 65536 on counts an entry down that
stays. -/
theorem Related.not_counts_remove (h : Related haversineDist m a) {e : ReturnedVehicleData}
    (hentry : m.entry id = some e) (hid : id < 0x100000000) (hhigh : ¬ id < 0x10000) :
    ¬ Counts (m.remove id).2 := by
  have habsent : find m.ldmmap (keyUpper id) id.toUInt32 = none := by
    cases hfind : find m.ldmmap (keyUpper id) id.toUInt32 with
    | none => rfl
    | some e' =>
      obtain ⟨id', -, hkeys⟩ := h.cell _ _ e' hfind
      exact absurd (Prod.ext_iff.mp hkeys).2 (toUInt32_ne_keyLower hhigh hid id')
  have hsame := size_insert_erase_absent habsent
  have hpos := size_insert_erase (show find m.ldmmap (keyUpper id) (keyLower id) = some e
    from hentry)
  have hcounts := h.counts
  rw [LDMMap.remove_present hentry]
  simp only [Counts] at hcounts ⊢
  have hone : (1 : UInt64) ≤ m.card := by
    rw [UInt64.le_iff_toNat_le, hcounts, show (1 : UInt64).toNat = 1 from rfl]
    omega
  rw [hsame, UInt64.toNat_sub_of_le _ _ hone, hcounts, show (1 : UInt64).toNat = 1 from rfl]
  omega

end Simulation

/-! ## Steps -/

section Steps

variable {haversineDist : Distance} {m : LDMMap}

theorem step_shows (m : LDMMap) (op : StoreOp32) (m' : LDMMap) (h : Shows haversineDist m)
    (hlow : LowHalf m op) (hs : m.step haversineDist op = some m') : Shows haversineDist m' := by
  obtain ⟨a, ha⟩ := h
  obtain ⟨op, hid⟩ := op
  cases hs
  cases op with
  | other op =>
    obtain ⟨a', -, ha'⟩ := exec_related ha hid
    exact ⟨a', ha'⟩
  | remove id =>
    show Shows haversineDist (m.remove id).2
    cases hentry : m.entry id with
    | none => rw [LDMMap.remove_absent hentry]; exact ⟨a, ha⟩
    | some e => exact ⟨_, ha.remove hentry (hlow (by rw [hentry]; rfl))⟩

theorem step_not_counts (m : LDMMap) (op : StoreOp32) (h : Shows haversineDist m)
    (hlow : ¬ LowHalf m op) : ∃ m', m.step haversineDist op = some m' ∧ ¬ Counts m' := by
  obtain ⟨a, ha⟩ := h
  obtain ⟨op, hid⟩ := op
  refine ⟨_, rfl, ?_⟩
  cases op with
  | other op => exact absurd trivial hlow
  | remove id =>
    simp only [LowHalf] at hlow
    push Not at hlow
    obtain ⟨hsome, hhigh⟩ := hlow
    obtain ⟨e, hentry⟩ := Option.isSome_iff_exists.mp hsome
    exact ha.not_counts_remove hentry hid hhigh

theorem removes_of_lowHalf (m : LDMMap) (op : StoreOp32) (h : Shows haversineDist m)
    (hlow : LowHalf m op) : Removes haversineDist m op := by
  obtain ⟨a, ha⟩ := h
  obtain ⟨op, hid⟩ := op
  cases op with
  | other op =>
    cases op with
    | insert v junk =>
      show (m.insert haversineDist v junk).1 ≠ .mapFull
      rw [(ha.insert junk hid).1]
      split <;> simp
    | _ => exact trivial
  | remove id =>
    simp only [Removes, LDMMap.lookup_eq]
    cases hentry : m.entry id with
    | none => simp [LDMMap.remove_absent hentry]
    | some e =>
      have hrel := ha.remove hentry (hlow (by rw [hentry]; rfl))
      refine ⟨by simp [LDMMap.remove_present hentry], fun _ => ?_, fun id' hid' hne => ?_⟩
      · rw [hrel.entry id hid, StationMap.remove, Function.update_self]; rfl
      · rw [hrel.entry id' hid', StationMap.remove, Function.update_of_ne hne, ← ha.entry id' hid']

end Steps

/-! ## Runs -/

/-- Removal keeps the store consistent along a sequence of operations. -/
def Consistent (haversineDist : Distance) (ops : List StoreOp32) : Prop :=
  AllStates (LDMMap.step haversineDist) Counts LDMMap.new ops ∧
    AllSteps (LDMMap.step haversineDist) (Removes haversineDist) LDMMap.new ops

/-- As long as the cardinality is right, no removal was out of bounds. -/
theorem lowHalf_of_counts {haversineDist : Distance} {ops : List StoreOp32}
    (h : AllStates (LDMMap.step haversineDist) Counts LDMMap.new ops) :
    AllSteps (LDMMap.step haversineDist) LowHalf LDMMap.new ops :=
  allSteps_of_allStates step_shows step_not_counts (shows_new haversineDist) h

/-- Every sequence of operations on station IDs below 2^32 is consistent
exactly when each `remove` of a stored station is given an ID below
65536. -/
theorem consistent_iff (haversineDist : Distance) (ops : List StoreOp32) :
    Consistent haversineDist ops ↔
      AllSteps (LDMMap.step haversineDist) LowHalf LDMMap.new ops := by
  constructor
  · intro hcons
    exact lowHalf_of_counts hcons.1
  · intro hlow
    have hshows := allStates_of_allSteps step_shows (shows_new haversineDist) hlow
    refine ⟨hshows.mono fun m hm => ?_, fun pre op post m heq hrun => ?_⟩
    · obtain ⟨a, ha⟩ := hm
      exact ha.counts
    · exact removes_of_lowHalf m op (hshows pre (op :: post) m heq hrun)
        (hlow pre op post m heq hrun)

/-- Station 188321312 is inserted and removed. -/
def insertRemove : List StoreOp32 :=
  [⟨.other (.insert { (default : VehicleData) with stationID := 188321312 }
      ⟨0, fun _ => default⟩), by show (188321312 : UInt64) < 0x100000000; decide⟩,
   ⟨.remove 188321312, by show (188321312 : UInt64) < 0x100000000; decide⟩]

/-- `remove` answers `LDMMAP_OK`, and the station is still found. -/
theorem insertRemove_not_consistent : ¬ Consistent (fun _ _ _ _ => 0) insertRemove := by
  intro hcons
  have hlow := lowHalf_of_counts hcons.1
  have hbound := hlow [insertRemove[0]] insertRemove[1] [] _ rfl rfl (by decide +kernel)
  exact absurd hbound (by decide)

end SLDM.Store
