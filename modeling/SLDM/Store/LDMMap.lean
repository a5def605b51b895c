/-
SLDM.Store.LDMMap — the database `LDMMap.cpp`, one operation at a time.

The database is a two-level map: the upper 16 bits of a station ID select
a lower map, the lower 16 bits an entry of it. Each operation below is the
C++ body with its locks left out, i.e. the operations run one after the
other; `SLDM.Store.ConcurrentInsert` splits them at their locks.

`m_ldmmap[k_up].second[k_low].field = x` goes through two `operator[]`,
which create what is missing, so it is `NestedMap.modify` from an entry
with a null `phData`. The history pointer is an `Option`; the histories
are values, and an entry owns its own.

The order in which an `unordered_map` is walked is unspecified; no theorem
depends on the one the lists below happen to have.

`printAllContents`, the central position of the visualizer and the lower
maps' mutex objects are left out.
-/
import SLDM.Lib.NestedMap
import SLDM.Store.PHpoints

namespace SLDM.Store

open NestedMap

/-! ## Records and keys -/

/-- `LDMMap_error_t`. -/
inductive LDMMapError where
  | ok
  | updated
  | itemNotFound
  | mapFull
  | unknownError
  deriving DecidableEq, Repr

/-- `returnedVehicleData_t`. -/
structure ReturnedVehicleData where
  vehData : VehicleData
  phData : Option PHpoints

/-- The entry `operator[]` creates for a key that is absent. -/
def ReturnedVehicleData.valueInit : ReturnedVehicleData := ⟨default, none⟩

/-- `LDMMap`: the two-level map and the cardinality kept by hand. -/
structure LDMMap where
  ldmmap : Nested UInt32 UInt32 ReturnedVehicleData
  card : UInt64

/-- `DEFINE_KEYS`, the upper key. -/
def keyUpper (stationID : UInt64) : UInt32 := ((stationID &&& 0xFFFF0000) >>> 16).toUInt32

/-- `DEFINE_KEYS`, the lower key. -/
def keyLower (stationID : UInt64) : UInt32 := (stationID &&& 0x0000FFFF).toUInt32

namespace LDMMap

/-- `LDMMap()`. -/
def new : LDMMap := ⟨∅, 0⟩

/-- The entry stored for a station. -/
def entry (m : LDMMap) (stationID : UInt64) : Option ReturnedVehicleData :=
  find m.ldmmap (keyUpper stationID) (keyLower stationID)

/-- `m_ldmmap[key_upper].second[key_lower]`, rewritten by `f`. -/
def modifyEntry (f : ReturnedVehicleData → ReturnedVehicleData)
    (map : Nested UInt32 UInt32 ReturnedVehicleData) (stationID : UInt64) :
    Nested UInt32 UInt32 ReturnedVehicleData :=
  modify ReturnedVehicleData.valueInit f map (keyUpper stationID) (keyLower stationID)

/-! ## Insertion, removal and lookup -/

/-- The lower map `insert` builds for an upper key that is absent. -/
def freshLowerMap (junk : Junk) (v : VehicleData) : Slot UInt32 ReturnedVehicleData :=
  (∅ : Slot UInt32 ReturnedVehicleData).insert (keyLower v.stationID)
    ⟨v, some (PHpoints.new junk)⟩

/-- `phData->insert(newVehicleData)`. Dereferencing the null pointer is
undefined in C++; here it changes nothing, and `Related.phData` shows that
it does not happen. -/
def appendHistory (haversineDist : Distance) (v : VehicleData) (e : ReturnedVehicleData) :
    ReturnedVehicleData :=
  { e with phData := e.phData.map fun p => (p.insert haversineDist v).2 }

/-- `LDMMap::insert`. `junk` is the memory of the history it may create. -/
def insert (haversineDist : Distance) (m : LDMMap) (v : VehicleData) (junk : Junk) :
    LDMMapError × LDMMap :=
  if m.card = 0xFFFFFFFFFFFFFFFF then (.mapFull, m)
  else
    let (retval, map, card) :=
      if (m.ldmmap.lookup (keyUpper v.stationID)).isNone then
        (LDMMapError.ok, m.ldmmap.insert (keyUpper v.stationID) (freshLowerMap junk v), m.card + 1)
      else if (m.entry v.stationID).isNone then
        let map := modifyEntry (fun e => { e with vehData := v }) m.ldmmap v.stationID
        let map := modifyEntry (fun e => { e with phData := some (PHpoints.new junk) }) map
          v.stationID
        (LDMMapError.ok, map, m.card + 1)
      else
        (LDMMapError.updated,
          modifyEntry (fun e => { e with vehData := v }) m.ldmmap v.stationID, m.card)
    (retval, ⟨modifyEntry (appendHistory haversineDist v) map v.stationID, card⟩)

/-- `LDMMap::remove`. The entry erased is the one under the whole station
ID (as a 32-bit key), not the one under `key_lower`. -/
def remove (m : LDMMap) (stationID : UInt64) : LDMMapError × LDMMap :=
  if (m.ldmmap.lookup (keyUpper stationID)).isNone then (.itemNotFound, m)
  else if (m.entry stationID).isNone then (.itemNotFound, m)
  else
    let lower := (slot m.ldmmap (keyUpper stationID)).erase stationID.toUInt32
    (.ok, ⟨m.ldmmap.insert (keyUpper stationID) lower, m.card - 1⟩)

/-- `LDMMap::lookup`: the return code and the record written, if any. -/
def lookup (m : LDMMap) (stationID : UInt64) : LDMMapError × Option ReturnedVehicleData :=
  if (m.ldmmap.lookup (keyUpper stationID)).isNone then (.itemNotFound, none)
  else
    match m.entry stationID with
    | none => (.itemNotFound, none)
    | some e => (.ok, some e)

/-! ## Range selection -/

/-- `rangeSelect` around a position. `selectedVehicles` is the vector
before the call. -/
def rangeSelect (haversineDist : Distance) (m : LDMMap) (rangeM lat lon : ℚ)
    (selectedVehicles : List ReturnedVehicleData) : LDMMapError × List ReturnedVehicleData :=
  let inRange := m.ldmmap.entries.flatMap fun val => val.2.entries.filterMap fun vall =>
    if haversineDist lat lon vall.2.vehData.lat vall.2.vehData.lon ≤ rangeM then some vall.2
    else none
  (.ok, selectedVehicles ++ inRange)

/-- `rangeSelect` around a stored vehicle. -/
def rangeSelectAround (haversineDist : Distance) (m : LDMMap) (rangeM : ℚ) (stationID : UInt64)
    (selectedVehicles : List ReturnedVehicleData) : LDMMapError × List ReturnedVehicleData :=
  match m.lookup stationID with
  | (.ok, some retData) =>
    m.rangeSelect haversineDist rangeM retData.vehData.lat retData.vehData.lon selectedVehicles
  | _ => (.itemNotFound, selectedVehicles)

/-! ## Deletion by age -/

/-- The test of both delete functions: the unsigned 64-bit difference, in
milliseconds, against the threshold. -/
def isOld (now : UInt64) (timeMilliseconds : ℚ) (e : ReturnedVehicleData) : Bool :=
  decide (((now - e.vehData.timestampUs).toNat : ℚ) / 1000 > timeMilliseconds)

section Sweep

variable {σ : Type} (old : ReturnedVehicleData → Bool) (operFcn : UInt64 → σ → σ)

/-- The loop over one lower map: an old entry is reported, erased and
counted down, any other one is stepped over. -/
def sweepEntries : List (Sigma fun _ : UInt32 => ReturnedVehicleData) → UInt64 × σ →
    List (Sigma fun _ : UInt32 => ReturnedVehicleData) × UInt64 × σ
  | [], acc => ([], acc)
  | mit :: rest, (card, args) =>
    if old mit.2 then sweepEntries rest (card - 1, operFcn mit.2.vehData.stationID args)
    else
      let (kept, acc) := sweepEntries rest (card, args)
      (mit :: kept, acc)

/-- What the loop keeps of a lower map are the entries that are not old. -/
theorem sweepEntries_kept : ∀ (l : List (Sigma fun _ : UInt32 => ReturnedVehicleData))
    (acc : UInt64 × σ), (sweepEntries old operFcn l acc).1 = l.filter fun e => !old e.2
  | [], _ => rfl
  | mit :: rest, (card, args) => by
      rw [sweepEntries]
      cases h : old mit.2 with
      | true =>
        rw [if_pos rfl, sweepEntries_kept rest, List.filter_cons_of_neg (by simp [h])]
      | false =>
        rw [if_neg (by simp), List.filter_cons_of_pos (by simp [h]),
          ← sweepEntries_kept rest (card, args)]

/-- The loop over one lower map, as a lower map. -/
def sweepSlot (s : Slot UInt32 ReturnedVehicleData) (acc : UInt64 × σ) :
    Slot UInt32 ReturnedVehicleData × UInt64 × σ :=
  (⟨(sweepEntries old operFcn s.entries acc).1, by
      rw [sweepEntries_kept]; exact s.nodupKeys.sublist List.filter_sublist⟩,
    (sweepEntries old operFcn s.entries acc).2)

/-- The loop over the lower maps, one after the other. -/
def sweepSlots : List (Sigma fun _ : UInt32 => Slot UInt32 ReturnedVehicleData) → UInt64 × σ →
    List (Sigma fun _ : UInt32 => Slot UInt32 ReturnedVehicleData) × UInt64 × σ
  | [], acc => ([], acc)
  | val :: rest, acc =>
    let (lower, acc) := sweepSlot old operFcn val.2 acc
    let (lowers, acc) := sweepSlots rest acc
    (⟨val.1, lower⟩ :: lowers, acc)

theorem sweepSlot_eq (s : Slot UInt32 ReturnedVehicleData) (acc : UInt64 × σ) :
    (sweepSlot old operFcn s acc).1 = Slot.retain (fun e => !old e) s := by
  ext1
  exact sweepEntries_kept old operFcn s.entries acc

theorem sweepSlots_eq : ∀ (l : List (Sigma fun _ : UInt32 => Slot UInt32 ReturnedVehicleData))
    (acc : UInt64 × σ), (sweepSlots old operFcn l acc).1 =
      l.map fun e => ⟨e.1, Slot.retain (fun e => !old e) e.2⟩
  | [], _ => rfl
  | val :: rest, acc => by
      rw [List.map_cons, ← sweepSlots_eq rest (sweepSlot old operFcn val.2 acc).2,
        ← sweepSlot_eq old operFcn val.2 acc]
      rfl

/-- The body the two delete functions share. -/
def sweep (m : LDMMap) (args : σ) : LDMMap × σ :=
  let swept := sweepSlots old operFcn m.ldmmap.entries (m.card, args)
  (⟨⟨swept.1, by
      rw [sweepSlots_eq]; exact (mapSlots (Slot.retain fun e => !old e) m.ldmmap).nodupKeys⟩,
    swept.2.1⟩, swept.2.2)

end Sweep

/-- `LDMMap::deleteOlderThan`; `now` is the clock read at its start. -/
def deleteOlderThan (m : LDMMap) (timeMilliseconds : ℚ) (now : UInt64) : LDMMap :=
  (m.sweep (isOld now timeMilliseconds) (fun _ args => args) ()).1

/-- `LDMMap::deleteOlderThanAndExecute`. `additionalArgs` is what the
callback's second argument points to. -/
def deleteOlderThanAndExecute {σ : Type} (m : LDMMap) (timeMilliseconds : ℚ) (now : UInt64)
    (operFcn : UInt64 → σ → σ) (additionalArgs : σ) : LDMMap × σ :=
  m.sweep (isOld now timeMilliseconds) operFcn additionalArgs

/-! ## Whole-database operations -/

/-- `LDMMap::executeOnAllContents`. -/
def executeOnAllContents {σ : Type} (m : LDMMap) (operFcn : VehicleData → σ → σ)
    (additionalArgs : σ) : σ :=
  m.ldmmap.entries.foldl (fun args val =>
    val.2.entries.foldl (fun args vall => operFcn vall.2.vehData args) args) additionalArgs

/-- `LDMMap::clear`. -/
def clear (_ : LDMMap) : LDMMap := ⟨∅, 0⟩

/-- `LDMMap::getCardinality`, an `int`. -/
def getCardinality (m : LDMMap) : Int32 := m.card.toInt64.toInt32

end LDMMap

end SLDM.Store
