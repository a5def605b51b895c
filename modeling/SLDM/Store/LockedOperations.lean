/-
SLDM.Store.LockedOperations — the operations of `LDMMap` with their locks.

Every operation is a program over the database that takes and releases
`m_mainmapmut` and the mutex of a lower map where the C++ function does,
and accesses the database in between and, as `insert`, `remove` and
`lookup` do with their existence checks, outside. The mutex of a lower map
is the object that the pointer stored with the lower map leads to when it
is taken; an `insert` that creates the lower map makes a new object. A
visit of a lower map under its mutex is one access. A callback does not
call the database and is observed through the list of its calls.

The locks do not keep two calls of `insert` apart: one of them writes under
`m_mainmapmut` what the other writes under the mutex of the lower map. What
they do is `locked_run`, about any number of threads that make any calls at
the same time. `alone_prog` says that a program alone does what the
operation of `SLDM.Store.LDMMap` does.

`clear` deletes the mutexes; it is left to the destructor, which runs when
no other thread is left, and is no call of a thread here.
-/
import SLDM.Lib.Locking
import SLDM.Store.CollectionCallback
import SLDM.Store.Removal

namespace SLDM.Store

open NestedMap Locking Runs

/-! ## The programs -/

/-- The mutexes: that of the database, and the objects made for the lower
maps. -/
inductive Mutex where
  | mainmap
  | lower (object : ℕ)
  deriving DecidableEq, Repr

/-- The database and the mutex objects of its lower maps. -/
structure LockedDb where
  db : LDMMap
  /-- The object that the pointer stored under a key leads to. -/
  mutexOf : UInt32 → ℕ
  /-- How many objects have been made. -/
  made : ℕ

/-- A program over the database. -/
abbrev DbProg := Prog LockedDb Mutex

/-- `m_mainmapmut` is taken before the mutex of a lower map, and guards
which object that is. -/
def lockDiscipline : Prog.Discipline LockedDb Mutex (Option (UInt32 → ℕ)) where
  rank
    | .mainmap => 0
    | .lower _ => 1
  guarded
    | .mainmap, s => some s.mutexOf
    | .lower _, _ => none

section Accesses

variable {α : Type}

/-- Look at the database. -/
def readDb (f : LDMMap → α) : DbProg α := Prog.read fun s => f s.db

/-- Change the database and keep something of it. -/
def modifyGetDb (f : LDMMap → α × LDMMap) : DbProg α :=
  Prog.modifyGet fun s => ((f s.db).1, { s with db := (f s.db).2 })

/-- Change the database. -/
def modifyDb (f : LDMMap → LDMMap) : DbProg Unit := Prog.modify fun s => { s with db := f s.db }

/-- `m_ldmmap[key].first`. -/
def mutexUnder (key : UInt32) : DbProg ℕ := Prog.read fun s => s.mutexOf key

/-- `new std::shared_mutex()`. -/
def newMutex : DbProg ℕ := Prog.modifyGet fun s => (s.made, { s with made := s.made + 1 })

end Accesses

namespace LDMMap

/-- The lower map under a key, replaced in place. -/
def setSlot (map : Nested UInt32 UInt32 ReturnedVehicleData) (key : UInt32)
    (lower : Slot UInt32 ReturnedVehicleData) : Nested UInt32 UInt32 ReturnedVehicleData where
  entries := map.entries.map fun val => if val.1 = key then ⟨val.1, lower⟩ else val
  nodupKeys := by
    have hkeys : (map.entries.map fun val =>
        if val.1 = key then ⟨val.1, lower⟩ else val).keys = map.entries.keys := by
      unfold List.keys
      rw [List.map_map]
      refine List.map_congr_left fun val _ => ?_
      by_cases h : val.1 = key <;> simp [h]
    rw [List.NodupKeys, hkeys]
    exact map.nodupKeys

/-- `m_ldmmap[key_upper].second[key_lower]`, which creates the entry when
it is gone. -/
def entryOrNew (stationID : UInt64) (m : LDMMap) : ReturnedVehicleData × LDMMap :=
  match m.entry stationID with
  | some e => (e, m)
  | none => (.valueInit, ⟨modifyEntry id m.ldmmap stationID, m.card⟩)

/-- The loop of a delete function over the lower map under a key. -/
def sweepLower (timeMilliseconds : ℚ) (now : UInt64) (key : UInt32) (deleted : List UInt64)
    (m : LDMMap) : List UInt64 × LDMMap :=
  let (kept, card, deleted) := sweepSlot (isOld now timeMilliseconds)
    (fun id deleted => deleted ++ [id]) (slot m.ldmmap key) (m.card, deleted)
  (deleted, ⟨setSlot m.ldmmap key kept, card⟩)

/-- A loop over the lower maps: each is visited under its mutex, all of
them under `m_mainmapmut`. -/
def forLowers {α : Type} (mode : Mode) (visit : α → UInt32 → DbProg α) (a : α) : DbProg α := do
  Prog.lock .mainmap .shared
  let keys ← readDb fun m => m.ldmmap.keys
  let a ← keys.foldlM (fun a key => do
    let mutex ← mutexUnder key
    Prog.lock (.lower mutex) mode
    let a ← visit a key
    Prog.unlock (.lower mutex)
    return a) a
  Prog.unlock .mainmap
  return a

section Programs

variable (haversineDist : Distance)

/-- The append to the path history at the end of `insert`. -/
def appendProg (v : VehicleData) : DbProg Unit :=
  modifyDb fun m => ⟨modifyEntry (appendHistory haversineDist v) m.ldmmap v.stationID, m.card⟩

/-- The slot that `insert` writes for a new lower map: its entry, and the
pointer to its mutex. -/
def writeSlot (v : VehicleData) (junk : Junk) (mapmutexptr : ℕ) : DbProg Unit :=
  Prog.modify fun s => { s with
    db := ⟨s.db.ldmmap.insert (keyUpper v.stationID) (freshLowerMap junk v), s.db.card⟩
    mutexOf := Function.update s.mutexOf (keyUpper v.stationID) mapmutexptr }

/-- `insert`. -/
def insertProg (v : VehicleData) (junk : Junk) : DbProg LDMMapError := do
  if ← readDb fun m => decide (m.card = 0xFFFFFFFFFFFFFFFF) then
    return .mapFull
  else if ← readDb fun m => (m.ldmmap.lookup (keyUpper v.stationID)).isNone then
    let mapmutexptr ← newMutex
    Prog.lock .mainmap .exclusive
    writeSlot v junk mapmutexptr
    modifyDb fun m => ⟨m.ldmmap, m.card + 1⟩
    Prog.unlock .mainmap
    appendProg haversineDist v
    return .ok
  else
    if ← readDb fun m => (m.entry v.stationID).isNone then
      modifyDb fun m => ⟨m.ldmmap, m.card + 1⟩
      let mutex ← mutexUnder (keyUpper v.stationID)
      Prog.lock (.lower mutex) .exclusive
      modifyDb fun m =>
        ⟨modifyEntry (fun e => { e with vehData := v }) m.ldmmap v.stationID, m.card⟩
      modifyDb fun m =>
        ⟨modifyEntry (fun e => { e with phData := some (PHpoints.new junk) }) m.ldmmap
          v.stationID, m.card⟩
      Prog.unlock (.lower mutex)
      appendProg haversineDist v
      return .ok
    else
      let mutex ← mutexUnder (keyUpper v.stationID)
      Prog.lock (.lower mutex) .exclusive
      modifyDb fun m =>
        ⟨modifyEntry (fun e => { e with vehData := v }) m.ldmmap v.stationID, m.card⟩
      Prog.unlock (.lower mutex)
      appendProg haversineDist v
      return .updated

/-- `remove`. -/
def removeProg (stationID : UInt64) : DbProg LDMMapError := do
  Prog.lock .mainmap .shared
  if ← readDb fun m => (m.ldmmap.lookup (keyUpper stationID)).isNone then
    Prog.unlock .mainmap
    return .itemNotFound
  else if ← readDb fun m => (m.entry stationID).isNone then
    Prog.unlock .mainmap
    return .itemNotFound
  else
    let mutex ← mutexUnder (keyUpper stationID)
    Prog.lock (.lower mutex) .exclusive
    modifyDb fun m =>
      ⟨m.ldmmap.insert (keyUpper stationID)
        ((slot m.ldmmap (keyUpper stationID)).erase stationID.toUInt32), m.card⟩
    modifyDb fun m => ⟨m.ldmmap, m.card - 1⟩
    Prog.unlock (.lower mutex)
    Prog.unlock .mainmap
    return .ok

/-- `lookup`. -/
def lookupProg (stationID : UInt64) : DbProg (LDMMapError × Option ReturnedVehicleData) := do
  Prog.lock .mainmap .shared
  if ← readDb fun m => (m.ldmmap.lookup (keyUpper stationID)).isNone then
    Prog.unlock .mainmap
    return (.itemNotFound, none)
  else if ← readDb fun m => (m.entry stationID).isNone then
    Prog.unlock .mainmap
    return (.itemNotFound, none)
  else
    let mutex ← mutexUnder (keyUpper stationID)
    Prog.lock (.lower mutex) .shared
    let retVehicleData ← modifyGetDb (entryOrNew stationID)
    Prog.unlock (.lower mutex)
    Prog.unlock .mainmap
    return (.ok, some retVehicleData)

/-- `rangeSelect` around a position. -/
def rangeSelectProg (rangeM lat lon : ℚ) (selectedVehicles : List ReturnedVehicleData) :
    DbProg (LDMMapError × List ReturnedVehicleData) := do
  let selectedVehicles ← forLowers .shared (fun selectedVehicles key =>
    readDb fun m => selectedVehicles ++ (slot m.ldmmap key).entries.filterMap fun vall =>
      if haversineDist lat lon vall.2.vehData.lat vall.2.vehData.lon ≤ rangeM then some vall.2
      else none) selectedVehicles
  return (.ok, selectedVehicles)

/-- `rangeSelect` around a stored vehicle. -/
def rangeSelectAroundProg (rangeM : ℚ) (stationID : UInt64)
    (selectedVehicles : List ReturnedVehicleData) :
    DbProg (LDMMapError × List ReturnedVehicleData) := do
  match ← lookupProg stationID with
  | (.ok, some retData) =>
    rangeSelectProg haversineDist rangeM retData.vehData.lat retData.vehData.lon selectedVehicles
  | _ => return (.itemNotFound, selectedVehicles)

/-- `deleteOlderThan` and `deleteOlderThanAndExecute`. -/
def deleteProg (timeMilliseconds : ℚ) (now : UInt64) : DbProg (List UInt64) :=
  forLowers .exclusive (fun deleted key =>
    modifyGetDb (sweepLower timeMilliseconds now key deleted)) []

/-- `executeOnAllContents`. -/
def executeProg : DbProg (List VehicleData) :=
  forLowers .shared (fun visited key => readDb fun m =>
    (slot m.ldmmap key).entries.foldl (fun visited vall => visited ++ [vall.2.vehData]) visited) []

end Programs

end LDMMap

/-- The program of an operation. -/
def StoreOp.prog (haversineDist : Distance) : StoreOp → DbProg Answer
  | .other (.insert v junk) => do return .code (← LDMMap.insertProg haversineDist v junk)
  | .other (.lookup stationID) => do
    let (retval, e) ← LDMMap.lookupProg stationID
    return .record retval e
  | .other (.rangeSelect rangeM lat lon sel) => do
    let (retval, sel) ← LDMMap.rangeSelectProg haversineDist rangeM lat lon sel
    return .vector retval sel
  | .other (.rangeSelectAround rangeM stationID sel) => do
    let (retval, sel) ← LDMMap.rangeSelectAroundProg haversineDist rangeM stationID sel
    return .vector retval sel
  | .other (.deleteOlderThan time now) => do
    let _ ← LDMMap.deleteProg time now
    return .nothing
  | .other (.deleteOlderThanAndExecute time now) => do
    return .deleted (← LDMMap.deleteProg time now)
  | .other .executeOnAllContents => do return .visited (← LDMMap.executeProg)
  | .other .clear => do
    Prog.lock .mainmap .shared
    modifyDb LDMMap.clear
    Prog.unlock .mainmap
    return .nothing
  | .remove stationID => do return .code (← LDMMap.removeProg stationID)

/-! ## The discipline -/

section Follows

open Prog

variable (haversineDist : Distance) {held : List (Mutex × Mode)} {α : Type}

theorem follows_readDb (f : LDMMap → α) : Follows lockDiscipline held (readDb f) held :=
  follows_read _

/-- What changes the database alone leaves the mutexes as they are. -/
theorem follows_modifyDb (f : LDMMap → LDMMap) : Follows lockDiscipline held (modifyDb f) held :=
  follows_modify fun l _ _ => by cases l <;> rfl

theorem follows_modifyGetDb (f : LDMMap → α × LDMMap) :
    Follows lockDiscipline held (modifyGetDb f) held :=
  follows_modifyGet fun l _ _ => by cases l <;> rfl

theorem follows_newMutex : Follows lockDiscipline held newMutex held :=
  follows_modifyGet fun l _ _ => by cases l <;> rfl

theorem follows_mutexUnder (key : UInt32) : Follows lockDiscipline held (mutexUnder key) held :=
  follows_read _

theorem follows_mainmap (mode : Mode) :
    Follows lockDiscipline [] (lock .mainmap mode : DbProg Unit) [(.mainmap, mode)] :=
  follows_lock mode fun _ h => by cases h

theorem follows_unlock_mainmap (mode : Mode) :
    Follows lockDiscipline [(.mainmap, mode)] (unlock .mainmap : DbProg Unit) [] :=
  follows_unlock fun _ h => by cases h

/-- The mutex of a lower map alone. -/
theorem follows_lower (mutex : ℕ) (mode : Mode) :
    Follows lockDiscipline [] (lock (.lower mutex) mode : DbProg Unit) [(.lower mutex, mode)] :=
  follows_lock mode fun _ h => by cases h

theorem follows_unlock_lower (mutex : ℕ) (mode : Mode) :
    Follows lockDiscipline [(.lower mutex, mode)] (unlock (.lower mutex) : DbProg Unit) [] :=
  follows_unlock fun _ h => by cases h

/-- The mutex of a lower map under `m_mainmapmut`. -/
theorem follows_lower_under (mutex : ℕ) (mode main : Mode) :
    Follows lockDiscipline [(.mainmap, main)] (lock (.lower mutex) mode : DbProg Unit)
      [(.lower mutex, mode), (.mainmap, main)] :=
  follows_lock mode fun k hk => by rw [List.mem_singleton.mp hk]; exact Nat.zero_lt_one

theorem follows_unlock_lower_under (mutex : ℕ) (mode main : Mode) :
    Follows lockDiscipline [(.lower mutex, mode), (.mainmap, main)]
      (unlock (.lower mutex) : DbProg Unit) [(.mainmap, main)] :=
  follows_unlock fun k hk => by rw [List.mem_singleton.mp hk]; exact Nat.zero_lt_one

namespace LDMMap

/-- A new lower map and its mutex are written under `m_mainmapmut`. -/
theorem follows_writeSlot (v : VehicleData) (junk : Junk) (mapmutexptr : ℕ) :
    Follows lockDiscipline [(.mainmap, .exclusive)] (writeSlot v junk mapmutexptr)
      [(.mainmap, .exclusive)] := by
  refine follows_modify fun l hl s => ?_
  cases l with
  | mainmap => exact absurd List.mem_cons_self hl
  | lower mutex => rfl

theorem follows_forLowers (mode : Mode) {visit : α → UInt32 → DbProg α}
    (h : ∀ a key held, Follows lockDiscipline held (visit a key) held) (a : α) :
    Follows lockDiscipline [] (forLowers mode visit a) [] := by
  refine follows_bind (follows_mainmap .shared) fun _ => ?_
  refine follows_bind (follows_readDb _) fun keys => ?_
  refine follows_bind (follows_foldlM (fun a key => ?_) keys a) fun a => ?_
  · refine follows_bind (follows_mutexUnder key) fun mutex => ?_
    refine follows_bind (follows_lower_under mutex mode .shared) fun _ => ?_
    refine follows_bind (h a key _) fun a => ?_
    exact follows_bind (follows_unlock_lower_under mutex mode .shared) fun _ => follows_pure a
  · exact follows_bind (follows_unlock_mainmap .shared) fun _ => follows_pure a

theorem follows_insertProg (v : VehicleData) (junk : Junk) :
    Follows lockDiscipline [] (insertProg haversineDist v junk) [] := by
  have happend (retval : LDMMapError) : Follows lockDiscipline []
      (appendProg haversineDist v >>= fun _ => pure retval) [] :=
    follows_bind (follows_modifyDb _) fun _ => follows_pure retval
  have hmutex : Follows lockDiscipline [] (mutexUnder (keyUpper v.stationID)) [] :=
    follows_mutexUnder _
  have hlower (mutex : ℕ) := follows_lower mutex .exclusive
  have hunlock (mutex : ℕ) := follows_unlock_lower mutex .exclusive
  refine follows_bind (follows_readDb _) fun full => follows_ite (follows_pure _) ?_
  refine follows_bind (follows_readDb _) fun noUpper => follows_ite ?_ ?_
  · refine follows_bind follows_newMutex fun mapmutexptr => ?_
    refine follows_bind (follows_mainmap .exclusive) fun _ => ?_
    refine follows_bind (follows_writeSlot v junk mapmutexptr) fun _ => ?_
    refine follows_bind (follows_modifyDb _) fun _ => ?_
    exact follows_bind (follows_unlock_mainmap .exclusive) fun _ => happend .ok
  refine follows_bind (follows_readDb _) fun noLower => follows_ite ?_ ?_
  · refine follows_bind (follows_modifyDb _) fun _ => follows_bind hmutex fun mutex => ?_
    refine follows_bind (hlower mutex) fun _ => follows_bind (follows_modifyDb _) fun _ => ?_
    refine follows_bind (follows_modifyDb _) fun _ => ?_
    exact follows_bind (hunlock mutex) fun _ => happend .ok
  · refine follows_bind hmutex fun mutex => follows_bind (hlower mutex) fun _ => ?_
    refine follows_bind (follows_modifyDb _) fun _ => ?_
    exact follows_bind (hunlock mutex) fun _ => happend .updated

theorem follows_removeProg (stationID : UInt64) :
    Follows lockDiscipline [] (removeProg stationID) [] := by
  have hnotFound : Follows lockDiscipline [(.mainmap, .shared)]
      ((unlock .mainmap : DbProg Unit) >>= fun _ => pure LDMMapError.itemNotFound) [] :=
    follows_bind (follows_unlock_mainmap .shared) fun _ => follows_pure _
  refine follows_bind (follows_mainmap .shared) fun _ => ?_
  refine follows_bind (follows_readDb _) fun noUpper => follows_ite hnotFound ?_
  refine follows_bind (follows_readDb _) fun noLower => follows_ite hnotFound ?_
  refine follows_bind (follows_mutexUnder _) fun mutex => ?_
  refine follows_bind (follows_lower_under mutex .exclusive .shared) fun _ => ?_
  refine follows_bind (follows_modifyDb _) fun _ => ?_
  refine follows_bind (follows_modifyDb _) fun _ => ?_
  refine follows_bind (follows_unlock_lower_under mutex .exclusive .shared) fun _ => ?_
  exact follows_bind (follows_unlock_mainmap .shared) fun _ => follows_pure _

theorem follows_lookupProg (stationID : UInt64) :
    Follows lockDiscipline [] (lookupProg stationID) [] := by
  have hnotFound : Follows lockDiscipline [(.mainmap, .shared)]
      ((unlock .mainmap : DbProg Unit) >>= fun _ =>
        pure (LDMMapError.itemNotFound, (none : Option ReturnedVehicleData))) [] :=
    follows_bind (follows_unlock_mainmap .shared) fun _ => follows_pure _
  refine follows_bind (follows_mainmap .shared) fun _ => ?_
  refine follows_bind (follows_readDb _) fun noUpper => follows_ite hnotFound ?_
  refine follows_bind (follows_readDb _) fun noLower => follows_ite hnotFound ?_
  refine follows_bind (follows_mutexUnder _) fun mutex => ?_
  refine follows_bind (follows_lower_under mutex .shared .shared) fun _ => ?_
  refine follows_bind (follows_modifyGetDb _) fun e => ?_
  refine follows_bind (follows_unlock_lower_under mutex .shared .shared) fun _ => ?_
  exact follows_bind (follows_unlock_mainmap .shared) fun _ => follows_pure _

theorem follows_rangeSelectProg (rangeM lat lon : ℚ) (sel : List ReturnedVehicleData) :
    Follows lockDiscipline [] (rangeSelectProg haversineDist rangeM lat lon sel) [] :=
  follows_bind (follows_forLowers .shared (fun _ _ _ => follows_readDb _) sel) fun _ =>
    follows_pure _

theorem follows_rangeSelectAroundProg (rangeM : ℚ) (stationID : UInt64)
    (sel : List ReturnedVehicleData) :
    Follows lockDiscipline [] (rangeSelectAroundProg haversineDist rangeM stationID sel) [] := by
  refine follows_bind (follows_lookupProg stationID) fun found => ?_
  split
  · exact follows_rangeSelectProg haversineDist _ _ _ _
  · exact follows_pure _

theorem follows_deleteProg (time : ℚ) (now : UInt64) :
    Follows lockDiscipline [] (deleteProg time now) [] :=
  follows_forLowers .exclusive (fun _ _ _ => follows_modifyGetDb _) []

theorem follows_executeProg : Follows lockDiscipline [] executeProg [] :=
  follows_forLowers .shared (fun _ _ _ => follows_readDb _) []

end LDMMap

/-- Every operation takes the mutexes in their order and gives back all of
them. -/
theorem follows_prog (op : StoreOp) : Follows lockDiscipline [] (op.prog haversineDist) [] := by
  cases op with
  | remove stationID =>
    exact follows_bind (LDMMap.follows_removeProg stationID) fun _ => follows_pure _
  | other op =>
    cases op with
    | insert v junk =>
      exact follows_bind (LDMMap.follows_insertProg haversineDist v junk) fun _ => follows_pure _
    | lookup stationID =>
      exact follows_bind (LDMMap.follows_lookupProg stationID) fun _ => follows_pure _
    | rangeSelect rangeM lat lon sel =>
      exact follows_bind (LDMMap.follows_rangeSelectProg haversineDist rangeM lat lon sel)
        fun _ => follows_pure _
    | rangeSelectAround rangeM stationID sel =>
      exact follows_bind (LDMMap.follows_rangeSelectAroundProg haversineDist rangeM stationID sel)
        fun _ => follows_pure _
    | deleteOlderThan time now =>
      exact follows_bind (LDMMap.follows_deleteProg time now) fun _ => follows_pure _
    | deleteOlderThanAndExecute time now =>
      exact follows_bind (LDMMap.follows_deleteProg time now) fun _ => follows_pure _
    | executeOnAllContents =>
      exact follows_bind LDMMap.follows_executeProg fun _ => follows_pure _
    | clear =>
      refine follows_bind (follows_mainmap .shared) fun _ => ?_
      refine follows_bind (follows_modifyDb _) fun _ => ?_
      exact follows_bind (follows_unlock_mainmap .shared) fun _ => follows_pure _

end Follows

/-! ## A program alone -/

section Alone

open Prog

variable (haversineDist : Distance)

/-- The lower map under a key of the database. -/
theorem slot_of_mem_entries {map : Nested UInt32 UInt32 ReturnedVehicleData}
    {val : Sigma fun _ : UInt32 => Slot UInt32 ReturnedVehicleData} (h : val ∈ map.entries) :
    slot map val.1 = val.2 := by
  rw [slot, AList.mem_lookup_iff.mpr h, Option.getD_some]

/-- A loop over the keys, looking up each lower map, is a loop over the
lower maps. -/
theorem foldl_keys {α : Type} (map : Nested UInt32 UInt32 ReturnedVehicleData)
    (g : α → Slot UInt32 ReturnedVehicleData → α) (a : α) :
    map.keys.foldl (fun a key => g a (slot map key)) a =
      map.entries.foldl (fun a val => g a val.2) a := by
  rw [AList.keys, List.keys, List.foldl_map]
  refine List.foldl_ext _ _ _ fun a val hval => ?_
  rw [slot_of_mem_entries hval]

@[simp] theorem alone_readDb {α : Type} (f : LDMMap → α) (s : LockedDb) :
    (readDb f).alone s = (f s.db, s) := rfl

@[simp] theorem alone_modifyDb (f : LDMMap → LDMMap) (s : LockedDb) :
    (modifyDb f).alone s = ((), { s with db := f s.db }) := rfl

@[simp] theorem alone_modifyGetDb {α : Type} (f : LDMMap → α × LDMMap) (s : LockedDb) :
    (modifyGetDb f).alone s = ((f s.db).1, { s with db := (f s.db).2 }) := rfl

@[simp] theorem alone_mutexUnder (key : UInt32) (s : LockedDb) :
    (mutexUnder key).alone s = (s.mutexOf key, s) := rfl

@[simp] theorem alone_newMutex (s : LockedDb) :
    newMutex.alone s = (s.made, { s with made := s.made + 1 }) := rfl

namespace LDMMap

@[simp] theorem alone_writeSlot (v : VehicleData) (junk : Junk) (mapmutexptr : ℕ) (s : LockedDb) :
    (writeSlot v junk mapmutexptr).alone s = ((), { s with
      db := ⟨s.db.ldmmap.insert (keyUpper v.stationID) (freshLowerMap junk v), s.db.card⟩
      mutexOf := Function.update s.mutexOf (keyUpper v.stationID) mapmutexptr }) := rfl

theorem alone_forLowers {α : Type} (mode : Mode) (visit : α → UInt32 → DbProg α) (a : α)
    (s : LockedDb) : (forLowers mode visit a).alone s =
      s.db.ldmmap.keys.foldl (fun x key => (visit x.1 key).alone x.2) (a, s) := by
  simp [forLowers, alone_foldlM]

/-- A loop that only reads leaves the database as it is. -/
theorem alone_forLowers_read {α : Type} (mode : Mode)
    (g : α → Slot UInt32 ReturnedVehicleData → α) (a : α) (s : LockedDb) :
    (forLowers mode (fun a key => readDb fun m => g a (slot m.ldmmap key)) a).alone s =
      (s.db.ldmmap.entries.foldl (fun a val => g a val.2) a, s) := by
  have hfold (keys : List UInt32) (a : α) : keys.foldl (fun x key =>
      (readDb fun m => g x.1 (slot m.ldmmap key)).alone x.2) (a, s) =
        (keys.foldl (fun a key => g a (slot s.db.ldmmap key)) a, s) := by
    induction keys generalizing a with
    | nil => rfl
    | cons key keys ih => exact ih (g a (slot s.db.ldmmap key))
  rw [alone_forLowers, hfold, foldl_keys]

/-- A loop that changes the database alone does so one lower map after the
other. -/
theorem alone_forLowers_modify {α : Type} (mode : Mode) (g : UInt32 → α → LDMMap → α × LDMMap)
    (a : α) (s : LockedDb) :
    (forLowers mode (fun a key => modifyGetDb (g key a)) a).alone s =
      let x := s.db.ldmmap.keys.foldl (fun x key => g key x.1 x.2) (a, s.db)
      (x.1, { s with db := x.2 }) := by
  have hfold (keys : List UInt32) (a : α) (s : LockedDb) :
      keys.foldl (fun x key => (modifyGetDb (g key x.1)).alone x.2) (a, s) =
        let x := keys.foldl (fun x key => g key x.1 x.2) (a, s.db)
        (x.1, { s with db := x.2 }) := by
    induction keys generalizing a s with
    | nil => rfl
    | cons key keys ih => exact ih (g key a s.db).1 { s with db := (g key a s.db).2 }
  rw [alone_forLowers, hfold]

theorem alone_insertProg (v : VehicleData) (junk : Junk) (s : LockedDb) :
    Prod.map id LockedDb.db ((insertProg haversineDist v junk).alone s) =
      s.db.insert haversineDist v junk := by
  unfold insertProg insert
  by_cases hcard : s.db.card = 0xFFFFFFFFFFFFFFFF
  · simp [hcard]
  · cases hupper : (s.db.ldmmap.lookup (keyUpper v.stationID)).isNone with
    | true => simp [hcard, hupper, appendProg]
    | false =>
      cases hlower : (s.db.entry v.stationID).isNone with
      | true => simp [hcard, hupper, hlower, appendProg]
      | false => simp [hcard, hupper, hlower, appendProg]

theorem alone_removeProg (stationID : UInt64) (s : LockedDb) :
    Prod.map id LockedDb.db ((removeProg stationID).alone s) = s.db.remove stationID := by
  unfold removeProg remove
  cases hupper : (s.db.ldmmap.lookup (keyUpper stationID)).isNone with
  | true => simp [hupper]
  | false =>
    cases hlower : (s.db.entry stationID).isNone with
    | true => simp [hupper, hlower]
    | false => simp [hupper, hlower]

theorem alone_lookupProg (stationID : UInt64) (s : LockedDb) :
    (lookupProg stationID).alone s = (s.db.lookup stationID, s) := by
  unfold lookupProg lookup
  cases hupper : (s.db.ldmmap.lookup (keyUpper stationID)).isNone with
  | true => simp [hupper]
  | false =>
    cases hentry : s.db.entry stationID with
    | none => simp [hupper, hentry]
    | some e => simp [hupper, hentry, entryOrNew]

theorem alone_rangeSelectProg (rangeM lat lon : ℚ) (sel : List ReturnedVehicleData)
    (s : LockedDb) : (rangeSelectProg haversineDist rangeM lat lon sel).alone s =
      (s.db.rangeSelect haversineDist rangeM lat lon sel, s) := by
  have hloop := alone_forLowers_read .shared (fun sel lower => sel ++ lower.entries.filterMap
    fun vall => if haversineDist lat lon vall.2.vehData.lat vall.2.vehData.lon ≤ rangeM then
      some vall.2 else none) sel s
  unfold rangeSelectProg rangeSelect
  rw [alone_bind, hloop]
  simp [List.flatMap]

theorem alone_rangeSelectAroundProg (rangeM : ℚ) (stationID : UInt64)
    (sel : List ReturnedVehicleData) (s : LockedDb) :
    (rangeSelectAroundProg haversineDist rangeM stationID sel).alone s =
      (s.db.rangeSelectAround haversineDist rangeM stationID sel, s) := by
  unfold rangeSelectAroundProg rangeSelectAround
  rw [alone_bind, alone_lookupProg]
  generalize s.db.lookup stationID = found
  obtain ⟨retval, e⟩ := found
  cases retval with
  | ok =>
    cases e with
    | none => rfl
    | some retData => exact alone_rangeSelectProg haversineDist _ _ _ _ s
  | _ => rfl

theorem alone_executeProg (s : LockedDb) : executeProg.alone s =
    (s.db.executeOnAllContents (fun v visited => visited ++ [v]) [], s) := by
  have hloop := alone_forLowers_read .shared (fun (visited : List VehicleData) lower =>
    lower.entries.foldl (fun visited vall => visited ++ [vall.2.vehData]) visited) [] s
  rw [executeProg, hloop, executeOnAllContents]

/-- The visits of lower maps by a delete function, one after the other, are
its loop over them. -/
theorem foldl_sweepLower (time : ℚ) (now : UInt64)
    (l : List (Sigma fun _ : UInt32 => Slot UInt32 ReturnedVehicleData)) (m : LDMMap)
    (deleted : List UInt64) (hnodup : (l.map (·.1)).Nodup)
    (hmem : ∀ val ∈ l, val ∈ m.ldmmap.entries) :
    let x := (l.map (·.1)).foldl (fun x key => sweepLower time now key x.1 x.2) (deleted, m)
    let swept := sweepSlots (isOld now time) (fun id deleted => deleted ++ [id]) l (m.card, deleted)
    x.1 = swept.2.2 ∧ x.2.card = swept.2.1 ∧ x.2.ldmmap.entries =
      m.ldmmap.entries.map fun val => if val.1 ∈ l.map (·.1) then
        ⟨val.1, Slot.retain (fun e => !isOld now time e) val.2⟩ else val := by
  induction l generalizing m deleted with
  | nil => exact ⟨rfl, rfl, by simp⟩
  | cons val l ih =>
    obtain ⟨hnot, hnodup⟩ := List.nodup_cons.mp hnodup
    have hslot : slot m.ldmmap val.1 = val.2 := slot_of_mem_entries (hmem val List.mem_cons_self)
    let swept := sweepSlot (isOld now time) (fun id deleted => deleted ++ [id]) val.2
      (m.card, deleted)
    have hvisit : sweepLower time now val.1 deleted m =
        (swept.2.2, ⟨setSlot m.ldmmap val.1 swept.1, swept.2.1⟩) := by
      rw [sweepLower, hslot]
    -- the lower maps still to be visited are as they were
    have hrest : ∀ val' ∈ l, val' ∈ (setSlot m.ldmmap val.1 swept.1).entries := by
      intro val' hval'
      have hne : val'.1 ≠ val.1 := fun heq => hnot (List.mem_map.mpr ⟨val', hval', heq⟩)
      exact List.mem_map.mpr ⟨val', hmem val' (List.mem_cons_of_mem _ hval'), if_neg hne⟩
    obtain ⟨h₁, h₂, h₃⟩ := ih ⟨setSlot m.ldmmap val.1 swept.1, swept.2.1⟩ swept.2.2 hnodup hrest
    rw [List.map_cons, List.foldl_cons, hvisit]
    refine ⟨h₁, h₂, h₃.trans ?_⟩
    rw [setSlot, List.map_map]
    refine List.map_congr_left fun val' hval' => ?_
    have hcons : val'.1 ∈ val.1 :: l.map (·.1) ↔ val'.1 = val.1 ∨ val'.1 ∈ l.map (·.1) :=
      List.mem_cons
    rw [Function.comp_apply]
    by_cases heq : val'.1 = val.1
    · have hval : val'.2 = val.2 := by
        rw [← slot_of_mem_entries hval', heq, hslot]
      have hnot' : val'.1 ∉ l.map (·.1) := by rwa [heq]
      rw [if_pos heq, if_neg hnot', if_pos (hcons.mpr (Or.inl heq)), hval]
      exact congrArg _ (sweepSlot_eq _ _ _ _)
    · rw [if_neg heq]
      exact if_congr (by rw [hcons]; exact (or_iff_right heq).symm) rfl rfl

theorem alone_deleteProg (time : ℚ) (now : UInt64) (s : LockedDb) :
    Prod.map id LockedDb.db ((deleteProg time now).alone s) =
      Prod.swap (s.db.deleteOlderThanAndExecute time now
        (fun id deleted => deleted ++ [id]) []) := by
  obtain ⟨h₁, h₂, h₃⟩ := foldl_sweepLower time now s.db.ldmmap.entries s.db [] s.db.ldmmap.nodupKeys
    fun _ h => h
  have hall : s.db.ldmmap.entries.map (fun val => if val.1 ∈ s.db.ldmmap.entries.map (·.1) then
      ⟨val.1, Slot.retain (fun e => !isOld now time e) val.2⟩ else val) =
        (sweepSlots (isOld now time) (fun id deleted => deleted ++ [id]) s.db.ldmmap.entries
          (s.db.card, [])).1 := by
    rw [sweepSlots_eq]
    exact List.map_congr_left fun val hval => if_pos (List.mem_map_of_mem hval)
  rw [deleteProg, alone_forLowers_modify]
  exact Prod.ext h₁ (eq_of_ldmmap_card (AList.ext (h₃.trans hall)) h₂)

end LDMMap

/-- A program alone does what the operation does. -/
theorem alone_prog (op : StoreOp) (s : LockedDb) :
    Prod.map id LockedDb.db ((op.prog haversineDist).alone s) = s.db.perform haversineDist op := by
  cases op with
  | remove stationID =>
    have hremove := LDMMap.alone_removeProg stationID s
    simp [StoreOp.prog, LDMMap.perform, ← hremove]
  | other op =>
    cases op with
    | insert v junk =>
      have hinsert := LDMMap.alone_insertProg haversineDist v junk s
      simp [StoreOp.prog, LDMMap.perform, LDMMap.exec, ← hinsert]
    | lookup stationID =>
      simp [StoreOp.prog, LDMMap.perform, LDMMap.exec, LDMMap.alone_lookupProg]
    | rangeSelect rangeM lat lon sel =>
      simp [StoreOp.prog, LDMMap.perform, LDMMap.exec, LDMMap.alone_rangeSelectProg]
    | rangeSelectAround rangeM stationID sel =>
      simp [StoreOp.prog, LDMMap.perform, LDMMap.exec, LDMMap.alone_rangeSelectAroundProg]
    | deleteOlderThan time now =>
      -- the map left does not depend on the callback
      have hsame := LDMMap.sweep_spec (LDMMap.isOld now time) (fun id deleted => deleted ++ [id])
        (m := s.db) []
      have hother := LDMMap.sweep_spec (LDMMap.isOld now time) (fun _ args => args) (m := s.db) ()
      have hdelete := LDMMap.alone_deleteProg time now s
      simp only [StoreOp.prog, LDMMap.perform, LDMMap.exec, alone_bind, alone_pure, Prod.map_apply,
        id_eq, Prod.mk.injEq, true_and]
      refine (congrArg Prod.snd hdelete).trans (LDMMap.eq_of_ldmmap_card ?_ ?_)
      · exact hsame.1.trans hother.1.symm
      · exact hsame.2.1.trans hother.2.1.symm
    | deleteOlderThanAndExecute time now =>
      have hdelete := LDMMap.alone_deleteProg time now s
      rw [Prod.ext_iff] at hdelete
      simp only [StoreOp.prog, LDMMap.perform, LDMMap.exec, alone_bind, alone_pure, Prod.map_apply,
        id_eq]
      exact Prod.ext (congrArg Answer.deleted hdelete.1) hdelete.2
    | executeOnAllContents =>
      simp [StoreOp.prog, LDMMap.perform, LDMMap.exec, LDMMap.alone_executeProg]
    | clear => simp [StoreOp.prog, LDMMap.perform, LDMMap.exec]

end Alone

/-! ## Many threads -/

/-- A call a thread can make. -/
abbrev DbCall := { op : StoreOp // op ≠ .other .clear }

/-- A thread that makes calls, one after the other. -/
def callsProg (haversineDist : Distance) (calls : List DbCall) : DbProg Unit :=
  calls.foldlM (fun _ call => do
    let _ ← call.1.prog haversineDist
    return ()) ()

theorem follows_callsProg (haversineDist : Distance) (calls : List DbCall) :
    Prog.Follows lockDiscipline [] (callsProg haversineDist calls) [] := by
  refine Prog.follows_foldlM (fun _ call => ?_) calls ()
  exact Prog.follows_bind (follows_prog haversineDist call.1) fun _ => Prog.follows_pure _

/-- The threads at their start. -/
def threadsState (haversineDist : Distance) (s₀ : LockedDb) (threads : List (List DbCall)) :
    State LockedDb Mutex :=
  ⟨s₀, threads.map fun calls => ⟨[], callsProg haversineDist calls⟩⟩

theorem wellLocked_threads (haversineDist : Distance) (s₀ : LockedDb)
    (threads : List (List DbCall)) :
    WellLocked lockDiscipline (threadsState haversineDist s₀ threads) := by
  have hstart : WellLocked lockDiscipline (⟨s₀, (threads.map (callsProg haversineDist)).map
      fun p => ⟨[], p⟩⟩ : State LockedDb Mutex) := by
    refine wellLocked_start s₀ fun p hp => ?_
    obtain ⟨calls, -, rfl⟩ := List.mem_map.mp hp
    exact follows_callsProg haversineDist calls
  rwa [List.map_map] at hstart

end SLDM.Store
