/-
SLDM.Store.PHpoints — the path history of one vehicle, `PHpoints.cpp`.

`m_pDataArray` is a vector that is only ever `reserve`d: its storage is
memory, indexed here by an integer, whose contents before the first write
are arbitrary. `m_stored_distance` is set by no constructor. Both are
arguments of the constructors (`Junk`).

`haversineDist` is a parameter: nothing below depends on what distance it
computes. Doubles are exact rationals, the `int` members are integers.
-/
import SLDM.Store.VehicleData
import Mathlib.Algebra.Order.Floor.Defs
import Mathlib.Data.Rat.Floor

namespace SLDM.Store

/-- A distance between two positions (latitude, longitude, twice). -/
abbrev Distance := ℚ → ℚ → ℚ → ℚ → ℚ

/-! ## The object -/

/-- `PHData_t`. -/
structure PHData where
  lat : ℚ
  lon : ℚ
  elev : ℚ
  heading : ℚ
  pointDistance : ℚ
  deriving DecidableEq, Inhabited, Repr

/-- `PHpoints`. -/
structure PHpoints where
  distanceLimit : ℚ
  minDistM : ℚ
  maxDistM : ℚ
  maxHeadingDiffDegs : ℚ
  nextIdx : ℤ
  oldestIdx : ℤ
  storedDistance : ℚ
  size : ℤ
  vectorReservedSize : ℤ
  dataArray : ℤ → PHData
  removeOnlyOne : Bool
  iterateFull : Bool

/-- `PHpoints_retval_t`. -/
inductive PHpointsRetval where
  | inserted
  | skipped
  | continueIteration
  | terminateIteration
  | error
  deriving DecidableEq, Repr

/-- What the memory of a new object holds in the members its constructor
does not set. -/
structure Junk where
  storedDistance : ℚ
  dataArray : ℤ → PHData

namespace PHpoints

/-- `PHpoints()`. -/
def new (junk : Junk) : PHpoints where
  distanceLimit := 300
  minDistM := 1
  maxDistM := 20
  maxHeadingDiffDegs := 10
  nextIdx := 0
  oldestIdx := 0
  storedDistance := junk.storedDistance
  size := 0
  vectorReservedSize := 300
  dataArray := junk.dataArray
  removeOnlyOne := false
  iterateFull := false

/-- `PHpoints(distance_limit, min_dist_m, max_dist_m, max_heading_diff_degs)`. -/
def newWith (junk : Junk) (distanceLimit minDistM maxDistM maxHeadingDiffDegs : ℚ) : PHpoints :=
  { new junk with
    distanceLimit, minDistM, maxDistM, maxHeadingDiffDegs,
    vectorReservedSize := ⌈distanceLimit / minDistM⌉ }

/-- `switchRemoveOnlyOne`. -/
def switchRemoveOnlyOne (p : PHpoints) : Bool × PHpoints :=
  (!p.removeOnlyOne, { p with removeOnlyOne := !p.removeOnlyOne })

/-! ## Insertion -/

/-- `angDiff`. -/
def angDiff (ang1 ang2 : ℚ) : ℚ :=
  if ang1 - ang2 > 180 then ang1 - ang2 - 360
  else if ang1 - ang2 < -180 then ang1 - ang2 + 360
  else ang1 - ang2

/-- The index `insert` takes for the previously saved point. -/
def prevIdx (p : PHpoints) : ℤ := if p.nextIdx = 0 then p.size - 1 else p.nextIdx - 1

/-- The statements that drop the oldest point. -/
def dropOldest (p : PHpoints) : PHpoints :=
  { p with
    storedDistance := p.storedDistance - (p.dataArray p.oldestIdx).pointDistance
    size := p.size - 1
    oldestIdx := (p.oldestIdx + 1).tmod p.vectorReservedSize }

/-- The `while` loop of the default remove policy. Each turn drops a point
and the last one is never dropped, so `m_PHpoints_size` turns suffice. -/
def trim : ℕ → PHpoints → PHpoints
  | 0, p => p
  | turns + 1, p =>
    if p.storedDistance ≥ p.distanceLimit ∧ p.size > 1 then trim turns p.dropOldest else p

/-- The turns given to `trim` suffice: the loop condition fails after them. -/
theorem trim_exit : ∀ {turns : ℕ} {p : PHpoints}, p.size ≤ turns →
    ¬ ((trim turns p).storedDistance ≥ (trim turns p).distanceLimit ∧ (trim turns p).size > 1)
  | 0, p, h => by
      intro hex
      obtain ⟨-, hsize⟩ := hex
      simp only [trim] at hsize
      omega
  | turns + 1, p, h => by
      rw [trim]
      split
      · refine trim_exit ?_
        show p.size - 1 ≤ turns
        omega
      · assumption

/-- The remove policy. -/
def removeOld (p : PHpoints) : PHpoints :=
  if p.removeOnlyOne then
    if p.storedDistance ≥ p.distanceLimit then p.dropOldest else p
  else trim p.size.toNat p

/-- The statements of `insert` that store the point. -/
def store (p : PHpoints) (v : VehicleData) (pointDist : ℚ) : PHpoints :=
  { p with
    size := if p.size < p.vectorReservedSize then p.size + 1 else p.size
    dataArray := Function.update p.dataArray p.nextIdx
      { lat := v.lat, lon := v.lon, elev := v.elevation, heading := v.heading,
        pointDistance := pointDist }
    nextIdx := (p.nextIdx + 1).tmod p.vectorReservedSize }

/-- `PHpoints::insert`. -/
def insert (haversineDist : Distance) (p : PHpoints) (v : VehicleData) :
    PHpointsRetval × PHpoints :=
  if p.size ≥ 1 then
    let prev := p.dataArray p.prevIdx
    let pointDist := haversineDist prev.lat prev.lon v.lat v.lon
    if pointDist < p.maxDistM ∧
        (pointDist < p.minDistM ∨ |angDiff prev.heading v.heading| < p.maxHeadingDiffDegs) then
      (.skipped, p)
    else
      let p := p.removeOld
      let p := { p with storedDistance := p.storedDistance + pointDist }
      (.inserted, p.store v pointDist)
  else (.inserted, p.store v 0)

/-- The history after inserting these data one after the other. -/
def insertAll (haversineDist : Distance) (p : PHpoints) (vs : List VehicleData) : PHpoints :=
  vs.foldl (fun p v => (p.insert haversineDist v).2) p

/-! ## Iteration -/

/-- `setIterateFull`. -/
def setIterateFull (p : PHpoints) (iterateFull : Bool) : PHpoints := { p with iterateFull }

end PHpoints

/-- `PHDataIter_t`. `ptrDataArray` says whether the pointer is set; it then
points to the array of the object. -/
structure PHDataIter where
  ptrDataArray : Bool
  data : PHData
  idx : ℤ
  cyclicIdx : ℤ
  pDataArraySize : ℤ
  deriving DecidableEq, Repr

/-- `INVALID_PHDATA`, the largest double, in every field. -/
def invalidPHData : PHData :=
  let invalid : ℚ := 2 ^ 1024 - 2 ^ 971
  ⟨invalid, invalid, invalid, invalid, invalid⟩

namespace PHpoints

/-- The index before `cyclicIdx` in the ring. -/
def indexBefore (p : PHpoints) (cyclicIdx : ℤ) : ℤ :=
  if cyclicIdx = 0 then p.vectorReservedSize - 1 else cyclicIdx - 1

/-- What the first call does to the iterator. -/
def startIterator (p : PHpoints) (it : PHDataIter) : PHDataIter :=
  if it.ptrDataArray then it
  else
    { it with
      cyclicIdx := if p.iterateFull then p.nextIdx else p.indexBefore p.nextIdx
      idx := if p.iterateFull then 0 else 1
      ptrDataArray := true
      pDataArraySize := p.size }

/-- `PHpoints::iterate`. `nextPHData` is what the pointer of that name
points to, `none` for a null pointer. -/
def iterate (p : PHpoints) (it : PHDataIter) (nextPHData : Option PHData) :
    PHpointsRetval × PHDataIter × Option PHData :=
  let it := p.startIterator it
  if it.idx < it.pDataArraySize then
    if it.ptrDataArray = false then (.error, it, nextPHData)
    else
      let cyclicIdx := p.indexBefore it.cyclicIdx
      let it := { it with cyclicIdx, idx := it.idx + 1, data := p.dataArray cyclicIdx }
      let lookahead :=
        if it.idx < it.pDataArraySize - 1 then p.dataArray (p.indexBefore it.cyclicIdx)
        else invalidPHData
      (.continueIteration, it, nextPHData.map fun _ => lookahead)
  else (.terminateIteration, it, nextPHData)

/-! ## Clearing -/

/-- `PHpoints::clear`. The storage behind the cleared vector stays. -/
def clear (p : PHpoints) : PHpoints :=
  { p with size := 0, nextIdx := 0, oldestIdx := 0 }

end PHpoints

end SLDM.Store
