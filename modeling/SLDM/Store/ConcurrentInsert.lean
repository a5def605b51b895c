/-
SLDM.Store.ConcurrentInsert — `LDMMap::insert` and
`deleteOlderThanAndExecute` split at their locks.

`insert` looks for the upper key and then for the lower key outside any
lock, writes under a lock, and appends to the path history after releasing
it. Each of these is one atomic step here. A garbage collection pass holds
`m_mainmapmut` shared from its start to its end, so a slot cannot be
written meanwhile, and visits one lower map under its mutex per step, in
any order.

Two members of the state are not in the code: `written` remembers the data
of each station's last locked write that has not been collected, and
`nullUse` records that some insert dereferenced a null `phData`.

`insert_alone` connects the split insert to `LDMMap.insert`: the steps of
one call, with nothing in between, do what the whole function does.
-/
import SLDM.Store.LDMMapTheorems
import SLDM.Lib.Runs
import SLDM.Lib.Loops

namespace SLDM.Store

open NestedMap Runs

/-! ## The state -/

/-- The argument of one call of `insert` and the memory of the history it
may create. -/
structure InsertCall where
  newVehicleData : VehicleData
  junk : Junk

/-- Where a call of `insert` is. -/
inductive InsertPc where
  | checkUpper
  | writeSlot
  | checkLower
  | lockedWrite (retval : LDMMapError)
  | append (retval : LDMMapError)
  | returned (retval : LDMMapError)
  deriving DecidableEq, Repr

/-- A call in progress. -/
structure InsertThread where
  call : InsertCall
  pc : InsertPc

/-- A pass of `deleteOlderThanAndExecute` in progress, with the upper keys
of the lower maps it has not visited. -/
structure GcPass where
  timeMilliseconds : ℚ
  now : UInt64
  remaining : List UInt32

/-- The database, what runs over it, and what is remembered of the run. -/
structure Concurrent where
  db : LDMMap
  inserts : List InsertThread
  passes : List GcPass
  written : UInt64 → Option VehicleData
  nullUse : Bool

/-- The steps: a thread calls `insert`, a call goes on, a pass starts,
visits a lower map or ends. -/
inductive ConcurrentStep where
  | call (c : InsertCall)
  | insert (i : ℕ)
  | gcStart (timeMilliseconds : ℚ) (now : UInt64)
  | gcVisit (i : ℕ) (key : UInt32)
  | gcEnd (i : ℕ)

namespace Concurrent

/-! ## The steps -/

/-- One atomic step of a call: the state and where the call is then.
`none` means it has returned or waits for `m_mainmapmut`. -/
def insertStep (haversineDist : Distance) (s : Concurrent) (t : InsertThread) :
    Option (Concurrent × InsertPc) :=
  let v := t.call.newVehicleData
  let id := v.stationID
  match t.pc with
  | .checkUpper =>
    if s.db.card = 0xFFFFFFFFFFFFFFFF then some (s, .returned .mapFull)
    else if (s.db.ldmmap.lookup (keyUpper id)).isNone then some (s, .writeSlot)
    else some (s, .checkLower)
  | .writeSlot =>
    if s.passes.isEmpty then
      some ({ s with
                db := ⟨s.db.ldmmap.insert (keyUpper id) (LDMMap.freshLowerMap t.call.junk v),
                  s.db.card + 1⟩
                written := Function.update s.written id (some v) }, .append .ok)
    else none
  | .checkLower =>
    if (s.db.entry id).isNone then
      some ({ s with db := ⟨s.db.ldmmap, s.db.card + 1⟩ }, .lockedWrite .ok)
    else some (s, .lockedWrite .updated)
  | .lockedWrite retval =>
    let map := LDMMap.modifyEntry (fun e => { e with vehData := v }) s.db.ldmmap id
    let map := if retval = .ok then
        LDMMap.modifyEntry (fun e => { e with phData := some (PHpoints.new t.call.junk) }) map id
      else map
    some ({ s with db := ⟨map, s.db.card⟩
                   written := Function.update s.written id (some v) }, .append retval)
  | .append retval =>
    some ({ s with
              db := ⟨LDMMap.modifyEntry (LDMMap.appendHistory haversineDist v) s.db.ldmmap id,
                s.db.card⟩
              nullUse := s.nullUse || ((s.db.entry id).bind ReturnedVehicleData.phData).isNone },
          .returned retval)
  | .returned _ => none

/-- A visit of one lower map by a pass: the old entries are erased, and
forgotten in `written`. -/
def visit (s : Concurrent) (p : GcPass) (key : UInt32) : Concurrent :=
  let old := LDMMap.isOld p.now p.timeMilliseconds
  let lower := slot s.db.ldmmap key
  let (kept, card, deleted) :=
    LDMMap.sweepSlot old (fun id ids => ids ++ [id]) lower (s.db.card, [])
  { s with db := ⟨s.db.ldmmap.insert key kept, card⟩
           written := fun id => if id ∈ deleted then none else s.written id }

/-- One step of the system. -/
def step (haversineDist : Distance) (s : Concurrent) : ConcurrentStep → Option Concurrent
  | .call c => some { s with inserts := s.inserts ++ [⟨c, .checkUpper⟩] }
  | .insert i => do
    let t ← s.inserts[i]?
    let (s, pc) ← s.insertStep haversineDist t
    return { s with inserts := s.inserts.set i ⟨t.call, pc⟩ }
  | .gcStart time now =>
    some { s with passes := s.passes ++ [⟨time, now, s.db.ldmmap.keys⟩] }
  | .gcVisit i key => do
    let p ← s.passes[i]?
    if key ∈ p.remaining then
      let s := s.visit p key
      return { s with passes := s.passes.set i { p with remaining := p.remaining.erase key } }
    else none
  | .gcEnd i => do
    let p ← s.passes[i]?
    if p.remaining.isEmpty then return { s with passes := s.passes.eraseIdx i }
    else none

/-- An empty database with nothing running. -/
def initial : Concurrent := ⟨LDMMap.new, [], [], fun _ => none, false⟩

/-! ## One call alone -/

/-- The steps of one call, as a loop that is left when it returns. -/
def turn (haversineDist : Distance) (c : InsertCall) (x : Concurrent × InsertPc) :
    Option (Concurrent × InsertPc) := x.1.insertStep haversineDist ⟨c, x.2⟩

/-- A call that only has to append returns after that. -/
theorem endsIn_append (haversineDist : Distance) (c : InsertCall) (s : Concurrent)
    (retval : LDMMapError) :
    ∃ s', Loops.EndsIn (turn haversineDist c) (s, .append retval) (s', .returned retval) ∧
      s'.db = ⟨LDMMap.modifyEntry (LDMMap.appendHistory haversineDist c.newVehicleData) s.db.ldmmap
        c.newVehicleData.stationID, s.db.card⟩ :=
  ⟨_, Loops.endsIn_of_turn rfl (Loops.endsIn_of_done rfl), rfl⟩

/-- The steps of one call, with nothing in between and no pass in progress,
do what `LDMMap.insert` does. -/
theorem insert_alone (haversineDist : Distance) (s : Concurrent) (hpasses : s.passes = [])
    (c : InsertCall) :
    ∃ s', Loops.EndsIn (turn haversineDist c) (s, .checkUpper)
        (s', .returned (s.db.insert haversineDist c.newVehicleData c.junk).1) ∧
      s'.db = (s.db.insert haversineDist c.newVehicleData c.junk).2 := by
  unfold LDMMap.insert
  by_cases hcard : s.db.card = 0xFFFFFFFFFFFFFFFF
  · have h1 : turn haversineDist c (s, .checkUpper) = some (s, .returned .mapFull) := by
      simp only [turn, insertStep, if_pos hcard]
    rw [if_pos hcard]
    exact ⟨s, Loops.endsIn_of_turn h1 (Loops.endsIn_of_done rfl), rfl⟩
  rw [if_neg hcard]
  cases hup : (s.db.ldmmap.lookup (keyUpper c.newVehicleData.stationID)).isNone with
  | true =>
    have h1 : turn haversineDist c (s, .checkUpper) = some (s, .writeSlot) := by
      simp only [turn, insertStep, if_neg hcard, hup, if_true]
    have h2 : ∃ s₂, turn haversineDist c (s, .writeSlot) = some (s₂, .append .ok) ∧
        s₂.db = ⟨s.db.ldmmap.insert (keyUpper c.newVehicleData.stationID)
          (LDMMap.freshLowerMap c.junk c.newVehicleData), s.db.card + 1⟩ := by
      simp only [turn, insertStep, hpasses, List.isEmpty_nil, if_true]
      exact ⟨_, rfl, rfl⟩
    obtain ⟨s₂, h2, hdb₂⟩ := h2
    obtain ⟨s', hends, hdb'⟩ := endsIn_append haversineDist c s₂ .ok
    exact ⟨s', Loops.endsIn_of_turn h1 (Loops.endsIn_of_turn h2 hends), by rw [hdb', hdb₂]; rfl⟩
  | false =>
    have h1 : turn haversineDist c (s, .checkUpper) = some (s, .checkLower) := by
      simp only [turn, insertStep, if_neg hcard, hup, Bool.false_eq_true, if_false]
    cases hlow : (s.db.entry c.newVehicleData.stationID).isNone with
    | true =>
      have h2 : turn haversineDist c (s, .checkLower) =
          some ({ s with db := ⟨s.db.ldmmap, s.db.card + 1⟩ }, .lockedWrite .ok) := by
        simp only [turn, insertStep, hlow, if_true]
      obtain ⟨s', hends, hdb'⟩ := endsIn_append haversineDist c _ .ok
      exact ⟨s', Loops.endsIn_of_turn h1 (Loops.endsIn_of_turn h2
        (Loops.endsIn_of_turn rfl hends)), hdb'⟩
    | false =>
      have h2 : turn haversineDist c (s, .checkLower) = some (s, .lockedWrite .updated) := by
        simp only [turn, insertStep, hlow, Bool.false_eq_true, if_false]
      obtain ⟨s', hends, hdb'⟩ := endsIn_append haversineDist c _ .updated
      exact ⟨s', Loops.endsIn_of_turn h1 (Loops.endsIn_of_turn h2
        (Loops.endsIn_of_turn rfl hends)), hdb'⟩

end Concurrent

end SLDM.Store
