/-
SLDM.Store.ClearedHistory — a new object and a cleared one, side by side.

Two objects with the same settings get the same reports: one just
constructed, in whatever memory, and one cleared after any use. `Alike`
says that no caller can tell them apart. Neither the constructors nor
`clear` set `m_stored_distance`, and the remove policy compares it with the
limit; everything else an operation reads has been written since
(`SameSlots`).

`alike_of_dropsAlike` says that the two stay alike as long as the remove
policy drops as many points in both, and that they always are when they
start with the same stored distance.
-/
import SLDM.Store.Lookahead
import SLDM.Store.Trimming

namespace SLDM.Store

open Ring Runs
open History (latitudeDistance reportAt)

namespace PHpoints

/-! ## The two objects -/

/-- The limits, the capacity and the two policies are the same. -/
def SameSettings (p q : PHpoints) : Prop :=
  q = { p with
    nextIdx := q.nextIdx
    oldestIdx := q.oldestIdx
    storedDistance := q.storedDistance
    size := q.size
    dataArray := q.dataArray }

/-- The default constructor is the other one with the default limits. -/
theorem new_eq_newWith (junk : Junk) : new junk = newWith junk 300 1 20 10 := by
  have hcap : ⌈(300 : ℚ) / 1⌉ = 300 := by
    rw [div_one]
    exact Int.ceil_ofNat 300
  rw [newWith, hcap]
  rfl

/-- An object as a constructor leaves it, with either policy set. -/
def Constructed (p : PHpoints) : Prop :=
  ∃ junk distanceLimit minDistM maxDistM maxHeadingDiffDegs removeOnlyOne iterateFull,
    p = { newWith junk distanceLimit minDistM maxDistM maxHeadingDiffDegs with
      removeOnlyOne, iterateFull }

/-- Inserting changes no setting. -/
theorem sameSettings_insertAll (haversineDist : Distance) (p : PHpoints) (vs : List VehicleData) :
    SameSettings p (p.insertAll haversineDist vs) := by
  have hstep : ∀ (q : PHpoints) (v : VehicleData), SameSettings q (q.insert haversineDist v).2 := by
    intro q v
    by_cases hsize : 1 ≤ q.size
    · obtain ⟨storedDistance, size, oldestIdx, hold, -, -⟩ := remains_removeOld hsize
      rw [insert_of_pos haversineDist v hsize, hold]
      split <;> rfl
    · rw [insert_of_empty haversineDist v hsize]
      rfl
  unfold insertAll
  induction vs generalizing p with
  | nil => rfl
  | cons v vs ih =>
    rw [List.foldl_cons]
    have hrest := ih (p.insert haversineDist v).2
    have hfirst := hstep p v
    unfold SameSettings at hrest hfirst ⊢
    rw [hrest, hfirst]

/-- The same report goes to both objects. -/
def insertBoth (haversineDist : Distance) (s : PHpoints × PHpoints) (v : VehicleData) :
    Option (PHpoints × PHpoints) :=
  some ((s.1.insert haversineDist v).2, (s.2.insert haversineDist v).2)

/-- Both calls of `insert` return the same value. -/
def SameResult (haversineDist : Distance) (s : PHpoints × PHpoints) (v : VehicleData) : Prop :=
  (s.1.insert haversineDist v).1 = (s.2.insert haversineDist v).1

/-- Both objects have the same cardinality and are iterated over alike. -/
def SameOutput (s : PHpoints × PHpoints) : Prop :=
  s.1.size = s.2.size ∧ ∀ it : PHDataIter, it.ptrDataArray = false → ∀ out k,
    s.1.nthCall it out k = s.2.nthCall it out k

/-- No caller can tell the objects apart. -/
def Alike (haversineDist : Distance) (s : PHpoints × PHpoints) (vs : List VehicleData) : Prop :=
  AllSteps (insertBoth haversineDist) (SameResult haversineDist) s vs ∧
    AllStates (insertBoth haversineDist) SameOutput s vs

/-- The remove policy compares both stored distances with the limit alike,
at each turn it takes in both. -/
def SameTurns (p q : PHpoints) : Prop :=
  if p.removeOnlyOne then p.distanceLimit ≤ p.storedDistance ↔ p.distanceLimit ≤ q.storedDistance
  else ∀ k : ℕ, (k : ℤ) + 1 < p.size →
    (∀ j < k, p.distanceLimit ≤ p.leftAfter j ∧ p.distanceLimit ≤ q.leftAfter j) →
    (p.distanceLimit ≤ p.leftAfter k ↔ p.distanceLimit ≤ q.leftAfter k)

/-- A report that is not skipped finds the remove policy taking the same
turns. -/
def DropsAlike (haversineDist : Distance) (s : PHpoints × PHpoints) (v : VehicleData) : Prop :=
  1 ≤ s.1.size → ¬ s.1.Skips haversineDist (s.1.dataArray s.1.prevIdx) v → SameTurns s.1 s.2

/-! ## The slots that have been written -/

/-- The objects differ in the stored distance and in slots not written yet
only: all slots are the same, or those before `m_next_idx`, where the
window is then. -/
structure SameSlots (p q : PHpoints) : Prop where
  frame : q = { p with storedDistance := q.storedDistance, dataArray := q.dataArray }
  size_nonneg : 0 ≤ p.size
  size_le : p.size ≤ p.vectorReservedSize
  nextIdx_nonneg : 0 ≤ p.nextIdx
  nextIdx_lt : p.nextIdx < p.vectorReservedSize
  oldestIdx_nonneg : 0 ≤ p.oldestIdx
  oldestIdx_lt : p.oldestIdx < p.vectorReservedSize
  written : (∀ i, 0 ≤ i → i < p.vectorReservedSize → q.dataArray i = p.dataArray i) ∨
    (p.oldestIdx + p.size ≤ p.nextIdx ∧
      ∀ i, 0 ≤ i → i < p.nextIdx → q.dataArray i = p.dataArray i)

section SameSlots

variable {p q : PHpoints}

/-- The live slots, counted from the newest one. -/
theorem SameSlots.recent (h : SameSlots p q) {j : ℕ} (hj : (j : ℤ) < p.size) :
    q.dataArray (slotBack p.vectorReservedSize p.nextIdx j) =
      p.dataArray (slotBack p.vectorReservedSize p.nextIdx j) := by
  have hcap := h.nextIdx_lt
  have h0 := h.nextIdx_nonneg
  rcases h.written with hall | ⟨hwindow, hbefore⟩
  · exact hall _ (Int.emod_nonneg _ (by omega)) (Int.emod_lt_of_pos _ (by omega))
  · have holdest := h.oldestIdx_nonneg
    have hslot : slotBack p.vectorReservedSize p.nextIdx j = p.nextIdx - 1 - j := by
      unfold slotBack
      exact Int.emod_eq_of_lt (by omega) (by omega)
    rw [hslot]
    exact hbefore _ (by omega) (by omega)

/-- The live slots, counted from the oldest one. -/
theorem SameSlots.oldest (h : SameSlots p q) {k : ℕ} (hk : (k : ℤ) < p.size) :
    q.dataArray ((p.oldestIdx + k) % p.vectorReservedSize) =
      p.dataArray ((p.oldestIdx + k) % p.vectorReservedSize) := by
  have hcap := h.nextIdx_lt
  have h0 := h.nextIdx_nonneg
  have holdest := h.oldestIdx_nonneg
  rcases h.written with hall | ⟨hwindow, hbefore⟩
  · exact hall _ (Int.emod_nonneg _ (by omega)) (Int.emod_lt_of_pos _ (by omega))
  · rw [Int.emod_eq_of_lt (by omega) (by omega)]
    exact hbefore _ (by omega) (by omega)

/-- The point a report is compared with. -/
theorem SameSlots.prev (h : SameSlots p q) (hsize : 1 ≤ p.size) :
    q.dataArray q.prevIdx = p.dataArray p.prevIdx := by
  have hprev : q.prevIdx = p.prevIdx := by
    rw [h.frame]
    rfl
  have hcap := h.nextIdx_lt
  have h0 := h.nextIdx_nonneg
  have hle := h.size_le
  have holdest := h.oldestIdx_nonneg
  rw [hprev]
  unfold prevIdx
  rcases h.written with hall | ⟨hwindow, hbefore⟩
  · split
    · exact hall _ (by omega) (by omega)
    · exact hall _ (by omega) (by omega)
  · rw [if_neg (by omega)]
    exact hbefore _ (by omega) (by omega)

/-- The distance the oldest points take off. -/
theorem SameSlots.leftAfter (h : SameSlots p q) {k : ℕ} (hk : (k : ℤ) ≤ p.size) :
    q.leftAfter k = q.storedDistance - p.storedDistance + p.leftAfter k := by
  have hsum : windowSum PHData.pointDistance q.vectorReservedSize q.dataArray q.oldestIdx k =
      windowSum PHData.pointDistance p.vectorReservedSize p.dataArray p.oldestIdx k := by
    have hcap : q.vectorReservedSize = p.vectorReservedSize := by rw [h.frame]
    have holdest : q.oldestIdx = p.oldestIdx := by rw [h.frame]
    rw [hcap, holdest]
    refine Finset.sum_congr rfl fun i hi => ?_
    have hlt := Finset.mem_range.mp hi
    rw [h.oldest (by omega)]
  unfold PHpoints.leftAfter
  rw [hsum]
  ring

/-- Dropping as many points from both. -/
theorem SameSlots.dropped (h : SameSlots p q) {k : ℕ} (hk : (k : ℤ) ≤ p.size) :
    SameSlots (p.dropped k) (q.dropped k) := by
  have hcap := h.nextIdx_lt
  have h0 := h.nextIdx_nonneg
  have holdest := h.oldestIdx_nonneg
  have hle := h.size_le
  refine ⟨?_, ?_, ?_, h0, hcap, Int.emod_nonneg _ (by omega), Int.emod_lt_of_pos _ (by omega), ?_⟩
  · have hframe : ∀ r : PHpoints, r.dropped k = { r with
        storedDistance := (r.dropped k).storedDistance
        size := r.size - k
        oldestIdx := (r.oldestIdx + k) % r.vectorReservedSize } := fun _ => rfl
    rw [hframe q, hframe p, h.frame]
  · show 0 ≤ p.size - k
    omega
  · show p.size - k ≤ p.vectorReservedSize
    omega
  · refine h.written.imp id fun hwindow => ⟨?_, hwindow.2⟩
    have hle := hwindow.1
    show (p.oldestIdx + k) % p.vectorReservedSize + (p.size - k) ≤ p.nextIdx
    rw [Int.emod_eq_of_lt (by omega) (by omega)]
    omega

theorem SameSlots.dropped_zero (h : SameSlots p q) : p.dropped 0 = p ∧ q.dropped 0 = q := by
  have hcap : q.vectorReservedSize = p.vectorReservedSize := by rw [h.frame]
  have holdest : q.oldestIdx = p.oldestIdx := by rw [h.frame]
  refine ⟨PHpoints.dropped_zero h.oldestIdx_nonneg h.oldestIdx_lt, PHpoints.dropped_zero ?_ ?_⟩
  · rw [holdest]
    exact h.oldestIdx_nonneg
  · rw [holdest, hcap]
    exact h.oldestIdx_lt

/-- When both remove policies take the same turns, they drop as many points. -/
theorem SameSlots.removeOld (h : SameSlots p q) (hsize : 1 ≤ p.size) (hturns : SameTurns p q) :
    ∃ k : ℕ, (k : ℤ) ≤ p.size ∧ p.removeOld = p.dropped k ∧ q.removeOld = q.dropped k := by
  have hcap : q.vectorReservedSize = p.vectorReservedSize := by rw [h.frame]
  have holdest : q.oldestIdx = p.oldestIdx := by rw [h.frame]
  have hlimit : q.distanceLimit = p.distanceLimit := by rw [h.frame]
  have hpolicy : q.removeOnlyOne = p.removeOnlyOne := by rw [h.frame]
  have hsizes : q.size = p.size := by rw [h.frame]
  have h0 := h.oldestIdx_nonneg
  have h1 := h.oldestIdx_lt
  unfold SameTurns at hturns
  cases hone : p.removeOnlyOne with
  | true =>
    rw [if_pos hone] at hturns
    unfold PHpoints.removeOld
    rw [hpolicy, hone, if_pos rfl, if_pos rfl, hlimit]
    by_cases hlong : p.distanceLimit ≤ p.storedDistance
    · have hlong' := hturns.mp hlong
      refine ⟨1, by omega, ?_, ?_⟩
      · rw [if_pos hlong]
        exact (dropped_one h0 h1).symm
      · rw [if_pos hlong']
        exact (dropped_one (by omega) (by omega)).symm
    · have hshort' : ¬ p.distanceLimit ≤ q.storedDistance := fun hlong' =>
        hlong (hturns.mpr hlong')
      obtain ⟨hp, hq⟩ := h.dropped_zero
      exact ⟨0, by omega, by rw [if_neg hlong, hp], by rw [if_neg hshort', hq]⟩
  | false =>
    rw [if_neg (by rw [hone]; decide)] at hturns
    obtain ⟨k, hk, hp⟩ := removeOld_spec hone hsize h0 h1
    obtain ⟨k', hk', hq⟩ :=
      removeOld_spec (hpolicy.trans hone) (by omega) (by omega : 0 ≤ q.oldestIdx) (by omega)
    have hlt := hk.lt_size
    have hlt' := hk'.lt_size
    have hgo := hk.goes_on
    have hgo' := hk'.goes_on
    have hstops := hk.stops
    have hstops' := hk'.stops
    rw [hlimit] at hgo' hstops'
    -- the first turn one of them does not take, the other does not take either
    have heq : k = k' := by
      by_contra hne
      rcases Nat.lt_or_gt_of_ne hne with hless | hless
      · have hsame := hturns k (by omega) fun j hj => ⟨hgo j hj, hgo' j (by omega)⟩
        have hbelow := hstops.resolve_left (by omega)
        exact absurd (hsame.mpr (hgo' k hless)) (not_le.mpr hbelow)
      · have hsame := hturns k' (by omega) fun j hj => ⟨hgo j (by omega), hgo' j hj⟩
        have hbelow := hstops'.resolve_left (by omega)
        exact absurd (hsame.mp (hgo k' hless)) (not_le.mpr hbelow)
    rw [← heq] at hq
    exact ⟨k, by omega, hp, hq⟩

/-- Storing the same point in both, with any stored distances. -/
theorem SameSlots.store (h : SameSlots p q) (v : VehicleData) (pointDist stored stored' : ℚ) :
    SameSlots (PHpoints.store { p with storedDistance := stored } v pointDist)
      (PHpoints.store { q with storedDistance := stored' } v pointDist) := by
  have hcap := h.nextIdx_lt
  have h0 := h.nextIdx_nonneg
  have holdest := h.oldestIdx_nonneg
  have hle := h.size_le
  have hnonneg := h.size_nonneg
  have hmove : (p.nextIdx + 1).tmod p.vectorReservedSize =
      (p.nextIdx + 1) % p.vectorReservedSize := Int.tmod_eq_emod_of_nonneg (by omega)
  have hsize : (PHpoints.store { p with storedDistance := stored } v pointDist).size =
      if p.size < p.vectorReservedSize then p.size + 1 else p.size := rfl
  have hnext : (PHpoints.store { p with storedDistance := stored } v pointDist).nextIdx =
      (p.nextIdx + 1) % p.vectorReservedSize := hmove
  have hnextIdx : q.nextIdx = p.nextIdx := by rw [h.frame]
  have hdata : ∀ i, q.dataArray i = p.dataArray i ∨ i = p.nextIdx →
      (PHpoints.store { q with storedDistance := stored' } v pointDist).dataArray i =
        (PHpoints.store { p with storedDistance := stored } v pointDist).dataArray i := by
    intro i hi
    show Function.update q.dataArray q.nextIdx _ i = Function.update p.dataArray p.nextIdx _ i
    rw [hnextIdx]
    rcases eq_or_ne i p.nextIdx with rfl | hne
    · rw [Function.update_self, Function.update_self]
    · rw [Function.update_of_ne hne, Function.update_of_ne hne]
      exact hi.resolve_right hne
  refine ⟨?_, ?_, ?_, ?_, ?_, holdest, h.oldestIdx_lt, ?_⟩
  · rw [h.frame]
    rfl
  · rw [hsize]
    split <;> omega
  · rw [hsize]
    show (if p.size < p.vectorReservedSize then p.size + 1 else p.size) ≤ p.vectorReservedSize
    split <;> omega
  · rw [hnext]
    exact Int.emod_nonneg _ (by omega)
  · rw [hnext]
    exact Int.emod_lt_of_pos _ (by show 0 < p.vectorReservedSize; omega)
  · rcases h.written with hall | ⟨hwindow, hbefore⟩
    · exact Or.inl fun i hi hlt => hdata i (Or.inl (hall i hi hlt))
    · by_cases hlast : p.nextIdx + 1 = p.vectorReservedSize
      · -- the last slot that had not been written
        refine Or.inl fun i hi hlt => hdata i ?_
        have hlt' : i < p.vectorReservedSize := hlt
        rcases eq_or_ne i p.nextIdx with heq | hne
        · exact Or.inr heq
        · exact Or.inl (hbefore i hi (by omega))
      · rw [hsize, hnext, Int.emod_eq_of_lt (by omega) (by omega)]
        refine Or.inr ⟨?_, fun i hi hlt => hdata i ?_⟩
        · show p.oldestIdx + (if p.size < p.vectorReservedSize then p.size + 1 else p.size) ≤ _
          split <;> omega
        · rcases eq_or_ne i p.nextIdx with heq | hne
          · exact Or.inr heq
          · exact Or.inl (hbefore i hi (by omega))

end SameSlots

/-! ## One report -/

/-- Objects that never store a point: with no slot, or fewer. -/
structure NoSlots (p q : PHpoints) : Prop where
  frame : q = { p with storedDistance := q.storedDistance, dataArray := q.dataArray }
  size_eq : p.size = 0
  capacity_le : p.vectorReservedSize ≤ 0

section Insert

variable {haversineDist : Distance} {p q : PHpoints} {v : VehicleData}

/-- What a report does to both objects. -/
theorem SameSlots.insert (h : SameSlots p q) (hdrops : DropsAlike haversineDist (p, q) v) :
    (p.insert haversineDist v).1 = (q.insert haversineDist v).1 ∧
      SameSlots (p.insert haversineDist v).2 (q.insert haversineDist v).2 ∧
      (p.storedDistance = q.storedDistance →
        (p.insert haversineDist v).2.storedDistance =
          (q.insert haversineDist v).2.storedDistance) := by
  have hsizes : q.size = p.size := by rw [h.frame]
  by_cases hsize : 1 ≤ p.size
  · have hprev := h.prev hsize
    have hskips : q.Skips haversineDist (p.dataArray p.prevIdx) v ↔
        p.Skips haversineDist (p.dataArray p.prevIdx) v := by
      rw [h.frame]
      exact Iff.rfl
    rw [insert_of_pos haversineDist v hsize, insert_of_pos haversineDist v (by omega), hprev]
    by_cases hskip : p.Skips haversineDist (p.dataArray p.prevIdx) v
    · rw [if_pos hskip, if_pos (hskips.mpr hskip)]
      exact ⟨rfl, h, id⟩
    · rw [if_neg hskip, if_neg (mt hskips.mp hskip)]
      obtain ⟨k, hk, hp, hq⟩ := h.removeOld hsize (hdrops hsize hskip)
      rw [hp, hq]
      refine ⟨rfl, (h.dropped hk).store v _ _ _, fun hstored => ?_⟩
      show p.leftAfter k + _ = q.leftAfter k + _
      rw [h.leftAfter hk, hstored, sub_self, zero_add]
  · rw [insert_of_empty haversineDist v hsize, insert_of_empty haversineDist v (by omega)]
    exact ⟨rfl, h.store v 0 _ _, id⟩

theorem NoSlots.insert (h : NoSlots p q) :
    (p.insert haversineDist v).1 = (q.insert haversineDist v).1 ∧
      NoSlots (p.insert haversineDist v).2 (q.insert haversineDist v).2 := by
  have hsizes : q.size = p.size := by rw [h.frame]
  have hsize := h.size_eq
  have hcap := h.capacity_le
  rw [insert_of_empty haversineDist v (by omega), insert_of_empty haversineDist v (by omega)]
  refine ⟨rfl, ?_, ?_, hcap⟩
  · rw [h.frame]
    rfl
  · show (if p.size < p.vectorReservedSize then p.size + 1 else p.size) = 0
    rw [if_neg (by omega), hsize]

end Insert

/-! ## Iterating -/

section Iterate

variable {p q : PHpoints} {it : PHDataIter}

/-- On a live point, or past the last one, both calls do the same. -/
theorem SameSlots.iterate_eq (h : SameSlots p q) {j : ℕ}
    (hat : Position p (p.startIterator it) j) (nextPHData : Option PHData) :
    p.iterate it nextPHData = q.iterate it nextPHData := by
  have hstart : q.startIterator it = p.startIterator it := by
    rw [h.frame]
    rfl
  have hbefore : q.indexBefore = p.indexBefore := by
    rw [h.frame]
    rfl
  have hcap : 0 < p.vectorReservedSize := lt_of_le_of_lt h.nextIdx_nonneg h.nextIdx_lt
  unfold iterate
  rw [hstart, hbefore]
  by_cases hj : (j : ℤ) < p.size
  · have hdata : q.dataArray (p.indexBefore (p.startIterator it).cyclicIdx) =
        p.dataArray (p.indexBefore (p.startIterator it).cyclicIdx) := by
      rw [hat.slot_eq]
      exact h.recent hj
    have hnext : (p.startIterator it).idx + 1 < (p.startIterator it).pDataArraySize - 1 →
        q.dataArray (p.indexBefore (p.indexBefore (p.startIterator it).cyclicIdx)) =
          p.dataArray (p.indexBefore (p.indexBefore (p.startIterator it).cyclicIdx)) := by
      intro hlt
      rw [hat.idx_eq, hat.size_eq] at hlt
      rw [hat.slot_eq, indexBefore_slotBack hcap]
      exact h.recent (by push_cast; omega)
    simp only [hdata]
    split
    · split
      · rfl
      · split
        · rename_i hlt
          rw [hnext hlt]
        · rfl
    · rfl
  · have hend : ¬ (p.startIterator it).idx < (p.startIterator it).pDataArraySize := by
      rw [hat.idx_eq, hat.size_eq]
      exact hj
    rw [if_neg hend, if_neg hend]

theorem SameSlots.sameOutput (h : SameSlots p q) : SameOutput (p, q) := by
  refine ⟨by rw [h.frame], fun it hit out k => ?_⟩
  have hat := position_iterators h.nextIdx_nonneg h.nextIdx_lt hit out
  have hiterators : p.iterators it out k = q.iterators it out k := by
    induction k with
    | zero => rfl
    | succ k ih => rw [iterators, iterators, ← ih, h.iterate_eq (hat k)]
  show p.iterate _ _ = q.iterate _ _
  rw [← hiterators]
  exact h.iterate_eq (hat k) (out k)

theorem startIterator_idem (p : PHpoints) (it : PHDataIter) :
    p.startIterator (p.startIterator it) = p.startIterator it := by
  apply startIterator_of_started
  unfold startIterator
  split
  · assumption
  · rfl

/-- Without points every call starts the iterator, if it is new, and ends. -/
theorem iterators_of_none (hsize : p.size = 0) (hit : it.ptrDataArray = false)
    (out : ℕ → Option PHData) (k : ℕ) (nextPHData : Option PHData) :
    p.iterate (p.iterators it out k) nextPHData =
      (.terminateIteration, p.startIterator it, nextPHData) := by
  have hend : ∀ it', p.startIterator it' = p.startIterator it → ∀ nextPHData,
      p.iterate it' nextPHData = (.terminateIteration, p.startIterator it, nextPHData) := by
    intro it' hstart nextPHData
    unfold iterate
    rw [hstart]
    refine if_neg ?_
    unfold startIterator
    rw [if_neg (by rw [hit]; decide), hsize]
    dsimp only
    split <;> decide
  refine hend _ ?_ nextPHData
  induction k with
  | zero => rfl
  | succ k ih => rw [iterators, hend _ ih, startIterator_idem]

theorem NoSlots.sameOutput (h : NoSlots p q) : SameOutput (p, q) := by
  have hsizes : q.size = p.size := by rw [h.frame]
  have hstart : q.startIterator = p.startIterator := by
    rw [h.frame]
    rfl
  refine ⟨hsizes.symm, fun it hit out k => ?_⟩
  rw [nthCall, nthCall, iterators_of_none h.size_eq hit,
    iterators_of_none (hsizes.trans h.size_eq) hit, hstart]

end Iterate

/-! ## Runs -/

/-- What holds of the two objects along a run. -/
def SameWritten (s : PHpoints × PHpoints) : Prop := SameSlots s.1 s.2 ∨ NoSlots s.1 s.2

section Run

variable {haversineDist : Distance} {s s' : PHpoints × PHpoints} {v : VehicleData}

theorem SameWritten.sameOutput (h : SameWritten s) : SameOutput s :=
  h.elim SameSlots.sameOutput NoSlots.sameOutput

theorem SameWritten.sameResult (h : SameWritten s) (hdrops : DropsAlike haversineDist s v) :
    SameResult haversineDist s v :=
  h.elim (fun hslots => (hslots.insert hdrops).1) fun hnone => hnone.insert.1

theorem SameWritten.step (h : SameWritten s) (hdrops : DropsAlike haversineDist s v)
    (hs : insertBoth haversineDist s v = some s') : SameWritten s' := by
  cases hs
  exact h.imp (fun hslots => (hslots.insert hdrops).2.1) fun hnone => hnone.insert.2

/-- Whatever the memory of a new object held and however the cleared one was
used, nothing has been written since. -/
theorem sameWritten_start {fresh used : PHpoints} (hfresh : Constructed fresh)
    (hset : SameSettings fresh used) : SameWritten (fresh, used.clear) := by
  obtain ⟨junk, distanceLimit, minDistM, maxDistM, maxHeadingDiffDegs, removeOnlyOne, iterateFull,
    rfl⟩ := hfresh
  have hframe := hset
  unfold SameSettings at hframe
  rcases lt_or_ge 0 ⌈distanceLimit / minDistM⌉ with hcap | hcap
  · left
    refine ⟨?_, le_refl 0, hcap.le, le_refl 0, hcap, le_refl 0, hcap, Or.inr ⟨le_refl 0, ?_⟩⟩
    · rw [hframe]
      rfl
    · intro i hi hlt
      exact absurd hlt (not_lt.mpr hi)
  · right
    refine ⟨?_, rfl, hcap⟩
    rw [hframe]
    rfl

/-- With equal stored distances the remove policy takes the same turns. -/
theorem dropsAlike_of_storedDistance (h : SameWritten s)
    (hstored : s.1.storedDistance = s.2.storedDistance) : DropsAlike haversineDist s v := by
  intro hsize _
  rcases h with hslots | hnone
  · unfold SameTurns
    split
    · rw [hstored]
    · intro k hk _
      have hle : (k : ℤ) ≤ s.1.size := by omega
      rw [hslots.leftAfter hle, hstored, sub_self, zero_add]
  · have hzero := hnone.size_eq
    omega

/-- They stay equal. -/
theorem storedDistance_step (h : SameWritten s)
    (hstored : s.1.storedDistance = s.2.storedDistance)
    (hs : insertBoth haversineDist s v = some s') :
    s'.1.storedDistance = s'.2.storedDistance := by
  have hdrops : DropsAlike haversineDist s v := dropsAlike_of_storedDistance h hstored
  cases hs
  rcases h with hslots | hnone
  · exact (hslots.insert hdrops).2.2 hstored
  · have hsize := hnone.size_eq
    have hsizes : s.2.size = s.1.size := by rw [hnone.frame]
    show (s.1.insert haversineDist v).2.storedDistance =
      (s.2.insert haversineDist v).2.storedDistance
    rw [insert_of_empty haversineDist v (by omega), insert_of_empty haversineDist v (by omega)]
    exact hstored

end Run

/-- A new object and a cleared one with the same settings stay alike in
every run in whose steps the remove policy takes the same turns in both;
and in every run when the stored distance is the same from the start. -/
theorem alike_of_dropsAlike (haversineDist : Distance) (fresh used : PHpoints)
    (hfresh : Constructed fresh) (hset : SameSettings fresh used) (vs : List VehicleData) :
    (AllSteps (insertBoth haversineDist) (DropsAlike haversineDist) (fresh, used.clear) vs →
      Alike haversineDist (fresh, used.clear) vs) ∧
    (fresh.storedDistance = used.storedDistance →
      Alike haversineDist (fresh, used.clear) vs) := by
  have hstart := sameWritten_start hfresh hset
  have halike : AllSteps (insertBoth haversineDist) (DropsAlike haversineDist)
      (fresh, used.clear) vs → Alike haversineDist (fresh, used.clear) vs := by
    intro hdrops
    have hstep : ∀ s v s', SameWritten s → DropsAlike haversineDist s v →
        insertBoth haversineDist s v = some s' → SameWritten s' := fun _ _ _ h hd hs => h.step hd hs
    exact ⟨allSteps_of_allSteps hstep (fun _ _ h hd => h.sameResult hd) hstart hdrops,
      (allStates_of_allSteps hstep hstart hdrops).mono fun _ h => h.sameOutput⟩
  refine ⟨halike, fun hstored => halike ?_⟩
  have hall : AllStates (insertBoth haversineDist)
      (fun s => SameWritten s ∧ s.1.storedDistance = s.2.storedDistance) (fresh, used.clear) vs :=
    allStates_of_invariant
      (fun _ _ _ hI hs => ⟨hI.1.step (dropsAlike_of_storedDistance hI.1 hI.2) hs,
        storedDistance_step hI.1 hI.2 hs⟩) ⟨hstart, hstored⟩ vs
  intro pre v post s heq hrun
  have hI := hall.allSteps pre v post s heq hrun
  exact dropsAlike_of_storedDistance hI.1 hI.2

/-- A new history of 10 m, of points at least 1 m apart. -/
def newTenMetres : PHpoints := newWith ⟨0, fun _ => default⟩ 10 1 1 10

theorem newTenMetres_constructed : Constructed newTenMetres :=
  ⟨⟨0, fun _ => default⟩, 10, 1, 1, 10, false, false, rfl⟩

/-- One that has stored 10 m. -/
def usedTenMetres : PHpoints :=
  newTenMetres.insertAll latitudeDistance [reportAt 0, reportAt 10]

theorem alike_of_dropsAlike_tenMetres :
    (AllSteps (insertBoth latitudeDistance) (DropsAlike latitudeDistance)
        (newTenMetres, usedTenMetres.clear) [reportAt 0, reportAt 5] →
      Alike latitudeDistance (newTenMetres, usedTenMetres.clear)
        [reportAt 0, reportAt 5]) ∧
    (newTenMetres.storedDistance = usedTenMetres.storedDistance →
      Alike latitudeDistance (newTenMetres, usedTenMetres.clear)
        [reportAt 0, reportAt 5]) :=
  alike_of_dropsAlike latitudeDistance newTenMetres usedTenMetres newTenMetres_constructed
    (sameSettings_insertAll _ _ _) _

/-- The cleared object still counts the 10 m: three points 5 m and 4 m apart
are three points in the new one and two in the cleared one. -/
theorem usedTenMetres_not_alike :
    Constructed newTenMetres ∧ SameSettings newTenMetres usedTenMetres ∧
      ¬ Alike latitudeDistance (newTenMetres, usedTenMetres.clear)
        [reportAt 0, reportAt 5, reportAt 9] := by
  refine ⟨newTenMetres_constructed, sameSettings_insertAll _ _ _, fun halike => ?_⟩
  have hsizes := (halike.2.last rfl).1
  revert hsizes
  decide +kernel

end PHpoints

end SLDM.Store
