/-
SLDM.Store.PathHistoryIteration — reading a path history with `iterate`.

`Position` says where in the log an iterator stands: its next point is the
`j`-th newest one. Every call that continues moves it on by one, and the
calls end with the live points.
-/
import SLDM.Store.PathHistory

namespace SLDM.Store

open Ring Runs

namespace PHpoints

/-! ## Successive calls -/

/-- The iterator before the `k`-th call. `out` is what the caller's pointer
points to at each call. -/
def iterators (p : PHpoints) (it : PHDataIter) (out : ℕ → Option PHData) : ℕ → PHDataIter
  | 0 => it
  | k + 1 => (p.iterate (iterators p it out k) (out k)).2.1

/-- The `k`-th call. -/
def nthCall (p : PHpoints) (it : PHDataIter) (out : ℕ → Option PHData) (k : ℕ) :
    PHpointsRetval × PHDataIter × Option PHData :=
  p.iterate (p.iterators it out k) (out k)

/-- The newest point is passed over unless `m_iterateFull` is set. -/
def offset (p : PHpoints) : ℕ := if p.iterateFull then 0 else 1

/-- How many points `iterate` has to return. -/
def continuations (p : PHpoints) : ℕ :=
  if p.iterateFull then p.size.toNat else (max 0 (p.size - 1)).toNat

theorem lt_continuations_iff {p : PHpoints} {k : ℕ} :
    k < p.continuations ↔ ((p.offset + k : ℕ) : ℤ) < p.size := by
  unfold continuations offset
  split <;> omega

/-! ## Where an iterator stands -/

/-- A started iterator whose next point is the `j`-th newest one. -/
structure Position (p : PHpoints) (it : PHDataIter) (j : ℕ) : Prop where
  started : it.ptrDataArray = true
  idx_eq : it.idx = j
  size_eq : it.pDataArraySize = p.size
  slot_eq : p.indexBefore it.cyclicIdx = slotBack p.vectorReservedSize p.nextIdx j

section Position

variable {p : PHpoints} {it : PHDataIter} {j : ℕ}

theorem startIterator_of_started (h : it.ptrDataArray = true) : p.startIterator it = it :=
  if_pos h

/-- The slot before `m_next_idx` is the newest one. -/
theorem indexBefore_nextIdx (h0 : 0 ≤ p.nextIdx) (h1 : p.nextIdx < p.vectorReservedSize) :
    p.indexBefore p.nextIdx = slotBack p.vectorReservedSize p.nextIdx 0 := by
  unfold indexBefore
  split
  · rename_i hzero
    rw [hzero, slotBack_of_zero (by omega)]
  · rw [slotBack_zero (by omega) h1]

theorem indexBefore_slotBack (h : 0 < p.vectorReservedSize) :
    p.indexBefore (slotBack p.vectorReservedSize p.nextIdx j) =
      slotBack p.vectorReservedSize p.nextIdx (j + 1) :=
  (slotBack_succ j h).symm

/-- The first call takes a fresh iterator to the first point to return. -/
theorem position_start (h0 : 0 ≤ p.nextIdx) (h1 : p.nextIdx < p.vectorReservedSize)
    (hit : it.ptrDataArray = false) : Position p (p.startIterator it) p.offset := by
  have hbefore := indexBefore_nextIdx h0 h1
  unfold startIterator offset
  rw [if_neg (by rw [hit]; decide)]
  cases p.iterateFull with
  | true => exact ⟨rfl, rfl, rfl, hbefore⟩
  | false =>
    refine ⟨rfl, rfl, rfl, ?_⟩
    show p.indexBefore (p.indexBefore p.nextIdx) = _
    rw [hbefore, indexBefore_slotBack (by omega)]
    rfl

/-- A call on a live point. -/
theorem Position.iterate_of_lt (h : Position p (p.startIterator it) j)
    (nextPHData : Option PHData) (hcap : 0 < p.vectorReservedSize) (hj : (j : ℤ) < p.size) :
    (p.iterate it nextPHData).1 = .continueIteration ∧
      (p.iterate it nextPHData).2.1.data =
        p.dataArray (slotBack p.vectorReservedSize p.nextIdx j) ∧
      Position p (p.iterate it nextPHData).2.1 (j + 1) := by
  have hlt : (p.startIterator it).idx < (p.startIterator it).pDataArraySize := by
    rw [h.idx_eq, h.size_eq]
    exact hj
  have hstarted : ¬ (p.startIterator it).ptrDataArray = false := by
    rw [h.started]
    decide
  unfold iterate
  simp only [if_pos hlt, if_neg hstarted]
  refine ⟨trivial, congrArg p.dataArray h.slot_eq, h.started, ?_, h.size_eq, ?_⟩
  · show (p.startIterator it).idx + 1 = ((j + 1 : ℕ) : ℤ)
    rw [h.idx_eq]
    push_cast
    rfl
  · show p.indexBefore (p.indexBefore (p.startIterator it).cyclicIdx) = _
    rw [h.slot_eq, indexBefore_slotBack hcap]

/-- A call past the last live point. -/
theorem Position.iterate_of_ge (h : Position p (p.startIterator it) j)
    (nextPHData : Option PHData) (hj : ¬ (j : ℤ) < p.size) :
    p.iterate it nextPHData = (.terminateIteration, p.startIterator it, nextPHData) := by
  unfold iterate
  refine if_neg ?_
  rw [h.idx_eq, h.size_eq]
  exact hj

/-- Where the iterator stands before each call. -/
theorem position_iterators (h0 : 0 ≤ p.nextIdx) (h1 : p.nextIdx < p.vectorReservedSize)
    (hit : it.ptrDataArray = false) (out : ℕ → Option PHData) (k : ℕ) :
    Position p (p.startIterator (p.iterators it out k)) (p.offset + min k p.continuations) := by
  induction k with
  | zero =>
    rw [Nat.zero_min]
    exact position_start h0 h1 hit
  | succ k ih =>
    rw [iterators]
    by_cases hk : k < p.continuations
    · rw [Nat.min_eq_left (by omega)] at ih
      obtain ⟨-, -, hnext⟩ := ih.iterate_of_lt (out k) (by omega)
        (lt_continuations_iff.mp hk)
      rw [startIterator_of_started hnext.started, Nat.min_eq_left (by omega)]
      exact hnext
    · rw [Nat.min_eq_right (by omega)] at ih ⊢
      have hlast : ¬ ((p.offset + p.continuations : ℕ) : ℤ) < p.size := by
        rw [← lt_continuations_iff]
        exact Nat.lt_irrefl _
      rw [ih.iterate_of_ge _ hlast, startIterator_of_started ih.started]
      exact ih

end Position

end PHpoints

/-! ## What the calls return -/

namespace History

section Calls

variable {h : History} {it : PHDataIter}

/-- A call on a live point. -/
theorem Window.nthCall_live (hw : Window h) (hit : it.ptrDataArray = false)
    (out : ℕ → Option PHData) {k : ℕ} (hk : k < h.obj.continuations) :
    (h.obj.nthCall it out k).1 = .continueIteration ∧
      (h.obj.nthCall it out k).2.1.data = h.obj.dataArray
        (slotBack h.obj.vectorReservedSize h.obj.nextIdx (h.obj.offset + k)) := by
  have hat := PHpoints.position_iterators hw.recent.next_nonneg hw.recent.next_lt hit out k
  rw [Nat.min_eq_left (by omega)] at hat
  obtain ⟨hret, hdata, -⟩ :=
    hat.iterate_of_lt (out k) hw.capacity_pos (PHpoints.lt_continuations_iff.mp hk)
  exact ⟨hret, hdata⟩

/-- A call past the last live point. -/
theorem Window.nthCall_of_ge (hw : Window h) (hit : it.ptrDataArray = false)
    (out : ℕ → Option PHData) {k : ℕ} (hk : h.obj.continuations ≤ k) :
    (h.obj.nthCall it out k).1 = .terminateIteration := by
  have hat := PHpoints.position_iterators hw.recent.next_nonneg hw.recent.next_lt hit out k
  rw [Nat.min_eq_right hk] at hat
  have hlast : ¬ ((h.obj.offset + h.obj.continuations : ℕ) : ℤ) < h.obj.size := by
    rw [← PHpoints.lt_continuations_iff]
    exact Nat.lt_irrefl _
  exact congrArg Prod.fst (hat.iterate_of_ge (out k) hlast)

end Calls

/-- In every state a run reaches, a fresh iterator returns the newest points
of the log one after the other, as many as there are live points to return,
and ends there. -/
theorem iterate_enumerates (haversineDist : Distance) (p : PHpoints) (hp : p.Fresh)
    (calls : List Call) (h : History)
    (hrun : run (step haversineDist) (start p) calls = some h)
    (it : PHDataIter) (hit : it.ptrDataArray = false) (out : ℕ → Option PHData) :
    (∀ k < h.obj.continuations, ∃ slot,
      h.accepted[h.obj.offset + k]? = some (slot, (h.obj.nthCall it out k).2.1.data) ∧
        (h.obj.nthCall it out k).1 = .continueIteration) ∧
    (∀ k, h.obj.continuations ≤ k → (h.obj.nthCall it out k).1 = .terminateIteration) := by
  have hw : Window h :=
    (allStates_of_invariant window_step (window_start hp) calls).last hrun
  constructor
  · intro k hk
    obtain ⟨hret, hdata⟩ := hw.nthCall_live hit out hk
    have hlog := hw.live (PHpoints.lt_continuations_iff.mp hk)
    rw [← hdata] at hlog
    exact ⟨_, hlog, hret⟩
  · exact fun k hk => hw.nthCall_of_ge hit out hk

/-- An iterator as `PHDATAITER_INITIALIZER` declares it. -/
def newIterator : PHDataIter := ⟨false, default, 0, 0, 0⟩

/-- Three accepted points, the first of which the third has dropped. -/
def threePoints : History :=
  (run (step latitudeDistance) (start (small ⟨0, fun _ => default⟩))
    [atLatitude 0, atLatitude 20, atLatitude 40]).getD (start (small ⟨0, fun _ => default⟩))

theorem run_threePoints :
    run (step latitudeDistance) (start (small ⟨0, fun _ => default⟩))
      [atLatitude 0, atLatitude 20, atLatitude 40] = some threePoints :=
  run_eq_getD latitudeDistance _ _

theorem iterate_enumerates_threePoints :
    (∃ slot, threePoints.accepted[threePoints.obj.offset + 0]? =
        some (slot, (threePoints.obj.nthCall newIterator (fun _ => none) 0).2.1.data) ∧
      (threePoints.obj.nthCall newIterator (fun _ => none) 0).1 = .continueIteration) ∧
    (threePoints.obj.nthCall newIterator (fun _ => none) 1).1 = .terminateIteration := by
  have hall := iterate_enumerates latitudeDistance (small ⟨0, fun _ => default⟩) (small_fresh _) _
    threePoints run_threePoints newIterator rfl fun _ => none
  exact ⟨hall.1 0 (by decide +kernel), hall.2 1 (by decide +kernel)⟩

end History

end SLDM.Store
