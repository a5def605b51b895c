/-
SLDM.Store.Lookahead — the point `iterate` announces as the next one.

A call that continues stores in `*nextPHData` what the following call is to
return, or `INVALID_PHDATA` when there is none. The test that tells these
apart comes after `idx` has been incremented and still compares it with the
size less one, so one call too early there is nothing to announce
(`Position.lookahead`).
-/
import SLDM.Store.PathHistoryIteration

namespace SLDM.Store

open Ring Runs

namespace PHpoints

section Position

variable {p : PHpoints} {it : PHDataIter} {j : ℕ}

/-- What a call that continues stores for the caller. -/
theorem Position.lookahead (h : Position p (p.startIterator it) j)
    (nextPHData : Option PHData) (hcap : 0 < p.vectorReservedSize) (hj : (j : ℤ) < p.size) :
    (p.iterate it nextPHData).2.2 = nextPHData.map fun _ =>
      if (j : ℤ) + 2 < p.size then p.dataArray (slotBack p.vectorReservedSize p.nextIdx (j + 1))
      else invalidPHData := by
  have hlt : (p.startIterator it).idx < (p.startIterator it).pDataArraySize := by
    rw [h.idx_eq, h.size_eq]
    exact hj
  have hstarted : ¬ (p.startIterator it).ptrDataArray = false := by
    rw [h.started]
    decide
  have hnext : p.indexBefore (p.indexBefore (p.startIterator it).cyclicIdx) =
      slotBack p.vectorReservedSize p.nextIdx (j + 1) := by
    rw [h.slot_eq, indexBefore_slotBack hcap]
  have htest : (p.startIterator it).idx + 1 < (p.startIterator it).pDataArraySize - 1 ↔
      (j : ℤ) + 2 < p.size := by
    rw [h.idx_eq, h.size_eq]
    omega
  unfold iterate
  simp only [if_pos hlt, if_neg hstarted, hnext, htest]

end Position

/-- A call with a pointer that continues announces the point the following
call returns, and `INVALID_PHDATA` exactly when that call terminates. -/
def LookaheadAgrees (p : PHpoints) (it : PHDataIter) : Prop :=
  ∀ (out : ℕ → Option PHData) (k : ℕ) (next : PHData),
    (p.nthCall it out k).1 = .continueIteration → (p.nthCall it out k).2.2 = some next →
    ((p.nthCall it out (k + 1)).1 = .continueIteration →
      next = (p.nthCall it out (k + 1)).2.1.data) ∧
    (next = invalidPHData ↔ (p.nthCall it out (k + 1)).1 = .terminateIteration)

end PHpoints

namespace History

section Lookahead

variable {h : History} {it : PHDataIter}

/-- A call on a live point, with what it returns and what it announces. -/
theorem Window.nthCall_of_lt (hw : Window h) (hit : it.ptrDataArray = false)
    (out : ℕ → Option PHData) {k : ℕ} (hk : k < h.obj.continuations) :
    (h.obj.nthCall it out k).1 = .continueIteration ∧
      (h.obj.nthCall it out k).2.1.data = h.obj.dataArray
        (slotBack h.obj.vectorReservedSize h.obj.nextIdx (h.obj.offset + k)) ∧
      (h.obj.nthCall it out k).2.2 = (out k).map fun _ =>
        if k + 2 < h.obj.continuations then h.obj.dataArray
          (slotBack h.obj.vectorReservedSize h.obj.nextIdx (h.obj.offset + (k + 1)))
        else invalidPHData := by
  have hat := PHpoints.position_iterators hw.recent.next_nonneg hw.recent.next_lt hit out k
  rw [Nat.min_eq_left (by omega)] at hat
  have hlive := PHpoints.lt_continuations_iff.mp hk
  obtain ⟨hret, hdata⟩ := hw.nthCall_live hit out hk
  refine ⟨hret, hdata, ?_⟩
  have htest : ((h.obj.offset + k : ℕ) : ℤ) + 2 < h.obj.size ↔ k + 2 < h.obj.continuations := by
    rw [PHpoints.lt_continuations_iff]
    push_cast
    omega
  have hnext := hat.lookahead (out k) hw.capacity_pos hlive
  simp only [htest] at hnext
  exact hnext

/-- The last call but one announces nothing. -/
theorem Window.not_lookaheadAgrees (hw : Window h) (hit : it.ptrDataArray = false)
    (hmany : 1 < h.obj.continuations) : ¬ h.obj.LookaheadAgrees it := by
  intro hagrees
  obtain ⟨k, hk⟩ : ∃ k, h.obj.continuations = k + 2 := ⟨h.obj.continuations - 2, by omega⟩
  obtain ⟨hret, -, hnext⟩ :=
    hw.nthCall_of_lt hit (fun _ => some invalidPHData) (k := k) (by omega)
  rw [if_neg (by omega)] at hnext
  obtain ⟨hret', -, -⟩ :=
    hw.nthCall_of_lt hit (fun _ => some invalidPHData) (k := k + 1) (by omega)
  have hterm := (hagrees _ k invalidPHData hret hnext).2.mp rfl
  rw [hret'] at hterm
  cases hterm

/-- The calls before announce what follows. -/
theorem Window.lookahead_eq (hw : Window h) (hit : it.ptrDataArray = false)
    (out : ℕ → Option PHData) {k : ℕ} {next : PHData} (hk : k + 2 < h.obj.continuations)
    (hnext : (h.obj.nthCall it out k).2.2 = some next) :
    next = (h.obj.nthCall it out (k + 1)).2.1.data := by
  obtain ⟨-, -, hnext'⟩ := hw.nthCall_of_lt hit out (k := k) (by omega)
  obtain ⟨-, hdata, -⟩ := hw.nthCall_of_lt hit out (k := k + 1) (by omega)
  rw [if_pos hk, hnext] at hnext'
  obtain ⟨_, -, heq⟩ := Option.map_eq_some_iff.mp hnext'.symm
  rw [hdata, heq]

end Lookahead

/-- In every state a run reaches, the lookahead of `iterate` agrees with the
iteration exactly when there is at most one point to return; with more, it
is wrong at the last call but one only. -/
theorem lookaheadAgrees_iff (haversineDist : Distance) (p : PHpoints) (hp : p.Fresh)
    (calls : List Call) (h : History)
    (hrun : run (step haversineDist) (start p) calls = some h)
    (it : PHDataIter) (hit : it.ptrDataArray = false) :
    (h.obj.LookaheadAgrees it ↔ h.obj.continuations ≤ 1) ∧
    ∀ (out : ℕ → Option PHData) (k : ℕ) (next : PHData), k + 2 < h.obj.continuations →
      (h.obj.nthCall it out k).2.2 = some next →
      next = (h.obj.nthCall it out (k + 1)).2.1.data := by
  have hw : Window h :=
    (allStates_of_invariant window_step (window_start hp) calls).last hrun
  refine ⟨⟨fun hagrees => ?_, fun hone out k next hret hnext => ?_⟩,
    fun out k next hk hnext => hw.lookahead_eq hit out hk hnext⟩
  · by_contra hmany
    exact hw.not_lookaheadAgrees hit (by omega) hagrees
  · have hk : k < h.obj.continuations := by
      by_contra hge
      rw [hw.nthCall_of_ge hit out (by omega)] at hret
      cases hret
    have hterm := hw.nthCall_of_ge hit out (k := k + 1) (by omega)
    obtain ⟨-, -, hnext'⟩ := hw.nthCall_of_lt hit out hk
    rw [if_neg (by omega), hnext] at hnext'
    obtain ⟨_, -, heq⟩ := Option.map_eq_some_iff.mp hnext'.symm
    refine ⟨fun hcont => ?_, iff_of_true heq.symm hterm⟩
    rw [hterm] at hcont
    cases hcont

theorem lookaheadAgrees_iff_threePoints :
    (threePoints.obj.LookaheadAgrees newIterator ↔ threePoints.obj.continuations ≤ 1) ∧
    ∀ (out : ℕ → Option PHData) (k : ℕ) (next : PHData), k + 2 < threePoints.obj.continuations →
      (threePoints.obj.nthCall newIterator out k).2.2 = some next →
      next = (threePoints.obj.nthCall newIterator out (k + 1)).2.1.data :=
  lookaheadAgrees_iff latitudeDistance (small ⟨0, fun _ => default⟩) (small_fresh _) _
    threePoints run_threePoints newIterator rfl

/-- Two points, both to be returned. -/
def twoPoints : History :=
  (run (step latitudeDistance) (start (small ⟨0, fun _ => default⟩))
    [.setIterateFull true, atLatitude 0, atLatitude 20]).getD (start (small ⟨0, fun _ => default⟩))

/-- The first call announces no further point, and the second returns one. -/
theorem twoPoints_not_lookaheadAgrees :
    run (step latitudeDistance) (start (small ⟨0, fun _ => default⟩))
        [.setIterateFull true, atLatitude 0, atLatitude 20] = some twoPoints ∧
      ¬ twoPoints.obj.LookaheadAgrees newIterator := by
  constructor
  · exact run_eq_getD latitudeDistance _ _
  · intro hagrees
    have hterm := (hagrees (fun _ => some invalidPHData) 0 invalidPHData
      (by decide +kernel) (by decide +kernel)).2.mp rfl
    revert hterm
    decide +kernel

end History

end SLDM.Store
