/-
SLDM.Store.RingBookkeeping — the four variables of the path history ring.

`m_next_idx`, `m_oldest_idx`, `m_PHpoints_size` and `m_stored_distance`
describe one window of live slots (`Bookkeeping`). Dropping the oldest
point keeps them together, and so does a new point while a slot is free.
A new point of a full ring overwrites the oldest one, but neither moves
`m_oldest_idx` nor takes its distance off. `bookkeeping_run_iff` says that
nothing else goes wrong, with the default remove policy and exact
distances.
-/
import SLDM.Store.PathHistory

namespace SLDM.Store

open Ring Runs

namespace PHpoints

/-! ## One window -/

/-- The variables describe one window: the live slots are those from
`m_oldest_idx` to the one before `m_next_idx`, and `m_stored_distance` is
the sum of their distances. -/
structure Bookkeeping (p : PHpoints) : Prop where
  size_nonneg : 0 ≤ p.size
  size_le : p.size ≤ p.vectorReservedSize
  nextIdx_nonneg : 0 ≤ p.nextIdx
  nextIdx_lt : p.nextIdx < p.vectorReservedSize
  oldestIdx_nonneg : 0 ≤ p.oldestIdx
  oldestIdx_lt : p.oldestIdx < p.vectorReservedSize
  oldestIdx_eq : p.oldestIdx = (p.nextIdx - p.size) % p.vectorReservedSize
  storedDistance_eq : p.storedDistance =
    windowSum PHData.pointDistance p.vectorReservedSize p.dataArray p.oldestIdx p.size.toNat

section Bookkeeping

variable {p : PHpoints}

theorem bookkeeping_fresh (hp : p.Fresh) (hstored : p.storedDistance = 0) : Bookkeeping p := by
  have hcap := hp.capacity_pos
  constructor
  all_goals simp only [hp.size_eq, hp.nextIdx_eq, hp.oldestIdx_eq]
  · exact Int.le_refl 0
  · omega
  · exact Int.le_refl 0
  · omega
  · exact Int.le_refl 0
  · omega
  · rw [sub_zero, Int.zero_emod]
  · exact hstored

theorem Bookkeeping.dropOldest (hb : Bookkeeping p) (hsize : 1 ≤ p.size) :
    Bookkeeping p.dropOldest := by
  have h0 := hb.oldestIdx_nonneg
  have h1 := hb.oldestIdx_lt
  have hle := hb.size_le
  have hmove : p.dropOldest.oldestIdx = (p.oldestIdx + 1) % p.vectorReservedSize :=
    Int.tmod_eq_emod_of_nonneg (by omega)
  have hsplit : p.size.toNat = (p.size - 1).toNat + 1 := by omega
  refine ⟨?_, ?_, hb.nextIdx_nonneg, hb.nextIdx_lt, ?_, ?_, ?_, ?_⟩
  · show 0 ≤ p.size - 1
    omega
  · show p.size - 1 ≤ p.vectorReservedSize
    omega
  · rw [hmove]
    exact Int.emod_nonneg _ (by omega)
  · rw [hmove]
    exact Int.emod_lt_of_pos _ (by show 0 < p.vectorReservedSize; omega)
  · show p.dropOldest.oldestIdx = (p.nextIdx - (p.size - 1)) % p.vectorReservedSize
    rw [hmove, hb.oldestIdx_eq, Int.emod_add_emod, sub_add]
  · show p.storedDistance - (p.dataArray p.oldestIdx).pointDistance = windowSum
      PHData.pointDistance p.vectorReservedSize p.dataArray p.dropOldest.oldestIdx
      (p.size - 1).toNat
    rw [hmove, hb.storedDistance_eq, hsplit, windowSum_succ _ h0 h1, add_sub_cancel_right]

theorem Bookkeeping.trim (hb : Bookkeeping p) (turns : ℕ) : Bookkeeping (trim turns p) :=
  trim_invariant (fun _ hq hsize => hq.dropOldest hsize) hb

/-- A new point goes to the slot after the window. -/
theorem Bookkeeping.store (hb : Bookkeeping p) (hfree : p.size < p.vectorReservedSize)
    (v : VehicleData) (pointDist : ℚ) :
    Bookkeeping
      (PHpoints.store { p with storedDistance := p.storedDistance + pointDist } v pointDist) := by
  have h0 := hb.size_nonneg
  have hnext := hb.nextIdx_nonneg
  have hslot : p.nextIdx = (p.oldestIdx + p.size.toNat) % p.vectorReservedSize := by
    rw [hb.oldestIdx_eq, Int.emod_add_emod, Int.toNat_of_nonneg h0, sub_add_cancel,
      Int.emod_eq_of_lt hnext hb.nextIdx_lt]
  have hmove : (p.nextIdx + 1).tmod p.vectorReservedSize =
      (p.nextIdx + 1) % p.vectorReservedSize := Int.tmod_eq_emod_of_nonneg (by omega)
  have hsize : (PHpoints.store { p with storedDistance := p.storedDistance + pointDist } v
      pointDist).size = p.size + 1 := if_pos hfree
  refine ⟨?_, ?_, ?_, ?_, hb.oldestIdx_nonneg, hb.oldestIdx_lt, ?_, ?_⟩
  · rw [hsize]
    omega
  · rw [hsize]
    exact hfree
  · show 0 ≤ (p.nextIdx + 1).tmod p.vectorReservedSize
    rw [hmove]
    exact Int.emod_nonneg _ (by omega)
  · show (p.nextIdx + 1).tmod p.vectorReservedSize < p.vectorReservedSize
    rw [hmove]
    exact Int.emod_lt_of_pos _ (by omega)
  · rw [hsize]
    show p.oldestIdx =
      ((p.nextIdx + 1).tmod p.vectorReservedSize - (p.size + 1)) % p.vectorReservedSize
    rw [hmove, Int.emod_sub_emod, add_sub_add_right_eq_sub]
    exact hb.oldestIdx_eq
  · rw [hsize]
    show p.storedDistance + pointDist = windowSum PHData.pointDistance p.vectorReservedSize
      (Function.update p.dataArray p.nextIdx (pointOf v pointDist)) p.oldestIdx (p.size + 1).toNat
    have hlt : (p.size.toNat : ℤ) < p.vectorReservedSize := by omega
    have hsucc : (p.size + 1).toNat = p.size.toNat + 1 := by omega
    rw [hsucc, hslot, windowSum_write _ hlt, hb.storedDistance_eq]
    rfl

/-- In a ring of one slot the new point replaces the window. -/
theorem Bookkeeping.store_one (hb : Bookkeeping p) (hcap : p.vectorReservedSize = 1)
    (hsize : 1 ≤ p.size) (hstored : p.storedDistance = 0) (v : VehicleData) (pointDist : ℚ) :
    Bookkeeping
      (PHpoints.store { p with storedDistance := p.storedDistance + pointDist } v pointDist) := by
  have hle := hb.size_le
  have hnext : p.nextIdx = 0 := by
    have h0 := hb.nextIdx_nonneg
    have h1 := hb.nextIdx_lt
    omega
  have holdest : p.oldestIdx = 0 := by
    have h0 := hb.oldestIdx_nonneg
    have h1 := hb.oldestIdx_lt
    omega
  have hone : p.size = 1 := by omega
  have heq : PHpoints.store { p with storedDistance := p.storedDistance + pointDist } v pointDist =
      { p with
        storedDistance := pointDist
        size := 1
        dataArray := Function.update p.dataArray 0 (pointOf v pointDist)
        nextIdx := 0
        oldestIdx := 0
        vectorReservedSize := 1 } := by
    simp only [PHpoints.store, hone, hcap, hnext, holdest, hstored, zero_add]
    rfl
  rw [heq]
  constructor <;> simp [windowSum, pointOf]

/-- In a full ring of more slots, or with some distance stored, it does not. -/
theorem Bookkeeping.not_store_full (hb : Bookkeeping p) (hfull : p.size = p.vectorReservedSize)
    (hbad : ¬ (p.vectorReservedSize = 1 ∧ p.storedDistance = 0)) (v : VehicleData)
    (pointDist : ℚ) :
    ¬ Bookkeeping
      (PHpoints.store { p with storedDistance := p.storedDistance + pointDist } v pointDist) := by
  intro hb'
  have h0 := hb.nextIdx_nonneg
  have h1 := hb.nextIdx_lt
  have hsize : (PHpoints.store { p with storedDistance := p.storedDistance + pointDist } v
      pointDist).size = p.vectorReservedSize :=
    (if_neg (by show ¬ p.size < p.vectorReservedSize; omega)).trans hfull
  have holdest : p.oldestIdx = p.nextIdx := by
    rw [hb.oldestIdx_eq, hfull, Int.sub_emod_right, Int.emod_eq_of_lt h0 h1]
  -- the oldest slot would have to move on with the next one
  have hmoved : p.nextIdx % p.vectorReservedSize = (p.nextIdx + 1) % p.vectorReservedSize := by
    have hidx := hb'.oldestIdx_eq
    rw [hsize] at hidx
    have hidx' : p.oldestIdx = ((p.nextIdx + 1).tmod p.vectorReservedSize -
        p.vectorReservedSize) % p.vectorReservedSize := hidx
    rw [Int.tmod_eq_emod_of_nonneg (by omega), Int.sub_emod_right, Int.emod_emod, holdest] at hidx'
    rw [← hidx', Int.emod_eq_of_lt h0 h1]
  have hone : p.vectorReservedSize = 1 := by
    by_contra hne
    exact emod_ne_of_lt (by omega) (by omega) hmoved
  have hnext : p.nextIdx = 0 := by omega
  have hstored := hb'.storedDistance_eq
  rw [hsize] at hstored
  have hstored' : p.storedDistance + pointDist = windowSum PHData.pointDistance
      p.vectorReservedSize (Function.update p.dataArray p.nextIdx (pointOf v pointDist))
      p.oldestIdx p.vectorReservedSize.toNat := hstored
  simp only [windowSum, hone, holdest, hnext, Int.toNat_one, Finset.sum_range_one, Nat.cast_zero,
    add_zero,
    Int.zero_emod, Function.update_self, pointOf, add_eq_right] at hstored'
  exact hbad ⟨hone, hstored'⟩

end Bookkeeping

/-! ## The default remove policy -/

section RemoveOld

variable {p : PHpoints}

theorem removeOld_of_default (hpolicy : p.removeOnlyOne = false) :
    p.removeOld = trim p.size.toNat p := by
  unfold removeOld
  rw [if_neg (by rw [hpolicy]; decide)]

/-- Nothing is dropped while the loop condition fails. -/
theorem removeOld_of_short (hpolicy : p.removeOnlyOne = false)
    (hshort : ¬ (1 < p.size ∧ p.distanceLimit ≤ p.storedDistance)) : p.removeOld = p := by
  rw [removeOld_of_default hpolicy]
  cases p.size.toNat with
  | zero => rfl
  | succ turns =>
    rw [trim, if_neg]
    intro hcond
    exact hshort ⟨hcond.2, hcond.1⟩

/-- Otherwise at least one point is. -/
theorem removeOld_size_lt (hpolicy : p.removeOnlyOne = false)
    (hlong : 1 < p.size ∧ p.distanceLimit ≤ p.storedDistance) : p.removeOld.size < p.size := by
  rw [removeOld_of_default hpolicy]
  obtain ⟨turns, hturns⟩ : ∃ turns, p.size.toNat = turns + 1 := ⟨p.size.toNat - 1, by omega⟩
  have hdropped : Remains p.dropOldest (trim turns p.dropOldest) :=
    trim_invariant (fun _ hq hone => hq.dropOldest hone)
      (remains_refl (by show 0 ≤ p.size - 1; omega))
  obtain ⟨_, size, _, heq, -, hle⟩ := hdropped
  rw [hturns, trim, if_pos ⟨hlong.2, hlong.1⟩, heq]
  exact Int.lt_of_le_sub_one hle

end RemoveOld

end PHpoints

/-! ## Runs -/

namespace History

/-- One report. -/
def insertStep (haversineDist : Distance) (h : History) (v : VehicleData) : Option History :=
  step haversineDist h (.insert v)

/-- Whenever the trimming loop goes on, `m_oldest_idx` is the slot of the
oldest live point. -/
def TrimsOldest (h : History) : Prop :=
  ∀ turns, 1 < (PHpoints.trim turns h.obj).size →
    h.accepted[((PHpoints.trim turns h.obj).size - 1).toNat]? =
      some ((PHpoints.trim turns h.obj).oldestIdx,
        (PHpoints.trim turns h.obj).dataArray (PHpoints.trim turns h.obj).oldestIdx)

/-- The variables agree, and trimming takes off the right distances. -/
def KeepsBooks (h : History) : Prop := h.obj.Bookkeeping ∧ TrimsOldest h

/-- A point that is not skipped finds a free slot, or a slot that trimming
frees, or it replaces a point without distance in a ring of one slot. -/
def FindsRoom (haversineDist : Distance) (h : History) (v : VehicleData) : Prop :=
  1 ≤ h.obj.size → ¬ h.obj.Skips haversineDist (h.obj.dataArray h.obj.prevIdx) v →
    h.obj.size < h.obj.vectorReservedSize ∨
      (1 < h.obj.size ∧ h.obj.distanceLimit ≤ h.obj.storedDistance) ∨
      (h.obj.vectorReservedSize = 1 ∧ h.obj.storedDistance = 0)

/-- What holds along a run while the bookkeeping is right. -/
structure Ledger (h : History) : Prop where
  window : Window h
  books : h.obj.Bookkeeping
  policy : h.obj.removeOnlyOne = false

theorem Ledger.trimsOldest {h : History} (hl : Ledger h) : TrimsOldest h := by
  intro turns hsize
  have hbooks := hl.books.trim turns
  have hremains : h.obj.Remains (PHpoints.trim turns h.obj) :=
    PHpoints.trim_invariant (fun _ hq hone => hq.dropOldest hone)
      (PHpoints.remains_refl hl.books.size_nonneg)
  have holdest := hbooks.oldestIdx_eq
  obtain ⟨storedDistance, size, oldestIdx, heq, h0, hle⟩ := hremains
  rw [heq] at hsize holdest ⊢
  have hsize' : 1 < size := hsize
  have hlive := hl.window.live (j := (size - 1).toNat) (by omega)
  have hslot : slotBack h.obj.vectorReservedSize h.obj.nextIdx (size - 1).toNat = oldestIdx := by
    have hidx : oldestIdx = (h.obj.nextIdx - size) % h.obj.vectorReservedSize := holdest
    rw [hidx, slotBack, Int.toNat_of_nonneg (by omega), sub_sub, add_sub_cancel]
  rw [hslot] at hlive
  exact hlive

section Step

variable {haversineDist : Distance} {h h' : History} {v : VehicleData}

/-- The object after an accepted report of a non-empty history. -/
theorem obj_of_accepted {p : PHpoints} (hsize : 1 ≤ h.obj.size)
    (hskip : ¬ h.obj.Skips haversineDist (h.obj.dataArray h.obj.prevIdx) v)
    (heq : h.obj.insert haversineDist v = (.inserted, p)) :
    p = PHpoints.store
      { h.obj.removeOld with
        storedDistance := h.obj.removeOld.storedDistance +
          PHpoints.distanceTo haversineDist (h.obj.dataArray h.obj.prevIdx) v }
      v (PHpoints.distanceTo haversineDist (h.obj.dataArray h.obj.prevIdx) v) := by
  rw [PHpoints.insert_of_pos haversineDist v hsize, if_neg hskip, Prod.mk.injEq] at heq
  exact heq.2.symm

theorem policy_of_accepted {p : PHpoints} {pointDist : ℚ} (hacc : h.obj.Accepted v pointDist p) :
    p.removeOnlyOne = h.obj.removeOnlyOne := by
  rw [hacc.frame]

/-- A report that finds room keeps the ledger. -/
theorem ledger_step (h : History) (v : VehicleData) (h' : History) (hl : Ledger h)
    (hroom : FindsRoom haversineDist h v) (hs : insertStep haversineDist h v = some h') :
    Ledger h' := by
  have hwindow := window_step h (.insert v) h' hl.window hs
  rcases step_insert hl.window hs with
    ⟨-, -, rfl⟩ | ⟨p, heq, ⟨hsize, hskip, hacc, rfl⟩ | ⟨hsize, hacc, rfl⟩⟩
  · exact hl
  · refine ⟨hwindow, ?_, (policy_of_accepted hacc).trans hl.policy⟩
    show p.Bookkeeping
    rw [obj_of_accepted hsize hskip heq]
    have hbooks : h.obj.removeOld.Bookkeeping :=
      PHpoints.removeOld_invariant (fun _ hq hone => hq.dropOldest hone) hl.books hsize
    obtain ⟨storedDistance, size, oldestIdx, hold, -, hle⟩ := PHpoints.remains_removeOld hsize
    have hcap : h.obj.removeOld.vectorReservedSize = h.obj.vectorReservedSize := by rw [hold]
    have hleft : h.obj.removeOld.size ≤ h.obj.size := by
      rw [hold]
      exact hle
    have hfits := hl.books.size_le
    rcases hroom hsize hskip with hfree | hlong | ⟨hone, hzero⟩
    · exact hbooks.store (by omega) v _
    · have hlt := PHpoints.removeOld_size_lt hl.policy hlong
      exact hbooks.store (by omega) v _
    · have hkept := PHpoints.removeOld_of_short hl.policy (by omega)
      rw [hkept]
      exact hl.books.store_one hone hsize hzero v _
  · refine ⟨hwindow, ?_, (policy_of_accepted hacc).trans hl.policy⟩
    show p.Bookkeeping
    have hcap := hl.window.capacity_pos
    have hstored := hl.books.store (by omega) v 0
    rw [add_zero] at hstored
    rw [PHpoints.insert_of_empty haversineDist v (by omega), Prod.mk.injEq] at heq
    rw [← heq.2]
    exact hstored

/-- A report that finds none is written over the oldest point. -/
theorem not_bookkeeping_of_full (hl : Ledger h) (hroom : ¬ FindsRoom haversineDist h v) :
    ∃ h', insertStep haversineDist h v = some h' ∧ ¬ KeepsBooks h' := by
  obtain ⟨h', hs⟩ := run_total haversineDist h [.insert v]
  rw [run_cons, Option.bind_eq_some_iff] at hs
  obtain ⟨h'', hs, -⟩ := hs
  refine ⟨h'', hs, ?_⟩
  simp only [FindsRoom, not_forall, not_or, exists_prop] at hroom
  obtain ⟨hsize, hskip, hfull, hshort, hone⟩ := hroom
  rcases step_insert hl.window hs with
    ⟨-, hskip', -⟩ | ⟨p, heq, ⟨-, -, -, rfl⟩ | ⟨hempty, -, -⟩⟩
  · exact absurd hskip' hskip
  · intro hkeeps
    have hbooks : p.Bookkeeping := hkeeps.1
    have hfits := hl.books.size_le
    rw [obj_of_accepted hsize hskip heq, PHpoints.removeOld_of_short hl.policy hshort] at hbooks
    exact hl.books.not_store_full (by omega) hone v _ hbooks
  · omega

end Step

/-- Along every run of reports from a new object with the default remove
policy and no distance stored, the variables agree in every state exactly
when every accepted report finds room. -/
theorem bookkeeping_run_iff (haversineDist : Distance) (dataArray : ℤ → PHData)
    (distanceLimit minDistM maxDistM maxHeadingDiffDegs : ℚ)
    (hcap : 1 ≤ ⌈distanceLimit / minDistM⌉) (vs : List VehicleData) :
    AllStates (insertStep haversineDist) KeepsBooks
        (start (PHpoints.newWith ⟨0, dataArray⟩ distanceLimit minDistM maxDistM
          maxHeadingDiffDegs)) vs ↔
      AllSteps (insertStep haversineDist) (FindsRoom haversineDist)
        (start (PHpoints.newWith ⟨0, dataArray⟩ distanceLimit minDistM maxDistM
          maxHeadingDiffDegs)) vs := by
  have hfresh := PHpoints.fresh_newWith ⟨0, dataArray⟩ maxDistM maxHeadingDiffDegs hcap
  have hstart : Ledger (start (PHpoints.newWith ⟨0, dataArray⟩ distanceLimit minDistM maxDistM
      maxHeadingDiffDegs)) :=
    ⟨window_start hfresh, PHpoints.bookkeeping_fresh hfresh rfl, rfl⟩
  constructor
  · exact allSteps_of_allStates ledger_step (fun h v hl hroom => not_bookkeeping_of_full hl hroom)
      hstart
  · intro hroom
    exact (allStates_of_allSteps ledger_step hstart hroom).mono fun h hl =>
      ⟨hl.books, hl.trimsOldest⟩

/-- A report of a vehicle at this latitude. -/
def reportAt (lat : ℚ) : VehicleData := { (default : VehicleData) with lat }

theorem bookkeeping_run_iff_three :
    AllStates (insertStep latitudeDistance) KeepsBooks
        (start (PHpoints.newWith ⟨0, fun _ => default⟩ 3 1 20 10))
        [reportAt 0, reportAt 20, reportAt 40] ↔
      AllSteps (insertStep latitudeDistance) (FindsRoom latitudeDistance)
        (start (PHpoints.newWith ⟨0, fun _ => default⟩ 3 1 20 10))
        [reportAt 0, reportAt 20, reportAt 40] :=
  bookkeeping_run_iff latitudeDistance (fun _ => default) 3 1 20 10 (by decide +kernel) _

/-- Two slots and three points 1 m apart: the third is written over the
first, which stays the oldest one. -/
theorem third_point_of_two :
    ¬ AllStates (insertStep latitudeDistance) KeepsBooks
        (start (PHpoints.newWith ⟨0, fun _ => default⟩ 2 1 1 10))
        [reportAt 0, reportAt 1, reportAt 2] := by
  intro hall
  have holdest := hall.mono fun h hkeeps => hkeeps.1.oldestIdx_eq
  revert holdest
  decide +kernel

end History

end SLDM.Store
