/-
SLDM.Store.GarbageCollection — which entries the two delete functions of
the database delete.

The functions are there to delete the entries older than a threshold.
They compute the age as an unsigned 64-bit difference, which agrees with
the exact age unless the entry is stamped after the clock value they read;
then it wraps to almost 2^64 microseconds. `isOld_eq_iff` compares the two
ages for one entry, and `sweep_deletesExactly_iff` lifts it to the whole
database: the functions do what they are for exactly when no entry is
stamped so far after `now` that the wrapped age exceeds the threshold.
-/
import SLDM.Store.LDMMapTheorems
import Mathlib.Tactic.Linarith
import Mathlib.Tactic.Positivity

namespace SLDM.Store

open NestedMap

/-- The exact age of a timestamp, in milliseconds. -/
def ageMs (now timestampUs : UInt64) : ℚ := ((now.toNat : ℚ) - timestampUs.toNat) / 1000

/-- Deletion of exactly the entries older than the threshold. -/
def DeletesExactly (timeMilliseconds : ℚ) (now : UInt64) (m m' : LDMMap) : Prop :=
  ∀ a b, find m'.ldmmap a b = (find m.ldmmap a b).filter fun e =>
    decide (¬ ageMs now e.vehData.timestampUs > timeMilliseconds)

/-- A timestamp the wrapped difference classifies correctly: it is not
after `now`, or so far after it that the wrapped age is within the
threshold. -/
def ClassifiedRight (timeMilliseconds : ℚ) (now timestampUs : UInt64) : Prop :=
  timestampUs ≤ now ∨
    ((2 ^ 64 - (timestampUs.toNat - now.toNat) : ℕ) : ℚ) / 1000 ≤ timeMilliseconds

theorem toNat_sub_of_le {now ts : UInt64} (h : ts ≤ now) :
    (now - ts).toNat = now.toNat - ts.toNat := UInt64.toNat_sub_of_le now ts h

theorem toNat_sub_of_lt {now ts : UInt64} (h : now < ts) :
    (now - ts).toNat = 2 ^ 64 - (ts.toNat - now.toNat) := by
  have hlt : now.toNat < ts.toNat := UInt64.lt_iff_toNat_lt.mp h
  have hts : ts.toNat < 2 ^ 64 := ts.toNat_lt
  rw [UInt64.toNat_sub]
  omega

/-- The test of the code and the exact one agree on an entry exactly when
its timestamp is classified right. -/
theorem isOld_eq_iff {timeMilliseconds : ℚ} (ht : 0 ≤ timeMilliseconds) (now : UInt64)
    (e : ReturnedVehicleData) :
    LDMMap.isOld now timeMilliseconds e
        = decide (ageMs now e.vehData.timestampUs > timeMilliseconds) ↔
      ClassifiedRight timeMilliseconds now e.vehData.timestampUs := by
  generalize hts : e.vehData.timestampUs = ts
  unfold LDMMap.isOld ClassifiedRight ageMs
  rw [hts, decide_eq_decide]
  by_cases h : ts ≤ now
  · have hle : ts.toNat ≤ now.toNat := UInt64.le_iff_toNat_le.mp h
    rw [toNat_sub_of_le h, Nat.cast_sub hle]
    exact ⟨fun _ => Or.inl h, fun _ => Iff.rfl⟩
  · have hlt : now < ts := UInt64.not_le.mp h
    have hnat : (now.toNat : ℚ) < ts.toNat := by exact_mod_cast UInt64.lt_iff_toNat_lt.mp hlt
    have hage : ¬ ((now.toNat : ℚ) - ts.toNat) / 1000 > timeMilliseconds := by
      rw [gt_iff_lt, not_lt]
      have hneg : ((now.toNat : ℚ) - ts.toNat) / 1000 ≤ 0 :=
        div_nonpos_of_nonpos_of_nonneg (by linarith) (by norm_num)
      linarith
    rw [toNat_sub_of_lt hlt, iff_false_right hage, gt_iff_lt, not_lt]
    exact ⟨Or.inr, fun hor => hor.resolve_left h⟩

/-- One deletion pass, with any callback. -/
theorem sweep_deletesExactly_iff {σ : Type} {timeMilliseconds : ℚ} (ht : 0 ≤ timeMilliseconds)
    (now : UInt64) (m : LDMMap) (operFcn : UInt64 → σ → σ) (args : σ) :
    DeletesExactly timeMilliseconds now m
        (m.sweep (LDMMap.isOld now timeMilliseconds) operFcn args).1 ↔
      ∀ a b e, find m.ldmmap a b = some e →
        ClassifiedRight timeMilliseconds now e.vehData.timestampUs := by
  have hmap := (LDMMap.sweep_spec (m := m) (LDMMap.isOld now timeMilliseconds) operFcn args).1
  unfold DeletesExactly
  simp only [hmap, find_retain]
  constructor
  · intro h a b e hfind
    have heq := h a b
    rw [hfind] at heq
    rw [← isOld_eq_iff ht]
    simp only [Option.filter_some, decide_not] at heq
    cases hold : LDMMap.isOld now timeMilliseconds e <;>
      cases hexact : decide (ageMs now e.vehData.timestampUs > timeMilliseconds) <;>
        simp [hold, hexact] at heq ⊢
  · intro h a b
    cases hfind : find m.ldmmap a b with
    | none => rfl
    | some e =>
      have heq := (isOld_eq_iff ht now e).mpr (h a b e hfind)
      simp only [Option.filter_some, heq, decide_not]

/-- Both delete functions delete exactly the entries older than the
threshold if and only if every stored timestamp is classified right. -/
theorem deleteOlderThan_exact_iff (m : LDMMap) (now : UInt64) (timeMilliseconds : ℚ)
    (ht : 0 ≤ timeMilliseconds) :
    (DeletesExactly timeMilliseconds now m (m.deleteOlderThan timeMilliseconds now) ∧
      ∀ (σ : Type) (operFcn : UInt64 → σ → σ) (args : σ),
        DeletesExactly timeMilliseconds now m
          (m.deleteOlderThanAndExecute timeMilliseconds now operFcn args).1) ↔
      ∀ a b e, find m.ldmmap a b = some e →
        ClassifiedRight timeMilliseconds now e.vehData.timestampUs := by
  constructor
  · intro hex
    obtain ⟨h, -⟩ := hex
    exact (sweep_deletesExactly_iff ht now m _ _).mp h
  · intro h
    exact ⟨(sweep_deletesExactly_iff ht now m _ _).mpr h,
      fun σ operFcn args => (sweep_deletesExactly_iff ht now m operFcn args).mpr h⟩

/-! ## An entry stamped one microsecond late -/

/-- A vehicle stamped at 2 s. -/
def lateVehicle : VehicleData :=
  { (default : VehicleData) with stationID := 7, timestampUs := 2000000 }

/-- The database after the insertion of that vehicle. -/
def lateMap : LDMMap := (LDMMap.new.insert (fun _ _ _ _ => 0) lateVehicle ⟨0, fun _ => default⟩).2

/-- It holds the vehicle's entry and nothing else. -/
theorem find_lateMap (a b : UInt32) :
    find lateMap.ldmmap a b = if (a, b) = (keyUpper 7, keyLower 7) then
      some ⟨lateVehicle, some ((PHpoints.new ⟨0, fun _ => default⟩).insert
        (fun _ _ _ _ => 0) lateVehicle).2⟩ else none := by
  obtain ⟨-, -, -, hfind⟩ := LDMMap.insert_absent (fun _ _ _ _ => 0) (m := LDMMap.new)
    (v := lateVehicle) ⟨0, fun _ => default⟩ (by decide) (find_empty _ _)
  rw [← find_empty a b]
  exact hfind a b

/-- With the clock read at 2 s the condition and the deletion agree. -/
theorem lateMap_exact_iff :
    (DeletesExactly 5000 2000000 lateMap (lateMap.deleteOlderThan 5000 2000000) ∧
      ∀ (σ : Type) (operFcn : UInt64 → σ → σ) (args : σ),
        DeletesExactly 5000 2000000 lateMap
          (lateMap.deleteOlderThanAndExecute 5000 2000000 operFcn args).1) ↔
      ∀ a b e, find lateMap.ldmmap a b = some e →
        ClassifiedRight 5000 2000000 e.vehData.timestampUs :=
  deleteOlderThan_exact_iff lateMap 2000000 5000 (by norm_num)

/-- A deletion of everything older than 5 s that read the clock one
microsecond before the vehicle was stamped deletes it. -/
theorem lateMap_not_exact :
    ¬ DeletesExactly 5000 1999999 lateMap (lateMap.deleteOlderThan 5000 1999999) := by
  intro h
  have hclassified := (sweep_deletesExactly_iff (by norm_num) 1999999 lateMap _ _).mp h
  have hstored := find_lateMap (keyUpper 7) (keyLower 7)
  rw [if_pos rfl] at hstored
  rcases hclassified _ _ _ hstored with hle | hwrap
  · exact absurd hle (by decide)
  · have hage : 2 ^ 64 - (lateVehicle.timestampUs.toNat - (1999999 : UInt64).toNat)
        = 18446744073709551615 := by decide
    rw [hage] at hwrap
    norm_num at hwrap

end SLDM.Store
