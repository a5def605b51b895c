/-
SLDM.QuadKey.ScanCoverage — the columns of tiles the scan of an area meets.

The step of the scan is less than the width of a tile at every level
`setLevelOfDetail` admits, so between two scanned longitudes no column is
passed over. But the last step may stop short of the upper bound, and a
column that begins behind the last scanned longitude is missed
(`scan_covers_iff`).
-/
import Mathlib.Tactic.IntervalCases
import SLDM.QuadKey.Tiles

namespace SLDM.QuadKey

/-! ## The longitudes scanned -/

/-- `tileX` of a longitude. -/
def tileX (ts : QuadKeyTS) (longitude : ℚ) : ℕ := tile ts.levelOfDetail ((longitude + 180) / 360)

/-- The longitudes the inner loop visits. -/
def scannedLongitudes (ts : QuadKeyTS) (area : Area) : List ℚ :=
  scanValues area.roundOut.minLongitude area.roundOut.maxLongitude ts.latlonVariation

/-- The last of them. -/
def lastScanned (ts : QuadKeyTS) (area : Area) : ℚ :=
  area.roundOut.minLongitude +
    ⌊(area.roundOut.maxLongitude - area.roundOut.minLongitude) / ts.latlonVariation⌋₊ *
      ts.latlonVariation

/-- The longitude at which a column begins. -/
def columnStart (level column : ℕ) : ℚ :=
  360 * (column / 2 ^ level - 1 / 2 ^ (level + 9)) - 180

/-- No column begins between the last scanned longitude and the bound. -/
def NoColumnLeft (ts : QuadKeyTS) (area : Area) : Prop :=
  ∀ column : ℕ, 0 < column → column < 2 ^ ts.levelOfDetail →
    ¬ (lastScanned ts area < columnStart ts.levelOfDetail column ∧
      columnStart ts.levelOfDetail column ≤ area.maxLongitude)

/-! ## Steps and columns -/

section Columns

variable {ts : QuadKeyTS} {area : Area}

theorem le_tileX_iff {column : ℕ} {longitude : ℚ} (hc : 0 < column) :
    column ≤ tileX ts longitude ↔ column < 2 ^ ts.levelOfDetail ∧
      columnStart ts.levelOfDetail column ≤ longitude := by
  rw [tileX, le_tile_iff hc, tileStart_eq, columnStart]
  refine and_congr_right fun _ => ?_
  constructor
  · intro h
    linarith
  · intro h
    linarith

theorem tileX_mono {a b : ℚ} (h : a ≤ b) : tileX ts a ≤ tileX ts b :=
  tile_mono (by linarith)

/-- The step is less than the width of a column. -/
theorem variation_lt (ts : QuadKeyTS) (level : ℤ) :
    (ts.setLevelOfDetail level).latlonVariation <
      360 / 2 ^ (ts.setLevelOfDetail level).levelOfDetail := by
  obtain ⟨hlo, hhi⟩ := QuadKeyTS.clampLevel_bounds level
  show QuadKeyTS.variationOf (QuadKeyTS.clampLevel level) < 360 / 2 ^ QuadKeyTS.clampLevel level
  generalize QuadKeyTS.clampLevel level = n at hlo hhi
  interval_cases n <;> norm_num [QuadKeyTS.variationOf]

/-- A step that is less than the width of a column passes over none. -/
theorem tileX_step (hstep : ts.latlonVariation < 360 / 2 ^ ts.levelOfDetail) (k : ℚ) :
    tileX ts (k + ts.latlonVariation) ≤ tileX ts k + 1 := by
  by_contra hlt
  have hcolumn : tileX ts k + 2 ≤ tileX ts (k + ts.latlonVariation) := by omega
  obtain ⟨hbound, hbegun⟩ := (le_tileX_iff (by omega)).mp hcolumn
  have hnot : k < columnStart ts.levelOfDetail (tileX ts k + 1) := by
    by_contra hge
    have hle : tileX ts k + 1 ≤ tileX ts k :=
      (le_tileX_iff (Nat.succ_pos _)).mpr ⟨by omega, not_lt.mp hge⟩
    omega
  have hwidth : columnStart ts.levelOfDetail (tileX ts k + 2) =
      columnStart ts.levelOfDetail (tileX ts k + 1) + 360 / 2 ^ ts.levelOfDetail := by
    unfold columnStart
    push_cast
    ring
  linarith

theorem mem_scanned {k : ℚ} : k ∈ scannedLongitudes ts area ↔
    ∃ n : ℕ, k = area.roundOut.minLongitude + n * ts.latlonVariation ∧
      k ≤ area.roundOut.maxLongitude :=
  mem_scanValues ts.variation_pos

/-- The rounding does not shrink the area. -/
theorem roundOut_minLongitude_le (area : Area) :
    area.roundOut.minLongitude ≤ area.minLongitude := by
  have hfloor := Int.floor_le (area.minLongitude * 100)
  show (⌊area.minLongitude * 100⌋ : ℚ) / 100 ≤ area.minLongitude
  linarith

theorem le_roundOut_maxLongitude (area : Area) :
    area.maxLongitude ≤ area.roundOut.maxLongitude := by
  have hceil := Int.le_ceil (area.maxLongitude * 100)
  show area.maxLongitude ≤ (⌈area.maxLongitude * 100⌉ : ℚ) / 100
  linarith

/-- No scanned longitude comes after the last one. -/
theorem le_lastScanned {k : ℚ} (hk : k ∈ scannedLongitudes ts area) :
    k ≤ lastScanned ts area := by
  obtain ⟨n, rfl, hmax⟩ := mem_scanned.mp hk
  have hpos := ts.variation_pos
  have hn : n ≤ ⌊(area.roundOut.maxLongitude - area.roundOut.minLongitude) /
      ts.latlonVariation⌋₊ := by
    refine Nat.le_floor ?_
    rw [le_div_iff₀ hpos]
    linarith
  have hcast : (n : ℚ) * ts.latlonVariation ≤
      ⌊(area.roundOut.maxLongitude - area.roundOut.minLongitude) / ts.latlonVariation⌋₊ *
        ts.latlonVariation :=
    mul_le_mul_of_nonneg_right (by exact_mod_cast hn) hpos.le
  rw [lastScanned]
  linarith

/-- A scanned longitude whose successor is not scanned is the last one. -/
theorem lastScanned_le {k : ℚ} (hk : k ∈ scannedLongitudes ts area)
    (hpast : area.roundOut.maxLongitude < k + ts.latlonVariation) : lastScanned ts area ≤ k := by
  obtain ⟨n, rfl, hmax⟩ := mem_scanned.mp hk
  have hpos := ts.variation_pos
  have hn : ⌊(area.roundOut.maxLongitude - area.roundOut.minLongitude) /
      ts.latlonVariation⌋₊ < n + 1 := by
    rw [Nat.floor_lt' (Nat.succ_ne_zero n), div_lt_iff₀ hpos]
    push_cast
    linarith
  have hcast : (⌊(area.roundOut.maxLongitude - area.roundOut.minLongitude) /
      ts.latlonVariation⌋₊ : ℚ) * ts.latlonVariation ≤ n * ts.latlonVariation :=
    mul_le_mul_of_nonneg_right (by exact_mod_cast Nat.le_of_lt_succ hn) hpos.le
  rw [lastScanned]
  linarith

/-- Every longitude up to the bound follows a scanned one by less than a
step. -/
theorem exists_scanned_before {longitude : ℚ} (hmin : area.minLongitude ≤ longitude)
    (hmax : longitude ≤ area.maxLongitude) :
    ∃ k ∈ scannedLongitudes ts area, k ≤ longitude ∧ longitude < k + ts.latlonVariation := by
  have hpos := ts.variation_pos
  have hlow := roundOut_minLongitude_le area
  have hhigh := le_roundOut_maxLongitude area
  have hnonneg : 0 ≤ (longitude - area.roundOut.minLongitude) / ts.latlonVariation :=
    div_nonneg (by linarith) hpos.le
  have hfloor := Nat.floor_le hnonneg
  have hnext := Nat.lt_floor_add_one ((longitude - area.roundOut.minLongitude) /
    ts.latlonVariation)
  rw [le_div_iff₀ hpos] at hfloor
  rw [div_lt_iff₀ hpos] at hnext
  refine ⟨area.roundOut.minLongitude + ⌊(longitude - area.roundOut.minLongitude) /
    ts.latlonVariation⌋₊ * ts.latlonVariation, mem_scanned.mpr ⟨_, rfl, ?_⟩, ?_, ?_⟩
  · linarith
  · linarith
  · linarith

end Columns

/-! ## Which areas are covered -/

/-- The scan meets the column of every longitude of the area exactly when no
column begins between the last scanned longitude and the upper bound. -/
theorem scan_covers_iff (ts : QuadKeyTS) (level : ℤ) (area : Area)
    (harea : area.minLongitude ≤ area.maxLongitude) :
    (∀ longitude, area.minLongitude ≤ longitude → longitude ≤ area.maxLongitude →
      ∃ k ∈ scannedLongitudes (ts.setLevelOfDetail level) area,
        tileX (ts.setLevelOfDetail level) k = tileX (ts.setLevelOfDetail level) longitude) ↔
    NoColumnLeft (ts.setLevelOfDetail level) area := by
  have hstep := variation_lt ts level
  generalize ts.setLevelOfDetail level = ts at hstep
  have hlow := roundOut_minLongitude_le area
  have hhigh := le_roundOut_maxLongitude area
  constructor
  · intro hcovers column hc hlt hleft
    obtain ⟨hafter, hbound⟩ := hleft
    obtain ⟨k, hk, heq⟩ := hcovers area.maxLongitude harea (le_refl _)
    have hle : column ≤ tileX ts k := by
      rw [heq]
      exact (le_tileX_iff hc).mpr ⟨hlt, hbound⟩
    have hbegun := ((le_tileX_iff hc).mp hle).2
    have hlast := le_lastScanned hk
    linarith
  · intro hno longitude hmin hmax
    obtain ⟨k, hk, hle, hlt⟩ : ∃ k ∈ scannedLongitudes ts area,
        k ≤ longitude ∧ longitude < k + ts.latlonVariation := exists_scanned_before hmin hmax
    by_cases heq : tileX ts k = tileX ts longitude
    · exact ⟨k, hk, heq⟩
    · -- the column begins between `k` and the longitude: the next value lies in it
      have hmono : tileX ts k ≤ tileX ts longitude := tileX_mono hle
      have hpos : 0 < tileX ts longitude := by omega
      obtain ⟨hbound, hbegun⟩ := (le_tileX_iff hpos).mp (Nat.le_refl (tileX ts longitude))
      have hnot : k < columnStart ts.levelOfDetail (tileX ts longitude) := by
        by_contra hge
        have hreach : tileX ts longitude ≤ tileX ts k :=
          (le_tileX_iff hpos).mpr ⟨hbound, not_lt.mp hge⟩
        omega
      refine ⟨k + ts.latlonVariation, ?_, ?_⟩
      · have hlast : ¬ area.roundOut.maxLongitude < k + ts.latlonVariation := by
          intro hpast
          refine hno _ (by omega) hbound ⟨?_, hbegun.trans hmax⟩
          exact (lastScanned_le hk hpast).trans_lt hnot
        obtain ⟨n, rfl, -⟩ := mem_scanned.mp hk
        exact mem_scanned.mpr ⟨n + 1, by push_cast; ring, not_lt.mp hlast⟩
      · have hone := tileX_step hstep k
        have hnext : tileX ts longitude ≤ tileX ts (k + ts.latlonVariation) :=
          tileX_mono hlt.le
        omega

/-- 18 seconds of arc along the equator, rounded out to a hundredth of a
degree. -/
def narrowArea : Area := ⟨0, 0, 1 / 100, 1 / 200⟩

theorem scan_covers_iff_narrowArea :
    (∀ longitude, narrowArea.minLongitude ≤ longitude → longitude ≤ narrowArea.maxLongitude →
      ∃ k ∈ scannedLongitudes (QuadKeyTS.new.setLevelOfDetail 16) narrowArea,
        tileX (QuadKeyTS.new.setLevelOfDetail 16) k =
          tileX (QuadKeyTS.new.setLevelOfDetail 16) longitude) ↔
    NoColumnLeft (QuadKeyTS.new.setLevelOfDetail 16) narrowArea :=
  scan_covers_iff QuadKeyTS.new 16 narrowArea (by decide +kernel)

/-- Three minutes of arc along the equator. -/
def threeMinutes : Area := ⟨0, 0, 1 / 100, 5 / 100⟩

/-- At level 16 the column of the upper bound of `threeMinutes` begins behind
the last scanned longitude. -/
theorem threeMinutes_not_covered :
    ¬ ∀ longitude, threeMinutes.minLongitude ≤ longitude → longitude ≤ threeMinutes.maxLongitude →
      ∃ k ∈ scannedLongitudes (QuadKeyTS.new.setLevelOfDetail 16) threeMinutes,
        tileX (QuadKeyTS.new.setLevelOfDetail 16) k =
          tileX (QuadKeyTS.new.setLevelOfDetail 16) longitude := by
  intro hcovers
  have hbound := hcovers (5 / 100) (by decide +kernel) (by decide +kernel)
  revert hbound
  decide +kernel

end SLDM.QuadKey
