/-
SLDM.QuadKey.CacheReuse — quadkeys taken from the file of an earlier call.

A cache is accepted when its four numbers are within 0.0001 of the bounds
of the call; the scan rounds these bounds to hundredths, and the level of
detail is not in the file at all. `ReuseAgrees` says that an accepted
cache stands for the computation it replaces, `reuseAgrees_iff` when it
does: the levels must agree, and no multiple of 0.01 may lie between the
bounds of the two calls.
-/
import SLDM.QuadKey.FilterCache

namespace SLDM.QuadKey

open Lines Decimal

/-- `LatLonToQuadKeyRange` scans the same grid in both calls. -/
def SameGrid (ts : QuadKeyTS) (a : Area) (ts' : QuadKeyTS) (b : Area) : Prop :=
  ts.levelOfDetail = ts'.levelOfDetail ∧ a.roundOut = b.roundOut

/-- The call for `b` that took its filter string from the file of a call
for `a` could have computed it. -/
def ReuseAgrees (p : Platform) (ts : QuadKeyTS) (a : Area) (ts' : QuadKeyTS) (b : Area)
    (filterString : Text) : Prop :=
  SameGrid ts a ts' b ∧ ∀ canWrite, ∃ fresh, getQuadKeyFilter p ts' canWrite none b = .ok fresh ∧
    fresh.filterString = filterString

/-! ## Hundredths -/

/-- No multiple of 0.01 is above one lower bound and not above the other. -/
def SameFloor (x y : ℚ) : Prop := ∀ n : ℤ, (n : ℚ) / 100 ≤ x ↔ (n : ℚ) / 100 ≤ y

/-- The same for upper bounds. -/
def SameCeil (x y : ℚ) : Prop := ∀ n : ℤ, x ≤ (n : ℚ) / 100 ↔ y ≤ (n : ℚ) / 100

/-- No multiple of 0.01 separates the bounds of the two areas. -/
def SameHundredths (a b : Area) : Prop :=
  SameFloor a.minLatitude b.minLatitude ∧ SameFloor a.minLongitude b.minLongitude ∧
    SameCeil a.maxLatitude b.maxLatitude ∧ SameCeil a.maxLongitude b.maxLongitude

theorem sameFloor_iff {x y : ℚ} : SameFloor x y ↔ ⌊x * 100⌋ = ⌊y * 100⌋ := by
  have hle : ∀ (n : ℤ) (z : ℚ), (n : ℚ) / 100 ≤ z ↔ n ≤ ⌊z * 100⌋ := by
    intro n z
    rw [Int.le_floor, div_le_iff₀ (by norm_num)]
  unfold SameFloor
  simp only [hle]
  constructor
  · intro h
    exact le_antisymm ((h _).mp (le_refl _)) ((h _).mpr (le_refl _))
  · intro h n
    rw [h]

theorem sameCeil_iff {x y : ℚ} : SameCeil x y ↔ ⌈x * 100⌉ = ⌈y * 100⌉ := by
  have hle : ∀ (n : ℤ) (z : ℚ), z ≤ (n : ℚ) / 100 ↔ ⌈z * 100⌉ ≤ n := by
    intro n z
    rw [Int.ceil_le, le_div_iff₀ (by norm_num)]
  unfold SameCeil
  simp only [hle]
  constructor
  · intro h
    exact le_antisymm ((h _).mpr (le_refl _)) ((h _).mp (le_refl _))
  · intro h n
    rw [h]

theorem roundOut_eq_iff {a b : Area} : a.roundOut = b.roundOut ↔ SameHundredths a b := by
  have hdiv : ∀ m n : ℤ, (m : ℚ) / 100 = n / 100 ↔ m = n := by
    intro m n
    rw [div_left_inj' (by norm_num), Int.cast_inj]
  unfold SameHundredths
  rw [sameFloor_iff, sameFloor_iff, sameCeil_iff, sameCeil_iff]
  simp only [Area.roundOut, Area.mk.injEq, hdiv]

/-! ## The same grid gives the same quadkeys -/

theorem setLevelOfDetail_congr (ts ts' : QuadKeyTS) {d d' : ℤ}
    (h : QuadKeyTS.clampLevel d = QuadKeyTS.clampLevel d') :
    ts.setLevelOfDetail d = ts'.setLevelOfDetail d' := by
  simp only [QuadKeyTS.setLevelOfDetail, h]

/-- The bounds enter the computation through their rounding only. -/
theorem computeQuadKeys_congr (p : Platform) (ts : QuadKeyTS) {a b : Area}
    (h : a.roundOut = b.roundOut) : computeQuadKeys p ts a = computeQuadKeys p ts b := by
  unfold computeQuadKeys latLonToQuadKeyRange
  rw [h]

/-- What a call takes from a complete file are the quadkeys in it. -/
theorem filterString_of_found {p : Platform} {ts : QuadKeyTS} {canWrite : Bool} {a b : Area}
    {quadKeys : List Key} {later : Answer} (hdigits : AllQuadKeys quadKeys)
    (h : getQuadKeyFilter p ts canWrite (some (cacheText a quadKeys)) b = .ok later)
    (hfound : later.cacheFileFound = true) :
    later.filterString = appendClauses [] quadKeys := by
  have haccepts := acceptsCache_of_returns h
  have hlines : getLines (cacheText a quadKeys) = headerLines a ++ quadKeys := by
    have hread := getLines_unlines_append (newline_not_mem_lines a hdigits) []
    rwa [List.append_nil, getLines_nil, List.append_nil] at hread
  rw [hfound] at haccepts
  rw [getQuadKeyFilter_accepts haccepts] at h
  cases h
  rw [hlines]
  rfl

/-- When the file of one call stands for the computation of another. -/
theorem reuseAgrees_iff {p : Platform} {ts ts' : QuadKeyTS} {d d' : ℤ} {a b : Area}
    {canWrite : Bool} {file : Option Text} {earlier later : Answer} {full : Text}
    (hrun : getQuadKeyFilter p (ts.setLevelOfDetail d) true file a = .ok earlier)
    (hfresh : earlier.cacheFileFound = false) (hfull : earlier.cacheFile = some full)
    (hlater : getQuadKeyFilter p (ts'.setLevelOfDetail d') canWrite (some full) b = .ok later)
    (hfound : later.cacheFileFound = true) :
    ReuseAgrees p (ts.setLevelOfDetail d) a (ts'.setLevelOfDetail d') b later.filterString ↔
      QuadKeyTS.clampLevel d = QuadKeyTS.clampLevel d' ∧ SameHundredths a b := by
  obtain ⟨quadKeys, hkeys, -, hwritten⟩ := computed_of_not_found hrun hfresh
  rw [hfull, if_pos rfl, Option.some.injEq] at hwritten
  subst hwritten
  rw [filterString_of_found (allQuadKeys_compute hkeys) hlater hfound, ← roundOut_eq_iff]
  constructor
  · intro hex
    obtain ⟨⟨hlevel, hround⟩, -⟩ := hex
    exact ⟨hlevel, hround⟩
  · intro hex
    obtain ⟨hlevel, hround⟩ := hex
    refine ⟨⟨hlevel, hround⟩, fun canWrite => ?_⟩
    rw [setLevelOfDetail_congr ts ts' hlevel, computeQuadKeys_congr p _ hround] at hkeys
    exact ⟨_, getQuadKeyFilter_none hkeys, rfl⟩

/-! ## Two strips that differ by less than the tolerance -/

def strip : Area := ⟨0, 1 / 100, 0, 3 / 100⟩

def widerStrip : Area := ⟨0, 995 / 100000, 0, 3 / 100⟩

def stripKeys : List Key :=
  ["3000000000000001".toList, "3000000000000010".toList, "3000000000000011".toList,
    "3000000000000100".toList, "3000000000000101".toList]

theorem computeQuadKeys_strip :
    computeQuadKeys onEquator (QuadKeyTS.new.setLevelOfDetail 16) strip = .ok stripKeys := by
  decide +kernel

theorem acceptsCache_widerStrip :
    acceptsCache (getLines (cacheText strip stripKeys)) widerStrip = .ok true := by
  decide +kernel

theorem reuseAgrees_iff_widerStrip :
    ReuseAgrees onEquator (QuadKeyTS.new.setLevelOfDetail 16) strip
        (QuadKeyTS.new.setLevelOfDetail 16) widerStrip
        (appendClauses [] ((getLines (cacheText strip stripKeys)).drop 4)) ↔
      QuadKeyTS.clampLevel 16 = QuadKeyTS.clampLevel 16 ∧ SameHundredths strip widerStrip :=
  have hlater : getQuadKeyFilter onEquator (QuadKeyTS.new.setLevelOfDetail 16) true
      (some (cacheText strip stripKeys)) widerStrip = .ok _ :=
    getQuadKeyFilter_accepts acceptsCache_widerStrip
  reuseAgrees_iff (getQuadKeyFilter_none computeQuadKeys_strip) rfl rfl hlater rfl

/-- The strip between 0.00 and 0.01 degrees is in the wider area and not
in the filter taken from the file. -/
theorem widerStrip_not_reuseAgrees :
    ∃ earlier full later,
      getQuadKeyFilter onEquator (QuadKeyTS.new.setLevelOfDetail 16) true none strip =
        .ok earlier ∧ earlier.cacheFileFound = false ∧ earlier.cacheFile = some full ∧
      getQuadKeyFilter onEquator (QuadKeyTS.new.setLevelOfDetail 16) true (some full) widerStrip =
        .ok later ∧ later.cacheFileFound = true ∧
      ¬ ReuseAgrees onEquator (QuadKeyTS.new.setLevelOfDetail 16) strip
        (QuadKeyTS.new.setLevelOfDetail 16) widerStrip later.filterString := by
  refine ⟨_, _, _, getQuadKeyFilter_none computeQuadKeys_strip, rfl, rfl,
    getQuadKeyFilter_accepts acceptsCache_widerStrip, rfl, ?_⟩
  intro hex
  obtain ⟨⟨-, hround⟩, -⟩ := hex
  revert hround
  decide +kernel

end SLDM.QuadKey
