/-
SLDM.QuadKey.TileSystem — the quadkeys of an area (`QuadKeyTS`).

`LatLonToQuadKeyRange` rounds the area outward to hundredths of a degree,
steps through it in both directions and collects the quadkey of every
point it meets; the duplicates are then erased in place. Coordinates are
exact rationals. The ordinate of a latitude in the Mercator projection
(a logarithm of a sine in the source) is a parameter of the model: no
result depends on which function it is.
-/
import Mathlib.Data.Rat.Floor
import Mathlib.Tactic.Linarith
import SLDM.Lib.Lines
import SLDM.Lib.Loops

namespace SLDM.QuadKey

abbrev Key := Lines.Text

/-! ## The tile system object -/

/-- The members `m_levelOfDetail` and `m_latlon_variation`. -/
structure QuadKeyTS where
  levelOfDetail : ℕ
  latlonVariation : ℚ
  levelOfDetail_pos : 0 < levelOfDetail
  variation_pos : 0 < latlonVariation

namespace QuadKeyTS

/-- The constructor. -/
def new : QuadKeyTS := ⟨16, 1 / 1000, by decide, by norm_num⟩

/-- The `switch` of `setLevelOfDetail`. -/
def variationOf : ℕ → ℚ
  | 18 => 1 / 1000
  | 17 => 2 / 1000
  | 16 => 3 / 1000
  | 15 => 7 / 1000
  | 14 => 15 / 1000
  | _ => 10000

/-- The level `setLevelOfDetail` stores. -/
def clampLevel (levelOfDetail : ℤ) : ℕ :=
  if levelOfDetail < 14 then 14
  else if 18 < levelOfDetail then 18
  else levelOfDetail.toNat

theorem clampLevel_bounds (levelOfDetail : ℤ) :
    14 ≤ clampLevel levelOfDetail ∧ clampLevel levelOfDetail ≤ 18 := by
  unfold clampLevel
  split
  · omega
  · split <;> omega

theorem variationOf_pos (level : ℕ) : 0 < variationOf level := by
  unfold variationOf
  split <;> norm_num

def setLevelOfDetail (_ : QuadKeyTS) (levelOfDetail : ℤ) : QuadKeyTS :=
  ⟨clampLevel levelOfDetail, variationOf (clampLevel levelOfDetail),
    Nat.lt_of_lt_of_le (by decide) (clampLevel_bounds levelOfDetail).1, variationOf_pos _⟩

end QuadKeyTS

/-! ## One quadkey -/

/-- `Clip`. -/
def clip (n minValue maxValue : ℚ) : ℚ := min (max n minValue) maxValue

/-- `MapSize`. -/
def mapSize (levelOfDetail : ℕ) : ℕ := 256 <<< levelOfDetail

/-- `(int) Clip(x * mapSize + 0.5, 0, mapSize - 1) / 256`. -/
def tile (levelOfDetail : ℕ) (x : ℚ) : ℕ :=
  ⌊clip (x * mapSize levelOfDetail + 1 / 2) 0 (mapSize levelOfDetail - 1)⌋₊ / 256

/-- The digits of the loop over `i`, from the given level down to 1. -/
def quadKeyDigits (tileX tileY : ℕ) : ℕ → Key
  | 0 => []
  | i + 1 =>
    let mask := 1 <<< i
    let digit := (if tileX &&& mask ≠ 0 then 1 else 0) + (if tileY &&& mask ≠ 0 then 2 else 0)
    Nat.digitChar digit :: quadKeyDigits tileX tileY i

/-- The body of the scan at latitude `j` and longitude `k`. -/
def quadKey (mercatorY : ℚ → ℚ) (levelOfDetail : ℕ) (j k : ℚ) : Key :=
  quadKeyDigits (tile levelOfDetail ((k + 180) / 360)) (tile levelOfDetail (mercatorY j))
    levelOfDetail

/-! ## Scanning the area -/

structure Area where
  minLatitude : ℚ
  minLongitude : ℚ
  maxLatitude : ℚ
  maxLongitude : ℚ
deriving DecidableEq, Repr

/-- The rounding to hundredths at the head of `LatLonToQuadKeyRange`. -/
def Area.roundOut (a : Area) : Area :=
  { minLatitude := ⌊a.minLatitude * 100⌋ / 100
    minLongitude := ⌊a.minLongitude * 100⌋ / 100
    maxLatitude := ⌈a.maxLatitude * 100⌉ / 100
    maxLongitude := ⌈a.maxLongitude * 100⌉ / 100 }

/-- `for(double j = lo; j <= hi; j += step)`, for at most `fuel` turns. -/
def scanFrom (hi step : ℚ) : ℕ → ℚ → List ℚ
  | 0, _ => []
  | fuel + 1, j => if j ≤ hi then j :: scanFrom hi step fuel (j + step) else []

/-- The values the loop variable takes, its sums exact. -/
def scanValues (lo hi step : ℚ) : List ℚ :=
  scanFrom hi step (⌊(hi - lo) / step⌋₊ + 1) lo

theorem mem_scanFrom {hi step : ℚ} (hstep : 0 < step) {x : ℚ} : ∀ {fuel : ℕ} {j : ℚ},
    x ∈ scanFrom hi step fuel j ↔ ∃ n < fuel, x = j + n * step ∧ x ≤ hi
  | 0, j => by simp [scanFrom]
  | fuel + 1, j => by
      unfold scanFrom
      split
      · rename_i hj
        rw [List.mem_cons, mem_scanFrom hstep]
        constructor
        · intro hor
          rcases hor with rfl | ⟨n, hn, rfl, hx⟩
          · exact ⟨0, Nat.zero_lt_succ fuel, by simp, hj⟩
          · exact ⟨n + 1, Nat.succ_lt_succ hn, by push_cast; ring, hx⟩
        · intro hex
          obtain ⟨n, hn, rfl, hx⟩ := hex
          cases n with
          | zero => left; simp
          | succ n => exact Or.inr ⟨n, Nat.lt_of_succ_lt_succ hn, by push_cast; ring, hx⟩
      · rename_i hj
        refine iff_of_false List.not_mem_nil ?_
        intro hex
        obtain ⟨n, -, rfl, hx⟩ := hex
        have hn : 0 ≤ (n : ℚ) * step := by positivity
        exact hj (by linarith)

/-- The fuel is enough: the loop takes every value of the grid up to its
upper bound. -/
theorem mem_scanValues {lo hi step x : ℚ} (hstep : 0 < step) :
    x ∈ scanValues lo hi step ↔ ∃ n : ℕ, x = lo + n * step ∧ x ≤ hi := by
  rw [scanValues, mem_scanFrom hstep]
  constructor
  · intro hex
    obtain ⟨n, -, hx⟩ := hex
    exact ⟨n, hx⟩
  · intro hex
    obtain ⟨n, rfl, hx⟩ := hex
    refine ⟨n, Nat.lt_succ_of_le (Nat.le_floor ?_), rfl, hx⟩
    rw [le_div_iff₀ hstep]
    linarith

/-! ## Erasing duplicates -/

/-- The first `k ≠ i` with `v.at(i) == v.at(k)`. -/
def firstDuplicate (v : List Key) (i : ℕ) : Option ℕ :=
  (List.range v.length).find? fun k => i ≠ k && v[i]? == v[k]?

/-- One turn of the loop over `i`. After an `erase` the counter is
decremented and incremented again. -/
def eraseTurn : ℕ × List Key → Option (ℕ × List Key)
  | (i, v) =>
    if i < v.length then
      match firstDuplicate v i with
      | some k => some (i, v.eraseIdx k)
      | none => some (i + 1, v)
    else none

/-- The loop that removes duplicates, which stands in the source twice. -/
def removeDuplicates (v : List Key) : List Key := (Loops.drive eraseTurn (2 * v.length) (0, v)).2

theorem firstDuplicate_lt {v : List Key} {i k : ℕ} (h : firstDuplicate v i = some k) :
    k < v.length :=
  List.mem_range.mp (List.mem_of_find?_eq_some h)

/-- The loop is left: every turn moves on or shortens the vector. -/
theorem removeDuplicates_ends (v : List Key) :
    Loops.EndsIn eraseTurn (0, v) (Loops.drive eraseTurn (2 * v.length) (0, v)) := by
  refine Loops.endsIn_drive (μ := fun s => 2 * s.2.length - s.1) ?_ (by simp)
  intro s s' h
  obtain ⟨i, v⟩ := s
  simp only [eraseTurn] at h
  split at h
  · rename_i hi
    split at h
    · rename_i k hk
      cases h
      have hlt := firstDuplicate_lt hk
      simp only [List.length_eraseIdx_of_lt hlt]
      omega
    · cases h
      simp only
      omega
  · cases h

theorem removeDuplicates_sublist (v : List Key) : (removeDuplicates v).Sublist v := by
  refine Loops.drive_of_invariant (I := fun s : ℕ × List Key => s.2.Sublist v) ?_
    (List.Sublist.refl v)
  intro s s' hI h
  obtain ⟨i, w⟩ := s
  simp only [eraseTurn] at h
  split at h
  · split at h
    · cases h
      exact (List.eraseIdx_sublist w _).trans hI
    · cases h
      exact hI
  · cases h

/-! ## All quadkeys of the area -/

def latLonToQuadKeyRange (mercatorY : ℚ → ℚ) (ts : QuadKeyTS) (area : Area) : List Key :=
  let a := area.roundOut
  let v := (scanValues a.minLatitude a.maxLatitude ts.latlonVariation).flatMap fun j =>
    (scanValues a.minLongitude a.maxLongitude ts.latlonVariation).map fun k =>
      quadKey mercatorY ts.levelOfDetail j k
  removeDuplicates v

/-- A text of quadkey digits. -/
def IsQuadKey (key : Key) : Prop := ∀ c ∈ key, c.isDigit = true

theorem isQuadKey_digits (tileX tileY i : ℕ) : IsQuadKey (quadKeyDigits tileX tileY i) := by
  induction i with
  | zero =>
    intro c hc
    exact absurd hc List.not_mem_nil
  | succ i ih =>
    intro c hc
    rw [quadKeyDigits, List.mem_cons] at hc
    rcases hc with rfl | hc
    · split_ifs <;> decide
    · exact ih c hc

theorem isQuadKey_of_mem_range {mercatorY : ℚ → ℚ} {ts : QuadKeyTS} {area : Area} :
    ∀ key ∈ latLonToQuadKeyRange mercatorY ts area, IsQuadKey key := by
  intro key hkey
  have hmem := (removeDuplicates_sublist _).subset hkey
  simp only [List.mem_flatMap, List.mem_map] at hmem
  obtain ⟨_, _, _, _, rfl⟩ := hmem
  exact isQuadKey_digits _ _ _

theorem newline_not_mem {key : Key} (h : IsQuadKey key) : '\n' ∉ key := by
  intro hmem
  have hdigit := h '\n' hmem
  revert hdigit
  decide

end SLDM.QuadKey
