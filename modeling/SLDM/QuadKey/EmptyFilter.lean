/-
SLDM.QuadKey.EmptyFilter — when the filter string is empty.

The bounds of an area are rounded outward to hundredths of a degree, and
an area is `Forward` when its lower bounds are then not above its upper
ones. The scan visits a grid point in exactly these areas. Neither the
removal of duplicates nor the compression empties a vector, so the filter
string of an area is empty exactly when the scan visits no point.
-/
import SLDM.QuadKey.Duplicates
import SLDM.QuadKey.FilterCache

namespace SLDM.QuadKey

open Lines

/-! ## The scan -/

/-- The latitude and longitude of every turn of the two loops of
`LatLonToQuadKeyRange`. -/
def visitedPoints (ts : QuadKeyTS) (area : Area) : List (ℚ × ℚ) :=
  let a := area.roundOut
  (scanValues a.minLatitude a.maxLatitude ts.latlonVariation).flatMap fun j =>
    (scanValues a.minLongitude a.maxLongitude ts.latlonVariation).map fun k => (j, k)

/-- After the rounding no lower bound is above its upper bound. -/
def Forward (area : Area) : Prop :=
  ⌊area.minLatitude * 100⌋ ≤ ⌈area.maxLatitude * 100⌉ ∧
    ⌊area.minLongitude * 100⌋ ≤ ⌈area.maxLongitude * 100⌉

instance (area : Area) : Decidable (Forward area) := inferInstanceAs (Decidable (_ ∧ _))

/-- An area whose lower bounds are not above its upper ones to begin with. -/
theorem forward_of_le {area : Area} (hlat : area.minLatitude ≤ area.maxLatitude)
    (hlon : area.minLongitude ≤ area.maxLongitude) : Forward area := by
  have hround : ∀ lo hi : ℚ, lo ≤ hi → ⌊lo * 100⌋ ≤ ⌈hi * 100⌉ := by
    intro lo hi hle
    have hscaled : lo * 100 ≤ hi * 100 := by linarith
    exact (Int.floor_le_floor hscaled).trans (Int.floor_le_ceil _)
  exact ⟨hround _ _ hlat, hround _ _ hlon⟩

/-- A loop of the scan is entered when its start is not beyond its end. -/
theorem scanValues_eq_nil (lo hi : ℚ) {step : ℚ} (hstep : 0 < step) :
    scanValues lo hi step = [] ↔ hi < lo := by
  constructor
  · intro hnil
    by_contra hle
    have hmem : lo ∈ scanValues lo hi step :=
      (mem_scanValues hstep).mpr ⟨0, by simp, not_lt.mp hle⟩
    rw [hnil] at hmem
    exact List.not_mem_nil hmem
  · intro hlt
    refine List.eq_nil_iff_forall_not_mem.mpr fun x hx => ?_
    obtain ⟨n, rfl, hle⟩ := (mem_scanValues hstep).mp hx
    have hn : 0 ≤ (n : ℚ) * step := by positivity
    linarith

theorem visitedPoints_eq_nil {ts : QuadKeyTS} {area : Area} :
    visitedPoints ts area = [] ↔ ¬ Forward area := by
  have hhundredths : ∀ m n : ℤ, (n : ℚ) / 100 < m / 100 ↔ ¬ m ≤ n := by
    intro m n
    rw [div_lt_div_iff_of_pos_right (by norm_num), Int.cast_lt, not_le]
  have hlat := scanValues_eq_nil area.roundOut.minLatitude area.roundOut.maxLatitude
    ts.variation_pos
  have hlon := scanValues_eq_nil area.roundOut.minLongitude area.roundOut.maxLongitude
    ts.variation_pos
  simp only [Area.roundOut, hhundredths] at hlat hlon
  have hnil : visitedPoints ts area = [] ↔
      scanValues area.roundOut.minLatitude area.roundOut.maxLatitude ts.latlonVariation = [] ∨
        scanValues area.roundOut.minLongitude area.roundOut.maxLongitude
          ts.latlonVariation = [] := by
    simp only [visitedPoints, List.flatMap_eq_nil_iff, List.map_eq_nil_iff]
    constructor
    · intro h
      by_cases hempty : scanValues area.roundOut.minLatitude area.roundOut.maxLatitude
          ts.latlonVariation = []
      · exact Or.inl hempty
      · obtain ⟨j, hj⟩ := List.exists_mem_of_ne_nil _ hempty
        exact Or.inr (h j hj)
    · intro h j hj
      rcases h with hempty | hempty
      · rw [hempty] at hj
        exact absurd hj List.not_mem_nil
      · exact hempty
  rw [hnil]
  simp only [Area.roundOut]
  rw [hlat, hlon, Forward, not_and_or]

/-! ## What the later passes leave -/

theorem removeDuplicates_eq_nil {v : List Key} : removeDuplicates v = [] ↔ v = [] := by
  simp only [List.eq_nil_iff_forall_not_mem, mem_removeDuplicates]

theorem latLonToQuadKeyRange_eq_nil {mercatorY : ℚ → ℚ} {ts : QuadKeyTS} {area : Area} :
    latLonToQuadKeyRange mercatorY ts area = [] ↔ visitedPoints ts area = [] := by
  rw [latLonToQuadKeyRange, removeDuplicates_eq_nil]
  simp only [visitedPoints, List.flatMap_eq_nil_iff, List.map_eq_nil_iff]

/-- A pass puts a key into `vf` in its first turn. -/
theorem unifyPass_eq_nil {v vf : List Key} {r : Bool}
    (h : unifyPass v v.length 0 = .ok (vf, r)) : vf = [] ↔ v = [] := by
  cases v with
  | nil =>
    cases h
    exact iff_of_true rfl rfl
  | cons k v =>
    obtain ⟨key, -, ⟨-, rest, r', -, rfl, -⟩ | ⟨-, rest, -, rfl⟩⟩ :=
      unifyPass_cases (List.length_pos_of_ne_nil (List.cons_ne_nil k v)) h
    · exact iff_of_false (List.cons_ne_nil _ rest) (List.cons_ne_nil k v)
    · exact iff_of_false (List.cons_ne_nil key rest) (List.cons_ne_nil k v)

theorem unifyPasses_eq_nil {n : ℕ} {v w : List Key} (h : unifyPasses n v = .ok w) :
    w = [] ↔ v = [] := by
  induction n generalizing v with
  | zero =>
    cases h
    exact Iff.rfl
  | succ n ih =>
    obtain ⟨⟨vf, reductionOccurred⟩, hpass, h⟩ := bind_eq_ok.mp h
    cases reductionOccurred with
    | true => exact (ih h).trans (unifyPass_eq_nil hpass)
    | false =>
      cases h
      exact Iff.rfl

theorem unifyPasses_nil (n : ℕ) : unifyPasses n [] = .ok [] := by
  cases n with
  | zero => rfl
  | succ n => rfl

/-- The shortened key stays in the vector. -/
theorem shortenOne_eq_nil {vf : List Key} {l : ℕ} : (shortenOne vf l).1 = [] ↔ vf = [] := by
  rcases shortenOne_cases vf l with ⟨front, key, back, rfl, -, heq⟩ | ⟨-, heq⟩
  · rw [heq]
    exact iff_of_false (List.append_ne_nil_of_right_ne_nil _ (List.cons_ne_nil _ _))
      (List.append_ne_nil_of_right_ne_nil _ (List.cons_ne_nil _ _))
  · rw [heq]

theorem checkdim_eq_nil {ts : QuadKeyTS} {v : List Key} : checkdim ts v = [] ↔ v = [] := by
  refine Loops.drive_of_invariant (I := fun s : List Key × ℕ => s.1 = [] ↔ v = []) ?_ Iff.rfl
  intro s s' hI h
  obtain ⟨vf, l⟩ := s
  simp only [checkdimTurn] at h
  split at h
  · cases h
    simp only
    split
    · exact shortenOne_eq_nil.trans hI
    · exact removeDuplicates_eq_nil.trans (shortenOne_eq_nil.trans hI)
  · cases h

/-! ## The filter string -/

/-- The two sorts move keys only. -/
theorem eq_nil_iff_of_perm {v w : List Key} (h : v.Perm w) : v = [] ↔ w = [] := by
  rw [← List.isEmpty_iff, h.isEmpty_eq, List.isEmpty_iff]

theorem computeQuadKeys_eq_nil {p : Platform} {ts : QuadKeyTS} {area : Area} {keys : List Key}
    (h : computeQuadKeys p ts area = .ok keys) : keys = [] ↔ visitedPoints ts area = [] := by
  obtain ⟨sorted, hsorted, h⟩ := bind_eq_ok.mp h
  obtain ⟨united, hunited, hsorted⟩ := bind_eq_ok.mp hsorted
  cases hsorted
  cases h
  exact checkdim_eq_nil.trans <| (eq_nil_iff_of_perm (p.sortByLength_perm united)).trans <|
    (unifyPasses_eq_nil hunited).trans <|
    (eq_nil_iff_of_perm (List.perm_insertionSort _ _)).trans latLonToQuadKeyRange_eq_nil

/-- Without a point there is nothing a pass could throw on. -/
theorem computeQuadKeys_of_no_point (p : Platform) {ts : QuadKeyTS} {area : Area}
    (h : visitedPoints ts area = []) : computeQuadKeys p ts area = .ok [] := by
  have hrange : latLonToQuadKeyRange p.mercatorY ts area = [] := latLonToQuadKeyRange_eq_nil.mpr h
  have hsort : p.sortByLength [] = [] := (eq_nil_iff_of_perm (p.sortByLength_perm [])).mpr rfl
  have hunify : unifyQuadkeys2 p ts [] = .ok [] :=
    bind_eq_ok.mpr ⟨[], unifyPasses_nil ts.levelOfDetail, by rw [hsort]; rfl⟩
  rw [computeQuadKeys, hrange]
  exact bind_eq_ok.mpr ⟨[], hunify, by rw [checkdim_eq_nil.mpr rfl]; rfl⟩

theorem appendClauses_eq_nil {keys : List Key} : appendClauses [] keys = [] ↔ keys = [] := by
  constructor
  · intro hnil
    by_contra hne
    obtain ⟨key, rest, rfl⟩ := List.exists_cons_of_ne_nil hne
    have hlen := length_appendClauses [] hne
    rw [hnil, weight_cons, List.length_nil] at hlen
    omega
  · intro hnil
    rw [hnil, appendClauses]

/-- A call that finds no cache returns the empty string exactly when the
scan visits no point. -/
theorem filterString_eq_nil {p : Platform} {ts : QuadKeyTS} {canWrite : Bool} {area : Area}
    {ans : Answer} (h : getQuadKeyFilter p ts canWrite none area = .ok ans) :
    ans.filterString = [] ↔ visitedPoints ts area = [] := by
  obtain ⟨⟨fromfile, found⟩, hread, hans⟩ := bind_eq_ok.mp h
  cases hread
  have hfresh : ans.cacheFileFound = false := by
    obtain ⟨quadKeys, -, hans⟩ := bind_eq_ok.mp hans
    cases hans
    rfl
  obtain ⟨keys, hkeys, hstring, -⟩ := computed_of_not_found h hfresh
  rw [hstring, appendClauses_eq_nil, computeQuadKeys_eq_nil hkeys]

end SLDM.QuadKey
