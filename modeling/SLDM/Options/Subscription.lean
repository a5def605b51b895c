/-
SLDM.Options.Subscription — an enabled filter and the receiver it opens.

`main` computes the filter string for the area of the command line and
its extension, every client takes it over when the filter is enabled, and
`on_container_start` reads an empty string as "no filter". `KeepsFilter`
says that this does not happen. The checks of `parse_options` look at each
bound alone, so it does happen when the bounds are given in the wrong
order: `keepsFilter_iff` is the exact condition.
-/
import SLDM.Options.ParseOptions
import SLDM.QuadKey.EmptyFilter

namespace SLDM.Options

open Lines Decimal QuadKey

/-! ## From the options to the receiver -/

/-- The arguments `main` gives to `getQuadKeyFilter`. -/
def extend (a : Area) (latFactor lonFactor : ℚ) : Area :=
  { minLatitude := a.minLatitude - latFactor
    minLongitude := a.minLongitude - lonFactor
    maxLatitude := a.maxLatitude + latFactor
    maxLongitude := a.maxLongitude + lonFactor }

def OptionValues.extendedArea {M : Type} (o : OptionValues M) : Area :=
  extend o.area o.extLatFactor o.extLonFactor

/-- `tilesys` in `main`. -/
def tilesys : QuadKeyTS := QuadKeyTS.new.setLevelOfDetail 16

/-- `m_quadKey_filter` of a client before it is run. -/
def quadKeyFilter {M : Type} (o : OptionValues M) (filterStr : Text) : Text :=
  if o.quadkFilterEnabled then filterStr else []

/-- How `open_receiver` is called. -/
inductive Receiver
  | withSelector (selector : Text)
  | unfiltered
deriving DecidableEq, Repr

/-- The receiver of `on_container_start`. -/
def onContainerStart (filter : Text) : Receiver :=
  if filter ≠ [] then .withSelector filter else .unfiltered

/-- Whatever `getQuadKeyFilter` returns without a cache file is a filter,
the receiver is opened with it, and the scan has visited a point. -/
def KeepsFilter {M : Type} (p : Platform) (canWrite : Bool) (o : OptionValues M) : Prop :=
  ∀ ans, getQuadKeyFilter p tilesys canWrite none o.extendedArea = .ok ans →
    ans.filterString ≠ [] ∧
      onContainerStart (quadKeyFilter o ans.filterString) = .withSelector ans.filterString ∧
      visitedPoints tilesys o.extendedArea ≠ []

/-- The area of the last `-A`, extended by the last `-E` and `-F`. -/
def extendedAreaGiven (r : NumberReader) (line : List Opt) : Option Area :=
  (lastGiven (areaOf r) line).map fun a =>
    extend a ((lastGiven (latFactorOf r) line).getD 0) ((lastGiven (lonFactorOf r) line).getD 0)

/-! ## When the filter is kept -/

section Accepted

variable {p : Platform} {canWrite : Bool} {r : NumberReader} {oth : OtherOptions}
  {line : List Opt} {o : OptionValues oth.Members}

theorem onContainerStart_eq_unfiltered {filter : Text} :
    onContainerStart filter = .unfiltered ↔ filter = [] := by
  unfold onContainerStart
  split
  · rename_i h
    exact iff_of_false (fun heq => by cases heq) h
  · rename_i h
    exact iff_of_true rfl (not_not.mp h)

/-- A call that visits no point returns, with the empty string. -/
theorem getQuadKeyFilter_of_no_point (p : Platform) (canWrite : Bool) {area : Area}
    (h : visitedPoints tilesys area = []) :
    ∃ ans, getQuadKeyFilter p tilesys canWrite none area = .ok ans ∧ ans.filterString = [] :=
  ⟨_, getQuadKeyFilter_none (computeQuadKeys_of_no_point p h), rfl⟩

theorem keepsFilter_iff_forward (henabled : o.quadkFilterEnabled = true) :
    KeepsFilter p canWrite o ↔ Forward o.extendedArea := by
  constructor
  · intro hkeeps
    by_contra hback
    obtain ⟨ans, hans, hempty⟩ :=
      getQuadKeyFilter_of_no_point p canWrite (visitedPoints_eq_nil.mpr hback)
    exact (hkeeps ans hans).1 hempty
  · intro hforward ans hans
    have hpoints : visitedPoints tilesys o.extendedArea ≠ [] := by
      intro hnil
      exact visitedPoints_eq_nil.mp hnil hforward
    have hne : ans.filterString ≠ [] := by
      intro hnil
      exact hpoints ((filterString_eq_nil hans).mp hnil)
    refine ⟨hne, ?_, hpoints⟩
    rw [quadKeyFilter, if_pos henabled, onContainerStart, if_pos hne]

theorem extendedArea_of_accepted (h : parseOptions r oth line = .ok o) :
    extendedAreaGiven r line = some o.extendedArea := by
  obtain ⟨hlat, hlon⟩ := factors_of_accepted h
  rw [extendedAreaGiven, area_of_accepted h, Option.map_some, ← hlat, ← hlon]
  rfl

/-- An accepted line with the filter enabled keeps it exactly when its
area, extended and rounded outward, is not turned around. -/
theorem keepsFilter_iff (haccept : parseOptions r oth line = .ok o)
    (henabled : o.quadkFilterEnabled = true) :
    KeepsFilter p canWrite o ↔ ∃ area, extendedAreaGiven r line = some area ∧ Forward area := by
  rw [keepsFilter_iff_forward henabled, extendedArea_of_accepted haccept]
  constructor
  · intro hforward
    exact ⟨_, rfl, hforward⟩
  · intro hex
    obtain ⟨area, heq, hforward⟩ := hex
    cases heq
    exact hforward

/-- An area written in the order of the usage text keeps the filter. -/
theorem keepsFilter_of_ordered (haccept : parseOptions r oth line = .ok o)
    (henabled : o.quadkFilterEnabled = true) (hlat : o.minLat ≤ o.maxLat)
    (hlon : o.minLon ≤ o.maxLon) : KeepsFilter p canWrite o := by
  obtain ⟨hlatFactor, hlonFactor⟩ := factors_nonneg haccept
  refine (keepsFilter_iff_forward henabled).mpr (forward_of_le ?_ ?_)
  · simp only [OptionValues.extendedArea, extend, OptionValues.area]
    linarith
  · simp only [OptionValues.extendedArea, extend, OptionValues.area]
    linarith

end Accepted

/-! ## Lines with one area -/

/-- The plain decimal form, the same for both functions of the library. -/
def plainNumber (t : Text) : Option (ℚ × Text) := (stod t).map (·, unread t)

def plainNumbers : NumberReader := ⟨plainNumber, fun _ => false, plainNumber⟩

/-- No other option is given. -/
def noOthers : OtherOptions := ⟨Unit, (), fun _ _ _ => .ok (), .ok⟩

instance : DecidableEq noOthers.Members := inferInstanceAs (DecidableEq Unit)

def onlyArea (minLat minLon maxLat maxLon : ℚ) : OptionValues noOthers.Members :=
  ⟨minLat, minLon, maxLat, maxLon, 0, 0, true, ()⟩

theorem parseOptions_ordered :
    parseOptions plainNumbers noOthers [.area "45:7-46:8".toList] = .ok (onlyArea 45 7 46 8) := by
  decide +kernel

theorem parseOptions_reversed :
    parseOptions plainNumbers noOthers [.area "46:8-45:7".toList] = .ok (onlyArea 46 8 45 7) := by
  decide +kernel

theorem keepsFilter_iff_degree :
    KeepsFilter onEquator true (onlyArea 45 7 46 8) ↔
      ∃ area, extendedAreaGiven plainNumbers [.area "45:7-46:8".toList] = some area ∧
        Forward area :=
  keepsFilter_iff parseOptions_ordered rfl

/-- The two corners of the area in the wrong order: every check passes, and
the client subscribes to all messages. -/
theorem reversed_unfiltered :
    ∃ ans, parseOptions plainNumbers noOthers [.area "46:8-45:7".toList] =
        .ok (onlyArea 46 8 45 7) ∧
      (onlyArea 46 8 45 7).quadkFilterEnabled = true ∧
      getQuadKeyFilter onEquator tilesys true none (onlyArea 46 8 45 7).extendedArea = .ok ans ∧
      onContainerStart (quadKeyFilter (onlyArea 46 8 45 7) ans.filterString) = .unfiltered ∧
      ¬ KeepsFilter onEquator true (onlyArea 46 8 45 7) := by
  have hback : ¬ Forward (onlyArea 46 8 45 7).extendedArea := by decide +kernel
  obtain ⟨ans, hans, hempty⟩ :=
    getQuadKeyFilter_of_no_point onEquator true (visitedPoints_eq_nil.mpr hback)
  refine ⟨ans, parseOptions_reversed, rfl, hans, ?_, ?_⟩
  · exact onContainerStart_eq_unfiltered.mpr hempty
  · intro hkeeps
    exact (hkeeps ans hans).1 hempty

end SLDM.Options
