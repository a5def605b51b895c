/-
SLDM.Options.ParseOptions — the area on the command line.

`parse_options` runs through the options `getopt_long` finds; every option
overwrites what an earlier one of its kind has set, and a value that cannot
be read ends the program. The ranges of the bounds are checked at the end.

The model follows the options that set the area, its extension and the
QuadKey filter. The members of the other options are a parameter
(`OtherOptions`): no result depends on what they hold. The number formats
of the C library are one too (`NumberReader`); a bound is an exact
rational, so `inf` and `nan` are not among the numbers read. The program
reads them, and as every comparison with `nan` is false, no check of a
range stops it.
-/
import SLDM.Lib.Decimal
import SLDM.QuadKey.Compression

namespace SLDM.Options

open Lines Decimal QuadKey

/-! ## Reading numbers -/

/-- The number at the start of a text and what follows it, for `strtod`
and for the `%lf` of `sscanf`. `strtodErrno` tells whether `strtod` has
set `errno`. -/
structure NumberReader where
  strtod : Text → Option (ℚ × Text)
  strtodErrno : Text → Bool
  lf : Text → Option (ℚ × Text)

/-- A character of the format that stands for itself. -/
def literal (c : Char) : Text → Option Text
  | [] => none
  | d :: s => if d = c then some s else none

/-- `sscanf(optarg,"%lf:%lf-%lf:%lf",…)` with all four conversions. -/
def scanArea (r : NumberReader) (optarg : Text) : Option Area := do
  let (minLat, s) ← r.lf optarg
  let s ← literal ':' s
  let (minLon, s) ← r.lf s
  let s ← literal '-' s
  let (maxLat, s) ← r.lf s
  let s ← literal ':' s
  let (maxLon, _) ← r.lf s
  return ⟨minLat, minLon, maxLat, maxLon⟩

/-! ## The options -/

/-- How `parse_options` ends the program: with a message on `stderr` and
the short usage text, with the help, or with the version. -/
inductive Exit
  | shortInfo (message : String)
  | longInfo
  | version
deriving DecidableEq, Repr

/-- The members of `struct options` that have nothing to do with the area
and the filter, what their options do to them, and the checks and defaults
that stand before the checks of the area. -/
structure OtherOptions where
  Members : Type
  initial : Members
  handle : Members → String → Option Text → Except Exit Members
  finish : Members → Except Exit Members

/-- An option as `getopt_long` hands it out. -/
inductive Opt
  | area (optarg : Text)
  | extLat (optarg : Text)
  | extLon (optarg : Text)
  | disableQuadkeyFilter
  | version
  | help
  | unknown
  | other (name : String) (optarg : Option Text)
deriving DecidableEq, Repr

/-- `struct options`. -/
structure OptionValues (M : Type) where
  minLat : ℚ
  minLon : ℚ
  maxLat : ℚ
  maxLon : ℚ
  extLatFactor : ℚ
  extLonFactor : ℚ
  quadkFilterEnabled : Bool
  others : M
deriving DecidableEq, Repr

/-- `INVALID_LONLAT`, the negative of the largest double. -/
def invalidLonLat : ℚ := -(2 ^ 1024 - 2 ^ 971)

/-- An unset bound fails the check of its range. -/
theorem invalidLonLat_lt : invalidLonLat < -90 := by decide +kernel

def optionsInitialize (oth : OtherOptions) : OptionValues oth.Members :=
  { minLat := invalidLonLat
    minLon := invalidLonLat
    maxLat := invalidLonLat
    maxLon := invalidLonLat
    extLatFactor := 0
    extLonFactor := 0
    quadkFilterEnabled := true
    others := oth.initial }

/-! ## parse_options -/

/-- The value of `-E` or `-F`. -/
def parseFactor (r : NumberReader) (option coordinate : String) (optarg : Text) :
    Except Exit ℚ :=
  match r.strtod optarg with
  | none => .error (.shortInfo
      ("Cannot find any digit in the specified value (" ++ option ++ ").\n"))
  | some (v, _) =>
    if r.strtodErrno optarg || v < 0 then .error (.shortInfo
      ("Error in parsing the " ++ coordinate ++ " factor for the extended area " ++
        "(remember that it must be positive).\n"))
    else .ok v

def parseLatFactor (r : NumberReader) (optarg : Text) : Except Exit ℚ :=
  parseFactor r "-E/ext-area-lat-factor" "latitude" optarg

def parseLonFactor (r : NumberReader) (optarg : Text) : Except Exit ℚ :=
  parseFactor r "-F/ext-area-lon-factor" "longitude" optarg

/-- The `switch`, on the options and `version_flg`. -/
def handleOption (r : NumberReader) (oth : OtherOptions) :
    OptionValues oth.Members × Bool → Opt → Except Exit (OptionValues oth.Members × Bool)
  | (o, versionFlg), .area optarg =>
    match scanArea r optarg with
    | none => .error (.shortInfo "Error parsing the area string after the --area/-A option.")
    | some a => .ok ({ o with
        minLat := a.minLatitude
        minLon := a.minLongitude
        maxLat := a.maxLatitude
        maxLon := a.maxLongitude }, versionFlg)
  | (o, versionFlg), .extLat optarg => do
    let v ← parseLatFactor r optarg
    return ({ o with extLatFactor := v }, versionFlg)
  | (o, versionFlg), .extLon optarg => do
    let v ← parseLonFactor r optarg
    return ({ o with extLonFactor := v }, versionFlg)
  | (o, versionFlg), .disableQuadkeyFilter =>
    .ok ({ o with quadkFilterEnabled := false }, versionFlg)
  | (o, _), .version => .ok (o, true)
  | _, .help => .error .longInfo
  | _, .unknown => .error (.shortInfo "")
  | (o, versionFlg), .other name optarg => do
    let others ← oth.handle o.others name optarg
    return ({ o with others := others }, versionFlg)

/-- One of the four checks at the end. -/
def checkRange (what range : String) (bound v : ℚ) : Except Exit Unit :=
  if v < -bound ∨ bound < v then .error (.shortInfo
    ("Error: invalid or unset " ++ what ++ " value. Valid values range from " ++ range ++ ".\n"))
  else .ok ()

def parseOptions (r : NumberReader) (oth : OtherOptions) (line : List Opt) :
    Except Exit (OptionValues oth.Members) := do
  let (o, versionFlg) ← line.foldlM (handleOption r oth) (optionsInitialize oth, false)
  if versionFlg then .error .version
  let others ← oth.finish o.others
  checkRange "minimum latitude" "-90 to 90" 90 o.minLat
  checkRange "maximum latitude" "-90 to 90" 90 o.maxLat
  checkRange "minimum longitude" "-180 to 180" 180 o.minLon
  checkRange "maximum longitude" "-180 to 180" 180 o.maxLon
  return { o with others := others }

/-! ## The last option of a kind counts -/

/-- What the last option that `f` reads gives. -/
def lastGiven {α : Type} (f : Opt → Option α) (line : List Opt) : Option α :=
  (line.filterMap f).getLast?

section LastGiven

variable {σ α : Type} {step : σ → Opt → Except Exit σ} {f : Opt → Option α} {π : σ → α}

theorem lastGiven_cons (opt : Opt) (line : List Opt) (default : α) :
    (lastGiven f (opt :: line)).getD default =
      (lastGiven f line).getD ((f opt).getD default) := by
  unfold lastGiven
  rw [List.filterMap_cons]
  cases f opt with
  | none => rfl
  | some v => rw [List.getLast?_cons, Option.getD_some, Option.getD_some]

/-- A member that an option either sets or leaves alone. -/
theorem foldlM_lastGiven
    (hstep : ∀ s opt s', step s opt = .ok s' → π s' = (f opt).getD (π s)) :
    ∀ {line : List Opt} {s t : σ}, line.foldlM step s = .ok t →
      π t = (lastGiven f line).getD (π s)
  | [], s, t, h => by
      cases h
      rfl
  | opt :: line, s, t, h => by
      rw [List.foldlM_cons] at h
      obtain ⟨s', hs, h⟩ := bind_eq_ok.mp h
      rw [foldlM_lastGiven hstep h, hstep s opt s' hs, lastGiven_cons]

theorem mem_of_lastGiven {line : List Opt} {v : α} (h : lastGiven f line = some v) :
    ∃ opt ∈ line, f opt = some v :=
  List.mem_filterMap.mp (List.mem_of_getLast? h)

/-- The loop goes on after every option of an accepted line. -/
theorem foldlM_handled :
    ∀ {line : List Opt} {s t : σ}, line.foldlM step s = .ok t →
      ∀ opt ∈ line, ∃ s s', step s opt = .ok s'
  | [], s, t, h, opt, hmem => absurd hmem List.not_mem_nil
  | first :: line, s, t, h, opt, hmem => by
      rw [List.foldlM_cons] at h
      obtain ⟨s', hs, h⟩ := bind_eq_ok.mp h
      rcases List.mem_cons.mp hmem with rfl | hlater
      · exact ⟨s, s', hs⟩
      · exact foldlM_handled h opt hlater

end LastGiven

/-- What a `-A` option gives. -/
def areaOf (r : NumberReader) : Opt → Option Area
  | .area optarg => scanArea r optarg
  | _ => none

/-- What a `-E` option gives. -/
def latFactorOf (r : NumberReader) : Opt → Option ℚ
  | .extLat optarg => (r.strtod optarg).map Prod.fst
  | _ => none

/-- What a `-F` option gives. -/
def lonFactorOf (r : NumberReader) : Opt → Option ℚ
  | .extLon optarg => (r.strtod optarg).map Prod.fst
  | _ => none

/-- The internal area. -/
def OptionValues.area {M : Type} (o : OptionValues M) : Area :=
  ⟨o.minLat, o.minLon, o.maxLat, o.maxLon⟩

section Accepted

variable {r : NumberReader} {oth : OtherOptions} {line : List Opt}
  {o : OptionValues oth.Members}

/-- A factor that is accepted is the number read. -/
theorem parseFactor_eq_ok {option coordinate : String} {optarg : Text} {v : ℚ}
    (h : parseFactor r option coordinate optarg = .ok v) :
    (r.strtod optarg).map Prod.fst = some v ∧ 0 ≤ v := by
  unfold parseFactor at h
  split at h
  · cases h
  · rename_i w rest hw
    split at h
    · cases h
    · rename_i hcond
      cases h
      simp only [Bool.or_eq_true, decide_eq_true_eq, not_or, not_lt] at hcond
      exact ⟨by rw [hw]; rfl, hcond.2⟩

/-- What one option does to the members the filter depends on. -/
theorem handleOption_spec {s s' : OptionValues oth.Members × Bool} {opt : Opt}
    (h : handleOption r oth s opt = .ok s') :
    s'.1.area = (areaOf r opt).getD s.1.area ∧
      s'.1.extLatFactor = (latFactorOf r opt).getD s.1.extLatFactor ∧
      s'.1.extLonFactor = (lonFactorOf r opt).getD s.1.extLonFactor := by
  obtain ⟨o, versionFlg⟩ := s
  cases opt with
  | area optarg =>
    simp only [handleOption] at h
    split at h
    · cases h
    · rename_i a ha
      cases h
      exact ⟨by rw [areaOf, ha]; rfl, rfl, rfl⟩
  | extLat optarg =>
    obtain ⟨v, hv, h⟩ := bind_eq_ok.mp h
    cases h
    exact ⟨rfl, by rw [latFactorOf, (parseFactor_eq_ok hv).1]; rfl, rfl⟩
  | extLon optarg =>
    obtain ⟨v, hv, h⟩ := bind_eq_ok.mp h
    cases h
    exact ⟨rfl, rfl, by rw [lonFactorOf, (parseFactor_eq_ok hv).1]; rfl⟩
  | disableQuadkeyFilter =>
    cases h
    exact ⟨rfl, rfl, rfl⟩
  | version =>
    cases h
    exact ⟨rfl, rfl, rfl⟩
  | help => cases h
  | unknown => cases h
  | other name optarg =>
    obtain ⟨others, -, h⟩ := bind_eq_ok.mp h
    cases h
    exact ⟨rfl, rfl, rfl⟩

/-- A negative factor ends the program. -/
theorem factors_nonneg_of_handled {s s' : OptionValues oth.Members × Bool} {opt : Opt}
    (h : handleOption r oth s opt = .ok s') :
    (∀ v, latFactorOf r opt = some v → 0 ≤ v) ∧ ∀ v, lonFactorOf r opt = some v → 0 ≤ v := by
  cases opt with
  | extLat optarg =>
    obtain ⟨v, hv, -⟩ := bind_eq_ok.mp h
    obtain ⟨hread, hpos⟩ := parseFactor_eq_ok hv
    refine ⟨fun w hw => ?_, nofun⟩
    rw [latFactorOf, hread] at hw
    cases hw
    exact hpos
  | extLon optarg =>
    obtain ⟨v, hv, -⟩ := bind_eq_ok.mp h
    obtain ⟨hread, hpos⟩ := parseFactor_eq_ok hv
    refine ⟨nofun, fun w hw => ?_⟩
    rw [lonFactorOf, hread] at hw
    cases hw
    exact hpos
  | _ => exact ⟨nofun, nofun⟩

theorem checkRange_eq_ok {what range : String} {bound v : ℚ} {u : Unit}
    (h : checkRange what range bound v = .ok u) : -bound ≤ v ∧ v ≤ bound := by
  unfold checkRange at h
  split at h
  · cases h
  · rename_i hrange
    rw [not_or, not_lt, not_lt] at hrange
    exact hrange

/-- The bounds are on the globe; nothing is said about their order. -/
structure OnGlobe (a : Area) : Prop where
  minLat : -90 ≤ a.minLatitude ∧ a.minLatitude ≤ 90
  maxLat : -90 ≤ a.maxLatitude ∧ a.maxLatitude ≤ 90
  minLon : -180 ≤ a.minLongitude ∧ a.minLongitude ≤ 180
  maxLon : -180 ≤ a.maxLongitude ∧ a.maxLongitude ≤ 180

/-- An accepted line ends the loop with its values and passes the four
checks. -/
theorem parseOptions_eq_ok (h : parseOptions r oth line = .ok o) :
    ∃ s, line.foldlM (handleOption r oth) (optionsInitialize oth, false) = .ok s ∧
      o.area = s.1.area ∧ o.extLatFactor = s.1.extLatFactor ∧
      o.extLonFactor = s.1.extLonFactor ∧
      o.quadkFilterEnabled = s.1.quadkFilterEnabled ∧ OnGlobe o.area := by
  obtain ⟨⟨t, versionFlg⟩, hloop, h⟩ := bind_eq_ok.mp h
  cases versionFlg with
  | true => cases h
  | false =>
    obtain ⟨others, -, h⟩ := bind_eq_ok.mp h
    obtain ⟨_, hminLat, h⟩ := bind_eq_ok.mp h
    obtain ⟨_, hmaxLat, h⟩ := bind_eq_ok.mp h
    obtain ⟨_, hminLon, h⟩ := bind_eq_ok.mp h
    obtain ⟨_, hmaxLon, h⟩ := bind_eq_ok.mp h
    cases h
    exact ⟨_, hloop, rfl, rfl, rfl, rfl, checkRange_eq_ok hminLat, checkRange_eq_ok hmaxLat,
      checkRange_eq_ok hminLon, checkRange_eq_ok hmaxLon⟩

/-- The factors are the last ones given, 0 without one. -/
theorem factors_of_accepted (h : parseOptions r oth line = .ok o) :
    o.extLatFactor = (lastGiven (latFactorOf r) line).getD 0 ∧
      o.extLonFactor = (lastGiven (lonFactorOf r) line).getD 0 := by
  obtain ⟨s, hloop, -, hlat, hlon, -, -⟩ := parseOptions_eq_ok h
  have hlatStep : ∀ s opt s', handleOption r oth s opt = .ok s' →
      s'.1.extLatFactor = (latFactorOf r opt).getD s.1.extLatFactor :=
    fun _ _ _ hs => (handleOption_spec hs).2.1
  have hlonStep : ∀ s opt s', handleOption r oth s opt = .ok s' →
      s'.1.extLonFactor = (lonFactorOf r opt).getD s.1.extLonFactor :=
    fun _ _ _ hs => (handleOption_spec hs).2.2
  exact ⟨hlat.trans (foldlM_lastGiven hlatStep hloop),
    hlon.trans (foldlM_lastGiven hlonStep hloop)⟩

/-- No accepted line has a negative factor. -/
theorem factors_nonneg (h : parseOptions r oth line = .ok o) :
    0 ≤ o.extLatFactor ∧ 0 ≤ o.extLonFactor := by
  obtain ⟨s, hloop, -⟩ := parseOptions_eq_ok h
  have hlast : ∀ f : Opt → Option ℚ, (∀ opt ∈ line, ∀ v, f opt = some v → 0 ≤ v) →
      0 ≤ (lastGiven f line).getD 0 := by
    intro f hf
    cases hgiven : lastGiven f line with
    | none => exact le_refl 0
    | some v =>
      obtain ⟨opt, hopt, hv⟩ := mem_of_lastGiven hgiven
      exact hf opt hopt v hv
  obtain ⟨hlat, hlon⟩ := factors_of_accepted h
  rw [hlat, hlon]
  constructor
  · refine hlast _ fun opt hopt => ?_
    obtain ⟨_, _, hs⟩ := foldlM_handled hloop opt hopt
    exact (factors_nonneg_of_handled hs).1
  · refine hlast _ fun opt hopt => ?_
    obtain ⟨_, _, hs⟩ := foldlM_handled hloop opt hopt
    exact (factors_nonneg_of_handled hs).2

/-- The area is the last one given: without one the bounds keep their
initial value, which is not on the globe. -/
theorem area_of_accepted (h : parseOptions r oth line = .ok o) :
    lastGiven (areaOf r) line = some o.area := by
  obtain ⟨s, hloop, harea, -, -, -, hglobe⟩ := parseOptions_eq_ok h
  have hstep : ∀ s opt s', handleOption r oth s opt = .ok s' →
      s'.1.area = (areaOf r opt).getD s.1.area :=
    fun _ _ _ hs => (handleOption_spec hs).1
  have hrun := harea.trans (foldlM_lastGiven hstep hloop)
  cases hgiven : lastGiven (areaOf r) line with
  | none =>
    rw [hgiven, Option.getD_none] at hrun
    have hunset := hglobe.minLat.1
    rw [hrun] at hunset
    exact absurd hunset (not_le.mpr invalidLonLat_lt)
  | some a =>
    rw [hgiven, Option.getD_some] at hrun
    rw [hrun]

end Accepted

end SLDM.Options
