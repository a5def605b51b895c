/-
SLDM.Utils.ExteriorLightsText — `exteriorLights_bit_to_string` of
`utils.cpp`.

The bits of the status are named from the most significant one down; the
text lists the names of those that are set, with commas between them, and
is `off` when there are none. `lightsOf` reads such a text back.
-/
import SLDM.Lib.NumberText
import Mathlib.Data.UInt

namespace SLDM.Utils

open NumberText

/-! ## Writing -/

/-- `bitnames`. -/
def bitnames : List Text :=
  ["lowBeamHeadlightsOn", "highBeamHeadlightsOn", "leftTurnSignalOn", "rightTurnSignalOn",
    "daytimeRunningLightsOn", "reverseLightOn", "fogLightOn", "parkingLightsOn"].map String.toList

/-- `extLights & (1 << (7 - i))`. -/
def isLit (extLights : UInt8) (i : ℕ) : Bool := extLights.toNat &&& (1 <<< (7 - i)) != 0

/-- The loop from the `i`-th name on. -/
def namesLoop (extLights : UInt8) : ℕ → List Text → Text → Text
  | _, [], extLightsStr => extLightsStr
  | i, name :: names, extLightsStr =>
    namesLoop extLights (i + 1) names
      (if isLit extLights i then
        (if extLightsStr.length ≠ 0 then extLightsStr ++ [','] else extLightsStr) ++ name
      else extLightsStr)

/-- `exteriorLights_bit_to_string`. -/
def exteriorLightsBitToString (extLights : UInt8) : Text :=
  let extLightsStr := namesLoop extLights 0 bitnames []
  if extLightsStr = [] then "off".toList else extLightsStr

/-- The text both JSON writers use for the exterior lights of a vehicle. -/
def turnIndicator (exteriorLights : Option UInt8) : Text :=
  match exteriorLights with
  | some extLights => exteriorLightsBitToString extLights
  | none => "unavailable".toList

/-! ## Reading -/

/-- The status a text stands for: the bits whose names are listed. -/
def lightsOf (t : Text) : UInt8 :=
  let listed := t.splitOn ','
  (bitnames.zipIdx.map fun e => if e.1 ∈ listed then (1 : UInt8) <<< (7 - e.2).toUInt8 else 0).sum

/-- The names of the bits that are set, from the `i`-th one on. -/
def litNames (extLights : UInt8) (i : ℕ) (names : List Text) : List Text :=
  ((names.zipIdx i).filter fun e => isLit extLights e.2).map Prod.fst

theorem intercalate_eq_nil {sep : Text} {names : List Text} (hne : ∀ name ∈ names, name ≠ []) :
    sep.intercalate names = [] ↔ names = [] := by
  cases names with
  | nil => simp
  | cons name names =>
    cases names with
    | nil => simpa using hne
    | cons name' names => simp [hne name List.mem_cons_self]

theorem intercalate_append_singleton (sep name : Text) {names : List Text} (h : names ≠ []) :
    sep.intercalate (names ++ [name]) = sep.intercalate names ++ sep ++ name := by
  induction names with
  | nil => exact absurd rfl h
  | cons name' names ih =>
    cases names with
    | nil => simp
    | cons name'' names =>
      rw [List.cons_append, List.cons_append, List.intercalate_cons_cons,
        List.intercalate_cons_cons, ← List.cons_append, ih (by simp)]
      simp only [List.append_assoc]

/-- The loop joins the names with commas. -/
theorem namesLoop_eq (extLights : UInt8) {names : List Text} (hne : ∀ name ∈ names, name ≠ []) :
    ∀ (i : ℕ) (written : List Text), (∀ name ∈ written, name ≠ []) →
      namesLoop extLights i names ([','].intercalate written) =
        [','].intercalate (written ++ litNames extLights i names) := by
  induction names with
  | nil => intro i written _; simp [namesLoop, litNames]
  | cons name names ih =>
    intro i written hwritten
    obtain ⟨hname, hne⟩ := List.forall_mem_cons.mp hne
    rw [namesLoop]
    by_cases hlit : isLit extLights i
    · have hnext : ∀ n ∈ written ++ [name], n ≠ [] := by
        intro n hn
        rcases List.mem_append.mp hn with hn | hn
        · exact hwritten n hn
        · exact List.mem_singleton.mp hn ▸ hname
      have hstep : (if ([','].intercalate written).length ≠ 0 then
          [','].intercalate written ++ [','] else [','].intercalate written) ++ name =
            [','].intercalate (written ++ [name]) := by
        by_cases hnil : written = []
        · simp [hnil]
        · have hlen : ([','].intercalate written).length ≠ 0 := by
            rw [Ne, List.length_eq_zero_iff, intercalate_eq_nil hwritten]
            exact hnil
          rw [if_pos hlen, intercalate_append_singleton _ _ hnil]
      rw [if_pos hlit, hstep, ih hne (i + 1) (written ++ [name]) hnext]
      simp [litNames, List.zipIdx_cons, hlit]
    · rw [if_neg hlit, ih hne (i + 1) written hwritten]
      simp [litNames, List.zipIdx_cons, hlit]

/-- The names are listed, each as an item of its own. -/
theorem splitOn_exteriorLightsBitToString (extLights : UInt8) :
    (exteriorLightsBitToString extLights).splitOn ',' =
      if litNames extLights 0 bitnames = [] then ["off".toList]
      else litNames extLights 0 bitnames := by
  have hmem : ∀ name ∈ litNames extLights 0 bitnames, name ∈ bitnames := by
    intro name hname
    obtain ⟨e, he, rfl⟩ := List.mem_map.mp hname
    exact List.fst_mem_of_mem_zipIdx (List.mem_filter.mp he).1
  have hne : ∀ name ∈ bitnames, name ≠ [] := by decide
  have hloop := namesLoop_eq extLights hne 0 [] (by simp)
  rw [List.intercalate_nil, List.nil_append] at hloop
  rw [exteriorLightsBitToString, hloop]
  by_cases hnil : litNames extLights 0 bitnames = []
  · rw [if_pos hnil, hnil]
    decide
  · rw [if_neg hnil, if_neg fun h =>
      hnil ((intercalate_eq_nil fun name hname => hne name (hmem name hname)).mp h)]
    have hcomma : ∀ name ∈ bitnames, ',' ∉ name := by decide
    exact List.splitOn_intercalate ',' (fun name hname => hcomma name (hmem name hname)) hnil

/-- A name is listed exactly when its bit is set. -/
theorem mem_splitOn_iff (extLights : UInt8) {e : Text × ℕ} (he : e ∈ bitnames.zipIdx) :
    e.1 ∈ (exteriorLightsBitToString extLights).splitOn ',' ↔ isLit extLights e.2 := by
  have hname : ∀ e ∈ bitnames.zipIdx, ∀ e' ∈ bitnames.zipIdx, e.1 = e'.1 → e = e' := by decide
  have hlit : e.1 ∈ litNames extLights 0 bitnames ↔ isLit extLights e.2 := by
    constructor
    · intro hmem
      obtain ⟨e', he', heq⟩ := List.mem_map.mp hmem
      obtain ⟨hzip, hbit⟩ := List.mem_filter.mp he'
      rwa [hname e he e' hzip heq.symm]
    · exact fun hbit => List.mem_map.mpr ⟨e, List.mem_filter.mpr ⟨he, hbit⟩, rfl⟩
  rw [splitOn_exteriorLightsBitToString]
  by_cases hnil : litNames extLights 0 bitnames = []
  · have hoff : ∀ e ∈ bitnames.zipIdx, e.1 ≠ "off".toList := by decide
    rw [if_pos hnil, ← hlit, hnil]
    simpa using hoff e he
  · rw [if_neg hnil, hlit]

theorem sum_isLit : ∀ n < 256, (bitnames.zipIdx.map fun e =>
    if isLit (UInt8.ofNat n) e.2 then (1 : UInt8) <<< (7 - e.2).toUInt8 else 0).sum =
      UInt8.ofNat n := by
  decide +kernel

/-- The status is read back from its text. -/
theorem lightsOf_exteriorLightsBitToString (extLights : UInt8) :
    lightsOf (exteriorLightsBitToString extLights) = extLights := by
  have hbits := sum_isLit extLights.toNat extLights.toNat_lt
  rw [UInt8.ofNat_toNat] at hbits
  rw [lightsOf]
  refine (congrArg List.sum (List.map_congr_left fun e he => ?_)).trans hbits
  simp only [mem_splitOn_iff extLights he]

end SLDM.Utils
