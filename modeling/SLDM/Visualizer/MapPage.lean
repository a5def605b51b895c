/-
SLDM.Visualizer.MapPage — the page of the vehicle visualizer, with what its
markers show.

`Browser` keeps which vehicles have a marker. Here is all of
`map_render.js`: the view the map is drawn with, and for every marker the
position, the rotation, the popup and the icon. The index of the icon is
also kept in `markersicons`, which a removal leaves alone.

The numbers in the messages are written as `operator<<` writes a `double`
and read by `parseFloat`, so seven digits of a position and three of a
heading are left (`near_shown`). `Mirrors.receive` says that the page has
the markers of `Browser`; `receive_update`, `receive_clear` and
`receive_map` say what each message of the server does to it.
-/
import SLDM.Visualizer.Browser
import SLDM.Lib.NumberText

namespace SLDM.Visualizer

open Store NumberText BinaryFloat

/-! ## Numbers -/

/-- The magnitude of the double that is kept for a number. -/
def keptMagnitude (q : ℚ) : ℚ := roundTo 53 (-1074) |q|

/-- The double that is kept for a number, one that is not too large. -/
def kept (q : ℚ) : ℚ := signed (decide (q < 0)) (keptMagnitude q)

/-- `operator<<` for a `double`, in the default format. -/
def streamDouble : ShowDouble := fun precision q =>
  signText (decide (q < 0)) ++ formatG precision (keptMagnitude q)

/-- Half of the last digit is left over, and the double lies above. -/
example : streamDouble 7 (45000005 / 1000000) = "45.00001".toList := by decide +kernel

/-- `parseFloat` of a text that starts with a decimal number, or with no
number. -/
def parseFloat (t : List Char) : Double :=
  if (readSign (t.dropWhile Decimal.isSpace)).2.takeWhile Char.isDigit = [] then .nan else strtod t

/-- What is left of a number after its way through a text. -/
def shown (P : ℕ) (q : ℚ) : Double :=
  Double.ofMagnitude (decide (q < 0))
    (if keptMagnitude q = 0 then 0 else decimal P (significand P (keptMagnitude q)))

theorem parseFloat_text (l : Literal) {rest : List Char} (hrest : l.StopsAt rest) :
    parseFloat (l.text ++ rest) = Double.ofMagnitude l.negative l.magnitude := by
  obtain ⟨c, t, hc, -, htext⟩ := l.text_append rest
  rw [parseFloat, if_neg, l.strtod_text hrest]
  rw [htext, dropWhile_isSpace_sign l.negative hc, readSign_sign l.negative hc]
  simp [hc]

theorem keptMagnitude_nonneg (q : ℚ) : 0 ≤ keptMagnitude q :=
  (representable_roundTo (by norm_num) |q|).nonneg

theorem exists_literal_streamDouble {P : ℕ} (hP : 1 < P) (q : ℚ) :
    ∃ l : Literal, l.text = streamDouble P q ∧
      Double.ofMagnitude l.negative l.magnitude = shown P q := by
  rcases (keptMagnitude_nonneg q).eq_or_lt with hzero | hpos
  · refine ⟨{ printedInt 0 with negative := decide (q < 0) }, ?_, ?_⟩
    · rw [streamDouble, ← hzero, formatG, if_pos rfl]
      simp [Literal.text, printedInt, Literal.fractionText, Literal.exponentText]
    · rw [shown, if_pos hzero.symm]
      congr 1
      simpa [Literal.magnitude, printedInt] using magnitude_printedInt 0
  · obtain ⟨l, hneg, htext, hmag⟩ := exists_literal_formatG hP hpos (decide (q < 0))
    exact ⟨l, htext, by rw [hneg, hmag, shown, if_neg hpos.ne']⟩

/-- The number of the message, whatever ends its field. -/
theorem parseFloat_streamDouble {P : ℕ} (hP : 1 < P) (q : ℚ) {c : Char}
    (hc : c = ',' ∨ c = nul) (rest : List Char) :
    parseFloat (streamDouble P q ++ c :: rest) = shown P q := by
  obtain ⟨l, htext, hvalue⟩ := exists_literal_streamDouble hP q
  rw [← htext, ← hvalue]
  refine parseFloat_text l fun d hd => ?_
  cases hd
  rcases hc with rfl | rfl
  · exact ⟨by decide, fun _ => ⟨by decide, by decide, fun _ => by decide⟩⟩
  · exact ⟨by decide, fun _ => ⟨by decide, by decide, fun _ => by decide⟩⟩

theorem parseFloat_streamDouble_nil {P : ℕ} (hP : 1 < P) (q : ℚ) :
    parseFloat (streamDouble P q) = shown P q := by
  obtain ⟨l, htext, hvalue⟩ := exists_literal_streamDouble hP q
  have hread : parseFloat (l.text ++ []) = Double.ofMagnitude l.negative l.magnitude :=
    parseFloat_text l fun d hd => by cases hd
  rw [List.append_nil] at hread
  rw [← htext, ← hvalue, hread]

/-- A literal has no comma. -/
theorem comma_not_mem_literal (l : Literal) : ',' ∉ l.text := by
  have hdigits {t : List Char} (h : ∀ c ∈ t, c.isDigit = true) : ',' ∉ t := fun hmem =>
    absurd (h ',' hmem) (by decide)
  have hsign : ',' ∉ signText l.negative := by cases l.negative <;> decide
  have hfraction : ',' ∉ Literal.fractionText l.fraction := by
    unfold Literal.fractionText
    split
    · exact List.not_mem_nil
    · simpa using hdigits l.isDigit_fraction
  have hexponent : ',' ∉ Literal.exponentText l.exponent := by
    cases l.exponent with
    | none => exact List.not_mem_nil
    | some e =>
      have hmark : ',' ≠ e.mark := by rcases e.mark_eq with h | h <;> rw [h] <;> decide
      have hesign : ',' ∉ e.sign := by
        rcases e.sign_eq with h | h | h <;> rw [h] <;> decide
      simp [Literal.exponentText, Exponent.text, hmark, hesign, hdigits e.isDigit_digits]
  simp only [Literal.text, List.mem_append, not_or]
  exact ⟨⟨⟨hsign, hdigits l.isDigit_whole⟩, hfraction⟩, hexponent⟩

theorem comma_not_mem_streamDouble {P : ℕ} (hP : 1 < P) (q : ℚ) : ',' ∉ streamDouble P q := by
  obtain ⟨l, htext, -⟩ := exists_literal_streamDouble hP q
  rw [← htext]
  exact comma_not_mem_literal l

/-- The double next to a decimal that has `P` digits of the number kept. -/
def Near (P : ℕ) (q : ℚ) (x : Double) : Prop :=
  ∃ d : ℚ, |d - kept q| ≤ |kept q| / (2 * 10 ^ (P - 1)) ∧ Double.eq (.ofRat d) x = true

theorem abs_signed (negative : Bool) (q : ℚ) : |signed negative q| = |q| := by
  cases negative <;> simp [signed]

theorem signed_sub_signed (negative : Bool) (d q : ℚ) :
    signed negative d - signed negative q = signed negative (d - q) := by
  cases negative
  · rfl
  · simp only [signed, if_true]
    ring

theorem near_shown {P : ℕ} (hP : 0 < P) (q : ℚ) : Near P q (shown P q) := by
  have hnonneg := keptMagnitude_nonneg q
  rw [Near, kept, shown, abs_signed, abs_of_nonneg hnonneg]
  rcases hnonneg.eq_or_lt with hzero | hpos
  · rw [if_pos hzero.symm, ← hzero]
    refine ⟨signed (decide (q < 0)) 0, by simp, Double.eq_ofRat_signed _ le_rfl⟩
  · have hclose := abs_decimal_sub_le hP hpos
    have hdecimal : 0 ≤ decimal P (significand P (keptMagnitude q)) := by
      unfold decimal
      positivity
    rw [if_neg hpos.ne']
    refine ⟨signed (decide (q < 0)) (decimal P (significand P (keptMagnitude q))), ?_,
      Double.eq_ofRat_signed _ hdecimal⟩
    rwa [signed_sub_signed, abs_signed]

/-! ## Headings -/

/-- `VIS_HEADING_INVALID`. -/
def headingInvalid : Double := .ofRat 361

/-- `heading >= VIS_HEADING_INVALID`. -/
def headingUnavailable (heading : Double) : Bool :=
  Double.lt headingInvalid heading || Double.eq heading headingInvalid

/-- `heading < VIS_HEADING_INVALID`. -/
def headingAvailable (heading : Double) : Bool := Double.lt heading headingInvalid

theorem headingInvalid_lt : (361 : ℚ) < 2 ^ 1024 :=
  calc (361 : ℚ) < 2 ^ 9 := by norm_num
    _ ≤ 2 ^ 1024 := pow_le_pow_right₀ (by norm_num) (by norm_num)

theorem exists_headingInvalid :
    ∃ x : Magnitude, x.value = 361 ∧ headingInvalid = .finite false x := by
  have hrep : Representable 53 (-1074) 361 := ⟨361, 0, by norm_num, by norm_num, by norm_num⟩
  refine ⟨⟨361, hrep, headingInvalid_lt⟩, rfl, ?_⟩
  have hround : roundTo 53 (-1074) 361 = 361 := roundTo_of_representable hrep
  have habs : |(361 : ℚ)| = 361 := by norm_num
  rw [headingInvalid, Double.ofRat, habs]
  exact Double.ofMagnitude_of_roundTo hround

/-- A number cannot be below and not below another one. -/
theorem headingUnavailable_of_available {heading : Double} (h : headingAvailable heading = true) :
    headingUnavailable heading = false := by
  obtain ⟨x, -, hx⟩ := exists_headingInvalid
  rw [headingAvailable, hx] at h
  rw [headingUnavailable, hx]
  cases heading with
  | finite negative magnitude =>
    simp only [Double.lt, decide_eq_true_eq] at h
    simp [Double.lt, Double.eq, h.le, h.ne]
  | infinite negative =>
    have hneg : negative = true := h
    simp [Double.lt, Double.eq, hneg]
  | nan => cases h

/-- The unit of the doubles up to 512. -/
theorem ulpExponent_of_lt {q : ℚ} (hq : 0 ≤ q) (hlt : q < 512) :
    ulpExponent 53 (-1074) q ≤ -44 := by
  refine max_le (by norm_num) ?_
  rcases hq.eq_or_lt with rfl | hpos
  · simp
  · have hlog : Int.log 2 q < 9 := (Int.lt_zpow_iff_log_lt (by norm_num) hpos).mp (by
      norm_num
      exact hlt)
    push_cast
    omega

/-- Rounding a number of moderate size to a double moves it by little. -/
theorem roundTo_le_add_half {q : ℚ} (hq : 0 ≤ q) (hlt : q < 512) :
    roundTo 53 (-1074) q ≤ q + 1 / 2 := by
  have hexponent := ulpExponent_of_lt hq hlt
  have hulp : (2 : ℚ) ^ ulpExponent 53 (-1074) q ≤ 1 :=
    zpow_le_one_of_nonpos₀ (by norm_num) (by omega)
  have hclose := abs_units_sub_le (u := 2 ^ ulpExponent 53 (-1074) q) (by positivity) hq
  have hupper := (abs_le.mp hclose).2
  rw [roundTo]
  linarith

/-- A heading below 360.5 is kept as one of at most 360.5. -/
theorem keptMagnitude_heading_le {q : ℚ} (hq : 0 ≤ q) (hlt : q < 721 / 2) :
    keptMagnitude q ≤ 721 / 2 := by
  have hround := roundTo_le (m := 721) (e := -1)
    ((ulpExponent_of_lt hq (hlt.trans (by norm_num))).trans (by norm_num))
    (by norm_num; linarith : q ≤ (721 : ℕ) * 2 ^ (-1 : ℤ))
  rw [keptMagnitude, abs_of_nonneg hq]
  norm_num at hround
  linarith

theorem roundHalfEven_heading : Decimal.roundHalfEven (721 / 2) = 360 := by decide +kernel

/-- Three digits of a heading up to 360.5 make at most 360. -/
theorem decimal_heading_le {q : ℚ} (hq : 0 < q) (hle : q ≤ 721 / 2) :
    decimal 3 (significand 3 q) ≤ 360 := by
  rcases lt_or_ge q 100 with hsmall | hlarge
  · have hclose := abs_decimal_sub_le (P := 3) (by norm_num) hq
    have hupper := (abs_le.mp hclose).2
    norm_num at hupper
    linarith
  · -- the last of the three digits is that of the units
    have hlog : Int.log 10 q = 2 := by
      refine le_antisymm (Int.lt_add_one_iff.mp ?_) ?_
      · refine (Int.lt_zpow_iff_log_lt (by norm_num) hq).mp ?_
        norm_num
        linarith
      · refine (Int.zpow_le_iff_le_log (by norm_num) hq).mp ?_
        norm_num
        exact hlarge
    have hnat : Decimal.roundHalfEven q ≤ 360 := by
      rcases hle.eq_or_lt with rfl | hlt
      · exact roundHalfEven_heading.le
      · have hround := Decimal.abs_roundHalfEven_sub_le (x := q) hq.le
        have hupper := (abs_le.mp hround).2
        have hcast : (Decimal.roundHalfEven q : ℚ) < 361 := by linarith
        exact Nat.lt_succ_iff.mp (by exact_mod_cast hcast)
    rw [decimal_significand (by norm_num), rawSignificand, hlog]
    norm_num
    exact_mod_cast hnat

/-- Such a heading is available, also the 360.1 degrees that stand for an
unavailable heading in the messages. -/
theorem headingAvailable_shown {q : ℚ} (hlt : q < 721 / 2) :
    headingAvailable (shown 3 q) = true := by
  have hmagnitude :
      0 ≤ (if keptMagnitude q = 0 then 0 else decimal 3 (significand 3 (keptMagnitude q))) ∧
        (0 ≤ q → (if keptMagnitude q = 0 then 0
          else decimal 3 (significand 3 (keptMagnitude q))) ≤ 360) := by
    split
    · norm_num
    · rename_i hne
      refine ⟨by unfold decimal; positivity, fun hnonneg => ?_⟩
      exact decimal_heading_le (lt_of_le_of_ne (keptMagnitude_nonneg q) (Ne.symm hne))
        (keptMagnitude_heading_le hnonneg hlt)
  rw [headingAvailable, shown]
  generalize (if keptMagnitude q = 0 then 0
    else decimal 3 (significand 3 (keptMagnitude q))) = d at hmagnitude ⊢
  obtain ⟨hzero, hle⟩ := hmagnitude
  obtain ⟨x, hx, hinvalid⟩ := exists_headingInvalid
  rw [hinvalid]
  rcases lt_or_ge q 0 with hneg | hnonneg
  · -- a negative number is below, however large
    rw [decide_eq_true hneg, Double.ofMagnitude]
    split
    · have hrep : Representable 53 (-1074) (roundTo 53 (-1074) d) :=
        representable_roundTo (by norm_num) d
      have hvalue := hrep.nonneg
      simp only [Double.lt, signed, if_true, hx, decide_eq_true_eq, Bool.false_eq_true, if_false]
      linarith
    · rfl
  · have hround := roundTo_le_add_half hzero ((hle hnonneg).trans_lt (by norm_num))
    have hbound : roundTo 53 (-1074) d < 361 := by linarith [hle hnonneg]
    rw [decide_eq_false (not_lt.mpr hnonneg), Double.ofMagnitude,
      dif_pos (hbound.trans headingInvalid_lt)]
    simpa [Double.lt, signed, hx] using hbound

/-! ## The page -/

/-- The icons, by the indices `markersicons` keeps. -/
inductive Icon where
  | car
  | circle
  | greenCircle
  | detectedCar
  | detectedPedestrian
  | detectedTruck
  deriving DecidableEq, Repr

/-- The text of a popup: `"ID: "+id+" - Heading: "` and what follows. -/
inductive Popup where
  | heading (id : Text) (degrees : Double)
  | unavailable (id : Text)
  deriving DecidableEq

/-- A marker on the map. -/
structure Marker where
  lat : Double
  lon : Double
  icon : Icon
  rotationAngle : Double
  popup : Popup
  deriving DecidableEq

/-- What `draw_map` is called with. -/
structure MapView where
  lat : Double
  lon : Double
  minlat : Double
  minlon : Double
  maxlat : Double
  maxlon : Double
  latExtFactor : Double
  lonExtFactor : Double
  mapboxToken : Option Text
  deriving DecidableEq

/-- The variables of `map_render.js`; `map_rx` is true when `leafletmap` is
set. -/
structure Page where
  leafletmap : Option MapView
  markers : Text → Option Marker
  markersicons : Text → Option Icon

/-- The page as it is loaded. -/
def Page.loaded : Page := ⟨none, fun _ => none, fun _ => none⟩

/-- `VIS_LONLAT_INVALID`. -/
def lonLatInvalid : Double := .ofRat (-80000)

/-- `parseInt` of a text that starts with a decimal number with or without
a sign, or with no number. -/
def parseSignedInt (t : Text) : Option ℤ :=
  let (negative, unsigned) := readSign (t.dropWhile Decimal.isSpace)
  if unsigned.takeWhile Char.isDigit = [] then none
  else
    let value := Nat.ofDigitChars 10 (unsigned.takeWhile Char.isDigit) 0
    some (if negative then -(value : ℤ) else value)

/-- The icon a new marker gets. -/
def initialIcon (stationtype : Option ℤ) (heading : Double) : Icon :=
  if stationtype = some 0 then .detectedCar
  else if headingUnavailable heading then .circle
  else if stationtype = some 110 then .detectedPedestrian
  else if stationtype = some 117 then .detectedTruck
  else .car

/-- `newmarker`. -/
def Marker.create (id : Text) (lat lon : Double) (stationtype : Option ℤ) (heading : Double) :
    Marker where
  lat := lat
  lon := lon
  icon := initialIcon stationtype heading
  rotationAngle := if stationtype = some 110 then .ofRat 0 else heading
  popup := if headingAvailable heading then .heading id heading else .unavailable id

/-- The icon an update changes to, `none` when it changes nothing. -/
def newIcon (icon : Option Icon) (stationtype : Option ℤ) (heading : Double) : Option Icon :=
  if stationtype = some 0 then
    if icon = some .car ∨ icon = some .circle then some .greenCircle else none
  else if headingUnavailable heading ∧ (icon = some .car ∨ icon = some .greenCircle) then
    some .circle
  else if headingAvailable heading ∧ (icon = some .circle ∨ icon = some .greenCircle) then
    if stationtype = some 110 then some .detectedPedestrian
    else if stationtype = some 117 then some .detectedTruck
    else some .car
  else none

/-- A marker that is there already; `icon` is what `markersicons` has. -/
def Marker.update (marker : Marker) (icon : Option Icon) (id : Text) (lat lon : Double)
    (stationtype : Option ℤ) (heading : Double) : Marker where
  lat := lat
  lon := lon
  icon := (newIcon icon stationtype heading).getD marker.icon
  rotationAngle := if stationtype = some 110 then marker.rotationAngle else heading
  popup :=
    if headingUnavailable heading ∧ icon = some .car then .unavailable id
    else if headingAvailable heading then .heading id heading
    else marker.popup

namespace Page

/-- `update_marker`. -/
def updateMarker (p : Page) (id : Text) (lat lon : Double) (stationtype : Option ℤ)
    (heading : Double) : Page :=
  if p.leafletmap.isNone then p
  else
    match p.markers id with
    | none =>
      { p with markers := Function.update p.markers id
                 (some (.create id lat lon stationtype heading))
               markersicons := Function.update p.markersicons id
                 (some (initialIcon stationtype heading)) }
    | some marker =>
      let icon := p.markersicons id
      { p with markers := Function.update p.markers id
                 (some (marker.update icon id lat lon stationtype heading))
               markersicons :=
                 match newIcon icon stationtype heading with
                 | none => p.markersicons
                 | some changed => Function.update p.markersicons id (some changed) }

/-- The case `'objclean'`; the entry of `markersicons` stays. -/
def cleanMarker (p : Page) (field : Text) : Page :=
  let id := propertyName (parseInt field)
  if (p.markers id).isSome then { p with markers := Function.update p.markers id none } else p

/-- The token field, `none` for the text `none`. -/
def readToken (field : Text) : Option Text := if field ≠ "none".toList then some field else none

/-- The case `'map_areas'`. -/
def drawAreas (p : Page) (fields : List Text) : Page :=
  if p.leafletmap.isSome then p
  else if fields.length ≠ 10 then p
  else
    let number (i : ℕ) := parseFloat (fields.getD i [])
    { p with leafletmap := some ⟨number 1, number 2, number 3, number 4, number 5, number 6,
      number 7, number 8, readToken (fields.getD 9 [])⟩ }

/-- The case `'map'`. -/
def drawMap (p : Page) (fields : List Text) : Page :=
  if p.leafletmap.isSome then p
  else if fields.length ≠ 4 then p
  else
    { p with leafletmap := some ⟨parseFloat (fields.getD 1 []), parseFloat (fields.getD 2 []),
      lonLatInvalid, lonLatInvalid, lonLatInvalid, lonLatInvalid, lonLatInvalid, lonLatInvalid,
      readToken (fields.getD 3 [])⟩ }

/-- The handler of `'message'`. -/
def receive (p : Page) : Option Text → Page
  | none => p
  | some msg =>
    let msgFields := msg.splitOn ','
    let kind := msgFields.headD []
    if kind = mapAreasKind then p.drawAreas msgFields
    else if kind = mapKind then p.drawMap msgFields
    else if kind = objectKind then
      if msgFields.length ≠ 6 then p
      else p.updateMarker (msgFields.getD 1 []) (parseFloat (msgFields.getD 2 []))
        (parseFloat (msgFields.getD 3 [])) (parseSignedInt (msgFields.getD 4 []))
        (parseFloat (msgFields.getD 5 []))
    else if kind = objcleanKind then
      if msgFields.length ≠ 2 then p else p.cleanMarker (msgFields.getD 1 [])
    else p

end Page

/-! ## What an update does -/

namespace Page

section Update

variable {p : Page} {id key : Text} {lat lon heading : Double} {stationtype : Option ℤ}

theorem leafletmap_updateMarker :
    (p.updateMarker id lat lon stationtype heading).leafletmap = p.leafletmap := by
  unfold updateMarker
  split
  · rfl
  · split <;> rfl

/-- The other markers stay. -/
theorem updateMarker_other (hkey : key ≠ id) :
    (p.updateMarker id lat lon stationtype heading).markers key = p.markers key ∧
      (p.updateMarker id lat lon stationtype heading).markersicons key = p.markersicons key := by
  unfold updateMarker
  split
  · exact ⟨rfl, rfl⟩
  · split
    · exact ⟨Function.update_of_ne hkey _ _, Function.update_of_ne hkey _ _⟩
    · refine ⟨Function.update_of_ne hkey _ _, ?_⟩
      cases hchanged : newIcon (p.markersicons id) stationtype heading with
      | none => simp [hchanged]
      | some changed => simp [hchanged, hkey]

/-- A new marker, whatever index an older one left behind. -/
theorem updateMarker_new (hdrawn : p.leafletmap.isNone = false) (hnew : p.markers id = none) :
    (p.updateMarker id lat lon stationtype heading).markers id =
        some (.create id lat lon stationtype heading) ∧
      (p.updateMarker id lat lon stationtype heading).markersicons id =
        some (Marker.create id lat lon stationtype heading).icon := by
  simp only [updateMarker, hdrawn, Bool.false_eq_true, if_false, hnew]
  exact ⟨Function.update_self _ _ _, Function.update_self _ _ _⟩

/-- A marker that is there, with its index. -/
theorem updateMarker_again {marker : Marker} (hdrawn : p.leafletmap.isNone = false)
    (hmarker : p.markers id = some marker) (hicon : p.markersicons id = some marker.icon) :
    (p.updateMarker id lat lon stationtype heading).markers id =
        some (marker.update (some marker.icon) id lat lon stationtype heading) ∧
      (p.updateMarker id lat lon stationtype heading).markersicons id =
        some (marker.update (some marker.icon) id lat lon stationtype heading).icon := by
  simp only [updateMarker, hdrawn, Bool.false_eq_true, if_false, hmarker, hicon]
  refine ⟨Function.update_self _ _ _, ?_⟩
  cases hchanged : newIcon (some marker.icon) stationtype heading with
  | none => simp [Marker.update, hchanged, hicon]
  | some changed => simp [Marker.update, hchanged]

end Update

end Page

/-! ## The page and its markers -/

/-- The page has drawn its map when the browser has, and has its markers. -/
structure Mirrors (p : Page) (b : Browser) : Prop where
  mapDrawn : b.mapDrawn = p.leafletmap.isSome
  markers : ∀ key, key ∈ b.markers ↔ (p.markers key).isSome = true

theorem mirrors_loaded : Mirrors .loaded .loaded where
  mapDrawn := rfl
  markers key := by simp [Browser.loaded, Page.loaded]

section Mirrors

variable {p : Page} {b : Browser}

theorem Mirrors.updateMarker (h : Mirrors p b) (id : Text) (lat lon : Double)
    (stationtype : Option ℤ) (heading : Double) :
    Mirrors (p.updateMarker id lat lon stationtype heading) (b.updateMarker id) := by
  rw [Page.updateMarker, Browser.updateMarker, h.mapDrawn, ← Option.not_isSome]
  cases hdrawn : p.leafletmap.isSome with
  | false => simpa using h
  | true =>
    have hmem := h.markers id
    cases hmarker : p.markers id with
    | none =>
      have hnot : id ∉ b.markers := by simp [hmem, hmarker]
      refine ⟨by simp [hnot, hdrawn], fun key => ?_⟩
      by_cases hkey : key = id
      · subst hkey; simp [hnot]
      · simp [hnot, hkey, h.markers key]
    | some marker =>
      have hin : id ∈ b.markers := by simp [hmem, hmarker]
      refine ⟨by simp [hin, h.mapDrawn, hdrawn], fun key => ?_⟩
      by_cases hkey : key = id
      · subst hkey; simp [hin]
      · simp [hin, hkey, h.markers key]

theorem Mirrors.cleanMarker (h : Mirrors p b) (field : Text) :
    Mirrors (p.cleanMarker field) (b.cleanMarker field) := by
  rw [Page.cleanMarker, Browser.cleanMarker]
  simp only [← h.markers]
  split
  · refine ⟨h.mapDrawn, fun key => ?_⟩
    by_cases hkey : key = propertyName (parseInt field)
    · simp [hkey]
    · simp [hkey, h.markers key]
  · exact h

theorem Mirrors.drawAreas (h : Mirrors p b) (fields : List Text) :
    Mirrors (p.drawAreas fields) (b.drawMap fields 10) := by
  rw [Page.drawAreas, Browser.drawMap, h.mapDrawn]
  split
  · exact h
  · split
    · exact h
    · exact ⟨rfl, h.markers⟩

theorem Mirrors.drawMap (h : Mirrors p b) (fields : List Text) :
    Mirrors (p.drawMap fields) (b.drawMap fields 4) := by
  rw [Page.drawMap, Browser.drawMap, h.mapDrawn]
  split
  · exact h
  · split
    · exact h
    · exact ⟨rfl, h.markers⟩

/-- Whatever the message, the page keeps the markers of `Browser`. -/
theorem Mirrors.receive (h : Mirrors p b) (msg : Option Text) :
    Mirrors (p.receive msg) (b.receive msg) := by
  cases msg with
  | none => exact h
  | some msg =>
    simp only [Page.receive, Browser.receive]
    split
    · exact h.drawAreas _
    · split
      · exact h.drawMap _
      · split
        · split
          · exact h
          · exact h.updateMarker _ _ _ _ _
        · split
          · split
            · exact h
            · exact h.cleanMarker _
          · exact h

end Mirrors

/-! ## The messages of the server -/

theorem parseSignedInt_intText (i : ℤ) (rest : List Char)
    (hrest : rest.takeWhile Char.isDigit = []) : parseSignedInt (intText i ++ rest) = some i := by
  have hdigits : (Nat.toDigits 10 i.natAbs ++ rest).takeWhile Char.isDigit =
      Nat.toDigits 10 i.natAbs := by
    rw [List.takeWhile_append_of_pos Decimal.isDigit_toDigits, hrest, List.append_nil]
  have htext : intText i ++ rest =
      signText (decide (i < 0)) ++ (Nat.toDigits 10 i.natAbs ++ rest) := by
    by_cases hneg : i < 0 <;> simp [intText, signText, hneg]
  obtain ⟨c, t, hdec⟩ := List.exists_cons_of_ne_nil (Nat.toDigits_ne_nil (n := i.natAbs) (b := 10))
  have hc : c.isDigit = true := Decimal.isDigit_toDigits c (hdec ▸ List.mem_cons_self)
  rw [hdec, List.cons_append] at htext
  rw [parseSignedInt, htext, dropWhile_isSpace_sign _ hc, readSign_sign _ hc]
  rw [hdec, List.cons_append] at hdigits
  simp only [hdigits, if_neg (List.cons_ne_nil c t)]
  rw [← hdec, Nat.ofDigitChars_ten_toDigits]
  by_cases hneg : i < 0
  · rw [if_pos (decide_eq_true hneg)]
    exact congrArg some (by omega)
  · rw [if_neg (by simpa using hneg)]
    exact congrArg some (by omega)

theorem comma_not_mem_intText (i : ℤ) : ',' ∉ intText i := by
  have hdigits : ',' ∉ Nat.toDigits 10 i.natAbs := fun hmem =>
    absurd (Decimal.isDigit_toDigits ',' hmem) (by decide)
  unfold intText
  split
  · simp [hdigits]
  · exact hdigits

/-- The fields of an update. -/
theorem splitOn_updateVisualizer (v : VehicleData) :
    (updateVisualizer streamDouble v).splitOn ',' = [objectKind, idText v.stationID,
      streamDouble 7 v.lat, streamDouble 7 v.lon, intText v.stationType.value,
      streamDouble 3 v.heading ++ [nul]] := by
  have hkind : ',' ∉ objectKind := by decide +kernel
  have hlast : ',' ∉ streamDouble 3 v.heading ++ [nul] := by
    rw [List.mem_append, not_or]
    exact ⟨comma_not_mem_streamDouble (by norm_num) v.heading, by decide⟩
  simp only [updateVisualizer, sendObjectUpdate, List.append_assoc, List.cons_append]
  rw [List.splitOn_append_cons_self_of_not_mem hkind,
    List.splitOn_append_cons_self_of_not_mem (comma_not_mem_idText _),
    List.splitOn_append_cons_self_of_not_mem (comma_not_mem_streamDouble (by norm_num) _),
    List.splitOn_append_cons_self_of_not_mem (comma_not_mem_streamDouble (by norm_num) _),
    List.splitOn_append_cons_self_of_not_mem (comma_not_mem_intText _),
    List.splitOn_eq_singleton hlast]

/-- The update of a vehicle, as `update_marker` is called for it. -/
def Page.updateVehicle (p : Page) (v : VehicleData) : Page :=
  p.updateMarker (idText v.stationID) (shown 7 v.lat) (shown 7 v.lon) (some v.stationType.value)
    (shown 3 v.heading)

theorem Page.receive_update (p : Page) (v : VehicleData) :
    p.receive (some (updateVisualizer streamDouble v)) = p.updateVehicle v := by
  have hareas : objectKind ≠ mapAreasKind := by decide +kernel
  have hmap : objectKind ≠ mapKind := by decide +kernel
  have htype := parseSignedInt_intText v.stationType.value [] rfl
  rw [List.append_nil] at htype
  simp only [receive, splitOn_updateVisualizer, List.headD_cons, if_neg hareas, if_neg hmap,
    if_true, List.length_cons, List.length_nil, List.getD_cons_succ, List.getD_cons_zero, ne_eq,
    not_true_eq_false, if_false, htype,
    parseFloat_streamDouble (by norm_num : 1 < 3) v.heading (Or.inr rfl) []]
  rw [parseFloat_streamDouble_nil (by norm_num), parseFloat_streamDouble_nil (by norm_num),
    updateVehicle]

theorem Page.receive_clear (p : Page) (id : UInt64) :
    p.receive (some (clearVisualizerObject id)) =
      { p with markers := Function.update p.markers (idText id) none } := by
  have hkind : ',' ∉ objcleanKind := by decide +kernel
  have hlast : ',' ∉ idText id ++ [nul] := by
    rw [List.mem_append, not_or]
    exact ⟨comma_not_mem_idText id, by decide⟩
  have hfields : (clearVisualizerObject id).splitOn ',' =
      [objcleanKind, idText id ++ [nul]] := by
    rw [clearVisualizerObject, sendObjectClean, List.append_assoc, List.cons_append,
      List.splitOn_append_cons_self_of_not_mem hkind, List.splitOn_eq_singleton hlast]
  have hareas : objcleanKind ≠ mapAreasKind := by decide +kernel
  have hmap : objcleanKind ≠ mapKind := by decide +kernel
  have hobject : objcleanKind ≠ objectKind := by decide +kernel
  simp only [receive, hfields, List.headD_cons, if_neg hareas, if_neg hmap, if_neg hobject,
    if_true, List.length_cons, List.length_nil, List.getD_cons_succ, List.getD_cons_zero,
    ne_eq, not_true_eq_false, if_false, cleanMarker, propertyName_idText]
  split
  · rfl
  · rename_i hnone
    have hsame : Function.update p.markers (idText id) none = p.markers := by
      rw [Function.update_eq_self_iff]
      simpa using Eq.symm (by simpa using hnone)
    rw [hsame]

/-- The map of an area, as `draw_map` is called for it. -/
def MapView.ofArea (a : MapArea) (mapboxToken : Text) : MapView :=
  ⟨shown 7 a.lat, shown 7 a.lon, shown 7 a.minlat, shown 7 a.minlon, shown 7 a.maxlat,
    shown 7 a.maxlon, shown 7 a.latExtFactor, shown 7 a.lonExtFactor, Page.readToken mapboxToken⟩

theorem splitOn_mapmsg (a : MapArea) (mapboxToken : Text) :
    (sendMapDraw streamDouble a ++ ',' :: mapboxToken).splitOn ',' =
      mapAreasKind :: streamDouble 7 a.lat :: streamDouble 7 a.lon :: streamDouble 7 a.minlat ::
        streamDouble 7 a.minlon :: streamDouble 7 a.maxlat :: streamDouble 7 a.maxlon ::
        streamDouble 7 a.latExtFactor :: (streamDouble 7 a.lonExtFactor ++ [nul]) ::
        mapboxToken.splitOn ',' := by
  have hkind : ',' ∉ mapAreasKind := by decide +kernel
  have hnumber (q : ℚ) : ',' ∉ streamDouble 7 q := comma_not_mem_streamDouble (by norm_num) q
  have hlast : ',' ∉ streamDouble 7 a.lonExtFactor ++ [nul] := by
    rw [List.mem_append, not_or]
    exact ⟨hnumber _, by decide⟩
  have htext : sendMapDraw streamDouble a ++ ',' :: mapboxToken =
      mapAreasKind ++ ',' :: (streamDouble 7 a.lat ++ ',' :: (streamDouble 7 a.lon ++
        ',' :: (streamDouble 7 a.minlat ++ ',' :: (streamDouble 7 a.minlon ++
        ',' :: (streamDouble 7 a.maxlat ++ ',' :: (streamDouble 7 a.maxlon ++
        ',' :: (streamDouble 7 a.latExtFactor ++ ',' ::
          ((streamDouble 7 a.lonExtFactor ++ [nul]) ++ ',' :: mapboxToken)))))))) := by
    simp [sendMapDraw]
  rw [htext]
  simp only [List.splitOn_append_cons_self_of_not_mem hkind,
    List.splitOn_append_cons_self_of_not_mem (hnumber _),
    List.splitOn_append_cons_self_of_not_mem hlast]

/-- Only a text without the separator is one field. -/
theorem length_splitOn_eq_one {t : Text} : (t.splitOn ',').length = 1 ↔ ',' ∉ t := by
  constructor
  · intro hlength hmem
    obtain ⟨before, after, rfl, hbefore⟩ := List.eq_append_cons_of_mem hmem
    rw [List.splitOn_append_cons_self_of_not_mem hbefore, List.length_cons] at hlength
    have hne : after.splitOn ',' ≠ [] := List.splitOn_ne_nil _ _
    exact hne (List.length_eq_zero_iff.mp (by omega))
  · intro hnot
    rw [List.splitOn_eq_singleton hnot, List.length_singleton]

/-- The map is drawn once, and not at all with a comma in the token. -/
theorem Page.receive_map (p : Page) (a : MapArea) (mapboxToken : Text) :
    p.receive (mapmsg (some (sendMapDraw streamDouble a)) mapboxToken) =
      if p.leafletmap.isSome ∨ ',' ∈ mapboxToken then p
      else { p with leafletmap := some (.ofArea a mapboxToken) } := by
  have hnumber (q : ℚ) : parseFloat (streamDouble 7 q) = shown 7 q :=
    parseFloat_streamDouble_nil (by norm_num) q
  simp only [mapmsg, Option.map_some, receive, splitOn_mapmsg, List.headD_cons, if_true, drawAreas]
  by_cases hdrawn : p.leafletmap.isSome = true
  · rw [if_pos hdrawn, if_pos (Or.inl hdrawn)]
  · by_cases htoken : ',' ∈ mapboxToken
    · have hlength := mt length_splitOn_eq_one.mp (not_not.mpr htoken)
      rw [if_neg hdrawn, if_pos (by simpa using hlength), if_pos (Or.inr htoken)]
    · rw [List.splitOn_eq_singleton htoken, if_neg hdrawn, if_neg (by simp),
        if_neg (not_or.mpr ⟨hdrawn, htoken⟩)]
      simp only [List.getD_cons_succ, List.getD_cons_zero, hnumber, MapView.ofArea,
        parseFloat_streamDouble (by norm_num : 1 < 7) a.lonExtFactor (Or.inr rfl) []]

end SLDM.Visualizer
