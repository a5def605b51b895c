/-
SLDM.Visualizer.Browser — the messages of the vehicle visualizer and what
the map in the browser makes of them.

`vehicleVisualizer` sends one text per message, its fields joined by
commas and the terminating null character with it; `server.js` forwards
the texts and answers a new connection with the map message. In
`map_render.js` a text is split at its commas and told apart by its first
field.

Of the map only what decides which vehicles have a marker is kept: whether
the map has been drawn, and the property names of `markers`. An update
names its property by the text of the ID field, a removal by the number
`parseInt` reads there. How a stream writes a `double` does not matter for
that, so it is a parameter; a text with a comma too many is dropped by the
browser.
-/
import SLDM.Store.VehicleData
import SLDM.Lib.Decimal
import Mathlib.Data.Finset.Basic

namespace SLDM.Visualizer

open Store

abbrev Text := List Char

/-! ## The messages sent -/

/-- The first fields the messages are told apart by. -/
def mapAreasKind : Text := "map_areas".toList
def mapKind : Text := "map".toList
def objectKind : Text := "object".toList
def objcleanKind : Text := "objclean".toList

/-- How `operator<<` writes a `double` with the precision given. -/
abbrev ShowDouble := ℕ → ℚ → Text

/-- `std::to_string` of a station ID. -/
def idText (id : UInt64) : Text := Nat.toDigits 10 id.toNat

/-- An `int` in decimal. -/
def intText (i : Int) : Text :=
  if i < 0 then '-' :: Nat.toDigits 10 i.natAbs else Nat.toDigits 10 i.natAbs

/-- The end of the C string, which `send` sends too. -/
def nul : Char := Char.ofNat 0

/-- What the map message is given. -/
structure MapArea where
  lat : ℚ
  lon : ℚ
  minlat : ℚ
  minlon : ℚ
  maxlat : ℚ
  maxlon : ℚ
  latExtFactor : ℚ
  lonExtFactor : ℚ

/-- `vehicleVisualizer::sendMapDraw`, the one that also draws the areas. -/
def sendMapDraw (showDouble : ShowDouble) (a : MapArea) : Text :=
  mapAreasKind ++ [a.lat, a.lon, a.minlat, a.minlon, a.maxlat, a.maxlon, a.latExtFactor,
    a.lonExtFactor].flatMap (fun value => ',' :: showDouble 7 value) ++ [nul]

/-- `vehicleVisualizer::sendObjectUpdate`. -/
def sendObjectUpdate (showDouble : ShowDouble) (objID : Text) (lat lon : ℚ) (stationType : Int)
    (heading : ℚ) : Text :=
  objectKind ++ ',' :: objID ++ ',' :: showDouble 7 lat ++ ',' :: showDouble 7 lon ++
    ',' :: intText stationType ++ ',' :: showDouble 3 heading ++ [nul]

/-- `vehicleVisualizer::sendObjectClean`. -/
def sendObjectClean (objID : Text) : Text := objcleanKind ++ ',' :: objID ++ [nul]

/-- The callback `updateVisualizer`. -/
def updateVisualizer (showDouble : ShowDouble) (vehdata : VehicleData) : Text :=
  sendObjectUpdate showDouble (idText vehdata.stationID) vehdata.lat vehdata.lon
    vehdata.stationType.value vehdata.heading

/-- The callback `clearVisualizerObject`. -/
def clearVisualizerObject (id : UInt64) : Text := sendObjectClean (idText id)

/-- What `server.js` sends to the browser when it connects, `none` before
the map message came. -/
def mapmsg (drawn : Option Text) (mapboxToken : Text) : Option Text :=
  drawn.map fun msg => msg ++ ',' :: mapboxToken

/-! ## The map in the browser -/

/-- Whether `leafletmap` is set, and the property names of `markers`. -/
structure Browser where
  mapDrawn : Bool
  markers : Finset Text
  deriving DecidableEq

/-- The page as it is loaded. -/
def Browser.loaded : Browser := ⟨false, ∅⟩

/-- `parseInt` of a text that starts with the digits of a number below
2^53, or with no number: `none` is NaN. -/
def parseInt (t : Text) : Option ℕ :=
  let digits := t.takeWhile Char.isDigit
  if digits = [] then none else some (Nat.ofDigitChars 10 digits 0)

/-- The property a number names. -/
def propertyName : Option ℕ → Text
  | some n => Nat.toDigits 10 n
  | none => "NaN".toList

/-- `update_marker`, as far as `markers` goes. -/
def Browser.updateMarker (b : Browser) (id : Text) : Browser :=
  if b.mapDrawn then
    if id ∈ b.markers then b else { b with markers := insert id b.markers }
  else b

/-- The case `'objclean'`. -/
def Browser.cleanMarker (b : Browser) (field : Text) : Browser :=
  let id := propertyName (parseInt field)
  if id ∈ b.markers then { b with markers := b.markers.erase id } else b

/-- The map is drawn by the first message that has all its fields. -/
def Browser.drawMap (b : Browser) (fields : List Text) (count : ℕ) : Browser :=
  if b.mapDrawn then b else if fields.length ≠ count then b else { b with mapDrawn := true }

/-- The handler of `'message'`; `none` is the null sent before the map
message is known. -/
def Browser.receive (b : Browser) : Option Text → Browser
  | none => b
  | some msg =>
    let msgFields := msg.splitOn ','
    let kind := msgFields.headD []
    if kind = mapAreasKind then b.drawMap msgFields 10
    else if kind = mapKind then b.drawMap msgFields 4
    else if kind = objectKind then
      if msgFields.length ≠ 6 then b else b.updateMarker (msgFields.getD 1 [])
    else if kind = objcleanKind then
      if msgFields.length ≠ 2 then b else b.cleanMarker (msgFields.getD 1 [])
    else b

/-! ## What a message does to the markers -/

theorem comma_not_mem_idText (id : UInt64) : ',' ∉ idText id := by
  intro hmem
  have hdigit := Decimal.isDigit_toDigits ',' hmem
  exact absurd hdigit (by decide)

/-- `parseInt` reads the ID back; the null character ends it. -/
theorem parseInt_idText (id : UInt64) : parseInt (idText id ++ [nul]) = some id.toNat := by
  have hnul : [nul].takeWhile Char.isDigit = [] := by decide
  have hdigits : (idText id ++ [nul]).takeWhile Char.isDigit = idText id := by
    rw [idText, List.takeWhile_append_of_pos Decimal.isDigit_toDigits, hnul, List.append_nil]
  have hne : idText id ≠ [] := Nat.toDigits_ne_nil
  simp only [parseInt, hdigits, if_neg hne]
  rw [idText, Nat.ofDigitChars_ten_toDigits]

theorem propertyName_idText (id : UInt64) : propertyName (parseInt (idText id ++ [nul])) =
    idText id := by
  rw [parseInt_idText]; rfl

namespace Browser

/-- A removal takes away the marker of its station. -/
theorem markers_clear (b : Browser) (id : UInt64) :
    (b.receive (some (clearVisualizerObject id))).markers = b.markers.erase (idText id) := by
  have hkind : ',' ∉ objcleanKind := by decide +kernel
  have hlast : ',' ∉ idText id ++ [nul] := by
    rw [List.mem_append, not_or]
    exact ⟨comma_not_mem_idText id, by decide⟩
  have hfields : (clearVisualizerObject id).splitOn ',' =
      [objcleanKind, idText id ++ [nul]] := by
    rw [clearVisualizerObject, sendObjectClean, List.append_assoc, List.cons_append,
      List.splitOn_append_cons_self_of_not_mem hkind, List.splitOn_eq_singleton hlast]
  have hreceive : b.receive (some (clearVisualizerObject id)) =
      b.cleanMarker (idText id ++ [nul]) := by
    have hareas : objcleanKind ≠ mapAreasKind := by decide +kernel
    have hmap : objcleanKind ≠ mapKind := by decide +kernel
    have hobject : objcleanKind ≠ objectKind := by decide +kernel
    simp only [receive, hfields, List.headD_cons, if_neg hareas, if_neg hmap, if_neg hobject,
      if_true, List.length_cons, List.length_nil, List.getD_cons_succ, List.getD_cons_zero,
      ne_eq, not_true_eq_false, if_false]
  rw [hreceive, cleanMarker, propertyName_idText]
  split
  · rfl
  · rename_i hnot
    exact (Finset.erase_eq_of_notMem hnot).symm

/-- An update adds at most the marker of its station. -/
theorem markers_update (showDouble : ShowDouble) (b : Browser) (v : VehicleData) {key : Text}
    (h : key ∈ (b.receive (some (updateVisualizer showDouble v))).markers) :
    key ∈ b.markers ∨ key = idText v.stationID := by
  have hkind : ',' ∉ objectKind := by decide +kernel
  obtain ⟨rest, hfields⟩ : ∃ rest, (updateVisualizer showDouble v).splitOn ',' =
      objectKind :: idText v.stationID :: rest := by
    simp only [updateVisualizer, sendObjectUpdate, List.append_assoc, List.cons_append]
    rw [List.splitOn_append_cons_self_of_not_mem hkind,
      List.splitOn_append_cons_self_of_not_mem (comma_not_mem_idText _)]
    exact ⟨_, rfl⟩
  have hareas : objectKind ≠ mapAreasKind := by decide +kernel
  have hmap : objectKind ≠ mapKind := by decide +kernel
  simp only [receive, hfields, List.headD_cons, if_neg hareas, if_neg hmap, if_true,
    List.getD_cons_succ, List.getD_cons_zero] at h
  split at h
  · exact Or.inl h
  · rw [updateMarker] at h
    split at h
    · split at h
      · exact Or.inl h
      · rcases Finset.mem_insert.mp h with heq | hold
        · exact Or.inr heq
        · exact Or.inl hold
    · exact Or.inl h

theorem markers_drawMap (b : Browser) (fields : List Text) (count : ℕ) :
    (b.drawMap fields count).markers = b.markers := by
  unfold drawMap
  split
  · rfl
  · split <;> rfl

/-- The map message changes no marker. -/
theorem markers_map (showDouble : ShowDouble) (b : Browser) (a : MapArea) (mapboxToken : Text) :
    (b.receive (mapmsg (some (sendMapDraw showDouble a)) mapboxToken)).markers = b.markers := by
  have hkind : ',' ∉ mapAreasKind := by decide +kernel
  obtain ⟨rest, hfields⟩ : ∃ rest,
      (sendMapDraw showDouble a ++ ',' :: mapboxToken).splitOn ',' = mapAreasKind :: rest := by
    rw [sendMapDraw, List.flatMap_cons]
    simp only [List.append_assoc, List.cons_append]
    rw [List.splitOn_append_cons_self_of_not_mem hkind]
    exact ⟨_, rfl⟩
  simp only [mapmsg, Option.map_some, receive, hfields, List.headD_cons, if_true]
  exact markers_drawMap b _ 10

end Browser

end SLDM.Visualizer
