/-
SLDM.Rest.RequestBody — what a REST client sends to the Maneuvering
Service: `make_SLDM_json` and `make_vehicle` of
`ManeuveringServiceRESTclient.cpp`.

`web::json::value` is a value of the HTTP library; `Value` has the kinds
of it that are built here, and `Value.setField` is an assignment through
`operator[]`, which turns a null value into an object.

`make_SLDM_json` reads the database three times, each time under its
locks: the position of the reference vehicle, the vehicles around it and
the reference vehicle again. What the second read returns is a copy of the
vehicle data and a pointer to the path history the database goes on with.
The loop behind the reads follows these pointers without a lock. So the
results of the reads are arguments here, and `phData` of a vehicle is the
history its pointer leads to when the loop comes to it.

`inverse` stands for the solution of the inverse geodesic problem by
GeographicLib, the distance in m between two positions.
-/
import SLDM.Lib.SortedMap
import SLDM.Store.HistoryScan
import SLDM.Utils.ExteriorLightsText
import Mathlib.Data.List.Lex
import Mathlib.Data.Char

namespace SLDM.Rest

open NumberText Store Utils

/-! ## Values -/

/-- `web::json::value`. The overloads of `value::number` for integers make
one kind of number. -/
inductive Value where
  | null
  | double (x : Double)
  | integer (n : ℤ)
  | string (s : Text)
  | array (values : List Value)
  | object (fields : List (Text × Value))

/-- `value[key] = field`. -/
def Value.setField (value : Value) (key : String) (field : Value) : Value :=
  match value with
  | .null => .object [(key.toList, field)]
  | .object fields => .object (SortedMap.set key.toList field fields)
  | value => value

/-- The field under a key. -/
def Value.field (value : Value) (key : String) : Option Value :=
  match value with
  | .object fields => SortedMap.find key.toList fields
  | _ => none

def makeStr (s : String) : Value := .string s.toList

/-- `MAKE_NUM` of a double. -/
def makeNum (q : ℚ) : Value := .double (Double.ofRat q)

/-! ## One vehicle -/

/-- A length of the vehicle, which may not be available. -/
def lengthField (lengthMm : Option Int) : Value :=
  match lengthMm with
  | some n => .integer n
  | none => makeStr "unavailable"

/-- `std::to_string` of the double nearest to a number. -/
def toString (q : ℚ) : Text := (Double.ofRat q).toFixed 6

/-- The assignments of the path history, which a null pointer leaves out. -/
def setHistory (pathHistory : Option PHpoints) (vehicle : Value) : Value :=
  match pathHistory with
  | some p =>
    (vehicle.setField "PH_points_lat"
        (.array (p.scan.map fun data => .string (toString data.lat)))).setField
      "PH_points_lon" (.array (p.scan.map fun data => .string (toString data.lon)))
  | none => vehicle

/-- `make_vehicle`. -/
def makeVehicle (stationID : UInt64) (lat lon : ℚ) (turnindicator : Text) (camTstamp : UInt16)
    (gnTstamp : UInt64) (carLengthMm carWidthMm : Option Int) (speedMs : ℚ)
    (pathHistory : Option PHpoints) (srcQuadk : String) (relativeDistM : ℚ)
    (stationType : StationTypeLDM) (diffRefTstamp diffRecTstamp camRecTstamp dbUpTstamp : UInt64)
    (heading : ℚ) : Value :=
  let vehicle := Value.null
  let vehicle := vehicle.setField "stationID" (.integer stationID.toNat)
  let vehicle := vehicle.setField "lat" (makeNum lat)
  let vehicle := vehicle.setField "lon" (makeNum lon)
  let vehicle := vehicle.setField "speed_ms" (makeNum speedMs)
  let vehicle := vehicle.setField "turnindicator" (.string turnindicator)
  let vehicle := vehicle.setField "CAM_tstamp" (.integer camTstamp.toNat)
  let vehicle := vehicle.setField "GN_tstamp" (.integer gnTstamp.toNat)
  let vehicle := vehicle.setField "relative_dist_to_reference_m" (makeNum relativeDistM)
  let vehicle := vehicle.setField "sourceQuadkey" (makeStr srcQuadk)
  let vehicle := vehicle.setField "stationType" (.integer stationType.value)
  let vehicle := vehicle.setField "heading" (makeNum heading)
  let vehicle := vehicle.setField "time_since_database_update_us" (.integer diffRefTstamp.toNat)
  let vehicle := vehicle.setField "time_since_received_cam_us" (.integer diffRecTstamp.toNat)
  let vehicle := vehicle.setField "cam_received_tstamp_us" (.integer camRecTstamp.toNat)
  let vehicle := vehicle.setField "database_update_tstamp_us" (.integer dbUpTstamp.toNat)
  let vehicle := vehicle.setField "car_len_mm" (lengthField carLengthMm)
  let vehicle := vehicle.setField "car_wid_mm" (lengthField carWidthMm)
  setHistory pathHistory vehicle

/-- The vehicle for an entry, next to the reference vehicle. -/
def vehicleOf (inverse : Distance) (nowUs : UInt64) (refveh : VehicleData)
    (vehdata : ReturnedVehicleData) : Value :=
  let v := vehdata.vehData
  makeVehicle v.stationID v.lat v.lon (turnIndicator v.exteriorLights)
    (UInt16.ofInt v.camTimestamp) v.gnTimestamp v.vehicleLength v.vehicleWidth v.speedMs
    vehdata.phData v.sourceQuadkey (inverse refveh.lat refveh.lon v.lat v.lon) v.stationType
    (nowUs - v.timestampUs) (nowUs - v.onMsgTimestampUs) v.onMsgTimestampUs v.timestampUs v.heading

/-! ## The body -/

/-- The vehicles the loop does not `continue` on. -/
def isReported (vehdata : ReturnedVehicleData) : Bool :=
  !(vehdata.vehData.stationType != .passengerCar &&
    vehdata.vehData.stationType != .specificCategoryVehicle1)

/-- `make_SLDM_json`, on what `rangeSelect` and `lookup` have answered. -/
def makeSLDMJson (inverse : Distance) (selected : LDMMapError × List ReturnedVehicleData)
    (reference : LDMMapError × Option ReturnedVehicleData) (refVehStationID nowUs : UInt64)
    (eventID : Int) : Value :=
  let sldmJson := Value.null
  let sldmJson := sldmJson.setField "generation_tstamp" (.integer nowUs.toNat)
  let sldmJson := sldmJson.setField "eventID" (.integer eventID)
  let sldmJson := sldmJson.setField "event" (makeStr "CLC")
  let sldmJson := sldmJson.setField "reference_vehicle_ID" (.integer refVehStationID.toNat)
  match selected with
  | (.ok, returnedvehs) =>
    let sldmJson := sldmJson.setField "error" (makeStr "OK")
    match reference with
    | (.ok, some refveh) =>
      let sldmJson := sldmJson.setField "error" (makeStr "OK")
      let vehicles := (returnedvehs.filter isReported).map (vehicleOf inverse nowUs refveh.vehData)
      sldmJson.setField "vehicles" (.array vehicles)
    | _ => sldmJson.setField "error" (makeStr "ERROR_REFERENCE_LOOKUP")
  | _ => sldmJson.setField "error" (makeStr "ERROR")

/-! ## Fields -/

/-- A value fields can be set in. -/
def Value.Fillable : Value → Prop
  | .null => True
  | .object _ => True
  | _ => False

@[simp] theorem Value.fillable_null : Value.null.Fillable := trivial

@[simp] theorem Value.field_null (key : String) : Value.null.field key = none := rfl

@[simp] theorem Value.fillable_setField (value : Value) (key : String) (field : Value) :
    (value.setField key field).Fillable ↔ value.Fillable := by
  cases value <;> exact Iff.rfl

theorem Value.field_setField {value : Value} (h : value.Fillable) (key key' : String)
    (field : Value) : (value.setField key field).field key' =
      if key' = key then some field else value.field key' := by
  have hkeys : key'.toList = key.toList ↔ key' = key := String.toList_inj
  cases value with
  | null => simp [setField, Value.field, SortedMap.find_cons, hkeys]
  | object fields => simp [setField, Value.field, SortedMap.find_set, hkeys]
  | _ => exact h.elim

/-! ## What the body describes -/

/-- In range of a position. -/
def Near (haversineDist : Distance) (rangeM lat lon : ℚ) (r : Record) : Prop :=
  haversineDist lat lon r.latest.lat r.latest.lon ≤ rangeM

/-- The stations the loop does not `continue` on. -/
def IsCar (r : Record) : Prop :=
  r.latest.stationType = .passengerCar ∨ r.latest.stationType = .specificCategoryVehicle1

/-- The body of a request about a station, in terms of the maps at the
three moments the database was read. `later` says which records a station
had from the second of them on: the path history is of one of these. -/
structure Describes (haversineDist inverse : Distance) (a₁ a₂ a₃ : StationMap)
    (later : UInt64 → Record → Prop) (rangeM : ℚ) (stationID nowUs : UInt64)
    (body : Value) : Prop where
  reference : body.field "reference_vehicle_ID" = some (.integer stationID.toNat)
  generation : body.field "generation_tstamp" = some (.integer nowUs.toNat)
  /-- The station is not known. -/
  unknown : a₁ stationID = none →
    body.field "error" = some (makeStr "ERROR") ∧ body.field "vehicles" = none
  /-- The station has been removed while its surroundings were read. -/
  vanished : ∀ r₁, a₁ stationID = some r₁ → a₃ stationID = none →
    body.field "error" = some (makeStr "ERROR_REFERENCE_LOOKUP") ∧ body.field "vehicles" = none
  /-- The cars around the station, each once, next to its latest data. -/
  surroundings : ∀ r₁ r₃, a₁ stationID = some r₁ → a₃ stationID = some r₃ →
    body.field "error" = some (makeStr "OK") ∧ ∃ ids vehicles,
      a₂.Enumerates (fun r => Near haversineDist rangeM r₁.latest.lat r₁.latest.lon r ∧ IsCar r)
        ids ∧
      body.field "vehicles" = some (.array vehicles) ∧
      List.Forall₂ (fun id vehicle => ∃ r r', a₂ id = some r ∧ later id r' ∧
        vehicle = vehicleOf inverse nowUs r₃.latest ⟨r.latest, some (r'.history haversineDist)⟩)
        ids vehicles

/-- What is held of a vehicle when it is written: the data of a station,
and the history of a later record of it. -/
def HeldFor (haversineDist : Distance) (a : StationMap) (later : UInt64 → Record → Prop)
    (vehdata : ReturnedVehicleData) : Prop :=
  ∃ r r', a vehdata.vehData.stationID = some r ∧ later vehdata.vehData.stationID r' ∧
    vehdata = ⟨r.latest, some (r'.history haversineDist)⟩

section Describes

variable {haversineDist inverse : Distance} {a₁ a₂ a₃ : StationMap}
  {later later' : UInt64 → Record → Prop} {stationID : UInt64}

theorem HeldFor.mono (hlater : ∀ id r, later id r → later' id r) {vehdata : ReturnedVehicleData}
    (h : HeldFor haversineDist a₂ later vehdata) : HeldFor haversineDist a₂ later' vehdata := by
  obtain ⟨r, r', hr, hr', heq⟩ := h
  exact ⟨r, r', hr, hlater _ _ hr', heq⟩

theorem Describes.mono (hlater : ∀ id r, later id r → later' id r) {rangeM : ℚ} {nowUs : UInt64}
    {body : Value}
    (h : Describes haversineDist inverse a₁ a₂ a₃ later rangeM stationID nowUs body) :
    Describes haversineDist inverse a₁ a₂ a₃ later' rangeM stationID nowUs body where
  reference := h.reference
  generation := h.generation
  unknown := h.unknown
  vanished := h.vanished
  surroundings := by
    intro r₁ r₃ h₁ h₃
    obtain ⟨hok, ids, vehicles, hids, hbody, hall⟩ := h.surroundings r₁ r₃ h₁ h₃
    refine ⟨hok, ids, vehicles, hids, hbody, hall.imp fun id vehicle hex => ?_⟩
    obtain ⟨r, r', hr, hr', heq⟩ := hex
    exact ⟨r, r', hr, hlater id r' hr', heq⟩

theorem lookup_of_related {m : LDMMap} {a : StationMap} (h : Related haversineDist m a)
    (hid : stationID < 0x100000000) : m.lookup stationID =
      match a stationID with
      | none => (.itemNotFound, none)
      | some r => (.ok, some (r.entry haversineDist)) := by
  rw [LDMMap.lookup_eq, h.entry stationID hid]
  cases a stationID <;> rfl

theorem isReported_iff {vehdata : ReturnedVehicleData} {r : Record}
    (h : vehdata.vehData = r.latest) : isReported vehdata = true ↔ IsCar r := by
  simp only [isReported, IsCar, h, Bool.not_eq_true', Bool.and_eq_false_iff, bne_eq_false_iff_eq]

/-- The stations of the vehicles that are reported. -/
theorem enumerates_reported {p : Record → Prop} {held : List ReturnedVehicleData}
    (hall : a₂.Enumerates p (held.map fun e => e.vehData.stationID))
    (hheld : ∀ e ∈ held, HeldFor haversineDist a₂ later e) :
    a₂.Enumerates (fun r => p r ∧ IsCar r)
      ((held.filter isReported).map fun e => e.vehData.stationID) := by
  obtain ⟨hnodup, hmem⟩ := hall
  refine ⟨hnodup.sublist (List.filter_sublist.map _), fun id => ⟨fun hid => ?_, fun hid => ?_⟩⟩
  · obtain ⟨e, he, rfl⟩ := List.mem_map.mp hid
    obtain ⟨he, hreported⟩ := List.mem_filter.mp he
    obtain ⟨r, hr, hp⟩ := (hmem _).mp (List.mem_map_of_mem he)
    obtain ⟨r', r'', hr', -, heq⟩ := hheld e he
    obtain rfl : r = r' := Option.some.inj (hr.symm.trans hr')
    exact ⟨r, hr, hp, (isReported_iff (by rw [heq])).mp hreported⟩
  · obtain ⟨r, hr, hp, hcar⟩ := hid
    obtain ⟨e, he, rfl⟩ := List.mem_map.mp ((hmem id).mpr ⟨r, hr, hp⟩)
    obtain ⟨r', r'', hr', -, heq⟩ := hheld e he
    obtain rfl : r = r' := Option.some.inj (hr.symm.trans hr')
    exact List.mem_map_of_mem (List.mem_filter.mpr ⟨he, (isReported_iff (by rw [heq])).mpr hcar⟩)

variable (inverse) (rangeM : ℚ) (nowUs : UInt64) (eventID : Int)

/-- The station is unknown at the first read. -/
theorem describes_unknown (h₁ : a₁ stationID = none) :
    Describes haversineDist inverse a₁ a₂ a₃ later rangeM stationID nowUs
      (makeSLDMJson inverse (.itemNotFound, []) (.itemNotFound, none) stationID nowUs eventID) where
  reference := by simp [makeSLDMJson, Value.field_setField]
  generation := by simp [makeSLDMJson, Value.field_setField]
  unknown := fun _ => by simp [makeSLDMJson, Value.field_setField]
  vanished := fun _ hr => by rw [h₁] at hr; cases hr
  surroundings := fun _ _ hr => by rw [h₁] at hr; cases hr

/-- It is gone at the third. -/
theorem describes_vanished {r₁ : Record} (h₁ : a₁ stationID = some r₁) (h₃ : a₃ stationID = none)
    (returnedvehs : List ReturnedVehicleData) :
    Describes haversineDist inverse a₁ a₂ a₃ later rangeM stationID nowUs
      (makeSLDMJson inverse (.ok, returnedvehs) (.itemNotFound, none) stationID nowUs
        eventID) where
  reference := by simp [makeSLDMJson, Value.field_setField]
  generation := by simp [makeSLDMJson, Value.field_setField]
  unknown := fun hr => by rw [h₁] at hr; cases hr
  vanished := fun _ _ _ => by simp [makeSLDMJson, Value.field_setField]
  surroundings := fun _ _ _ hr => by rw [h₃] at hr; cases hr

/-- It is there each time. -/
theorem describes_surroundings {r₁ r₃ : Record} (h₁ : a₁ stationID = some r₁)
    (h₃ : a₃ stationID = some r₃) {returnedvehs : List ReturnedVehicleData}
    (hall : a₂.Enumerates (Near haversineDist rangeM r₁.latest.lat r₁.latest.lon)
      (returnedvehs.map fun e => e.vehData.stationID))
    (hheld : ∀ e ∈ returnedvehs, HeldFor haversineDist a₂ later e) :
    Describes haversineDist inverse a₁ a₂ a₃ later rangeM stationID nowUs
      (makeSLDMJson inverse (.ok, returnedvehs) (.ok, some (r₃.entry haversineDist)) stationID nowUs
        eventID) where
  reference := by simp [makeSLDMJson, Value.field_setField]
  generation := by simp [makeSLDMJson, Value.field_setField]
  unknown := fun hr => by rw [h₁] at hr; cases hr
  vanished := fun _ _ hr => by rw [h₃] at hr; cases hr
  surroundings := by
    intro r r' hr hr'
    obtain rfl : r₁ = r := Option.some.inj (h₁.symm.trans hr)
    obtain rfl : r₃ = r' := Option.some.inj (h₃.symm.trans hr')
    refine ⟨by simp [makeSLDMJson, Value.field_setField], _,
      (returnedvehs.filter isReported).map (vehicleOf inverse nowUs r₃.latest),
      enumerates_reported hall hheld, ?_, ?_⟩
    · simp [makeSLDMJson, Value.field_setField, Record.entry]
    · rw [List.forall₂_map_left_iff, List.forall₂_map_right_iff, List.forall₂_same]
      intro e he
      obtain ⟨r, r', hr, hlater, heq⟩ := hheld e (List.mem_filter.mp he).1
      exact ⟨r, r', hr, hlater, congrArg _ heq⟩

end Describes

end SLDM.Rest
