/-
SLDM.Json.Reply — the reply to a request of the on-demand JSON server:
`make_vehicle`, `make_SLDM_json` and the branch of `JSONthread_callback`
that parses a request and sends what it asks for.

A `json11::Json::object` that is being filled is the list of assignments
made so far, in the order of the source; `object` is the map they give.
`MAKE_NUM` picks the constructor of `json11::Json` by the type of its argument: a
`uint16_t` and an enumeration are promoted to `int`, a `uint64_t` keeps
its own kind of number.

The database works on exact rationals (`SLDM.Store.VehicleData`); the
double nearest to one is written. A coordinate or a range of a request is
a double, and may be infinite (`1e999` is a number of JSON). The distance
from an infinite coordinate is `nan`, which no comparison holds of, and
every distance is at most an infinite range.

Console output is left out. So is what the server does with the result of
`send`, which it only reports.
-/
import SLDM.Json.RoundTrip
import SLDM.Json.RequestText
import SLDM.Store.HistoryScan
import SLDM.Utils.ExteriorLightsText

namespace SLDM.Json

open Json11 NumberText Store Utils

/-! ## Doubles -/

/-- The rational a finite double is. -/
def exact : Double → Option ℚ
  | .finite negative x => some (signed negative x.value)
  | _ => none

/-- `range<=0`. -/
def isAtMostZero : Double → Bool
  | .finite negative x => decide (signed negative x.value ≤ 0)
  | .infinite negative => negative
  | .nan => false

/-- `MAKE_NUM` of a double. -/
def makeNum (q : ℚ) : Json := .double (Double.ofRat q)

/-- `MAKE_INT`. -/
def makeInt (n : ℤ) : Json := .int (Int32.ofInt n)

/-- `MAKE_STR`. -/
def makeStr (s : String) : Json := .string s.toList

/-- The object some assignments fill. -/
def object (assignments : List (Text × Json)) : Json :=
  .object (SortedMap.ofEntries assignments)

/-! ## One vehicle -/

/-- `std::to_string` of the double nearest to a number. -/
def toString (q : ℚ) : Text := (Double.ofRat q).toFixed 6

/-- The double lies above the tie, which would go to the even digit. -/
example : toString (450000025 / 10000000) = "45.000003".toList := by decide +kernel

/-- A length of the vehicle, which may not be available. -/
def lengthItem (lengthMm : Option Int) : Json :=
  match lengthMm with
  | some n => makeInt n
  | none => makeStr "unavailable"

/-- The two arrays of the path history, which a null pointer leaves out. -/
def historyEntries (pathHistory : Option PHpoints) : List (Text × Json) :=
  match pathHistory with
  | some p =>
    [("PH_points_lat".toList, .array (p.scan.map fun data => .string (toString data.lat))),
      ("PH_points_lon".toList, .array (p.scan.map fun data => .string (toString data.lon)))]
  | none => []

/-- `make_vehicle`. -/
def makeVehicle (stationID : UInt64) (lat lon : ℚ) (turnindicator : Text) (camTstamp : UInt16)
    (gnTstamp : UInt64) (carLengthMm carWidthMm : Option Int) (speedMs : ℚ)
    (pathHistory : Option PHpoints) (relativeDistM : ℚ) (stationType : StationTypeLDM)
    (diffRefTstamp : UInt64) (heading : ℚ) : List (Text × Json) :=
  [ ("stationID".toList, .uint64 stationID),
    ("lat".toList, makeNum lat),
    ("lon".toList, makeNum lon),
    ("speed_ms".toList, makeNum speedMs),
    ("turnindicator".toList, .string turnindicator),
    ("CAM_tstamp".toList, makeInt camTstamp.toNat),
    ("GN_tstamp".toList, .uint64 gnTstamp),
    ("relative_dist_to_reference_m".toList, makeNum relativeDistM),
    ("stationType".toList, makeInt stationType.value),
    ("heading".toList, makeNum heading),
    ("time_since_generation_tstamp".toList, .uint64 diffRefTstamp),
    ("car_len_mm".toList, lengthItem carLengthMm),
    ("car_wid_mm".toList, lengthItem carWidthMm)] ++ historyEntries pathHistory

/-- The vehicle for an entry selected around a position. -/
def vehicleOf (haversineDist : Distance) (nowUs : UInt64) (lat lon : ℚ)
    (vehdata : ReturnedVehicleData) : List (Text × Json) :=
  let v := vehdata.vehData
  makeVehicle v.stationID v.lat v.lon (turnIndicator v.exteriorLights)
    (UInt16.ofInt v.camTimestamp) v.gnTimestamp v.vehicleLength v.vehicleWidth v.speedMs
    vehdata.phData (haversineDist lat lon v.lat v.lon) v.stationType (nowUs - v.timestampUs)
    v.heading

/-! ## The reply -/

/-- The vehicles within a range that is not at most 0. -/
def vehiclesInRange (haversineDist : Distance) (m : LDMMap) (nowUs : UInt64)
    (lat lon range : Double) : List Json :=
  match exact lat, exact lon with
  | some lat, some lon =>
    let returnedvehs :=
      match exact range with
      | some rangeM => (m.rangeSelect haversineDist rangeM lat lon []).2
      | none => if range = Double.infinite false then NestedMap.values m.ldmmap else []
    returnedvehs.map fun vehdata => object (vehicleOf haversineDist nowUs lat lon vehdata)
  | _, _ => []

/-- The range used for a request: the default one if it is at most 0. -/
def rangeUsed (mRangeM : ℚ) (range : Double) : Double :=
  if isAtMostZero range then Double.ofRat mRangeM else range

/-- `make_SLDM_json`. `rangeSelect` returns `LDMMAP_OK`, so its error branch
is never taken. -/
def makeSLDMJson (haversineDist : Distance) (m : LDMMap) (mRangeM : ℚ) (nowUs : UInt64)
    (lat lon range : Double) : List (Text × Json) :=
  let range := rangeUsed mRangeM range
  [ ("generation_tstamp".toList, .uint64 nowUs),
    ("reference_lat".toList, .double lat),
    ("reference_lon".toList, .double lon),
    ("error".toList, makeStr "ok"),
    ("vehicles".toList, .array (vehiclesInRange haversineDist m nowUs lat lon range))]

/-- `GET_NUM`. -/
def getNum (json : Json) (key : String) : Double := (json.item key.toList).numberValue

/-- What is sent for a request, if anything is: `err==""` decides. -/
def answer (haversineDist : Distance) (m : LDMMap) (mRangeM : ℚ) (nowUs : UInt64) (rxStr : Text) :
    Option Text :=
  match Json.parse rxStr with
  | some (request, []) =>
    some (Json.dump (object (makeSLDMJson haversineDist m mRangeM nowUs
      (getNum request "lat") (getNum request "lon") (getNum request "range"))))
  | _ => none

/-- The characters of a `std::string`. -/
def chars (bytes : List UInt8) : Text := bytes.map fun b => Char.ofNat b.toNat

/-- What is sent for what is received. -/
def serve (haversineDist : Distance) (m : LDMMap) (mRangeM : ℚ) (nowUs : UInt64)
    (rxBuff : List UInt8) (e : Receive) : Option Text :=
  answer haversineDist m mRangeM nowUs (chars (rxStr rxBuff e))

end SLDM.Json
