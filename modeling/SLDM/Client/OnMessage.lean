/-
SLDM.Client.OnMessage — `AMQPClient::on_message` for a message that has
been decoded as a CAM, with the area filter, the age check, the database
update and the trigger check.

The members of `vehdata` the branches leave unassigned keep what the
default constructors gave them; for `exteriorLights` that is an item that
is not available.

Log lines and the clock readings only they use are left out; whether a
log file is configured is not, because the age check depends on it. The
clock readings that are stored, the memory a new history is created in
and what the system answers to a trigger are arguments (`Env`).
-/
import SLDM.Store.LDMMap
import SLDM.Trigger.Sessions

namespace SLDM.Client

open Store Trigger

/-! ## Options and the area filter -/

/-- The members of `options_t` the message handler reads. -/
structure Options where
  minLat : ℚ
  maxLat : ℚ
  minLon : ℚ
  maxLon : ℚ
  extLatFactor : ℚ
  extLonFactor : ℚ
  ageCheckEnabled : Bool
  crossBorderTrigger : Bool
  interopHijackEnable : Bool
  extLightsHijackEnable : Bool
  gnTimestampProperty : String
  deriving DecidableEq, Inhabited, Repr

/-- `areaFilter::isInside`; the options pointer is set by the constructors
of the client. -/
def Options.isInside (o : Options) (lat lon : ℚ) : Bool :=
  lat ≥ o.minLat - o.extLatFactor && lat ≤ o.maxLat + o.extLatFactor &&
    lon ≥ o.minLon - o.extLonFactor && lon ≤ o.maxLon + o.extLonFactor

/-- `areaFilter::isInsideInternal`. -/
def Options.isInsideInternal (o : Options) (lat lon : ℚ) : Bool :=
  lat ≥ o.minLat && lat ≤ o.maxLat && lon ≥ o.minLon && lon ≤ o.maxLon

/-! ## Messages -/

/-- The low-frequency container: the first byte behind
`exteriorLights.buf`, `none` when that pointer is null. -/
structure LowFrequencyContainer where
  exteriorLights : Option UInt8
  deriving DecidableEq, Inhabited, Repr

/-- The fields of `CAM_t` the handler reads. -/
structure Cam where
  stationID : UInt32
  generationDeltaTime : Int
  stationType : Int
  latitude : Int
  longitude : Int
  altitudeValue : Int
  headingValue : Int
  speedValue : Int
  driveDirection : Int
  vehicleWidth : Int
  vehicleLengthValue : Int
  lowFrequencyContainer : Option LowFrequencyContainer
  deriving DecidableEq, Inhabited, Repr

/-- `VehicleWidth_unavailable` and `VehicleLengthValue_unavailable`. -/
def vehicleWidthUnavailable : Int := 62
def vehicleLengthValueUnavailable : Int := 1023

/-- The value of an AMQP property, by the types the handler tells apart. -/
inductive Scalar where
  | null
  | long (value : Int64)
  | string (value : String)
  | other
  deriving DecidableEq, Repr

/-- A message decoded as a CAM. `gnTimestamp` is the GeoNetworking
timestamp of `ETSI_DECODED_CAM`, `none` for `ETSI_DECODED_CAM_NOGN`. -/
structure CamMessage where
  gnTimestamp : Option UInt32
  cam : Cam
  properties : List (String × Scalar)
  deriving DecidableEq, Inhabited, Repr

/-- `msg.properties().get(name)`: a null scalar when there is none. -/
def CamMessage.property (m : CamMessage) (name : String) : Scalar :=
  (m.properties.lookup name).getD .null

/-- The station the CAM is about, as the database is asked for it. -/
def CamMessage.stationID (m : CamMessage) : UInt64 := m.cam.stationID.toUInt64

/-- The position in degrees. -/
def CamMessage.lat (m : CamMessage) : ℚ := m.cam.latitude / 10000000
def CamMessage.lon (m : CamMessage) : ℚ := m.cam.longitude / 10000000

/-! ## Exterior lights and timestamps -/

/-- `manage_LowfreqContainer`. -/
def manageLowfreqContainer (db : LDMMap) (m : CamMessage) : Option UInt8 :=
  match m.cam.lowFrequencyContainer with
  | some container => container.exteriorLights
  | none =>
    match db.lookup m.stationID with
    | (.ok, some retveh) => retveh.vehData.exteriorLights
    | _ => none

/-- The exterior lights the hijacked `driveDirection` stands for. -/
def hijackedLights (driveDirection : Int) : UInt8 :=
  if driveDirection ≠ 0 then UInt8.ofNat (1 <<< (driveDirection + 3).toNat) else 0

/-- `UINT64_MAX`, the timestamp of a message that has none. -/
def notSpecified : UInt64 := 0xFFFFFFFFFFFFFFFF

/-- The branches on the message kind: `gn_timestamp`, then
`vehdata.exteriorLights`. -/
def timestampAndLights (o : Options) (db : LDMMap) (m : CamMessage) : UInt64 × Option UInt8 :=
  match m.gnTimestamp with
  | some gnTimestamp => (gnTimestamp.toUInt64, manageLowfreqContainer db m)
  | none =>
    if m.properties.length > 0 then
      match m.property o.gnTimestampProperty with
      | .long value =>
        (value.toUInt64,
          if o.extLightsHijackEnable then some (hijackedLights m.cam.driveDirection)
          else manageLowfreqContainer db m)
      -- neither of the next two branches assigns the exterior lights
      | _ => (notSpecified, none)
    else (notSpecified, none)

/-- The station type stored: the interoperability option renames passenger
cars of full messages. -/
def storedStationType (o : Options) (m : CamMessage) : StationTypeLDM :=
  match m.gnTimestamp with
  | some _ =>
    if o.interopHijackEnable then
      if (⟨m.cam.stationType⟩ : StationTypeLDM) = .passengerCar then .specificCategoryVehicle1
      else ⟨m.cam.stationType⟩
    else ⟨m.cam.stationType⟩
  | none => ⟨m.cam.stationType⟩

/-! ## The age check -/

/-- The staleness test. `gap` is a difference of two `long long`; where it
overflows the code is undefined and the exact difference stands here. -/
def tooOld (rx stored : UInt64) : Bool :=
  let gap : Int := rx.toInt64.toInt - stored.toInt64.toInt
  (rx > stored && gap > 300000) || (rx < stored && gap > -300000)

/-- An AMQP client's own settings. -/
structure AMQPClient where
  logfileName : String
  indicatorTrgManEnabled : Bool
  deriving DecidableEq, Inhabited, Repr

/-- Whether the age check makes the handler return. -/
def discards (o : Options) (client : AMQPClient) (db : LDMMap) (stationID gnTimestamp : UInt64) :
    Bool :=
  if o.ageCheckEnabled && gnTimestamp != notSpecified then
    match db.lookup stationID with
    | (.ok, some retveh) =>
      if tooOld gnTimestamp retveh.vehData.gnTimestamp then
        -- the `return` stands inside `if(m_logfile_name!="")`
        client.logfileName != ""
      else false
    | _ => false
  else false

/-! ## The handler -/

/-- What the handler gets from outside the process. -/
structure Env where
  onMsgTimestampUs : UInt64
  timestampUs : UInt64
  junk : Junk
  outcome : StartOutcome

/-- The database and the trigger sessions, shared by all clients. -/
structure World where
  db : LDMMap
  trigger : System

/-- The record the handler builds for the database. -/
def vehicleData (o : Options) (env : Env) (db : LDMMap) (m : CamMessage) : VehicleData where
  stationID := m.stationID
  lat := m.lat
  lon := m.lon
  elevation := m.cam.altitudeValue / 100
  heading := m.cam.headingValue / 10
  speedMs := m.cam.speedValue / 100
  gnTimestamp := (timestampAndLights o db m).1
  camTimestamp := m.cam.generationDeltaTime
  timestampUs := env.timestampUs
  onMsgTimestampUs := env.onMsgTimestampUs
  vehicleWidth :=
    if m.cam.vehicleWidth ≠ vehicleWidthUnavailable then some (m.cam.vehicleWidth * 100) else none
  vehicleLength :=
    if m.cam.vehicleLengthValue ≠ vehicleLengthValueUnavailable then
      some (m.cam.vehicleLengthValue * 100)
    else none
  stationType := storedStationType o m
  sourceQuadkey :=
    if m.properties.length > 0 then
      match m.property "quadkeys" with
      | .string value => value
      | _ => ""
    else ""
  exteriorLights := (timestampAndLights o db m).2

/-- The trigger check at the end of the handler. -/
def triggerCheck (o : Options) (client : AMQPClient) (env : Env) (v : VehicleData) (s : System) :
    System :=
  match v.exteriorLights with
  | some lights =>
    if client.indicatorTrgManEnabled &&
        (o.crossBorderTrigger || o.isInsideInternal v.lat v.lon) then
      if o.interopHijackEnable then
        if v.stationType = .passengerCar then s.checkAndTrigger v.stationID lights env.outcome
        else s
      else s.checkAndTrigger v.stationID lights env.outcome
    else s
  | none => s

/-- The message passes the area filter and the age check. -/
def accepts (o : Options) (client : AMQPClient) (db : LDMMap) (m : CamMessage) : Bool :=
  o.isInside m.lat m.lon &&
    !discards o client db m.stationID (timestampAndLights o db m).1

/-- `on_message` from the decoded CAM on. -/
def onMessage (haversineDist : Distance) (o : Options) (client : AMQPClient) (env : Env)
    (m : CamMessage) (w : World) : World :=
  if accepts o client w.db m then
    let v := vehicleData o env w.db m
    { db := (w.db.insert haversineDist v env.junk).2
      trigger := triggerCheck o client env v w.trigger }
  else w

end SLDM.Client
