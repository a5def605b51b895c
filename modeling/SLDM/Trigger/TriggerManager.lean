/-
SLDM.Trigger.TriggerManager — `indicatorTriggerManager` of
`triggerManager.cpp` and the part of `ManeuveringServiceRestClient` it
drives.

`checkAndTrigger` runs under `m_already_triggered_mutex`, so it is one
atomic function here. The two outcomes it cannot control are arguments:
whether `new(std::nothrow)` returned an object, and whether
`pthread_create` started the thread. Its third result is the thread that
was started, if any; the C++ function does not report it.

Console output, the database behind the pointer and the `lat`, `lon`
arguments (read only by code that is commented out) are left out.
-/
import Mathlib.Data.Rat.Defs

namespace SLDM.Trigger

/-! ## The REST client object -/

/-- The members of `options_t` the trigger manager reads. -/
structure RestOptions where
  msRestAddr : String
  msRestPort : Int
  contextRadius : ℚ
  msRestPeriodicity : ℚ
  deriving DecidableEq, Inhabited, Repr

/-- `ManeuveringServiceRestClient`, with the in-class defaults. `notifyFcn`
says whether `notifyOpTermination` has been bound. -/
structure RestClient where
  refVehStationID : UInt64
  srvAddr : String
  port : Int
  rangeM : ℚ := 100
  intervalSec : ℚ := 1
  notifyFcn : Bool := false
  threadRunning : Bool := false
  deriving DecidableEq, Inhabited, Repr

/-- `startRESTthread`: the returned value and the object. `tid` is what the
local variable holds after the call of `pthread_create`. -/
def RestClient.startRESTthread (c : RestClient) (pthreadCreate : Bool) (tid : Int) :
    Int × RestClient :=
  if c.threadRunning then (-1, c)
  else if pthreadCreate then (tid, { c with threadRunning := true })
  else (tid, c)

/-! ## The trigger manager -/

/-- `indicatorTriggerManager`. -/
structure IndicatorTriggerManager where
  dbPtr : Bool
  optsPtr : Option RestOptions
  leftIndicatorEnabled : Bool := false
  alreadyTriggered : List UInt64 := []
  deriving DecidableEq, Inhabited, Repr

/-- The triggering condition on the exterior lights: bit 4 is the right
turn signal, bit 5 the left one. -/
def turnSignalOn (leftIndicatorEnabled : Bool) (exteriorLightsStatus : UInt8) : Bool :=
  exteriorLightsStatus &&& ((1 : UInt8) <<< 4) != 0 ||
    (leftIndicatorEnabled && exteriorLightsStatus &&& ((1 : UInt8) <<< 5) != 0)

/-- What the system answers to one `checkAndTrigger`. -/
structure StartOutcome where
  allocated : Bool
  pthreadCreate : Bool
  tid : Int
  deriving DecidableEq, Inhabited, Repr

/-- `checkAndTrigger`: the returned value, the manager and the thread
started. -/
def IndicatorTriggerManager.checkAndTrigger (m : IndicatorTriggerManager)
    (refVehStationID : UInt64) (exteriorLightsStatus : UInt8) (outcome : StartOutcome) :
    Bool × IndicatorTriggerManager × Option RestClient :=
  match m.dbPtr, m.optsPtr with
  | true, some opts =>
    if turnSignalOn m.leftIndicatorEnabled exteriorLightsStatus then
      if refVehStationID ∉ m.alreadyTriggered then
        if outcome.allocated then
          let client : RestClient :=
            { refVehStationID, srvAddr := opts.msRestAddr, port := opts.msRestPort,
              rangeM := opts.contextRadius, intervalSec := opts.msRestPeriodicity,
              notifyFcn := true }
          let m := { m with alreadyTriggered := m.alreadyTriggered ++ [refVehStationID] }
          -- the returned code is dropped, so a failure goes unnoticed
          let (_, client) := client.startRESTthread outcome.pthreadCreate outcome.tid
          (true, m, if client.threadRunning then some client else none)
        else (false, m, none)
      else (false, m, none)
    else (false, m, none)
  | _, _ => (false, m, none)

/-- `notifyOpTermination`: `std::list::remove` takes out every occurrence. -/
def IndicatorTriggerManager.notifyOpTermination (m : IndicatorTriggerManager)
    (stationID : UInt64) : IndicatorTriggerManager :=
  { m with alreadyTriggered := m.alreadyTriggered.filter (· != stationID) }

end SLDM.Trigger
