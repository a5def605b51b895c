/-
SLDM.Store.VehicleData — the record of `vehicleDataDef.h` the database
keeps for a vehicle.

`OptionalDataItem<T>` is `Option`: an item that is not available holds no
meaningful data. Doubles are exact rationals.
-/
import Mathlib.Data.Rat.Defs

namespace SLDM.Store

/-- `e_StationTypeLDM` by value: the code casts any integer a CAM carries
to it, so values outside the enumerators occur. -/
structure StationTypeLDM where
  value : Int
  deriving DecidableEq, Inhabited, Repr

/-- `StationType_LDM_passengerCar`. -/
def StationTypeLDM.passengerCar : StationTypeLDM := ⟨5⟩

/-- `StationType_LDM_specificCategoryVehicle1`. -/
def StationTypeLDM.specificCategoryVehicle1 : StationTypeLDM := ⟨100⟩

/-- `vehicleData_t`. -/
structure VehicleData where
  stationID : UInt64
  lat : ℚ
  lon : ℚ
  elevation : ℚ
  heading : ℚ
  speedMs : ℚ
  gnTimestamp : UInt64
  camTimestamp : Int
  timestampUs : UInt64
  onMsgTimestampUs : UInt64
  vehicleWidth : Option Int
  vehicleLength : Option Int
  stationType : StationTypeLDM
  sourceQuadkey : String
  exteriorLights : Option UInt8
  deriving DecidableEq, Inhabited, Repr

end SLDM.Store
