/-
SLDM.Client.MessageRuns — the message handler running: any clients'
messages, garbage collection passes and ends of trigger sessions, one
after the other.

`Stored` is the invariant of every run: the database is related to some
abstract station map (`SLDM.Store.Refinement`). From it come the two facts
the properties of the handler need, whatever happened before: the lookup
of the handler answers with the station's entry, and an accepted message
leaves the record the handler built under its station ID, every other
station unchanged (`entry_onMessage`).
-/
import SLDM.Client.OnMessage
import SLDM.Store.Refinement
import SLDM.Lib.Runs

namespace SLDM.Client

open Store Trigger Runs

/-! ## Steps -/

/-- The steps of the system. -/
inductive Step where
  | message (client : AMQPClient) (env : Env) (m : CamMessage)
  | collect (timeMilliseconds : ℚ) (now : UInt64)
  | terminate (session : RestClient)

/-- One step. -/
def World.step (haversineDist : Distance) (o : Options) (w : World) : Step → Option World
  | .message client env m => some (onMessage haversineDist o client env m w)
  | .collect time now => some { w with db := w.db.deleteOlderThan time now }
  | .terminate session =>
    (w.trigger.step (.terminate session)).map fun trigger => { w with trigger }

/-- An empty database and no station triggered. -/
def initialWorld (optsPtr : Option RestOptions) (leftIndicatorEnabled : Bool) : World :=
  ⟨LDMMap.new, initialSystem true optsPtr leftIndicatorEnabled⟩

/-! ## The invariant -/

/-- The database holds what some abstract station map says. -/
def Stored (haversineDist : Distance) (w : World) : Prop := ∃ a, Related haversineDist w.db a

variable {haversineDist : Distance} {o : Options} {client : AMQPClient} {env : Env}
  {m : CamMessage} {w : World}

/-- A station ID of a CAM has 32 bits. -/
theorem toUInt64_lt (station : UInt32) : station.toUInt64 < 0x100000000 := by
  rw [UInt64.lt_iff_toNat_lt, UInt32.toNat_toUInt64]
  exact station.toNat_lt

theorem stationID_lt (m : CamMessage) : m.stationID < 0x100000000 := toUInt64_lt m.cam.stationID

theorem stored_initialWorld (haversineDist : Distance) (optsPtr : Option RestOptions)
    (left : Bool) :
    Stored haversineDist (initialWorld optsPtr left) := ⟨_, related_new⟩

theorem onMessage_of_not_accepts (h : accepts o client w.db m = false) :
    onMessage haversineDist o client env m w = w := by
  rw [onMessage, h]; rfl

theorem onMessage_db_of_accepts (h : accepts o client w.db m = true) :
    (onMessage haversineDist o client env m w).db =
      (w.db.insert haversineDist (vehicleData o env w.db m) env.junk).2 := by
  rw [onMessage, h]; rfl

theorem step_stored (w : World) (l : Step) (w' : World) (h : Stored haversineDist w)
    (hs : w.step haversineDist o l = some w') : Stored haversineDist w' := by
  obtain ⟨a, ha⟩ := h
  cases l with
  | message client env m =>
    cases hs
    cases hacc : accepts o client w.db m with
    | false => rw [onMessage_of_not_accepts hacc]; exact ⟨a, ha⟩
    | true =>
      have hinsert := (ha.insert (v := vehicleData o env w.db m) env.junk (stationID_lt m)).2
      exact ⟨_, by rw [onMessage_db_of_accepts hacc]; exact hinsert⟩
  | collect time now =>
    cases hs
    exact ⟨_, ha.sweep (LDMMap.isOld now time) (fun _ args => args) ()⟩
  | terminate session =>
    simp only [World.step, Option.map_eq_some_iff] at hs
    obtain ⟨_, -, rfl⟩ := hs
    exact ⟨a, ha⟩

/-! ## What a message does to the entries -/

/-- An accepted message is stored under its station ID, and changes no
other station of 32 bits. -/
theorem Stored.entry_onMessage (h : Stored haversineDist w) (env : Env)
    (hacc : accepts o client w.db m = true) {id : UInt64} (hid : id < 0x100000000) :
    ((onMessage haversineDist o client env m w).db.entry id).map ReturnedVehicleData.vehData =
      if id = m.stationID then some (vehicleData o env w.db m)
      else (w.db.entry id).map ReturnedVehicleData.vehData := by
  obtain ⟨a, ha⟩ := h
  rw [onMessage_db_of_accepts hacc]
  exact ha.vehData_insert (v := vehicleData o env w.db m) env.junk (stationID_lt m) hid

/-- An accepted message is what is found under its station ID. -/
theorem Stored.found_onMessage (h : Stored haversineDist w) (env : Env)
    (hacc : accepts o client w.db m = true) :
    ∃ e, (onMessage haversineDist o client env m w).db.entry m.stationID = some e ∧
      e.vehData = vehicleData o env w.db m := by
  have hentry := h.entry_onMessage env hacc (stationID_lt m)
  rw [if_pos rfl, Option.map_eq_some_iff] at hentry
  exact hentry

/-- The entries are those of 32-bit stations. -/
theorem Stored.stationID_eq (h : Stored haversineDist w) {id : UInt64} (hid : id < 0x100000000)
    {e : ReturnedVehicleData} (he : w.db.entry id = some e) : e.vehData.stationID = id := by
  obtain ⟨a, ha⟩ := h
  rw [ha.entry id hid] at he
  obtain ⟨r, hr, rfl⟩ := Option.map_eq_some_iff.mp he
  exact ha.stationID id r hr

/-- Whatever messages, collections and session ends came before: what is
found under a station ID was sent by that station. -/
theorem stationID_of_reachable {optsPtr : Option RestOptions} {left : Bool}
    (hr : Reachable (World.step haversineDist o) (initialWorld optsPtr left) w) {id : UInt64}
    (hid : id < 0x100000000) {e : ReturnedVehicleData} (he : w.db.entry id = some e) :
    e.vehData.stationID = id :=
  Stored.stationID_eq (hr.invariant step_stored (stored_initialWorld haversineDist optsPtr left))
    hid he

end SLDM.Client
