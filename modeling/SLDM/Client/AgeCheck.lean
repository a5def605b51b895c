/-
SLDM.Client.AgeCheck — when the message handler discards old data.

With the age check enabled the handler is meant to drop a message whose
GeoNetworking timestamp the staleness test calls older than the stored
one. The `return` that does so stands inside the branch that writes the
log line, so without a log file the test has no effect; and a message
without a timestamp (`UINT64_MAX`) skips the check although the test can
call even that value older than a stored negative property value.

`KeepsAge` is the property of one step, `NotOverlooked` the condition on
the state before it, `keepsAge_iff` their equivalence in any state a run
reaches, and `keepsAge_run_iff` the equivalence along whole runs.
-/
import SLDM.Client.MessageRuns

namespace SLDM.Client

open Store Trigger Runs

/-! ## The property and the condition -/

/-- The timestamp the handler works with. -/
def rxTimestamp (o : Options) (m : CamMessage) : UInt64 := (timestampAndLights o LDMMap.new m).1

/-- A message whose timestamp is specified and older than the stored one
changes neither the database nor the list of triggered vehicles. -/
def StaleDiscarded (o : Options) (m : CamMessage) (w w' : World) : Prop :=
  ∀ e, w.db.lookup m.stationID = (.ok, some e) → rxTimestamp o m ≠ notSpecified →
    tooOld (rxTimestamp o m) e.vehData.gnTimestamp = true →
    w'.db = w.db ∧ w'.trigger.manager.alreadyTriggered = w.trigger.manager.alreadyTriggered

/-- No stored timestamp is replaced by one the test calls older. -/
def NeverOlder (w w' : World) : Prop :=
  ∀ (id : UInt32) e e', w.db.lookup id.toUInt64 = (.ok, some e) →
    w'.db.lookup id.toUInt64 = (.ok, some e') →
    tooOld e'.vehData.gnTimestamp e.vehData.gnTimestamp = false

/-- What the age check is for, of one step. -/
def KeepsAge (haversineDist : Distance) (o : Options) (w : World) (l : Step) : Prop :=
  ∀ w', w.step haversineDist o l = some w' → NeverOlder w w' ∧
    match l with
    | .message _ _ m => StaleDiscarded o m w w'
    | _ => True

/-- A message inside the area that the test calls older has a timestamp,
and its client a log file. -/
def NotOverlooked (o : Options) (w : World) : Step → Prop
  | .message client _ m =>
    o.isInside m.lat m.lon = true → ∀ e, w.db.lookup m.stationID = (.ok, some e) →
      tooOld (rxTimestamp o m) e.vehData.gnTimestamp = true →
      rxTimestamp o m ≠ notSpecified ∧ client.logfileName ≠ ""
  | _ => True

/-! ## The age check -/

section Step

variable {haversineDist : Distance} {o : Options} {client : AMQPClient} {env : Env}
  {m : CamMessage} {w : World}

@[simp] theorem tooOld_self (t : UInt64) : tooOld t t = false := by
  simp [tooOld]

/-- The timestamp does not depend on what is stored. -/
theorem timestampAndLights_fst (o : Options) (db : LDMMap) (m : CamMessage) :
    (timestampAndLights o db m).1 = rxTimestamp o m := by
  unfold rxTimestamp timestampAndLights
  cases m.gnTimestamp with
  | some t => rfl
  | none =>
    simp only
    split
    · split <;> rfl
    · rfl

/-- With the age check enabled, a message is dropped exactly when it is
timestamped, called older than what is stored, and logged. -/
theorem discards_iff {db : LDMMap} (client : AMQPClient) (hage : o.ageCheckEnabled = true) :
    discards o client db m.stationID (timestampAndLights o db m).1 = true ↔
      rxTimestamp o m ≠ notSpecified ∧ client.logfileName ≠ "" ∧
        ∃ e, db.lookup m.stationID = (.ok, some e) ∧
          tooOld (rxTimestamp o m) e.vehData.gnTimestamp = true := by
  rw [timestampAndLights_fst]
  unfold discards
  rw [hage, Bool.true_and]
  by_cases hrx : rxTimestamp o m = notSpecified
  · simp [hrx]
  · rw [if_pos (by simp [hrx])]
    rw [LDMMap.lookup_eq]
    cases db.entry m.stationID with
    | none => simp
    | some e =>
      cases hold : tooOld (rxTimestamp o m) e.vehData.gnTimestamp <;> simp [hrx, hold]

/-- Entries of a database that shows the same data carry the same
timestamps. -/
theorem neverOlder_of_vehData {w w' : World}
    (h : ∀ (id : UInt32) e e', w.db.entry id.toUInt64 = some e →
      w'.db.entry id.toUInt64 = some e' →
      e'.vehData = e.vehData ∨ tooOld e'.vehData.gnTimestamp e.vehData.gnTimestamp = false) :
    NeverOlder w w' := by
  intro id e e' he he'
  rcases h id e e' (LDMMap.lookup_ok_iff.mp he) (LDMMap.lookup_ok_iff.mp he') with hdata | hold
  · rw [hdata, tooOld_self]
  · exact hold

theorem neverOlder_refl (w : World) : NeverOlder w w :=
  neverOlder_of_vehData fun _ e e' he he' => by
    rw [he] at he'
    cases he'
    exact Or.inl rfl

/-- A message that is accepted although it is older replaces the stored
timestamp. -/
theorem not_neverOlder_of_accepts (hw : Stored haversineDist w)
    (hacc : accepts o client w.db m = true) {e : ReturnedVehicleData}
    (he : w.db.lookup m.stationID = (.ok, some e))
    (hold : tooOld (rxTimestamp o m) e.vehData.gnTimestamp = true) :
    ¬ NeverOlder w (onMessage haversineDist o client env m w) := by
  intro hnever
  obtain ⟨e', he', hdata⟩ := hw.found_onMessage env hacc
  have hfalse := hnever m.cam.stationID e e' he (LDMMap.lookup_ok_iff.mpr he')
  rw [hdata, show (vehicleData o env w.db m).gnTimestamp = _ from timestampAndLights_fst o w.db m,
    hold] at hfalse
  cases hfalse

/-- A message the condition holds for. -/
theorem message_keepsAge (hw : Stored haversineDist w) (hage : o.ageCheckEnabled = true)
    (hC : NotOverlooked o w (.message client env m)) :
    NeverOlder w (onMessage haversineDist o client env m w) ∧
      StaleDiscarded o m w (onMessage haversineDist o client env m w) := by
  have hdrop : ∀ e, o.isInside m.lat m.lon = true → w.db.lookup m.stationID = (.ok, some e) →
      tooOld (rxTimestamp o m) e.vehData.gnTimestamp = true →
      accepts o client w.db m = false := by
    intro e hin he hold
    obtain ⟨hrx, hlog⟩ := hC hin e he hold
    have hdiscard := (discards_iff client hage).mpr ⟨hrx, hlog, e, he, hold⟩
    simp only [accepts, hdiscard, Bool.not_true, Bool.and_false]
  constructor
  · cases hacc : accepts o client w.db m with
    | false => rw [onMessage_of_not_accepts hacc]; exact neverOlder_refl w
    | true =>
      have hin : o.isInside m.lat m.lon = true := by
        simp only [accepts, Bool.and_eq_true] at hacc
        exact hacc.1
      refine neverOlder_of_vehData fun id e e' he he' => ?_
      have hid : id.toUInt64 < 0x100000000 := by
        rw [UInt64.lt_iff_toNat_lt, UInt32.toNat_toUInt64]
        exact id.toNat_lt
      have hentry := hw.entry_onMessage env hacc hid
      rw [he', he, Option.map_some, Option.map_some] at hentry
      split at hentry
      · rename_i hsame
        right
        rw [Option.some.inj hentry,
          show (vehicleData o env w.db m).gnTimestamp = _ from timestampAndLights_fst o w.db m]
        cases hold : tooOld (rxTimestamp o m) e.vehData.gnTimestamp with
        | false => rfl
        | true =>
          rw [hsame] at he
          have hnot := hdrop e hin (LDMMap.lookup_ok_iff.mpr he) hold
          rw [hacc] at hnot
          cases hnot
      · exact Or.inl (Option.some.inj hentry)
  · intro e he _ hold
    have hnot : accepts o client w.db m = false := by
      cases hin : o.isInside m.lat m.lon with
      | false => simp only [accepts, hin, Bool.false_and]
      | true => exact hdrop e hin he hold
    rw [onMessage_of_not_accepts hnot]
    exact ⟨rfl, rfl⟩

/-- In any state a run reaches, a step does what the age check is for
exactly when the condition holds. -/
theorem keepsAge_iff (hage : o.ageCheckEnabled = true) (w : World) (l : Step)
    (hw : Stored haversineDist w) : KeepsAge haversineDist o w l ↔ NotOverlooked o w l := by
  cases l with
  | message client env m =>
    constructor
    · intro hkeeps hin e he hold
      have hnever := (hkeeps _ rfl).1
      by_contra hcond
      refine not_neverOlder_of_accepts hw ?_ he hold hnever
      have hdiscard :
          discards o client w.db m.stationID (timestampAndLights o w.db m).1 = false := by
        rw [← Bool.not_eq_true, discards_iff client hage]
        intro hex
        obtain ⟨hrx, hlog, -⟩ := hex
        exact hcond ⟨hrx, hlog⟩
      simp only [accepts, hin, hdiscard, Bool.not_false, Bool.and_self]
    · intro hC w' hs
      cases hs
      exact message_keepsAge hw hage hC
  | collect time now =>
    refine ⟨fun _ => trivial, fun _ w' hs => ?_⟩
    cases hs
    refine ⟨neverOlder_of_vehData fun id e e' he he' => ?_, trivial⟩
    rw [LDMMap.deleteOlderThan, LDMMap.entry_sweep, he, Option.filter_eq_some_iff] at he'
    exact Or.inl (congrArg _ (Option.some.inj he'.1).symm)
  | terminate session =>
    refine ⟨fun _ => trivial, fun _ w' hs => ?_⟩
    simp only [World.step, Option.map_eq_some_iff] at hs
    obtain ⟨_, -, rfl⟩ := hs
    exact ⟨neverOlder_refl w, trivial⟩

end Step

/-! ## Runs -/

/-- Along every run with the age check enabled, each step discards old
data exactly when each step meets the condition. -/
theorem keepsAge_run_iff (haversineDist : Distance) (o : Options)
    (hage : o.ageCheckEnabled = true) (optsPtr : Option RestOptions)
    (leftIndicatorEnabled : Bool) (ls : List Step) :
    AllSteps (World.step haversineDist o) (KeepsAge haversineDist o)
        (initialWorld optsPtr leftIndicatorEnabled) ls ↔
      AllSteps (World.step haversineDist o) (NotOverlooked o)
        (initialWorld optsPtr leftIndicatorEnabled) ls :=
  allSteps_congr step_stored (keepsAge_iff hage)
    (stored_initialWorld haversineDist optsPtr leftIndicatorEnabled)

/-- A full message of station 7 with a GeoNetworking timestamp, received
by a client without a log file. -/
def unloggedMessage (gnTimestamp : UInt32) : Step :=
  .message ⟨"", false⟩ ⟨0, 0, ⟨0, fun _ => default⟩, default⟩
    ⟨some gnTimestamp, { (default : Cam) with stationID := 7 }, []⟩

/-- The default options with the age check enabled. -/
def ageCheckOn : Options := { (default : Options) with ageCheckEnabled := true }

theorem keepsAge_run_iff_unlogged :
    AllSteps (World.step (fun _ _ _ _ => 0) ageCheckOn)
        (KeepsAge (fun _ _ _ _ => 0) ageCheckOn) (initialWorld none false)
        [unloggedMessage 50, unloggedMessage 100] ↔
      AllSteps (World.step (fun _ _ _ _ => 0) ageCheckOn) (NotOverlooked ageCheckOn)
        (initialWorld none false) [unloggedMessage 50, unloggedMessage 100] :=
  keepsAge_run_iff (fun _ _ _ _ => 0) ageCheckOn rfl none false _

/-- Timestamp 100 and then timestamp 50 without a log file: the older data
replace the newer. -/
theorem unlogged_not_keepsAge :
    ¬ AllSteps (World.step (fun _ _ _ _ => 0) ageCheckOn)
      (KeepsAge (fun _ _ _ _ => 0) ageCheckOn) (initialWorld none false)
      [unloggedMessage 100, unloggedMessage 50] := by
  intro hall
  have hkeeps := hall [unloggedMessage 100] (unloggedMessage 50) [] _ rfl rfl
  have hw := stored_initialWorld (fun _ _ _ _ => 0) none false
  have hacc : accepts ageCheckOn ⟨"", false⟩ (initialWorld none false).db
      ⟨some 100, { (default : Cam) with stationID := 7 }, []⟩ = true := by decide +kernel
  have hw' := step_stored (o := ageCheckOn) _ (unloggedMessage 100) _ hw rfl
  obtain ⟨e, he, hdata⟩ := hw.found_onMessage ⟨0, 0, ⟨0, fun _ => default⟩, default⟩ hacc
  have hcond := (keepsAge_iff rfl _ _ hw').mp hkeeps (by decide +kernel) e
    (LDMMap.lookup_ok_iff.mpr he) (by rw [hdata]; decide +kernel)
  exact hcond.2 rfl

end SLDM.Client
