/-
SLDM.Client.ExteriorLights — the exterior lights stored for a station
across its messages.

A CAM carries the exterior lights in its low-frequency container only now
and then, so the handler carries the stored value over when a CAM has none
(`expectedLights`). The branches for a pure CAM whose timestamp property
is missing or not a LONG do not assign `vehdata.exteriorLights` at all:
the item stays unavailable and the stored value is lost.

`keepsLights_iff` compares the two for one step from any state a run
reaches, and `keepsLights_run_iff` along whole runs, other stations'
messages and garbage collection passes included.
-/
import SLDM.Client.MessageRuns

namespace SLDM.Client

open Store Trigger Runs

/-! ## The property and the condition -/

/-- What the database should show after the CAM: the container's value, or
the value stored before. -/
def expectedLights (db : LDMMap) (m : CamMessage) : Option UInt8 :=
  match m.cam.lowFrequencyContainer with
  | some container => container.exteriorLights
  | none => (db.entry m.stationID).bind fun e => e.vehData.exteriorLights

/-- After a message that is accepted, its station is stored with the
exterior lights expected. -/
def KeepsLights (haversineDist : Distance) (o : Options) (w : World) : Step → Prop
  | .message client env m =>
    accepts o client w.db m = true →
      ∃ e, (onMessage haversineDist o client env m w).db.entry m.stationID = some e ∧
        e.vehData.exteriorLights = expectedLights w.db m
  | _ => True

/-- The message is a pure CAM without a timestamp property of type LONG. -/
def Untimed (o : Options) (m : CamMessage) : Prop :=
  m.gnTimestamp = none ∧
    (m.properties = [] ∨ ∀ value, m.property o.gnTimestampProperty ≠ .long value)

/-- An accepted message without a timestamp has no exterior lights to keep. -/
def LightsTimed (o : Options) (w : World) : Step → Prop
  | .message client _ m =>
    accepts o client w.db m = true → Untimed o m → expectedLights w.db m = none
  | _ => True

/-! ## Exterior lights -/

section Step

variable {haversineDist : Distance} {o : Options} {client : AMQPClient} {env : Env}
  {m : CamMessage} {w : World}

/-- `manage_LowfreqContainer` answers with the expected value. -/
theorem manageLowfreqContainer_eq (db : LDMMap) (m : CamMessage) :
    manageLowfreqContainer db m = expectedLights db m := by
  unfold manageLowfreqContainer expectedLights
  cases m.cam.lowFrequencyContainer with
  | some container => rfl
  | none =>
    simp only [LDMMap.lookup_eq]
    cases db.entry m.stationID <;> rfl

/-- The branches that assign the exterior lights, and those that do not. -/
theorem timestampAndLights_snd (hhijack : o.extLightsHijackEnable = false) (db : LDMMap)
    (m : CamMessage) :
    (¬ Untimed o m ∧ (timestampAndLights o db m).2 = expectedLights db m) ∨
      (Untimed o m ∧ (timestampAndLights o db m).2 = none) := by
  unfold timestampAndLights Untimed
  cases htype : m.gnTimestamp with
  | some t =>
    refine Or.inl ⟨?_, manageLowfreqContainer_eq db m⟩
    intro hex
    obtain ⟨h, -⟩ := hex
    cases h
  | none =>
    by_cases hprops : m.properties = []
    · right
      simp [hprops]
    · have hlen : m.properties.length > 0 := List.length_pos_of_ne_nil hprops
      simp only [hlen, if_true, hprops, false_or, true_and]
      cases hprop : m.property o.gnTimestampProperty with
      | long value =>
        left
        refine ⟨fun h => h value rfl, ?_⟩
        simp only [hhijack, Bool.false_eq_true, if_false]
        exact manageLowfreqContainer_eq db m
      | null => exact Or.inr ⟨fun _ h => (by cases h), rfl⟩
      | string value => exact Or.inr ⟨fun _ h => (by cases h), rfl⟩
      | other => exact Or.inr ⟨fun _ h => (by cases h), rfl⟩

/-- In any state a run reaches, a step stores the expected exterior lights
exactly when the condition holds. -/
theorem keepsLights_iff (hhijack : o.extLightsHijackEnable = false) (w : World) (l : Step)
    (hw : Stored haversineDist w) : KeepsLights haversineDist o w l ↔ LightsTimed o w l := by
  cases l with
  | collect time now => exact Iff.rfl
  | terminate session => exact Iff.rfl
  | message client env m =>
    refine imp_congr_right fun hacc => ?_
    obtain ⟨e, he, hdata⟩ := hw.found_onMessage env hacc
    have hlights : e.vehData.exteriorLights = (timestampAndLights o w.db m).2 := by
      rw [hdata]; rfl
    rcases timestampAndLights_snd hhijack w.db m with ⟨htimed, hsnd⟩ | ⟨huntimed, hsnd⟩
    · exact ⟨fun _ h => absurd h htimed, fun _ => ⟨e, he, by rw [hlights, hsnd]⟩⟩
    · constructor
      · intro hex _
        obtain ⟨e', he', hexp⟩ := hex
        rw [he] at he'
        cases he'
        rw [← hexp, hlights, hsnd]
      · intro h
        exact ⟨e, he, by rw [hlights, hsnd, h huntimed]⟩

end Step

/-! ## Runs -/

/-- Along every run with the lights hijack disabled, each accepted CAM
leaves the expected exterior lights exactly when each step meets the
condition. -/
theorem keepsLights_run_iff (haversineDist : Distance) (o : Options)
    (hhijack : o.extLightsHijackEnable = false) (optsPtr : Option RestOptions)
    (leftIndicatorEnabled : Bool) (ls : List Step) :
    AllSteps (World.step haversineDist o) (KeepsLights haversineDist o)
        (initialWorld optsPtr leftIndicatorEnabled) ls ↔
      AllSteps (World.step haversineDist o) (LightsTimed o)
        (initialWorld optsPtr leftIndicatorEnabled) ls :=
  allSteps_congr step_stored (keepsLights_iff hhijack)
    (stored_initialWorld haversineDist optsPtr leftIndicatorEnabled)

/-- A full message of station 7 with the right turn signal on. -/
def lightsOn : CamMessage :=
  ⟨some 100, { (default : Cam) with stationID := 7, lowFrequencyContainer := some ⟨some 0x10⟩ }, []⟩

/-- A pure CAM of the same station without properties and without a
low-frequency container. -/
def lightsLeftOut : CamMessage := ⟨none, { (default : Cam) with stationID := 7 }, []⟩

/-- A message received by a client that logs nothing and triggers nothing. -/
def received (m : CamMessage) : Step :=
  .message ⟨"", false⟩ ⟨0, 0, ⟨0, fun _ => default⟩, default⟩ m

/-- A full message of the station, later and without the container. -/
def lightsKept : CamMessage := ⟨some 200, { (default : Cam) with stationID := 7 }, []⟩

/-- The later message keeps the turn signal of the first. -/
theorem keepsLights_run_lightsKept :
    AllSteps (World.step (fun _ _ _ _ => 0) default) (KeepsLights (fun _ _ _ _ => 0) default)
      (initialWorld none false) [received lightsOn, received lightsKept] :=
  (keepsLights_run_iff (fun _ _ _ _ => 0) default rfl none false _).mpr <|
    (allSteps_cons_of_step rfl _).mpr ⟨fun _ huntimed => absurd huntimed.1 nofun,
      allSteps_cons.mpr ⟨fun _ huntimed => absurd huntimed.1 nofun, fun _ _ => allSteps_nil⟩⟩

example : ((run (World.step (fun _ _ _ _ => 0) default) (initialWorld none false)
    [received lightsOn, received lightsKept]).bind fun w => w.db.entry 7).map
      (fun e => e.vehData.exteriorLights) = some (some 0x10) := by
  decide +kernel

/-- The turn signal of the full message is lost with the pure CAM. -/
theorem lightsLeftOut_not_keepsLights :
    ¬ AllSteps (World.step (fun _ _ _ _ => 0) default)
      (KeepsLights (fun _ _ _ _ => 0) default) (initialWorld none false)
      [received lightsOn, received lightsLeftOut] := by
  intro hall
  have hkeeps := hall [received lightsOn] (received lightsLeftOut) [] _ rfl rfl
  have hw := stored_initialWorld (fun _ _ _ _ => 0) none false
  have hacc : accepts default ⟨"", false⟩ (initialWorld none false).db lightsOn = true := by
    decide +kernel
  have hw' := step_stored (o := default) _ (received lightsOn) _ hw rfl
  obtain ⟨e, he, hdata⟩ := hw.found_onMessage ⟨0, 0, ⟨0, fun _ => default⟩, default⟩ hacc
  have hnone := (keepsLights_iff rfl _ _ hw').mp hkeeps (by decide +kernel) ⟨rfl, Or.inl rfl⟩
  change Option.bind (LDMMap.entry _ lightsOn.stationID) (fun e => e.vehData.exteriorLights) =
    none at hnone
  rw [he, Option.bind_some, hdata] at hnone
  exact absurd hnone (by decide +kernel)

end SLDM.Client
