/-
SLDM.Client.Logging — whether a log file changes what the handler does.

The same AMQP messages are handled twice from the same start, once by
clients with a log file and once by clients without, with the same clock
readings, memory and answers of the system. `stepBoth` runs the two side
by side, so what must agree is a property of one state.

As long as the logged run's age check drops nothing the two worlds are
equal; a message it drops is stored by the other run. `agree_iff` says
both.
-/
import SLDM.Client.AgeCheck

namespace SLDM.Client

open Store Trigger Runs NestedMap

/-! ## Two runs -/

/-- An AMQP message, and what its handler gets from outside. `message` is
`none` when the body is not binary, is not decoded or is not a CAM. -/
structure Received where
  indicatorTrgManEnabled : Bool
  env : Env
  message : Option CamMessage

/-- `on_message`, by a client with the log file name given. -/
def onReceived (haversineDist : Distance) (o : Options) (logfileName : String) (r : Received)
    (w : World) : World :=
  match r.message with
  | some m => onMessage haversineDist o ⟨logfileName, r.indicatorTrgManEnabled⟩ r.env m w
  | none => w

/-- The message is handled in both runs. -/
def stepBoth (haversineDist : Distance) (o : Options) (logfileName : String)
    (w : World × World) (r : Received) : Option (World × World) :=
  some (onReceived haversineDist o logfileName r w.1, onReceived haversineDist o "" r w.2)

/-- The two databases have the same cells, with the same data and
histories, and the same cardinality, and the same vehicles are triggered. -/
def Agree (w : World × World) : Prop :=
  (∀ keyUpper keyLower, find w.1.db.ldmmap keyUpper keyLower =
    find w.2.db.ldmmap keyUpper keyLower) ∧
  w.1.db.card = w.2.db.card ∧
  w.1.trigger.manager.alreadyTriggered = w.2.trigger.manager.alreadyTriggered

/-- With the age check on, a message inside the area with a timestamp is
not one the staleness test calls older than the stored record. -/
def NothingStale (o : Options) (w : World × World) (r : Received) : Prop :=
  o.ageCheckEnabled = true → ∀ m, r.message = some m → o.isInside m.lat m.lon = true →
    rxTimestamp o m ≠ notSpecified → ∀ e, w.1.db.lookup m.stationID = (.ok, some e) →
      tooOld (rxTimestamp o m) e.vehData.gnTimestamp = false

/-! ## One message -/

section Step

variable {haversineDist : Distance} {o : Options} {logfileName : String} {r : Received}
  {m : CamMessage} {w : World}

/-- Without a log file the handler accepts whatever is inside the area. -/
theorem accepts_unlogged (o : Options) (enabled : Bool) (db : LDMMap) (m : CamMessage) :
    accepts o ⟨"", enabled⟩ db m = o.isInside m.lat m.lon := by
  have hdiscards : discards o ⟨"", enabled⟩ db m.stationID (timestampAndLights o db m).1 =
      false := by
    unfold discards
    split
    · split
      · split <;> rfl
      · rfl
    · rfl
  rw [accepts, hdiscards, Bool.not_false, Bool.and_true]

/-- A client with a log file that finds nothing stale does the same. -/
theorem accepts_logged {enabled : Bool} (h : NothingStale o (w, w) r) (hm : r.message = some m) :
    accepts o ⟨logfileName, enabled⟩ w.db m = o.isInside m.lat m.lon := by
  cases hin : o.isInside m.lat m.lon with
  | false => simp only [accepts, hin, Bool.false_and]
  | true =>
    cases hdiscard : discards o ⟨logfileName, enabled⟩ w.db m.stationID
        (timestampAndLights o w.db m).1 with
    | false => simp only [accepts, hin, hdiscard, Bool.not_false, Bool.and_self]
    | true =>
      have hage : o.ageCheckEnabled = true := by
        cases hage : o.ageCheckEnabled with
        | true => rfl
        | false => simp [discards, hage] at hdiscard
      obtain ⟨hrx, -, e, he, hold⟩ := (discards_iff _ hage).mp hdiscard
      rw [h hage m hm hin hrx e he] at hold
      cases hold

/-- Whether a client has a log file is read by the two checks only. -/
theorem onMessage_congr {logged unlogged : AMQPClient}
    (henabled : logged.indicatorTrgManEnabled = unlogged.indicatorTrgManEnabled)
    (hacc : accepts o logged w.db m = accepts o unlogged w.db m) (env : Env) :
    onMessage haversineDist o logged env m w = onMessage haversineDist o unlogged env m w := by
  simp only [onMessage, hacc, triggerCheck, henabled]

/-- A message that is not stale leaves both runs in the same world. -/
theorem onReceived_eq (h : NothingStale o (w, w) r) :
    onReceived haversineDist o logfileName r w = onReceived haversineDist o "" r w := by
  unfold onReceived
  cases hm : r.message with
  | none => rfl
  | some m =>
    have hacc : accepts o ⟨logfileName, r.indicatorTrgManEnabled⟩ w.db m =
        accepts o ⟨"", r.indicatorTrgManEnabled⟩ w.db m :=
      (accepts_logged h hm).trans (accepts_unlogged o _ _ m).symm
    exact onMessage_congr (by rfl) hacc r.env

theorem stored_onReceived (h : Stored haversineDist w) :
    Stored haversineDist (onReceived haversineDist o logfileName r w) := by
  unfold onReceived
  cases r.message with
  | none => exact h
  | some m =>
    exact step_stored (o := o) w (.message ⟨logfileName, r.indicatorTrgManEnabled⟩ r.env m) _ h rfl

/-- A stale message is dropped by the logged run and stored by the other. -/
theorem not_agree_onReceived (hlog : logfileName ≠ "") (hw : Stored haversineDist w)
    (h : ¬ NothingStale o (w, w) r) :
    ¬ Agree (onReceived haversineDist o logfileName r w, onReceived haversineDist o "" r w) := by
  simp only [NothingStale] at h
  push Not at h
  obtain ⟨hage, m, hm, hin, hrx, e, he, hold⟩ := h
  rw [Bool.ne_false_iff] at hold
  have hdrop : accepts o ⟨logfileName, r.indicatorTrgManEnabled⟩ w.db m = false := by
    have hdiscard := (discards_iff ⟨logfileName, r.indicatorTrgManEnabled⟩ hage).mpr
      ⟨hrx, hlog, e, he, hold⟩
    simp only [accepts, hdiscard, Bool.not_true, Bool.and_false]
  have hkeep : accepts o ⟨"", r.indicatorTrgManEnabled⟩ w.db m = true :=
    (accepts_unlogged o _ _ m).trans hin
  intro hagree
  obtain ⟨hcells, -, -⟩ := hagree
  simp only [onReceived, hm, onMessage_of_not_accepts hdrop] at hcells
  obtain ⟨e', he', hdata⟩ := hw.found_onMessage r.env hkeep
  have hsame : some e = some e' :=
    (LDMMap.lookup_ok_iff.mp he).symm.trans ((hcells _ _).trans he')
  cases hsame
  rw [hdata, show (vehicleData o r.env w.db m).gnTimestamp = _ from timestampAndLights_fst o w.db m,
    tooOld_self] at hold
  cases hold

end Step

/-! ## Runs -/

section Runs

variable {haversineDist : Distance} {o : Options} {logfileName : String}

/-- Both runs are in one world. -/
def Together (haversineDist : Distance) (w : World × World) : Prop :=
  ∃ w₀, Stored haversineDist w₀ ∧ w = (w₀, w₀)

theorem Together.agree {w : World × World} (h : Together haversineDist w) : Agree w := by
  obtain ⟨w₀, -, rfl⟩ := h
  exact ⟨fun _ _ => rfl, rfl, rfl⟩

theorem together_step (w : World × World) (r : Received) (w' : World × World)
    (h : Together haversineDist w) (hstale : NothingStale o w r)
    (hs : stepBoth haversineDist o logfileName w r = some w') : Together haversineDist w' := by
  obtain ⟨w₀, hstored, rfl⟩ := h
  cases hs
  exact ⟨_, stored_onReceived hstored, congrArg _ (onReceived_eq hstale).symm⟩

theorem disagree_step (hlog : logfileName ≠ "") (w : World × World) (r : Received)
    (h : Together haversineDist w) (hstale : ¬ NothingStale o w r) :
    ∃ w', stepBoth haversineDist o logfileName w r = some w' ∧ ¬ Agree w' := by
  obtain ⟨w₀, hstored, rfl⟩ := h
  exact ⟨_, rfl, not_agree_onReceived hlog hstored hstale⟩

end Runs

/-- For every sequence of messages: a log file never changes what the
database and the list of triggered vehicles hold, exactly when no message
of the sequence is stale for the logged run. -/
theorem agree_iff (haversineDist : Distance) (o : Options) (optsPtr : Option RestOptions)
    (left : Bool) (logfileName : String) (hlog : logfileName ≠ "") (ls : List Received) :
    AllStates (stepBoth haversineDist o logfileName) Agree
        (initialWorld optsPtr left, initialWorld optsPtr left) ls ↔
      AllSteps (stepBoth haversineDist o logfileName) (NothingStale o)
        (initialWorld optsPtr left, initialWorld optsPtr left) ls := by
  have hstart : Together haversineDist (initialWorld optsPtr left, initialWorld optsPtr left) :=
    ⟨_, stored_initialWorld haversineDist optsPtr left, rfl⟩
  constructor
  · intro hall
    exact allSteps_of_allStates together_step (disagree_step hlog) hstart hall
  · intro hC
    exact (allStates_of_allSteps together_step hstart hC).mono fun _ h => h.agree

/-- A full message of station 7. -/
def receivedAt (gnTimestamp : UInt32) : Received where
  indicatorTrgManEnabled := false
  env := ⟨0, 0, ⟨0, fun _ => default⟩, default⟩
  message := some ⟨some gnTimestamp, { (default : Cam) with stationID := 7 }, []⟩

theorem agree_iff_inOrder :
    AllStates (stepBoth (fun _ _ _ _ => 0) ageCheckOn "log.txt") Agree
        (initialWorld none false, initialWorld none false) [receivedAt 50, receivedAt 100] ↔
      AllSteps (stepBoth (fun _ _ _ _ => 0) ageCheckOn "log.txt") (NothingStale ageCheckOn)
        (initialWorld none false, initialWorld none false) [receivedAt 50, receivedAt 100] :=
  agree_iff (fun _ _ _ _ => 0) ageCheckOn none false "log.txt" (by decide) _

/-- After timestamps 100 and 50 the logged run shows 100, the other 50. -/
theorem outOfOrder_not_agree :
    ¬ ∀ w, run (stepBoth (fun _ _ _ _ => 0) ageCheckOn "log.txt")
      (initialWorld none false, initialWorld none false) [receivedAt 100, receivedAt 50] = some w →
      Agree w := by
  intro hall
  have hrun : ((run (stepBoth (fun _ _ _ _ => 0) ageCheckOn "log.txt")
      (initialWorld none false, initialWorld none false)
      [receivedAt 100, receivedAt 50]).map fun w =>
        ((find w.1.db.ldmmap 0 7).map fun e => e.vehData.gnTimestamp,
          (find w.2.db.ldmmap 0 7).map fun e => e.vehData.gnTimestamp)) =
      some (some 100, some 50) := by
    decide +kernel
  obtain ⟨w, hw, htimestamps⟩ := Option.map_eq_some_iff.mp hrun
  rw [(hall w hw).1 0 7, Prod.mk.injEq] at htimestamps
  rw [htimestamps.2] at htimestamps
  exact absurd htimestamps.1 (by decide)

end SLDM.Client
