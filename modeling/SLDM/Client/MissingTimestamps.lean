/-
SLDM.Client.MissingTimestamps — messages with and without a timestamp of
one station, one after the other.

The handler stores `UINT64_MAX` for a message that has no timestamp, and
its warning says that the age check is disabled. But only the received
value is tested for `UINT64_MAX`. A stored one is cast to `long long`,
where it is -1, and the gap to any timestamp received later is positive:
that message is called too old (`tooOld_of_negative`). The same happens
after a negative timestamp property.

For a stored value the cast leaves alone the staleness test is the one the
comment at the age check describes (`tooOld_iff_newer`).
`missingDisables_run_iff` puts the two together along whole runs.
-/
import SLDM.Client.ConcurrentHandlers

namespace SLDM.Client

open Store Trigger Runs

/-! ## The property and the condition -/

/-- The received timestamps of the format: those of a message with one
have 32 bits. -/
def IsTimestamp (rx : UInt64) : Prop := rx.toNat < 2 ^ 32 ∨ rx = notSpecified

/-- The stored timestamp is newer than the received one: by less than five
minutes, or else the counter was reset in between. -/
def Newer (stored rx : UInt64) : Prop :=
  (rx.toNat < stored.toNat ∧ stored.toNat < rx.toNat + 300000) ∨
    stored.toNat + 300000 < rx.toNat

/-- The message reaches the age check, and it is called too old there
against the stored record `e`. -/
def CalledTooOld (o : Options) (w : World) (m : CamMessage) (e : ReturnedVehicleData) : Prop :=
  o.isInside m.lat m.lon = true ∧ o.ageCheckEnabled = true ∧ rxTimestamp o m ≠ notSpecified ∧
    w.db.lookup m.stationID = (.ok, some e) ∧
    tooOld (rxTimestamp o m) e.vehData.gnTimestamp = true

/-- A missing timestamp disables the age check, for one step: a message is
called too old only against a newer timestamp, and one that follows a
message without a timestamp is not discarded. -/
def MissingDisables (o : Options) (w : World) : Step → Prop
  | .message client _ m =>
    IsTimestamp (rxTimestamp o m) →
      (∀ e, CalledTooOld o w m e →
        rxTimestamp o m ≠ notSpecified ∧ e.vehData.gnTimestamp ≠ notSpecified ∧
          Newer e.vehData.gnTimestamp (rxTimestamp o m)) ∧
      ∀ e, o.isInside m.lat m.lon = true → w.db.lookup m.stationID = (.ok, some e) →
        e.vehData.gnTimestamp = notSpecified → accepts o client w.db m = true
  | _ => True

/-- A message with a timestamp that reaches the age check finds no record
whose timestamp is negative as a `long long`; `UINT64_MAX` is. -/
def StoredUnsigned (o : Options) (w : World) : Step → Prop
  | .message _ _ m =>
    o.isInside m.lat m.lon = true → o.ageCheckEnabled = true →
      (rxTimestamp o m).toNat < 2 ^ 32 → ∀ e, w.db.lookup m.stationID = (.ok, some e) →
      e.vehData.gnTimestamp.toNat < 2 ^ 63
  | _ => True

/-! ## The staleness test -/

theorem toInt_of_lt {t : UInt64} (h : t.toNat < 2 ^ 63) : t.toInt64.toInt = t.toNat := by
  have hnat : t.toBitVec.toNat = t.toNat := rfl
  rw [Int64.toInt, UInt64.toBitVec_toInt64, BitVec.toInt_eq_toNat_of_lt (by omega), hnat]

theorem toInt_of_le {t : UInt64} (h : 2 ^ 63 ≤ t.toNat) :
    t.toInt64.toInt = (t.toNat : ℤ) - 2 ^ 64 := by
  have hnat : t.toBitVec.toNat = t.toNat := rfl
  rw [Int64.toInt, UInt64.toBitVec_toInt64, BitVec.toInt_eq_toNat_cond, if_neg (by omega), hnat]
  norm_num

/-- Where the cast changes neither value, the test is the documented one. -/
theorem tooOld_iff_newer {rx stored : UInt64} (hrx : rx.toNat < 2 ^ 32)
    (hstored : stored.toNat < 2 ^ 63) : tooOld rx stored = true ↔ Newer stored rx := by
  unfold tooOld Newer
  simp only [toInt_of_lt hstored, toInt_of_lt (show rx.toNat < 2 ^ 63 by omega), GT.gt,
    UInt64.lt_iff_toNat_lt, Bool.or_eq_true, Bool.and_eq_true, decide_eq_true_eq]
  omega

/-- Every timestamp is too old against a stored value that is negative as
a `long long`. -/
theorem tooOld_of_negative {rx stored : UInt64} (hrx : rx.toNat < 2 ^ 32)
    (hstored : 2 ^ 63 ≤ stored.toNat) : tooOld rx stored = true := by
  have hlt := stored.toNat_lt
  unfold tooOld
  simp only [toInt_of_le hstored, toInt_of_lt (show rx.toNat < 2 ^ 63 by omega), GT.gt,
    UInt64.lt_iff_toNat_lt, Bool.or_eq_true, Bool.and_eq_true, decide_eq_true_eq]
  right
  constructor <;> omega

theorem not_newer_of_negative {rx stored : UInt64} (hrx : rx.toNat < 2 ^ 32)
    (hstored : 2 ^ 63 ≤ stored.toNat) : ¬ Newer stored rx := by
  unfold Newer
  omega

/-- For real times less than five minutes apart, `Newer` is the order of
the real times. -/
theorem newer_gnTimestampOf {rx stored : ℕ} (h : rx < stored + 300000)
    (h' : stored < rx + 300000) :
    Newer (gnTimestampOf stored) (gnTimestampOf rx) ↔ rx < stored := by
  have hbound : ∀ t, (gnTimestampOf t).toNat < 2 ^ 32 := fun t => by
    rw [toNat_gnTimestampOf]
    omega
  rw [← tooOld_iff_newer (hbound rx) (lt_trans (hbound stored) (by norm_num)),
    tooOld_gnTimestampOf h h', decide_eq_true_eq]

/-! ## One step -/

section Step

variable {o : Options} {client : AMQPClient} {env : Env} {m : CamMessage} {w : World}

/-- A message inside the area is accepted unless it is called too old. -/
theorem accepts_of_not_calledTooOld (hin : o.isInside m.lat m.lon = true)
    (h : ∀ e, ¬ CalledTooOld o w m e) : accepts o client w.db m = true := by
  have hdiscard : discards o client w.db m.stationID (timestampAndLights o w.db m).1 = false := by
    cases hage : o.ageCheckEnabled with
    | false => simp [discards, hage]
    | true =>
      rw [← Bool.not_eq_true, discards_iff client hage]
      rintro ⟨hrx, -, e, he, hold⟩
      exact h e ⟨hin, hage, hrx, he, hold⟩
  simp only [accepts, hin, hdiscard, Bool.not_false, Bool.and_self]

/-- A timestamp that is specified has 32 bits. -/
theorem IsTimestamp.lt {rx : UInt64} (h : IsTimestamp rx) (hne : rx ≠ notSpecified) :
    rx.toNat < 2 ^ 32 := h.resolve_right hne

theorem ne_notSpecified {t : UInt64} (h : t.toNat < 2 ^ 63) : t ≠ notSpecified := by
  rintro rfl
  exact absurd h (by decide)

/-- In any state, missing timestamps disable the age check for a step
exactly when the record it finds is not one the cast makes negative. -/
theorem missingDisables_iff (o : Options) (w : World) (l : Step) :
    MissingDisables o w l ↔ StoredUnsigned o w l := by
  cases l with
  | collect time now => exact Iff.rfl
  | terminate session => exact Iff.rfl
  | message client env m =>
    constructor
    · intro hmissing hin hage hrx e he
      by_contra hnot
      have hne : rxTimestamp o m ≠ notSpecified := ne_notSpecified (by omega)
      obtain ⟨hcalled, -⟩ := hmissing (Or.inl hrx)
      have hold := tooOld_of_negative hrx (not_lt.mp hnot)
      exact not_newer_of_negative hrx (not_lt.mp hnot)
        (hcalled e ⟨hin, hage, hne, he, hold⟩).2.2
    · intro hunsigned hts
      refine ⟨fun e hcalled => ?_, fun e hin he hmissing => ?_⟩
      · obtain ⟨hin, hage, hne, he, hold⟩ := hcalled
        have hstored := hunsigned hin hage (hts.lt hne) e he
        exact ⟨hne, ne_notSpecified hstored, (tooOld_iff_newer (hts.lt hne) hstored).mp hold⟩
      · -- a record without a timestamp is found by messages without one only
        refine accepts_of_not_calledTooOld hin fun e' hcalled => ?_
        obtain ⟨-, hage, hne, he', -⟩ := hcalled
        rw [he] at he'
        cases he'
        exact ne_notSpecified (hunsigned hin hage (hts.lt hne) e he) hmissing

end Step

/-! ## Runs -/

/-- Along every run, missing timestamps disable the age check exactly when
no message with a timestamp meets a record with a negative one. -/
theorem missingDisables_run_iff (haversineDist : Distance) (o : Options)
    (optsPtr : Option RestOptions) (leftIndicatorEnabled : Bool) (ls : List Step) :
    AllSteps (World.step haversineDist o) (MissingDisables o)
        (initialWorld optsPtr leftIndicatorEnabled) ls ↔
      AllSteps (World.step haversineDist o) (StoredUnsigned o)
        (initialWorld optsPtr leftIndicatorEnabled) ls :=
  allSteps_congr (I := fun _ => True) (fun _ _ _ _ _ => trivial)
    (fun w l _ => missingDisables_iff o w l) trivial

/-- A message of station 7, received by a client with a log file. -/
def loggedMessage (gnTimestamp : Option UInt32) : Step :=
  .message ⟨"log", false⟩ ⟨0, 0, ⟨0, fun _ => default⟩, default⟩
    ⟨gnTimestamp, { (default : Cam) with stationID := 7 }, []⟩

/-- A CAM without a timestamp and then one with timestamp 5: the second is
discarded as too old. -/
theorem untimed_not_missingDisables :
    ¬ AllSteps (World.step (fun _ _ _ _ => 0) ageCheckOn) (MissingDisables ageCheckOn)
      (initialWorld none false) [loggedMessage none, loggedMessage (some 5)] := by
  intro hall
  have hmissing := hall [loggedMessage none] (loggedMessage (some 5)) [] _ rfl rfl
  have hw := stored_initialWorld (fun _ _ _ _ => 0) none false
  have hacc : accepts ageCheckOn ⟨"log", false⟩ (initialWorld none false).db
      ⟨none, { (default : Cam) with stationID := 7 }, []⟩ = true := by decide +kernel
  obtain ⟨e, he, hdata⟩ := hw.found_onMessage ⟨0, 0, ⟨0, fun _ => default⟩, default⟩ hacc
  have hstored := (missingDisables_iff _ _ _).mp hmissing (by decide +kernel) rfl
    (by decide +kernel) e (LDMMap.lookup_ok_iff.mpr he)
  rw [hdata] at hstored
  exact absurd hstored (by decide +kernel)

end SLDM.Client
