/-
SLDM.Client.ConcurrentHandlers — several AMQP clients handle messages of
one station at the same time.

Each client runs `on_message` in a thread of its own, over the one
database. The handler is split in two atomic steps here: `check` is the
area filter and the age check, with what the handler has read from the
database by then, and `insert` is the database update.
`onMessage_of_check_insert` connects the split handler to `onMessage`.

The timestamps are GeoNetworking timestamps: `TimestampIts` counts
milliseconds modulo 2^32, and a handler carries the real time `tai` its
message's timestamp stands for. A full message has its timestamp from the
GeoNetworking header, a pure CAM from the AMQP property; the age check
treats both alike, and so does this module (`rxTimestamp`).

Between the check and the insert of one handler another may insert. Then
an older record replaces a newer one, and the newest is gone.
`newestStored_iff` says that nothing else goes wrong.
-/
import SLDM.Client.AgeCheck
import Mathlib.Order.Bounds.Basic

namespace SLDM.Client

open Store Trigger Runs

/-! ## Timestamps -/

/-- The GeoNetworking timestamp of a real time in milliseconds. -/
def gnTimestampOf (tai : ℕ) : UInt64 := (UInt32.ofNat tai).toUInt64

theorem toNat_gnTimestampOf (tai : ℕ) : (gnTimestampOf tai).toNat = tai % 4294967296 := by
  rw [gnTimestampOf, UInt32.toNat_toUInt64, UInt32.toNat_ofNat']

theorem toInt_gnTimestampOf (tai : ℕ) :
    (gnTimestampOf tai).toInt64.toInt = (tai % 4294967296 : ℕ) := by
  have hnat : (gnTimestampOf tai).toBitVec.toNat = tai % 4294967296 := toNat_gnTimestampOf tai
  rw [Int64.toInt, UInt64.toBitVec_toInt64, BitVec.toInt_eq_toNat_of_lt (by omega), hnat]

/-- Times less than five minutes apart are told apart by their timestamps. -/
theorem gnTimestampOf_ne {t t' : ℕ} (hlt : t < t') (hclose : t' < t + 300000) :
    gnTimestampOf t ≠ gnTimestampOf t' := by
  intro heq
  have hnat := congrArg UInt64.toNat heq
  rw [toNat_gnTimestampOf, toNat_gnTimestampOf] at hnat
  omega

/-- For such times the staleness test compares the real times, whether or
not the counter started again in between. -/
theorem tooOld_gnTimestampOf {rx stored : ℕ} (h : rx < stored + 300000)
    (h' : stored < rx + 300000) :
    tooOld (gnTimestampOf rx) (gnTimestampOf stored) = decide (rx < stored) := by
  unfold tooOld
  simp only [toInt_gnTimestampOf, GT.gt, UInt64.lt_iff_toNat_lt, toNat_gnTimestampOf]
  rw [Bool.eq_iff_iff]
  simp only [Bool.or_eq_true, Bool.and_eq_true, decide_eq_true_eq]
  omega

/-- The staleness test of a received and a stored timestamp, for times less
than five minutes apart. -/
theorem tooOld_iff_older (tRx tSt : ℕ) (hclose : |(tRx : ℤ) - tSt| < 300000)
    (rx stored : UInt64) (hrx : rx.toNat = tRx % 2 ^ 32) (hstored : stored.toNat = tSt % 2 ^ 32) :
    tooOld rx stored = true ↔ tRx < tSt := by
  obtain ⟨hlo, hhi⟩ := abs_lt.mp hclose
  have hrx' : rx = gnTimestampOf tRx := by
    rw [← UInt64.toNat_inj, toNat_gnTimestampOf, hrx]
    rfl
  have hstored' : stored = gnTimestampOf tSt := by
    rw [← UInt64.toNat_inj, toNat_gnTimestampOf, hstored]
    rfl
  rw [hrx', hstored', tooOld_gnTimestampOf (by omega) (by omega), decide_eq_true_eq]

/-- The received timestamp has passed the end of the counter, the stored
one has not. -/
theorem tooOld_iff_older_wrapped :
    tooOld 0 4294967295 = true ↔ (4294967296 : ℕ) < 4294967295 :=
  tooOld_iff_older 4294967296 4294967295 (by decide) 0 4294967295 (by decide) (by decide)

/-! ## The handlers -/

/-- One call of `on_message`, by a client with a log file, for a message
of the station with a GeoNetworking timestamp, in its header or in its
property. -/
structure Handler (o : Options) (station : UInt32) where
  client : AMQPClient
  env : Env
  message : CamMessage
  tai : ℕ
  sameStation : message.cam.stationID = station
  gnTimestamp : rxTimestamp o message = gnTimestampOf tai
  logged : client.logfileName ≠ ""

/-- Where a handler is; between its two steps it holds the record it is
going to store. -/
inductive Phase where
  | waiting
  | checked (v : VehicleData)
  | finished
  deriving DecidableEq

/-- The database and the handlers, one for each `ι`. -/
structure Shared (ι : Type*) where
  db : LDMMap
  phase : ι → Phase

/-- The steps of the handlers. -/
inductive HandlerStep (ι : Type*) where
  | check (i : ι)
  | insert (i : ι)

section Handlers

variable {ι : Type*} [DecidableEq ι] {station : UInt32}

/-- A handler goes on. -/
def Shared.enter (s : Shared ι) (i : ι) (p : Phase) : Shared ι :=
  ⟨s.db, Function.update s.phase i p⟩

/-- One step of a handler. -/
def Shared.step (haversineDist : Distance) (o : Options) (handlers : ι → Handler o station)
    (s : Shared ι) : HandlerStep ι → Option (Shared ι)
  | .check i =>
    let h := handlers i
    match s.phase i with
    | .waiting =>
      if accepts o h.client s.db h.message then
        some (s.enter i (.checked (vehicleData o h.env s.db h.message)))
      else some (s.enter i .finished)
    | _ => none
  | .insert i =>
    match s.phase i with
    | .checked v =>
      some (Shared.enter ⟨(s.db.insert haversineDist v (handlers i).env.junk).2, s.phase⟩ i
        .finished)
    | _ => none

/-- No handler has started. -/
def Shared.start (db : LDMMap) : Shared ι := ⟨db, fun _ => .waiting⟩

@[simp] theorem Shared.enter_db (s : Shared ι) (i : ι) (p : Phase) : (s.enter i p).db = s.db := rfl

@[simp] theorem Shared.enter_self (s : Shared ι) (i : ι) (p : Phase) :
    (s.enter i p).phase i = p := by simp [Shared.enter]

@[simp] theorem Shared.enter_of_ne (s : Shared ι) {i j : ι} (h : j ≠ i) (p : Phase) :
    (s.enter i p).phase j = s.phase j := by simp [Shared.enter, h]

/-- What is in hand after a handler has finished was in hand before. -/
theorem Shared.checked_of_enter_finished {s : Shared ι} {i j : ι} {v : VehicleData}
    (h : (s.enter i .finished).phase j = .checked v) : s.phase j = .checked v := by
  by_cases hji : j = i
  · subst hji
    rw [Shared.enter_self] at h
    cases h
  · rwa [Shared.enter_of_ne s hji] at h

variable {haversineDist : Distance} {o : Options} {handlers : ι → Handler o station}

/-- Everything a step can be. -/
theorem Shared.step_cases {s s' : Shared ι} {l : HandlerStep ι}
    (hs : s.step haversineDist o handlers l = some s') :
    (∃ i, l = .check i ∧ s.phase i = .waiting ∧
      accepts o (handlers i).client s.db (handlers i).message = false ∧
      s' = s.enter i .finished) ∨
    (∃ i, l = .check i ∧ s.phase i = .waiting ∧
      accepts o (handlers i).client s.db (handlers i).message = true ∧
      s' = s.enter i (.checked (vehicleData o (handlers i).env s.db (handlers i).message))) ∨
    (∃ i v, l = .insert i ∧ s.phase i = .checked v ∧
      s' = Shared.enter ⟨(s.db.insert haversineDist v (handlers i).env.junk).2, s.phase⟩ i
        .finished) := by
  cases l with
  | check i =>
    simp only [Shared.step] at hs
    cases hphase : s.phase i with
    | waiting =>
      rw [hphase] at hs
      cases hacc : accepts o (handlers i).client s.db (handlers i).message with
      | false => rw [hacc] at hs; cases hs; exact Or.inl ⟨i, rfl, hphase, hacc, rfl⟩
      | true => rw [hacc] at hs; cases hs; exact Or.inr (Or.inl ⟨i, rfl, hphase, hacc, rfl⟩)
    | checked v => rw [hphase] at hs; cases hs
    | finished => rw [hphase] at hs; cases hs
  | insert i =>
    simp only [Shared.step] at hs
    cases hphase : s.phase i with
    | waiting => rw [hphase] at hs; cases hs
    | checked v => rw [hphase] at hs; cases hs; exact Or.inr (Or.inr ⟨i, v, rfl, hphase, rfl⟩)
    | finished => rw [hphase] at hs; cases hs

/-- The insert of a handler that has passed the check. -/
theorem Shared.step_insert {s : Shared ι} {i : ι} {v : VehicleData} (h : s.phase i = .checked v) :
    s.step haversineDist o handlers (.insert i) =
      some (Shared.enter ⟨(s.db.insert haversineDist v (handlers i).env.junk).2, s.phase⟩ i
        .finished) := by
  simp only [Shared.step, h]

/-- A handler whose two steps follow one another does what `onMessage`
does. -/
theorem onMessage_of_check_insert (i : ι) (w : World) :
    ∃ ls s, run (Shared.step haversineDist o handlers) (Shared.start w.db) ls = some s ∧
      s.phase i = .finished ∧
      s.db = (onMessage haversineDist o (handlers i).client (handlers i).env
        (handlers i).message w).db := by
  cases hacc : accepts o (handlers i).client w.db (handlers i).message with
  | false =>
    have hcheck : (Shared.start w.db).step haversineDist o handlers (.check i) =
        some ((Shared.start w.db).enter i .finished) := by
      simp [Shared.step, Shared.start, hacc]
    refine ⟨[.check i], _, by rw [run_cons_of_step _ hcheck]; rfl, Shared.enter_self _ i _, ?_⟩
    rw [onMessage_of_not_accepts hacc]
    rfl
  | true =>
    have hcheck : (Shared.start w.db).step haversineDist o handlers (.check i) =
        some ((Shared.start w.db).enter i
          (.checked (vehicleData o (handlers i).env w.db (handlers i).message))) := by
      simp [Shared.step, Shared.start, hacc]
    have hinsert : Shared.step haversineDist o handlers (Shared.enter (Shared.start w.db) i
        (.checked (vehicleData o (handlers i).env w.db (handlers i).message))) (.insert i) =
        some _ :=
      Shared.step_insert (Shared.enter_self _ i _)
    refine ⟨[.check i, .insert i], _, (run_cons_of_step _ hcheck [.insert i]).trans
      (run_cons_of_step _ hinsert []), Shared.enter_self _ i _, ?_⟩
    rw [onMessage_db_of_accepts hacc]
    rfl

end Handlers

/-! ## The property and the condition -/

section Property

variable {ι : Type*} {station : UInt32}

/-- The GeoNetworking timestamp stored for a station. -/
def storedTimestamp (db : LDMMap) (station : UInt32) : Option UInt64 :=
  (db.entry station.toUInt64).map fun e => e.vehData.gnTimestamp

/-- The time of the record stored at the start, and those of the messages
in the area whose handlers are picked. -/
def times (o : Options) (handlers : ι → Handler o station) (stored : Option ℕ)
    (picked : ι → Prop) : Set ℕ :=
  {t | stored = some t ∨ ∃ i, picked i ∧
    o.isInside (handlers i).message.lat (handlers i).message.lon = true ∧ (handlers i).tai = t}

/-- The timestamp stored is that of the newest of the times. -/
def StoresNewest (db : LDMMap) (station : UInt32) (ts : Set ℕ) : Prop :=
  (ts = ∅ ∧ storedTimestamp db station = none) ∨
    ∃ t, IsGreatest ts t ∧ storedTimestamp db station = some (gnTimestampOf t)

/-- Nothing newer is lost of what has been handled so far. -/
def NewestStored (o : Options) (handlers : ι → Handler o station) (stored : Option ℕ)
    (s : Shared ι) : Prop :=
  StoresNewest s.db station (times o handlers stored fun i => s.phase i = .finished)

/-- The times are less than 300000 ms apart. -/
def Close (o : Options) (handlers : ι → Handler o station) (stored : Option ℕ) : Prop :=
  ∀ t ∈ times o handlers stored fun _ => True,
    ∀ t' ∈ times o handlers stored fun _ => True, t < t' + 300000

/-- The record an insert replaces is not one the staleness test calls newer
than the record inserted. -/
def InsertsNewest (s : Shared ι) : HandlerStep ι → Prop
  | .check _ => True
  | .insert i => ∀ v e, s.phase i = .checked v → s.db.lookup v.stationID = (.ok, some e) →
    tooOld v.gnTimestamp e.vehData.gnTimestamp = false

end Property

/-! ## The invariant -/

section Invariant

variable {ι : Type*} [DecidableEq ι] {station : UInt32} {haversineDist : Distance} {o : Options}
  {handlers : ι → Handler o station} {stored : Option ℕ}

theorem stationID_handler (h : Handler o station) : h.message.stationID = station.toUInt64 := by
  rw [CamMessage.stationID, h.sameStation]

omit [DecidableEq ι] in
theorem mem_times_mono {picked picked' : ι → Prop} (h : ∀ i, picked i → picked' i) {t : ℕ}
    (ht : t ∈ times o handlers stored picked) : t ∈ times o handlers stored picked' := by
  rcases ht with hstored | ⟨i, hpicked, hin, htai⟩
  · exact Or.inl hstored
  · exact Or.inr ⟨i, h i hpicked, hin, htai⟩

/-- When a handler finishes, the time of its message is handled. -/
theorem mem_times_finish {s : Shared ι} (i : ι) {t : ℕ} :
    t ∈ times o handlers stored (fun j => (s.enter i .finished).phase j = .finished) ↔
      t ∈ times o handlers stored (fun j => s.phase j = .finished) ∨
        (o.isInside (handlers i).message.lat (handlers i).message.lon = true ∧
          (handlers i).tai = t) := by
  constructor
  · intro ht
    rcases ht with hstored | ⟨j, hpicked, hin, htai⟩
    · exact Or.inl (Or.inl hstored)
    · by_cases hji : j = i
      · subst hji
        exact Or.inr ⟨hin, htai⟩
      · rw [Shared.enter_of_ne s hji] at hpicked
        exact Or.inl (Or.inr ⟨j, hpicked, hin, htai⟩)
  · intro ht
    rcases ht with ht | ⟨hin, htai⟩
    · refine mem_times_mono (fun j hj => ?_) ht
      by_cases hji : j = i
      · subst hji; exact Shared.enter_self s j _
      · rw [Shared.enter_of_ne s hji]; exact hj
    · exact Or.inr ⟨i, Shared.enter_self s i _, hin, htai⟩

/-- A handler that passes the check has finished neither before nor after. -/
theorem times_check {s : Shared ι} {i : ι} (h : s.phase i = .waiting) (v : VehicleData) :
    times o handlers stored (fun j => (s.enter i (.checked v)).phase j = .finished) =
      times o handlers stored (fun j => s.phase j = .finished) := by
  have hsame : ∀ j, (s.enter i (.checked v)).phase j = .finished ↔ s.phase j = .finished := by
    intro j
    by_cases hji : j = i
    · subst hji; simp [h]
    · rw [Shared.enter_of_ne s hji]
  simp only [times, hsame]

/-- What holds along a run that inserts the newest: a database some station
map describes, records in hand that are those of the messages, and the
property. -/
structure Sound (haversineDist : Distance) (o : Options) (handlers : ι → Handler o station)
    (stored : Option ℕ) (s : Shared ι) : Prop where
  shows : Shows haversineDist s.db
  held : ∀ i v, s.phase i = .checked v → v.stationID = station.toUInt64 ∧
    v.gnTimestamp = gnTimestampOf (handlers i).tai ∧
    o.isInside (handlers i).message.lat (handlers i).message.lon = true
  newest : NewestStored o handlers stored s

omit [DecidableEq ι] in
/-- A stored record is the newest of those handled. -/
theorem NewestStored.of_entry {s : Shared ι} (h : NewestStored o handlers stored s)
    {e : ReturnedVehicleData} (he : s.db.entry station.toUInt64 = some e) :
    ∃ t, IsGreatest (times o handlers stored fun i => s.phase i = .finished) t ∧
      e.vehData.gnTimestamp = gnTimestampOf t := by
  have hstored : storedTimestamp s.db station = some e.vehData.gnTimestamp := by
    rw [storedTimestamp, he]; rfl
  rcases h with ⟨-, hnone⟩ | ⟨t, hgreatest, hsome⟩
  · rw [hstored] at hnone; cases hnone
  · rw [hstored] at hsome
    exact ⟨t, hgreatest, Option.some.inj hsome⟩

omit [DecidableEq ι] in
/-- The staleness test of a message in the area against the newest record
compares the real times. -/
theorem tooOld_newest (hclose : Close o handlers stored) {s : Shared ι} {i : ι} {t : ℕ}
    (hin : o.isInside (handlers i).message.lat (handlers i).message.lon = true)
    (ht : t ∈ times o handlers stored fun i => s.phase i = .finished) :
    tooOld (gnTimestampOf (handlers i).tai) (gnTimestampOf t) = decide ((handlers i).tai < t) := by
  have hi : (handlers i).tai ∈ times o handlers stored fun _ => True :=
    Or.inr ⟨i, trivial, hin, rfl⟩
  have ht' : t ∈ times o handlers stored fun _ => True := mem_times_mono (fun _ _ => trivial) ht
  exact tooOld_gnTimestampOf (hclose _ hi t ht') (hclose t ht' _ hi)

omit [DecidableEq ι] in
/-- A message in the area that the age check drops is older than the newest
record. -/
theorem older_of_not_accepts (hage : o.ageCheckEnabled = true)
    (hclose : Close o handlers stored) {s : Shared ι} {i : ι}
    (hnewest : NewestStored o handlers stored s)
    (hin : o.isInside (handlers i).message.lat (handlers i).message.lon = true)
    (hacc : accepts o (handlers i).client s.db (handlers i).message = false) :
    ∃ t, IsGreatest (times o handlers stored fun i => s.phase i = .finished) t ∧
      storedTimestamp s.db station = some (gnTimestampOf t) ∧ (handlers i).tai < t := by
  have hdiscard : discards o (handlers i).client s.db (handlers i).message.stationID
      (timestampAndLights o s.db (handlers i).message).1 = true := by
    simpa only [accepts, hin, Bool.true_and, Bool.not_eq_false'] using hacc
  obtain ⟨-, -, e, he, hold⟩ := (discards_iff _ hage).mp hdiscard
  rw [LDMMap.lookup_ok_iff, stationID_handler] at he
  obtain ⟨t, hgreatest, hts⟩ := hnewest.of_entry he
  rw [(handlers i).gnTimestamp, hts, tooOld_newest hclose hin hgreatest.1,
    decide_eq_true_eq] at hold
  refine ⟨t, hgreatest, ?_, hold⟩
  rw [storedTimestamp, he, Option.map_some, hts]

/-- What an insert stores. -/
theorem storedTimestamp_insert {db : LDMMap} (h : Shows haversineDist db) {v : VehicleData}
    (hv : v.stationID = station.toUInt64) (junk : Junk) :
    storedTimestamp (db.insert haversineDist v junk).2 station = some v.gnTimestamp := by
  obtain ⟨a, ha⟩ := h
  have hlt := toUInt64_lt station
  have hentry := ha.vehData_insert (v := v) junk (by rw [hv]; exact hlt) hlt
  rw [if_pos hv.symm, Option.map_eq_some_iff] at hentry
  obtain ⟨e, he, rfl⟩ := hentry
  rw [storedTimestamp, he, Option.map_some]

/-- A handler that is dropped finishes. -/
theorem NewestStored.drop (hage : o.ageCheckEnabled = true) (hclose : Close o handlers stored)
    {s : Shared ι} {i : ι} (h : NewestStored o handlers stored s)
    (hacc : accepts o (handlers i).client s.db (handlers i).message = false) :
    NewestStored o handlers stored (s.enter i .finished) := by
  cases hin : o.isInside (handlers i).message.lat (handlers i).message.lon with
  | false =>
    have hsame : times o handlers stored (fun j => (s.enter i .finished).phase j = .finished) =
        times o handlers stored fun j => s.phase j = .finished := by
      ext t
      simp [mem_times_finish, hin]
    rw [NewestStored, hsame]
    exact h
  | true =>
    obtain ⟨t, ⟨hmem, hupper⟩, hsome, hlt⟩ := older_of_not_accepts hage hclose h hin hacc
    refine Or.inr ⟨t, ⟨(mem_times_finish i).mpr (Or.inl hmem), fun t' ht' => ?_⟩, hsome⟩
    rcases (mem_times_finish i).mp ht' with hold | ⟨-, rfl⟩
    · exact hupper hold
    · exact Nat.le_of_lt hlt

/-- A handler that inserts over nothing newer finishes. -/
theorem Sound.insert (hclose : Close o handlers stored) {s : Shared ι} {i : ι} {v : VehicleData}
    (h : Sound haversineDist o handlers stored s) (hphase : s.phase i = .checked v)
    (hC : InsertsNewest s (.insert i)) :
    NewestStored o handlers stored
      (Shared.enter ⟨(s.db.insert haversineDist v (handlers i).env.junk).2, s.phase⟩ i
        .finished) := by
  obtain ⟨hid, hts, hin⟩ := h.held i v hphase
  refine Or.inr ⟨(handlers i).tai, ⟨(mem_times_finish i).mpr (Or.inr ⟨hin, rfl⟩),
    fun t ht => ?_⟩, ?_⟩
  · rcases (mem_times_finish i).mp ht with hold | ⟨-, rfl⟩
    · rcases h.newest with ⟨hempty, -⟩ | ⟨t', hgreatest, hsome⟩
      · rw [hempty] at hold; cases hold
      · rw [storedTimestamp, Option.map_eq_some_iff] at hsome
        obtain ⟨e, he, hte⟩ := hsome
        have hnewer := hC v e hphase (LDMMap.lookup_ok_iff.mpr (by rw [hid]; exact he))
        rw [hts, hte, tooOld_newest hclose hin hgreatest.1, decide_eq_false_iff_not] at hnewer
        exact Nat.le_trans (hgreatest.2 hold) (Nat.le_of_not_lt hnewer)
    · exact Nat.le_refl _
  · rw [Shared.enter_db, storedTimestamp_insert h.shows hid, hts]

/-- A step that meets the condition keeps the invariant. -/
theorem sound_step (hage : o.ageCheckEnabled = true) (hclose : Close o handlers stored)
    (s : Shared ι) (l : HandlerStep ι) (s' : Shared ι) (h : Sound haversineDist o handlers stored s)
    (hC : InsertsNewest s l) (hs : s.step haversineDist o handlers l = some s') :
    Sound haversineDist o handlers stored s' := by
  obtain ⟨i, rfl, hphase, hacc, rfl⟩ | ⟨i, rfl, hphase, hacc, rfl⟩ | ⟨i, v, rfl, hphase, rfl⟩ :=
    Shared.step_cases hs
  · exact ⟨h.shows, fun j v hj => h.held j v (Shared.checked_of_enter_finished hj),
      h.newest.drop hage hclose hacc⟩
  · refine ⟨h.shows, fun j v hj => ?_, ?_⟩
    · by_cases hji : j = i
      · subst hji
        rw [Shared.enter_self, Phase.checked.injEq] at hj
        subst hj
        simp only [accepts, Bool.and_eq_true] at hacc
        exact ⟨stationID_handler _, (timestampAndLights_fst o s.db _).trans
          (handlers j).gnTimestamp, hacc.1⟩
      · rw [Shared.enter_of_ne s hji] at hj
        exact h.held j v hj
    · rw [NewestStored, times_check hphase]
      exact h.newest
  · obtain ⟨a, ha⟩ := h.shows
    obtain ⟨hid, -, -⟩ := h.held i v hphase
    have hlt : v.stationID < 0x100000000 := by
      rw [hid]
      exact toUInt64_lt station
    exact ⟨⟨_, (ha.insert _ hlt).2⟩,
      fun j v' hj => h.held j v' (Shared.checked_of_enter_finished hj),
      h.insert hclose hphase hC⟩

/-- An insert over a newer record loses it. -/
theorem lost_step (hclose : Close o handlers stored) (s : Shared ι) (l : HandlerStep ι)
    (h : Sound haversineDist o handlers stored s) (hC : ¬ InsertsNewest s l) :
    ∃ s', s.step haversineDist o handlers l = some s' ∧ ¬ NewestStored o handlers stored s' := by
  cases l with
  | check i => exact absurd trivial hC
  | insert i =>
    simp only [InsertsNewest] at hC
    push Not at hC
    obtain ⟨v, e, hphase, he, hold⟩ := hC
    obtain ⟨hid, hts, hin⟩ := h.held i v hphase
    refine ⟨_, Shared.step_insert hphase, fun hnewest => ?_⟩
    rw [LDMMap.lookup_ok_iff, hid] at he
    obtain ⟨t, hgreatest, hte⟩ := h.newest.of_entry he
    rw [hts, hte, tooOld_newest hclose hin hgreatest.1, Bool.ne_false_iff,
      decide_eq_true_eq] at hold
    rcases hnewest with ⟨-, hnone⟩ | ⟨t', hgreatest', hsome⟩
    · rw [Shared.enter_db, storedTimestamp_insert h.shows hid] at hnone
      cases hnone
    · rw [Shared.enter_db, storedTimestamp_insert h.shows hid, hts] at hsome
      have hle : t ≤ t' := hgreatest'.2 ((mem_times_finish i).mpr (Or.inl hgreatest.1))
      have hi : (handlers i).tai ∈ times o handlers stored fun _ => True :=
        Or.inr ⟨i, trivial, hin, rfl⟩
      exact gnTimestampOf_ne (Nat.lt_of_lt_of_le hold hle)
        (hclose t' (mem_times_mono (fun _ _ => trivial) hgreatest'.1) _ hi) (Option.some.inj hsome)

omit [DecidableEq ι] in
theorem sound_start {db : LDMMap} (h : Shows haversineDist db)
    (hstored : storedTimestamp db station = stored.map gnTimestampOf) :
    Sound haversineDist o handlers stored (Shared.start db) := by
  refine ⟨h, fun i v hi => (by cases hi), ?_⟩
  have hmem : ∀ t, t ∈ times o handlers stored (fun i => (Shared.start db).phase i = .finished) ↔
      stored = some t := by
    intro t
    constructor
    · rintro (ht | ⟨i, hi, -⟩)
      · exact ht
      · cases hi
    · exact Or.inl
  cases stored with
  | none =>
    refine Or.inl ⟨Set.eq_empty_of_forall_notMem fun t ht => ?_, hstored⟩
    cases (hmem t).mp ht
  | some t =>
    refine Or.inr ⟨t, ⟨(hmem t).mpr rfl, fun t' ht' => ?_⟩, hstored⟩
    exact Nat.le_of_eq (Option.some.inj ((hmem t').mp ht')).symm

end Invariant

/-! ## Runs -/

section Runs

variable {ι : Type*} [DecidableEq ι] {station : UInt32}

/-- From any state the program reaches: along every interleaving of the
handlers the newest stays stored exactly when no insert replaces a newer
record. When all have finished it is the newest of all processed. -/
theorem newestStored_iff (haversineDist : Distance) (o : Options)
    (hage : o.ageCheckEnabled = true) (optsPtr : Option RestOptions) (left : Bool) (w : World)
    (hw : Reachable (World.step haversineDist o) (initialWorld optsPtr left) w)
    (handlers : ι → Handler o station) (stored : Option ℕ)
    (hstored : storedTimestamp w.db station = stored.map gnTimestampOf)
    (hclose : Close o handlers stored) (ls : List (HandlerStep ι)) :
    (AllStates (Shared.step haversineDist o handlers) (NewestStored o handlers stored)
        (Shared.start w.db) ls ↔
      AllSteps (Shared.step haversineDist o handlers) InsertsNewest (Shared.start w.db) ls) ∧
    (AllSteps (Shared.step haversineDist o handlers) InsertsNewest (Shared.start w.db) ls →
      ∀ s, run (Shared.step haversineDist o handlers) (Shared.start w.db) ls = some s →
        (∀ i, s.phase i = .finished) →
        StoresNewest s.db station (times o handlers stored fun _ => True)) := by
  have hshows : Shows haversineDist w.db :=
    hw.invariant step_stored (stored_initialWorld haversineDist optsPtr left)
  have hstart : Sound haversineDist o handlers stored (Shared.start w.db) :=
    sound_start hshows hstored
  have hnewest : AllSteps (Shared.step haversineDist o handlers) InsertsNewest
      (Shared.start w.db) ls →
      AllStates (Shared.step haversineDist o handlers) (NewestStored o handlers stored)
        (Shared.start w.db) ls := fun hC =>
    (allStates_of_allSteps (sound_step hage hclose) hstart hC).mono fun _ h => h.newest
  refine ⟨⟨fun hall => ?_, hnewest⟩, fun hC s hrun hfinished => ?_⟩
  · exact allSteps_of_allStates (sound_step hage hclose) (lost_step hclose) hstart hall
  · have hlast : NewestStored o handlers stored s := (hnewest hC).last hrun
    simpa only [NewestStored, hfinished] using hlast

end Runs

/-- The age check with the default name of the timestamp property. -/
def gnTsCheckOn : Options := { ageCheckOn with gnTimestampProperty := "gn_ts" }

/-- The handler of a client with a log file for a message of station 7. -/
def loggedHandler (message : CamMessage) (tai : ℕ) (hid : message.cam.stationID = 7)
    (hts : rxTimestamp gnTsCheckOn message = gnTimestampOf tai) : Handler gnTsCheckOn 7 :=
  ⟨⟨"log.txt", false⟩, ⟨0, 0, ⟨0, fun _ => default⟩, default⟩, message, tai, hid, hts, by decide⟩

/-- A full message of time 100 for one client, and for another a pure CAM
whose property says 200. -/
def twoHandlers : Bool → Handler gnTsCheckOn 7
  | false => loggedHandler ⟨some 100, { (default : Cam) with stationID := 7 }, []⟩ 100 rfl
      (by decide +kernel)
  | true => loggedHandler ⟨none, { (default : Cam) with stationID := 7 },
      [("gn_ts", .long 200)]⟩ 200 rfl (by decide +kernel)

theorem close_twoHandlers : Close gnTsCheckOn twoHandlers none := by
  have hbound : ∀ t ∈ times gnTsCheckOn twoHandlers none fun _ => True, 100 ≤ t ∧ t ≤ 200 := by
    rintro t (ht | ⟨later, -, -, rfl⟩)
    · cases ht
    · cases later <;> decide
  intro t ht t' ht'
  have h := hbound t ht
  have h' := hbound t' ht'
  omega

/-- Both handlers pass the check before either inserts, and the one with
the newer message inserts last. -/
def overlapping : List (HandlerStep Bool) :=
  [.check false, .check true, .insert false, .insert true]

theorem newestStored_iff_overlapping :
    (AllStates (Shared.step (fun _ _ _ _ => 0) gnTsCheckOn twoHandlers)
        (NewestStored gnTsCheckOn twoHandlers none) (Shared.start (initialWorld none false).db)
        overlapping ↔
      AllSteps (Shared.step (fun _ _ _ _ => 0) gnTsCheckOn twoHandlers) InsertsNewest
        (Shared.start (initialWorld none false).db) overlapping) ∧
    (AllSteps (Shared.step (fun _ _ _ _ => 0) gnTsCheckOn twoHandlers) InsertsNewest
        (Shared.start (initialWorld none false).db) overlapping →
      ∀ s, run (Shared.step (fun _ _ _ _ => 0) gnTsCheckOn twoHandlers)
          (Shared.start (initialWorld none false).db) overlapping = some s →
        (∀ i, s.phase i = .finished) →
        StoresNewest s.db 7 (times gnTsCheckOn twoHandlers none fun _ => True)) :=
  newestStored_iff (fun _ _ _ _ => 0) gnTsCheckOn rfl none false _ ⟨[], rfl⟩ twoHandlers none
    (by decide +kernel) close_twoHandlers overlapping

/-- Both handlers pass the check before either inserts, and the one with
the older message inserts last. -/
def crossing : List (HandlerStep Bool) := [.check false, .check true, .insert true, .insert false]

/-- The timestamp stored in the end is that of the older message. -/
theorem crossing_not_storesNewest :
    Close gnTsCheckOn twoHandlers none ∧
      ∃ s, run (Shared.step (fun _ _ _ _ => 0) gnTsCheckOn twoHandlers)
          (Shared.start LDMMap.new) crossing = some s ∧
        (∀ i, s.phase i = .finished) ∧
        ¬ StoresNewest s.db 7 (times gnTsCheckOn twoHandlers none fun _ => True) := by
  have hrun : ((run (Shared.step (fun _ _ _ _ => 0) gnTsCheckOn twoHandlers)
      (Shared.start LDMMap.new) crossing).map fun s =>
        decide (storedTimestamp s.db 7 = some 100 ∧ ∀ i, s.phase i = .finished)) = some true := by
    decide +kernel
  obtain ⟨s, hs, hdecide⟩ := Option.map_eq_some_iff.mp hrun
  obtain ⟨hstored, hfinished⟩ := of_decide_eq_true hdecide
  refine ⟨close_twoHandlers, s, hs, hfinished, ?_⟩
  rintro (⟨-, hnone⟩ | ⟨t, hgreatest, hsome⟩)
  · rw [hstored] at hnone
    cases hnone
  · have hlater : (200 : ℕ) ∈ times gnTsCheckOn twoHandlers none fun _ => True :=
      Or.inr ⟨true, trivial, by decide +kernel, rfl⟩
    have hle : 200 ≤ t := hgreatest.2 hlater
    rw [hstored, show (100 : UInt64) = gnTimestampOf 100 from rfl] at hsome
    have hclose : t < 100 + 300000 := close_twoHandlers t hgreatest.1 100
      (Or.inr ⟨false, trivial, by decide +kernel, rfl⟩)
    exact gnTimestampOf_ne (by omega) hclose (Option.some.inj hsome)

end SLDM.Client
