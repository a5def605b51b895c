/-
SLDM.System.RestSessions — the whole service: messages, garbage
collection, requests of the JSON server, and the threads that tell the
Maneuvering Service about the surroundings of a vehicle.

A thread is started by the handler of a message and moves at its own pace;
between two of its moves the database may change any number of times, and
with it the path histories the thread has pointers to. What is seen of the
threads is logged in `signs`.

Two results about every run: what a thread posts is made of three states
the database went through, in this order, and of path histories as they
were at some moment from the second of them on (`posted_run`); what is seen
about a station is a sequence of sessions, one after the other
(`sessions_run`).
-/
import SLDM.Lib.KeyedList
import SLDM.System.Service
import SLDM.Rest.Thread

namespace SLDM.System

open Store Client Json Rest Trigger Runs

/-! ## What a trigger check can do -/

/-- The outcomes of a trigger check for a station. -/
inductive Triggered (s : System) (id : UInt64) (lights : UInt8) : System → Prop
  | unchanged : Triggered s id lights s
  /-- The thread could not be created. -/
  | listed (hnew : id ∉ s.manager.alreadyTriggered) : Triggered s id lights
      { s with manager := { s.manager with
          alreadyTriggered := s.manager.alreadyTriggered ++ [id] } }
  | started (hnew : id ∉ s.manager.alreadyTriggered)
      (hlights : turnSignalOn s.manager.leftIndicatorEnabled lights = true)
      (opts : RestOptions) (hopts : s.manager.optsPtr = some opts) (object : RestClient)
      (hid : object.refVehStationID = id) (hrange : object.rangeM = opts.contextRadius)
      (hnotify : object.notifyFcn = true) : Triggered s id lights
      { manager := { s.manager with alreadyTriggered := s.manager.alreadyTriggered ++ [id] },
        sessions := s.sessions ++ [object] }

theorem triggered_checkAndTrigger (s : System) (id : UInt64) (lights : UInt8)
    (outcome : StartOutcome) : Triggered s id lights (s.checkAndTrigger id lights outcome) := by
  obtain ⟨⟨dbPtr, optsPtr, left, triggered⟩, sessions⟩ := s
  unfold System.checkAndTrigger IndicatorTriggerManager.checkAndTrigger
  cases dbPtr with
  | false => simpa using Triggered.unchanged
  | true =>
    cases optsPtr with
    | none => simpa using Triggered.unchanged
    | some opts =>
      by_cases hlights : turnSignalOn left lights = true
      · by_cases hmem : id ∈ triggered
        · simpa [hlights, hmem] using Triggered.unchanged
        · rcases outcome with ⟨allocated, create, tid⟩
          cases allocated with
          | false => simpa [hlights, hmem] using Triggered.unchanged
          | true =>
            cases create with
            | false =>
              simpa [hlights, hmem, RestClient.startRESTthread] using Triggered.listed hmem
            | true =>
              simp only [hlights, hmem, RestClient.startRESTthread, if_true, not_false_eq_true]
              exact Triggered.started hmem hlights opts rfl _ rfl rfl rfl
      · simpa [hlights] using Triggered.unchanged

/-- What the check of the handler does for the data of a message. -/
theorem triggered_triggerCheck (o : Client.Options) (client : AMQPClient) (env : Env)
    (v : VehicleData) (s : System) :
    triggerCheck o client env v s = s ∨ ∃ lights, v.exteriorLights = some lights ∧
      Triggered s v.stationID lights (triggerCheck o client env v s) := by
  unfold triggerCheck
  cases hlights : v.exteriorLights with
  | none => exact Or.inl rfl
  | some lights =>
    have hcheck := triggered_checkAndTrigger s v.stationID lights env.outcome
    dsimp only
    split
    · split
      · split
        · exact Or.inr ⟨lights, rfl, hcheck⟩
        · exact Or.inl rfl
      · exact Or.inr ⟨lights, rfl, hcheck⟩
    · exact Or.inl rfl

/-! ## The platform -/

/-- The service, the running threads and what has been seen of threads. -/
structure Platform where
  service : Service
  threads : List Thread
  signs : List (UInt64 × Sign)

/-- What can happen next. A thread is named by its place in the list. -/
inductive Platform.Event where
  | message (client : AMQPClient) (env : Env) (m : CamMessage)
  | collect (timeMilliseconds : ℚ) (now : UInt64)
  | request (nowUs : UInt64) (e : Receive)
  | act (i : ℕ) (action : Action)
  | finish (i : ℕ)

section Step

variable (haversineDist inverse : Distance) (settings : Settings) (nullText : String)

/-- One step. -/
def Platform.step (s : Platform) : Platform.Event → Option Platform
  | .message client env m =>
    (s.service.step haversineDist settings (.write (.message client env m))).map fun service =>
      -- a session the handler has added has a thread of its own
      let added := service.world.trigger.sessions.drop s.threads.length
      { service
        threads := s.threads.map (Thread.follow service.world.db) ++
          added.map (Thread.new nullText)
        signs := s.signs ++ added.map fun object => (object.refVehStationID, .started) }
  | .collect time now =>
    (s.service.step haversineDist settings (.write (.collect time now))).map fun service =>
      { s with service, threads := s.threads.map (Thread.follow service.world.db) }
  | .request nowUs e =>
    (s.service.step haversineDist settings (.request nowUs e)).map fun service =>
      { s with service }
  | .act i action =>
    s.threads[i]?.bind fun t =>
      (t.act haversineDist inverse s.service.world.db action).map fun (t', signs) =>
        { s with
          threads := s.threads.set i t'
          signs := s.signs ++ signs.map fun sign => (t.stationID, sign) }
  | .finish i =>
    s.threads[i]?.bind fun t =>
      match t.phase with
      | .leaving =>
        (s.service.step haversineDist settings (.write (.terminate t.object))).map fun service =>
          { service
            threads := s.threads.eraseIdx i
            signs := s.signs ++ [(t.stationID, .finished)] }
      | _ => none

/-- No thread, nothing seen. -/
def Platform.initial (optsPtr : Option RestOptions) (leftIndicatorEnabled : Bool)
    (rxBuff : List UInt8) : Platform :=
  ⟨Service.initial optsPtr leftIndicatorEnabled rxBuff, [], []⟩

end Step

/-! ## What a thread has read -/

section Reads

variable (haversineDist inverse : Distance) (optsPtr : Option RestOptions)

/-- From `l` to `l'` the station was never gone; its record in the end. -/
structure Keeps (l l' : List Report) (id : UInt64) (r : Record) : Prop where
  isPrefix : l <+: l'
  record : recorded haversineDist l' id = some r
  stays : ∀ m, l <+: m → m <+: l' → (recorded haversineDist m id).isSome

/-- A record the station had at some moment from `l` on, without having
been gone since. -/
def Later (reports l : List Report) (id : UInt64) (r : Record) : Prop :=
  ∃ l', l' <+: reports ∧ Keeps haversineDist l l' id r

/-- What is held of a vehicle: while the database has the object, the
station is there. -/
structure Holds (reports l : List Report) (held : Held) : Prop where
  below : held.vehdata.vehData.stationID < 0x100000000
  vehdata : HeldFor haversineDist (recorded haversineDist l) (Later haversineDist reports l)
    held.vehdata
  attached : held.attached = true →
    ∃ r, Keeps haversineDist l reports held.vehdata.vehData.stationID r

/-- What a thread has read are states the database went through. -/
def Reads (reports : List Report) (t : Thread) : Prop :=
  match t.phase with
  | .selecting _ retData => ∃ l₁ r₁, l₁ <+: reports ∧
      recorded haversineDist l₁ t.stationID = some r₁ ∧ retData = r₁.entry haversineDist
  | .referring _ returnedvehs => ∃ l₁ l₂ r₁, l₁ <+: l₂ ∧ l₂ <+: reports ∧
      recorded haversineDist l₁ t.stationID = some r₁ ∧
      (recorded haversineDist l₂).Enumerates
        (Near haversineDist t.object.rangeM r₁.latest.lat r₁.latest.lon)
        (returnedvehs.map fun held => held.vehdata.vehData.stationID) ∧
      ∀ held ∈ returnedvehs, Holds haversineDist reports l₂ held
  | .making _ refveh made rest => ∃ l₁ l₂ l₃ r₁ r₃, l₁ <+: l₂ ∧ l₂ <+: l₃ ∧ l₃ <+: reports ∧
      recorded haversineDist l₁ t.stationID = some r₁ ∧
      recorded haversineDist l₃ t.stationID = some r₃ ∧ refveh = r₃.entry haversineDist ∧
      (recorded haversineDist l₂).Enumerates
        (Near haversineDist t.object.rangeM r₁.latest.lat r₁.latest.lon)
        (made.map (fun e => e.vehData.stationID) ++
          rest.map fun held => held.vehdata.vehData.stationID) ∧
      (∀ e ∈ made, HeldFor haversineDist (recorded haversineDist l₂)
        (Later haversineDist reports l₂) e) ∧
      ∀ held ∈ rest, Holds haversineDist reports l₂ held
  | _ => True

/-- The body describes the surroundings of the station, out of three
states of the database, each no earlier than the one before, and path
histories no earlier than the second. -/
def Told (reports : List Report) (id nowUs : UInt64) (body : Value) : Prop :=
  ∃ opts l₁ l₂ l₃, optsPtr = some opts ∧ l₁ <+: l₂ ∧ l₂ <+: l₃ ∧ l₃ <+: reports ∧
    Describes haversineDist inverse (recorded haversineDist l₁) (recorded haversineDist l₂)
      (recorded haversineDist l₃) (Later haversineDist reports l₂) opts.contextRadius id nowUs body

/-- What the object of a thread was given. -/
structure Equipped (t : Thread) : Prop where
  below : t.stationID < 0x100000000
  range : ∃ opts, optsPtr = some opts ∧ t.object.rangeM = opts.contextRadius
  notify : t.object.notifyFcn = true

variable {haversineDist inverse optsPtr} {reports reports' : List Report}

theorem Later.mono (hle : reports <+: reports') {l : List Report} (id : UInt64) (r : Record)
    (h : Later haversineDist reports l id r) : Later haversineDist reports' l id r := by
  obtain ⟨l', hl', hkeeps⟩ := h
  exact ⟨l', hl'.trans hle, hkeeps⟩

theorem Told.mono (hle : reports <+: reports') {id nowUs : UInt64}
    {body : Value} (h : Told haversineDist inverse optsPtr reports id nowUs body) :
    Told haversineDist inverse optsPtr reports' id nowUs body := by
  obtain ⟨opts, l₁, l₂, l₃, hopts, h₁, h₂, h₃, hbody⟩ := h
  exact ⟨opts, l₁, l₂, l₃, hopts, h₁, h₂, h₃.trans hle, hbody.mono (Later.mono hle)⟩

/-- A station that was there is still there after one more report: it was
never gone. -/
theorem Keeps.extend {l ext : List Report} (hext : ext.length ≤ 1) {id : UInt64} {r r' : Record}
    (h : Keeps haversineDist l reports id r)
    (hr' : recorded haversineDist (reports ++ ext) id = some r') :
    Keeps haversineDist l (reports ++ ext) id r' where
  isPrefix := h.isPrefix.trans (List.prefix_append _ _)
  record := hr'
  stays := by
    intro m hlm hm
    rcases ext with _ | ⟨report, _ | ⟨_, _⟩⟩
    · exact h.stays m hlm (by simpa using hm)
    · rcases List.prefix_concat_iff.mp hm with rfl | hm
      · rw [hr']; rfl
      · exact h.stays m hlm hm
    · simp at hext

/-- What is held follows the database. -/
theorem Holds.follow {db : LDMMap} {l ext : List Report} (hext : ext.length ≤ 1)
    (hdb : Related haversineDist db (recorded haversineDist (reports ++ ext))) {held : Held}
    (h : Holds haversineDist reports l held) :
    Holds haversineDist (reports ++ ext) l (held.follow db) := by
  obtain ⟨vehdata, attached⟩ := held
  obtain ⟨hbelow, hheld, hattached⟩ := h
  have hkept := hheld.mono (Later.mono (List.prefix_append reports ext))
  cases attached with
  | false => exact ⟨hbelow, hkept, fun hfalse => by cases hfalse⟩
  | true =>
    obtain ⟨r₀, hkeeps⟩ := hattached rfl
    obtain ⟨r, r₁, hr, -, rfl⟩ := hheld
    rw [Held.follow, if_pos rfl, hdb.entry _ hbelow]
    cases hnow : recorded haversineDist (reports ++ ext) r.latest.stationID with
    | none => exact ⟨hbelow, hkept, fun hfalse => by cases hfalse⟩
    | some r' =>
      have hkeeps' := hkeeps.extend hext hnow
      exact ⟨hbelow, ⟨r, r', hr, ⟨_, List.prefix_rfl, hkeeps'⟩, rfl⟩, fun _ => ⟨r', hkeeps'⟩⟩

@[simp] theorem stationID_follow (db : LDMMap) (held : Held) :
    (held.follow db).vehdata.vehData.stationID = held.vehdata.vehData.stationID := by
  unfold Held.follow
  split
  · split <;> rfl
  · rfl

/-- A thread keeps what it has read while others change the database. -/
theorem Reads.follow {db : LDMMap} {ext : List Report} (hext : ext.length ≤ 1)
    (hdb : Related haversineDist db (recorded haversineDist (reports ++ ext))) {t : Thread}
    (h : Reads haversineDist reports t) :
    Reads haversineDist (reports ++ ext) (t.follow db) := by
  obtain ⟨object, phase, jsonResponse⟩ := t
  have hle : reports <+: reports ++ ext := List.prefix_append _ _
  have hholds {l : List Report} {held : List Held}
      (hall : ∀ e ∈ held, Holds haversineDist reports l e) :
      ∀ e ∈ held.map (Held.follow db), Holds haversineDist (reports ++ ext) l e := by
    intro e he
    obtain ⟨held, hheld, rfl⟩ := List.mem_map.mp he
    exact (hall held hheld).follow hext hdb
  have hids (held : List Held) :
      (held.map (Held.follow db)).map (fun held => held.vehdata.vehData.stationID) =
        held.map fun held => held.vehdata.vehData.stationID := by
    simp [Function.comp_def]
  cases phase with
  | selecting nowUs retData =>
    obtain ⟨l₁, r₁, h₁, hread⟩ := h
    exact ⟨l₁, r₁, h₁.trans hle, hread⟩
  | referring nowUs returnedvehs =>
    obtain ⟨l₁, l₂, r₁, h₁, h₂, hr₁, hall, hheld⟩ := h
    exact ⟨l₁, l₂, r₁, h₁, h₂.trans hle, hr₁, by rw [hids]; exact hall, hholds hheld⟩
  | making nowUs refveh made rest =>
    obtain ⟨l₁, l₂, l₃, r₁, r₃, h₁, h₂, h₃, hr₁, hr₃, hrefveh, hall, hmade, hheld⟩ := h
    exact ⟨l₁, l₂, l₃, r₁, r₃, h₁, h₂, h₃.trans hle, hr₁, hr₃, hrefveh, by rw [hids]; exact hall,
      fun e he => (hmade e he).mono (Later.mono hle), hholds hheld⟩
  | _ => trivial

/-- What the scan returns is held of the state it was made in. -/
theorem holds_of_scan {db : LDMMap}
    (hdb : Related haversineDist db (recorded haversineDist reports)) (rangeM lat lon : ℚ) :
    (recorded haversineDist reports).Enumerates (Near haversineDist rangeM lat lon)
        (((db.rangeSelect haversineDist rangeM lat lon []).2.map Held.of).map fun held =>
          held.vehdata.vehData.stationID) ∧
      ∀ held ∈ (db.rangeSelect haversineDist rangeM lat lon []).2.map Held.of,
        Holds haversineDist reports reports held := by
  have hscan := hdb.enumerates fun e =>
    decide (haversineDist lat lon e.vehData.lat e.vehData.lon ≤ rangeM)
  rw [LDMMap.rangeSelect_eq]
  refine ⟨?_, fun held hheld => ?_⟩
  · have hall := hscan.1.congr (q := Near haversineDist rangeM lat lon) fun r => by
      simp only [decide_eq_true_eq]
      exact Iff.rfl
    simpa [Function.comp_def, Held.of] using hall
  · obtain ⟨e, he, rfl⟩ := List.mem_map.mp hheld
    rw [List.nil_append] at he
    obtain ⟨ku, kl, hfind⟩ := LDMMap.mem_values.mp (List.mem_filter.mp he).1
    obtain ⟨r, hr, heq, -⟩ := hdb.record hfind
    have hkeeps : Keeps haversineDist reports reports e.vehData.stationID r :=
      ⟨List.prefix_rfl, hr, fun m hlm hml => by
        rw [hml.eq_of_length_le hlm.length_le, hr]
        rfl⟩
    exact ⟨hdb.below32 _ r hr, ⟨r, r, hr, ⟨_, List.prefix_rfl, hkeeps⟩, heq⟩, fun _ => ⟨r, hkeeps⟩⟩

/-- A lookup finds the station's record. -/
theorem record_of_lookup {db : LDMMap} {a : StationMap} (hdb : Related haversineDist db a)
    {id : UInt64} (hid : id < 0x100000000) {e : ReturnedVehicleData}
    (h : db.lookup id = (.ok, some e)) : ∃ r, a id = some r ∧ e = r.entry haversineDist := by
  rw [lookup_of_related hdb hid] at h
  cases hr : a id with
  | none => rw [hr] at h; cases h
  | some r => rw [hr] at h; cases h; exact ⟨r, rfl, rfl⟩

/-- It finds none of a station that is not there. -/
theorem none_of_lookup {db : LDMMap} {a : StationMap} (hdb : Related haversineDist db a)
    {id : UInt64} (hid : id < 0x100000000) (h : ∀ e, db.lookup id ≠ (.ok, some e)) :
    a id = none := by
  cases hr : a id with
  | none => rfl
  | some r => exact absurd (by rw [lookup_of_related hdb hid, hr]) (h (r.entry haversineDist))

/-- A move reads the database as it is, and posts what it has read. -/
theorem reads_act {db : LDMMap} {t : Thread} {action : Action} {out : Thread × List Sign}
    (hdb : Related haversineDist db (recorded haversineDist reports))
    (hequipped : Equipped optsPtr t) (hreads : Reads haversineDist reports t)
    (h : t.act haversineDist inverse db action = some out) :
    Reads haversineDist reports out.1 ∧ ∀ nowUs body, Sign.posted nowUs body ∈ out.2 →
      Told haversineDist inverse optsPtr reports t.stationID nowUs body := by
  obtain ⟨opts, hopts, hrange⟩ := hequipped.range
  have hposted {l₁ l₂ l₃ : List Report} (h₁ : l₁ <+: l₂) (h₂ : l₂ <+: l₃) (h₃ : l₃ <+: reports)
      {nowUs : UInt64} {body : Value}
      (hbody : Describes haversineDist inverse (recorded haversineDist l₁)
        (recorded haversineDist l₂) (recorded haversineDist l₃) (Later haversineDist reports l₂)
        t.object.rangeM t.stationID nowUs body) :
      ∀ nowUs' body', Sign.posted nowUs' body' ∈ [Sign.posted nowUs body] →
        Told haversineDist inverse optsPtr reports t.stationID nowUs' body' := by
    intro nowUs' body' hmem
    simp only [List.mem_singleton, Sign.posted.injEq] at hmem
    obtain ⟨rfl, rfl⟩ := hmem
    exact ⟨opts, l₁, l₂, l₃, hopts, h₁, h₂, h₃, hrange ▸ hbody⟩
  have hsilent : ∀ nowUs body, Sign.posted nowUs body ∈ ([] : List Sign) →
      Told haversineDist inverse optsPtr reports t.stationID nowUs body :=
    fun _ _ hmem => by cases hmem
  cases moves_act h with
  | timed nowUs hphase => exact ⟨trivial, hsilent⟩
  | located hphase hfound =>
    obtain ⟨r₁, hr₁, rfl⟩ := record_of_lookup hdb hequipped.below hfound
    exact ⟨⟨reports, r₁, List.prefix_rfl, hr₁, rfl⟩, hsilent⟩
  | unknown hphase hnone =>
    exact ⟨trivial, hposted List.prefix_rfl List.prefix_rfl List.prefix_rfl
      (describes_unknown inverse _ _ _ (none_of_lookup hdb hequipped.below hnone))⟩
  | selected hphase =>
    rw [Reads, hphase] at hreads
    obtain ⟨l₁, r₁, h₁, hr₁, rfl⟩ := hreads
    obtain ⟨hall, hheld⟩ := holds_of_scan hdb t.object.rangeM r₁.latest.lat r₁.latest.lon
    exact ⟨⟨l₁, reports, r₁, h₁, List.prefix_rfl, hr₁, hall, hheld⟩, hsilent⟩
  | referred hphase hfound =>
    rw [Reads, hphase] at hreads
    obtain ⟨l₁, l₂, r₁, h₁, h₂, hr₁, hall, hheld⟩ := hreads
    obtain ⟨r₃, hr₃, rfl⟩ := record_of_lookup hdb hequipped.below hfound
    exact ⟨⟨l₁, l₂, reports, r₁, r₃, h₁, h₂, List.prefix_rfl, hr₁, hr₃, rfl, hall,
      fun _ he => (List.not_mem_nil he).elim, hheld⟩, hsilent⟩
  | vanished hphase hnone =>
    rw [Reads, hphase] at hreads
    obtain ⟨l₁, l₂, r₁, h₁, h₂, hr₁, -⟩ := hreads
    exact ⟨trivial, hposted h₁ h₂ List.prefix_rfl
      (describes_vanished inverse _ _ _ hr₁ (none_of_lookup hdb hequipped.below hnone) _)⟩
  | made hphase =>
    rw [Reads, hphase] at hreads
    obtain ⟨l₁, l₂, l₃, r₁, r₃, h₁, h₂, h₃, hr₁, hr₃, hrefveh, hall, hmade, hheld⟩ := hreads
    obtain ⟨hfirst, hrest⟩ := List.forall_mem_cons.mp hheld
    refine ⟨⟨l₁, l₂, l₃, r₁, r₃, h₁, h₂, h₃, hr₁, hr₃, hrefveh, by simpa using hall, ?_, hrest⟩,
      hsilent⟩
    exact List.forall_mem_append.mpr ⟨hmade, List.forall_mem_singleton.mpr hfirst.vehdata⟩
  | posted hphase =>
    rw [Reads, hphase] at hreads
    obtain ⟨l₁, l₂, l₃, r₁, r₃, h₁, h₂, h₃, hr₁, hr₃, rfl, hall, hmade, -⟩ := hreads
    exact ⟨trivial, hposted h₁ h₂ h₃
      (describes_surroundings inverse _ _ _ hr₁ hr₃ (by simpa using hall) hmade)⟩
  | answered outcome hphase =>
    refine ⟨?_, fun _ _ hmem => by simp at hmem⟩
    by_cases hgo : (turn t.jsonResponse outcome).2 = .goOn <;> simp [Reads, hgo]

end Reads

/-! ## The invariant -/

/-- The station was seen with a turn indicator on. -/
def Signalled (leftIndicatorEnabled : Bool) (reports : List Report) (id : UInt64) : Prop :=
  ∃ v junk lights, Report.stored v junk ∈ reports ∧ v.stationID = id ∧
    v.exteriorLights = some lights ∧ turnSignalOn leftIndicatorEnabled lights = true

section Invariant

variable {haversineDist inverse : Distance} {settings : Settings} {nullText : String}
  {optsPtr : Option RestOptions} {left : Bool}

/-- The threads are those of the sessions, one for a station at most, and
hold states the database went through. -/
structure Tended (haversineDist inverse : Distance) (optsPtr : Option RestOptions) (left : Bool)
    (s : Platform) : Prop where
  recorded : Recorded haversineDist s.service
  pointer : s.service.world.trigger.manager.optsPtr = optsPtr
  enabled : s.service.world.trigger.manager.leftIndicatorEnabled = left
  sessions : s.threads.map Thread.object = s.service.world.trigger.sessions
  nodup : (s.threads.map Thread.stationID).Nodup
  listed : ∀ t ∈ s.threads, t.stationID ∈ s.service.world.trigger.manager.alreadyTriggered
  equipped : ∀ t ∈ s.threads, Equipped optsPtr t
  reads : ∀ t ∈ s.threads, Reads haversineDist s.service.reports t
  told : ∀ id nowUs body, (id, Sign.posted nowUs body) ∈ s.signs →
    Told haversineDist inverse optsPtr s.service.reports id nowUs body
  signalled : ∀ id, (id, Sign.started) ∈ s.signs → Signalled left s.service.reports id

theorem tended_initial (rxBuff : List UInt8) :
    Tended haversineDist inverse optsPtr left (Platform.initial optsPtr left rxBuff) where
  recorded := recorded_initial optsPtr left rxBuff
  pointer := rfl
  enabled := rfl
  sessions := rfl
  nodup := List.nodup_nil
  listed := fun _ h => by cases h
  equipped := fun _ h => by cases h
  reads := fun _ h => by cases h
  told := fun _ _ _ h => by cases h
  signalled := fun _ h => by cases h

/-- A request leaves the database and the log alone. -/
theorem Tended.serve {s : Platform} (h : Tended haversineDist inverse optsPtr left s)
    {service : Service} (hworld : service.world = s.service.world)
    (hreports : service.reports = s.service.reports) :
    Tended haversineDist inverse optsPtr left { s with service } := by
  obtain ⟨world, rxBuff, reports, sent⟩ := service
  obtain rfl : world = s.service.world := hworld
  obtain rfl : reports = s.service.reports := hreports
  exact ⟨h.recorded, h.pointer, h.enabled, h.sessions, h.nodup, h.listed, h.equipped, h.reads,
    h.told, h.signalled⟩

/-- The threads while the writers of the database add to the log. -/
theorem Tended.followed {s : Platform} (h : Tended haversineDist inverse optsPtr left s)
    {service : Service} {ext : List Report} (hext : ext.length ≤ 1)
    (hreports : service.reports = s.service.reports ++ ext)
    (hrecorded : Recorded haversineDist service) :
    ∀ t ∈ s.threads.map (Thread.follow service.world.db),
      Equipped optsPtr t ∧ Reads haversineDist service.reports t ∧
        t.stationID ∈ s.service.world.trigger.manager.alreadyTriggered := by
  have hdb : Related haversineDist service.world.db
      (System.recorded haversineDist (s.service.reports ++ ext)) := hreports ▸ hrecorded
  intro u hu
  obtain ⟨t, ht, rfl⟩ := List.mem_map.mp hu
  have hequipped := h.equipped t ht
  refine ⟨⟨hequipped.below, hequipped.range, hequipped.notify⟩, ?_, h.listed t ht⟩
  rw [hreports]
  exact (h.reads t ht).follow hext hdb

/-- What the writers do to the log is seen by no one. -/
theorem Tended.signs_write {s : Platform} (h : Tended haversineDist inverse optsPtr left s)
    {reports : List Report} (hle : s.service.reports <+: reports) :
    (∀ id nowUs body, (id, Sign.posted nowUs body) ∈ s.signs →
      Told haversineDist inverse optsPtr reports id nowUs body) ∧
    ∀ id, (id, Sign.started) ∈ s.signs → Signalled left reports id := by
  refine ⟨fun id nowUs body hmem => (h.told id nowUs body hmem).mono hle, fun id hmem => ?_⟩
  obtain ⟨v, junk, lights, hv, hrest⟩ := h.signalled id hmem
  exact ⟨v, junk, lights, hle.subset hv, hrest⟩

/-- The writers go on while no thread does anything. -/
theorem Tended.write {s : Platform} (h : Tended haversineDist inverse optsPtr left s)
    {service : Service} {ext : List Report} (hext : ext.length ≤ 1)
    (hreports : service.reports = s.service.reports ++ ext)
    (hrecorded : Recorded haversineDist service)
    (hpointer : service.world.trigger.manager.optsPtr = s.service.world.trigger.manager.optsPtr)
    (henabled : service.world.trigger.manager.leftIndicatorEnabled =
      s.service.world.trigger.manager.leftIndicatorEnabled)
    (hsessions : service.world.trigger.sessions = s.service.world.trigger.sessions)
    (hlisted : s.service.world.trigger.manager.alreadyTriggered ⊆
      service.world.trigger.manager.alreadyTriggered) :
    Tended haversineDist inverse optsPtr left
      { s with service, threads := s.threads.map (Thread.follow service.world.db) } := by
  have hall := h.followed hext hreports hrecorded
  obtain ⟨htold, hsignalled⟩ := h.signs_write (hreports ▸ List.prefix_append _ _)
  refine ⟨hrecorded, hpointer.trans h.pointer, henabled.trans h.enabled, ?_, ?_,
    fun t ht => hlisted (hall t ht).2.2, fun t ht => (hall t ht).1, fun t ht => (hall t ht).2.1,
    htold, hsignalled⟩
  · rw [List.map_map]
    exact h.sessions.trans hsessions.symm
  · rw [List.map_map]
    exact h.nodup

/-- A session the service has added gets a thread. -/
theorem Tended.start {s : Platform} (h : Tended haversineDist inverse optsPtr left s)
    {service : Service} {object : RestClient} {ext : List Report} (hext : ext.length ≤ 1)
    (hreports : service.reports = s.service.reports ++ ext)
    (hrecorded : Recorded haversineDist service)
    (hpointer : service.world.trigger.manager.optsPtr = s.service.world.trigger.manager.optsPtr)
    (henabled : service.world.trigger.manager.leftIndicatorEnabled =
      s.service.world.trigger.manager.leftIndicatorEnabled)
    (hsessions : service.world.trigger.sessions = s.service.world.trigger.sessions ++ [object])
    (hfresh : object.refVehStationID ∉ s.threads.map Thread.stationID)
    (hlisted : s.service.world.trigger.manager.alreadyTriggered ⊆
      service.world.trigger.manager.alreadyTriggered)
    (hin : object.refVehStationID ∈ service.world.trigger.manager.alreadyTriggered)
    (hequipped : Equipped optsPtr (Thread.new nullText object))
    (hsignalled : Signalled left service.reports object.refVehStationID) :
    Tended haversineDist inverse optsPtr left
      { service
        threads := s.threads.map (Thread.follow service.world.db) ++ [Thread.new nullText object]
        signs := s.signs ++ [(object.refVehStationID, .started)] } := by
  have hfollowed := h.followed hext hreports hrecorded
  obtain ⟨htold, hsignalled'⟩ := h.signs_write (hreports ▸ List.prefix_append _ _)
  have hall {P : Thread → Prop}
      (hold : ∀ t ∈ s.threads.map (Thread.follow service.world.db), P t)
      (hnew : P (Thread.new nullText object)) :
      ∀ t ∈ s.threads.map (Thread.follow service.world.db) ++ [Thread.new nullText object], P t :=
    List.forall_mem_append.mpr ⟨hold, List.forall_mem_singleton.mpr hnew⟩
  refine ⟨hrecorded, hpointer.trans h.pointer, henabled.trans h.enabled, ?_, ?_,
    hall (fun t ht => hlisted (hfollowed t ht).2.2) hin, hall (fun t ht => (hfollowed t ht).1)
    hequipped, hall (fun t ht => (hfollowed t ht).2.1) trivial, ?_, ?_⟩
  · rw [hsessions, ← h.sessions, List.map_append, List.map_map]
    rfl
  · rw [List.map_append, List.map_map]
    exact h.nodup.append (List.nodup_singleton _) (List.disjoint_singleton.mpr hfresh)
  · intro id nowUs body hmem
    rcases List.mem_append.mp hmem with hmem | hmem
    · exact htold id nowUs body hmem
    · simp at hmem
  · intro id hmem
    rcases List.mem_append.mp hmem with hmem | hmem
    · exact hsignalled' id hmem
    · simp only [List.mem_singleton, Prod.mk.injEq, and_true] at hmem
      rw [hmem]
      exact hsignalled

/-- What a message does to the log and the sessions. -/
theorem trigger_message {s s' : Service} {client : AMQPClient} {env : Env} {m : CamMessage}
    (hs : s.step haversineDist settings (.write (.message client env m)) = some s') :
    (∃ ext, ext.length ≤ 1 ∧ s'.reports = s.reports ++ ext) ∧
      (s'.world.trigger = s.world.trigger ∨
        ∃ v lights, Report.stored v env.junk ∈ s'.reports ∧ v.stationID = m.stationID ∧
          v.exteriorLights = some lights ∧
          Triggered s.world.trigger m.stationID lights s'.world.trigger) := by
  cases hs
  refine ⟨⟨_, length_reportOf settings _ _, rfl⟩, ?_⟩
  cases hacc : accepts settings.options client s.world.db m with
  | false =>
    rw [onMessage_of_not_accepts hacc]
    exact Or.inl rfl
  | true =>
    have hcheck := triggered_triggerCheck settings.options client env
      (vehicleData settings.options env s.world.db m) s.world.trigger
    rcases hcheck with hsame | ⟨lights, hlights, hcheck⟩
    · exact Or.inl (by rw [onMessage, if_pos hacc]; exact hsame)
    · refine Or.inr ⟨vehicleData settings.options env s.world.db m, lights, ?_, rfl, hlights, ?_⟩
      · simp [reportOf, hacc]
      · rw [onMessage, if_pos hacc]
        exact hcheck

/-- A message, in terms of what it does to the threads: nothing, or a new
one for the station it is about. -/
theorem message_cases {s s' : Platform} (h : Tended haversineDist inverse optsPtr left s)
    {client : AMQPClient} {env : Env} {m : CamMessage}
    (hs : s.step haversineDist inverse settings nullText (.message client env m) = some s') :
    Tended haversineDist inverse optsPtr left s' ∧
      (s.service.world.trigger.manager.alreadyTriggered ⊆
        s'.service.world.trigger.manager.alreadyTriggered) ∧
      ((s'.threads = s.threads.map (Thread.follow s'.service.world.db) ∧ s'.signs = s.signs) ∨
        ∃ object, object.refVehStationID = m.stationID ∧
          m.stationID ∉ s.threads.map Thread.stationID ∧
          s'.threads = s.threads.map (Thread.follow s'.service.world.db) ++
            [Thread.new nullText object] ∧
          s'.signs = s.signs ++ [(m.stationID, .started)]) := by
  have hlen : s.threads.length = s.service.world.trigger.sessions.length := by
    rw [← h.sessions, List.length_map]
  simp only [Platform.step, Option.map_eq_some_iff] at hs
  obtain ⟨service, hservice, rfl⟩ := hs
  have hrecorded : Recorded haversineDist service := recorded_step _ _ _ h.recorded hservice
  obtain ⟨⟨ext, hext, hreports⟩, htrigger⟩ := trigger_message hservice
  have hquiet (hsessions : service.world.trigger.sessions = s.service.world.trigger.sessions) :
      service.world.trigger.sessions.drop s.threads.length = [] := by
    rw [hsessions, hlen, List.drop_length]
  obtain ⟨⟨db, trigger⟩, rxBuff, reports, sent⟩ := service
  rcases htrigger with hsame | ⟨v, lights, hv, hid, hlights, htriggered⟩
  · obtain rfl : trigger = s.service.world.trigger := hsame
    simp only [hquiet rfl, List.map_nil, List.append_nil]
    exact ⟨h.write hext hreports hrecorded rfl rfl rfl (List.Subset.refl _), List.Subset.refl _,
      Or.inl ⟨trivial, trivial⟩⟩
  · cases htriggered with
    | unchanged =>
      simp only [hquiet rfl, List.map_nil, List.append_nil]
      exact ⟨h.write hext hreports hrecorded rfl rfl rfl (List.Subset.refl _),
        List.Subset.refl _, Or.inl ⟨trivial, trivial⟩⟩
    | listed hnew =>
      simp only [hquiet rfl, List.map_nil, List.append_nil]
      exact ⟨h.write hext hreports hrecorded rfl rfl rfl (List.subset_append_left _ _),
        List.subset_append_left _ _, Or.inl ⟨trivial, trivial⟩⟩
    | started hnew hsignal opts hopts object hobject hrange hnotify =>
      have hadded : (s.service.world.trigger.sessions ++ [object]).drop s.threads.length =
          [object] := by
        rw [hlen, List.drop_left]
      have hfresh : m.stationID ∉ s.threads.map Thread.stationID := by
        intro hmem
        obtain ⟨t, ht, hst⟩ := List.mem_map.mp hmem
        exact hnew (hst ▸ h.listed t ht)
      have hbelow : object.refVehStationID < 0x100000000 := by
        rw [hobject]
        exact stationID_lt m
      have hequipped : Equipped optsPtr (Thread.new nullText object) :=
        ⟨hbelow, ⟨opts, h.pointer.symm.trans hopts, hrange⟩, hnotify⟩
      have hstart : Tended haversineDist inverse optsPtr left _ :=
        h.start hext hreports hrecorded rfl rfl rfl (by rwa [hobject]) (List.subset_append_left _ _)
          (by simp [hobject]) hequipped
          ⟨v, env.junk, lights, hv, hid.trans hobject.symm, hlights, by rwa [← h.enabled]⟩
      simp only [hadded, List.map_cons, List.map_nil]
      exact ⟨hstart, List.subset_append_left _ _,
        Or.inr ⟨object, hobject, hfresh, rfl, by rw [hobject]⟩⟩

/-- A move of a thread. -/
theorem tended_act {s s' : Platform} (h : Tended haversineDist inverse optsPtr left s) {i : ℕ}
    {action : Action}
    (hs : s.step haversineDist inverse settings nullText (.act i action) = some s') :
    Tended haversineDist inverse optsPtr left s' := by
  simp only [Platform.step, Option.bind_eq_some_iff, Option.map_eq_some_iff] at hs
  obtain ⟨t, hi, ⟨t', signs⟩, hact, rfl⟩ := hs
  have ht : t ∈ s.threads := List.mem_of_getElem? hi
  have hobject : t'.object = t.object := object_act hact
  have hid : t'.stationID = t.stationID := congrArg RestClient.refVehStationID hobject
  obtain ⟨hreads, htold⟩ := reads_act h.recorded (h.equipped t ht) (h.reads t ht) hact
  have hall {P : Thread → Prop} (hold : ∀ u ∈ s.threads, P u) (hnew : P t') :
      ∀ u ∈ s.threads.set i t', P u := by
    intro u hu
    rcases List.mem_or_eq_of_mem_set hu with hu | rfl
    · exact hold u hu
    · exact hnew
  have hmap {γ : Type} (f : Thread → γ) (hf : f t' = f t) :
      (s.threads.set i t').map f = s.threads.map f := by
    obtain ⟨hlt, hget⟩ := List.getElem?_eq_some_iff.mp hi
    rw [List.map_set, hf, ← List.map_set, ← hget, List.set_getElem_self]
  refine ⟨h.recorded, h.pointer, h.enabled, (hmap _ hobject).trans h.sessions, ?_,
    hall h.listed (by rw [hid]; exact h.listed t ht), hall h.equipped ?_, hall h.reads hreads,
    ?_, ?_⟩
  · rw [hmap _ hid]
    exact h.nodup
  · have hequipped := h.equipped t ht
    exact ⟨hid ▸ hequipped.below, hobject ▸ hequipped.range, hobject ▸ hequipped.notify⟩
  · intro id nowUs body hmem
    rcases List.mem_append.mp hmem with hmem | hmem
    · exact h.told id nowUs body hmem
    · obtain ⟨sign, hsign, heq⟩ := List.mem_map.mp hmem
      cases heq
      exact htold nowUs body hsign
  · intro id hmem
    rcases List.mem_append.mp hmem with hmem | hmem
    · exact h.signalled id hmem
    · obtain ⟨sign, hsign, heq⟩ := List.mem_map.mp hmem
      cases heq
      exact absurd hsign (started_act hact)

/-- The end of a thread. -/
theorem tended_finish {s s' : Platform} (h : Tended haversineDist inverse optsPtr left s) {i : ℕ}
    (hs : s.step haversineDist inverse settings nullText (.finish i) = some s') :
    ∃ t, s.threads[i]? = some t ∧ t.phase = .leaving ∧
      s'.threads = s.threads.eraseIdx i ∧ s'.signs = s.signs ++ [(t.stationID, .finished)] ∧
      Tended haversineDist inverse optsPtr left s' := by
  simp only [Platform.step, Option.bind_eq_some_iff] at hs
  obtain ⟨t, hi, hs⟩ := hs
  cases hphase : t.phase with
  | leaving =>
    simp only [hphase, Option.map_eq_some_iff] at hs
    obtain ⟨service, hservice, rfl⟩ := hs
    have hrecorded : Recorded haversineDist service := recorded_step _ _ _ h.recorded hservice
    refine ⟨t, hi, hphase, rfl, rfl, ?_⟩
    have ht : t ∈ s.threads := List.mem_of_getElem? hi
    obtain ⟨world, hworld, rfl⟩ := Option.map_eq_some_iff.mp hservice
    obtain ⟨trigger, htrigger, rfl⟩ := Option.map_eq_some_iff.mp hworld
    simp only [System.step, (h.equipped t ht).notify, if_true] at htrigger
    split at htrigger
    · cases htrigger
      have hmem {u : Thread} (hu : u ∈ s.threads.eraseIdx i) : u ∈ s.threads :=
        List.mem_of_mem_eraseIdx hu
      refine ⟨hrecorded, h.pointer, h.enabled, ?_, ?_, fun u hu => ?_,
        fun u hu => h.equipped u (hmem hu), fun u hu => ?_, ?_, ?_⟩
      · have hobjects : (s.threads.map Thread.object).Nodup := by
          refine List.Nodup.of_map RestClient.refVehStationID ?_
          rw [List.map_map]
          exact h.nodup
        rw [KeyedList.map_eraseIdx Thread.object hobjects hi, h.sessions]
      · exact h.nodup.sublist ((List.eraseIdx_sublist _ _).map _)
      · have hne : u.stationID ≠ t.stationID :=
          KeyedList.key_ne_of_mem_eraseIdx Thread.stationID h.nodup hi hu
        exact List.mem_filter.mpr ⟨h.listed u (hmem hu), bne_iff_ne.mpr hne⟩
      · rw [reportOf, List.append_nil]
        exact h.reads u (hmem hu)
      · intro id nowUs body hsign
        refine (h.told id nowUs body ?_).mono (List.prefix_append _ _)
        simpa using hsign
      · intro id hsign
        obtain ⟨v, junk, lights, hv, hrest⟩ := h.signalled id (by simpa using hsign)
        exact ⟨v, junk, lights, List.mem_append_left _ hv, hrest⟩
    · cases htrigger
  | _ => simp [hphase] at hs

/-- Whatever happens, the threads stay tended. -/
theorem tended_step (s : Platform) (ev : Platform.Event) (s' : Platform)
    (h : Tended haversineDist inverse optsPtr left s)
    (hs : s.step haversineDist inverse settings nullText ev = some s') :
    Tended haversineDist inverse optsPtr left s' := by
  cases ev with
  | message client env m => exact (message_cases h hs).1
  | collect time now =>
    simp only [Platform.step, Option.map_eq_some_iff] at hs
    obtain ⟨service, hservice, rfl⟩ := hs
    have hrecorded : Recorded haversineDist service := recorded_step _ _ _ h.recorded hservice
    cases hservice
    exact h.write (length_reportOf settings _ _) rfl hrecorded rfl rfl rfl (List.Subset.refl _)
  | request nowUs e =>
    simp only [Platform.step, Option.map_eq_some_iff] at hs
    obtain ⟨service, hservice, rfl⟩ := hs
    cases hservice
    exact h.serve rfl rfl
  | act i action => exact tended_act h hs
  | finish i =>
    obtain ⟨t, -, -, -, -, htended⟩ := tended_finish h hs
    exact htended

end Invariant

/-! ## The sessions of a station -/

/-- What has been seen of the threads about a station. -/
def seen (signs : List (UInt64 × Sign)) (id : UInt64) : List Sign :=
  (signs.filter fun sign => sign.1 == id).map Prod.snd

theorem mem_seen {signs : List (UInt64 × Sign)} {id : UInt64} {sign : Sign} :
    sign ∈ seen signs id ↔ (id, sign) ∈ signs := by
  simp [seen]

/-- How far the thread about a station is. -/
def progressOf (threads : List Thread) (id : UInt64) : Progress :=
  ((threads.find? fun t => t.stationID == id).map fun t => t.phase.progress).getD .idle

theorem seen_append (signs : List (UInt64 × Sign)) (id id' : UInt64) (new : List Sign) :
    seen (signs ++ new.map fun sign => (id, sign)) id' =
      seen signs id' ++ if id = id' then new else [] := by
  by_cases h : id = id'
  · simp [seen, h, List.filter_map, Function.comp_def]
  · simp [seen, h, List.filter_map, Function.comp_def]

/-- Every station's signs are those of a sequence of sessions, the last of
which is the one of its thread. -/
structure Orderly (s : Platform) : Prop where
  fresh : ∀ t ∈ s.threads, t.Fresh
  sessions : ∀ id, run Progress.next .idle (seen s.signs id) = some (progressOf s.threads id)

theorem orderly_initial (optsPtr : Option RestOptions) (left : Bool) (rxBuff : List UInt8) :
    Orderly (Platform.initial optsPtr left rxBuff) :=
  ⟨fun _ h => (List.not_mem_nil h).elim, fun _ => rfl⟩

/-- Signs about one station that take its session from where it was to
where its thread is now. -/
theorem Orderly.advance {s s' : Platform} (h : Orderly s) (id : UInt64) (new : List Sign)
    (hfresh : ∀ t ∈ s'.threads, t.Fresh)
    (hsigns : s'.signs = s.signs ++ new.map fun sign => (id, sign))
    (hnew : run Progress.next (progressOf s.threads id) new = some (progressOf s'.threads id))
    (hother : ∀ id', id ≠ id' → progressOf s'.threads id' = progressOf s.threads id') :
    Orderly s' := by
  refine ⟨hfresh, fun id' => ?_⟩
  rw [hsigns, seen_append, run_append, h.sessions id']
  by_cases hid : id = id'
  · subst hid
    rw [if_pos rfl]
    exact hnew
  · rw [if_neg hid, hother id' hid]
    rfl

section Sessions

variable {haversineDist inverse : Distance} {settings : Settings} {nullText : String}
  {optsPtr : Option RestOptions} {left : Bool}

theorem progressOf_of_mem {threads : List Thread} (hl : (threads.map Thread.stationID).Nodup)
    {t : Thread} (ht : t ∈ threads) : progressOf threads t.stationID = t.phase.progress := by
  rw [progressOf, KeyedList.find?_of_mem Thread.stationID hl ht]
  rfl

theorem progressOf_of_not_mem {threads : List Thread} {id : UInt64}
    (hid : id ∉ threads.map Thread.stationID) : progressOf threads id = .idle := by
  have hnone : threads.find? (fun t => t.stationID == id) = none := by
    rw [List.find?_eq_none]
    exact fun t ht h => hid (beq_iff_eq.mp h ▸ List.mem_map_of_mem ht)
  rw [progressOf, hnone]
  rfl

/-- Nothing of a session is seen while others change the database. -/
theorem progressOf_follow (db : LDMMap) (threads : List Thread) (id : UInt64) :
    progressOf (threads.map (Thread.follow db)) id = progressOf threads id := by
  have hfind : (threads.map (Thread.follow db)).find? (fun t => t.stationID == id) =
      (threads.find? fun t => t.stationID == id).map (Thread.follow db) := List.find?_map ..
  rw [progressOf, hfind, Option.map_map, progressOf]
  congr 2
  funext t
  exact Phase.progress_follow db t.phase

theorem Orderly.follow {s : Platform} (h : Orderly s) (service : Service) :
    Orderly { s with service, threads := s.threads.map (Thread.follow service.world.db) } where
  fresh := by
    intro u hu
    obtain ⟨t, ht, rfl⟩ := List.mem_map.mp hu
    exact fresh_follow (h.fresh t ht) service.world.db
  sessions := fun id => by rw [progressOf_follow]; exact h.sessions id

theorem orderly_step (hnull : failedToConnect nullText = false) (s : Platform)
    (ev : Platform.Event) (s' : Platform)
    (h : Tended haversineDist inverse optsPtr left s ∧ Orderly s)
    (hs : s.step haversineDist inverse settings nullText ev = some s') :
    Tended haversineDist inverse optsPtr left s' ∧ Orderly s' := by
  refine ⟨tended_step s ev s' h.1 hs, ?_⟩
  obtain ⟨htended, horderly⟩ := h
  cases ev with
  | message client env m =>
    obtain ⟨-, -, ⟨hthreads, hsigns⟩ | ⟨object, hobject, hfresh, hthreads, hsigns⟩⟩ :=
      message_cases htended hs
    · have hfollow := horderly.follow s'.service
      exact ⟨hthreads ▸ hfollow.fresh, by rw [hthreads, hsigns]; exact hfollow.sessions⟩
    · have hfollow := horderly.follow s'.service
      have hid : (Thread.new nullText object).stationID = m.stationID := hobject
      have hsame : (s.threads.map (Thread.follow s'.service.world.db)).map Thread.stationID =
          s.threads.map Thread.stationID := List.map_map ..
      have hnew : (Thread.new nullText object).stationID ∉
          (s.threads.map (Thread.follow s'.service.world.db)).map Thread.stationID := by
        rwa [hid, hsame]
      have hfind (id : UInt64) := KeyedList.find?_append_new Thread.stationID hnew id
      refine hfollow.advance m.stationID [.started] ?_ hsigns ?_ fun id hne => ?_
      · rw [hthreads]
        exact List.forall_mem_append.mpr
          ⟨hfollow.fresh, List.forall_mem_singleton.mpr (fresh_new hnull object)⟩
      · rw [progressOf_of_not_mem (by rwa [hsame]), hthreads, progressOf, hfind, if_pos hid]
        rfl
      · rw [hthreads, progressOf, hfind, if_neg (hid ▸ hne)]
        rfl
  | collect time now =>
    simp only [Platform.step, Option.map_eq_some_iff] at hs
    obtain ⟨service, -, rfl⟩ := hs
    have hfollow := horderly.follow service
    exact ⟨hfollow.fresh, hfollow.sessions⟩
  | request nowUs e =>
    simp only [Platform.step, Option.map_eq_some_iff] at hs
    obtain ⟨service, -, rfl⟩ := hs
    exact ⟨horderly.fresh, horderly.sessions⟩
  | act i action =>
    simp only [Platform.step, Option.bind_eq_some_iff, Option.map_eq_some_iff] at hs
    obtain ⟨t, hi, ⟨t', signs⟩, hact, rfl⟩ := hs
    have ht : t ∈ s.threads := List.mem_of_getElem? hi
    obtain ⟨hprogress, hfresh⟩ := progress_act (horderly.fresh t ht) hact
    have hkey : t'.stationID = t.stationID := congrArg RestClient.refVehStationID (object_act hact)
    have hfind (id : UInt64) := KeyedList.find?_set Thread.stationID htended.nodup hi hkey id
    refine horderly.advance t.stationID signs ?_ rfl ?_ fun id hid => ?_
    · intro u hu
      rcases List.mem_or_eq_of_mem_set hu with hu | rfl
      · exact horderly.fresh u hu
      · exact hfresh
    · rw [progressOf_of_mem htended.nodup ht, hprogress, progressOf, hfind, if_pos rfl]
      rfl
    · rw [progressOf, hfind, if_neg hid]
      rfl
  | finish i =>
    obtain ⟨t, hi, hphase, hthreads, hsigns, -⟩ := tended_finish htended hs
    have hfind (id : UInt64) := KeyedList.find?_eraseIdx Thread.stationID htended.nodup hi id
    refine horderly.advance t.stationID [.finished] ?_ hsigns ?_ fun id hid => ?_
    · rw [hthreads]
      exact fun u hu => horderly.fresh u (List.mem_of_mem_eraseIdx hu)
    · rw [progressOf_of_mem htended.nodup (List.mem_of_getElem? hi), hphase, hthreads, progressOf,
        hfind, if_pos rfl]
      rfl
    · rw [hthreads, progressOf, hfind, if_neg hid]
      rfl

end Sessions

/-! ## Runs -/

/-- Whatever happens in whatever order: there is one thread at most for a
station, and its station is listed as triggered; what is seen about a
station is a sequence of whole sessions and the one its thread is in; and
no station has a session that was not seen with a turn indicator on. -/
theorem sessions_run (haversineDist inverse : Distance) (settings : Settings) {nullText : String}
    (hnull : failedToConnect nullText = false) (optsPtr : Option RestOptions) (left : Bool)
    (rxBuff : List UInt8) (events : List Platform.Event) :
    AllStates (Platform.step haversineDist inverse settings nullText)
      (fun s => (s.threads.map Thread.stationID).Nodup ∧ ∀ id,
        run Progress.next .idle (seen s.signs id) = some (progressOf s.threads id) ∧
        (progressOf s.threads id ≠ .idle →
          id ∈ s.service.world.trigger.manager.alreadyTriggered) ∧
        (Sign.started ∈ seen s.signs id → Signalled left s.service.reports id))
      (Platform.initial optsPtr left rxBuff) events := by
  have hall : AllStates (Platform.step haversineDist inverse settings nullText)
      (fun s => Tended haversineDist inverse optsPtr left s ∧ Orderly s)
      (Platform.initial optsPtr left rxBuff) events :=
    allStates_of_invariant (orderly_step hnull)
      ⟨tended_initial rxBuff, orderly_initial optsPtr left rxBuff⟩ events
  refine hall.mono fun s h => ⟨h.1.nodup, fun id => ⟨h.2.sessions id, ?_, fun hmem => ?_⟩⟩
  · intro hbusy
    have hid : id ∈ s.threads.map Thread.stationID := by
      by_contra hno
      exact hbusy (progressOf_of_not_mem hno)
    obtain ⟨t, ht, rfl⟩ := List.mem_map.mp hid
    exact h.1.listed t ht
  · exact h.1.signalled id (mem_seen.mp hmem)

/-- The right turn signal of station 5, a session about it and its end. -/
def indicatorSession : List Platform.Event :=
  [ .message ⟨"", true⟩ ⟨20, 30, ⟨0, fun _ => default⟩, ⟨true, true, 0⟩⟩
      { (default : CamMessage) with
        gnTimestamp := some 10
        cam := { (default : Cam) with
          stationID := 5, lowFrequencyContainer := some ⟨some 0x10⟩ } },
    .act 0 (.timer 40), .act 0 .read, .act 0 .read, .act 0 .read, .act 0 .read, .act 0 .read,
    .act 0 (.answer (.answer statusOK ⟨.ok "STOP".toList, .ok 50, .ok 40⟩)), .finish 0 ]

/-- The run with the library's text for a null value. -/
theorem sessions_run_indicatorSession :
    AllStates (Platform.step (fun _ _ _ _ => 0) (fun _ _ _ _ => 0)
        ⟨{ (default : Client.Options) with crossBorderTrigger := true }, 100⟩ "not a string")
      (fun s => (s.threads.map Thread.stationID).Nodup ∧ ∀ id,
        run Progress.next .idle (seen s.signs id) = some (progressOf s.threads id) ∧
        (progressOf s.threads id ≠ .idle →
          id ∈ s.service.world.trigger.manager.alreadyTriggered) ∧
        (Sign.started ∈ seen s.signs id → Signalled false s.service.reports id))
      (Platform.initial (some default) false []) indicatorSession :=
  sessions_run _ _ _ (by decide) _ _ _ _

end SLDM.System
