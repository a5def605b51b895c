/-
SLDM.System.Service — the database between its writers and the on-demand
JSON server.

The steps of `SLDM.Client.MessageRuns` (messages of any AMQP client,
garbage collection, ends of trigger sessions) and the requests received by
the JSON server, one after the other in any order. `reports` logs what the
handlers have stored and what the garbage collector was told; the map it
describes, `recorded`, is computed from the log alone.

`service_run` is about every run: the database is that map at every step,
and what is sent for a request is a text that the parser reads back as the
stations of that map which are in range.
-/
import SLDM.Client.MessageRuns
import SLDM.Json.ReplyTheorems

namespace SLDM.System

open Store Client Json Json11 NumberText Runs

/-! ## The log -/

/-- What happened to the database. -/
inductive Report where
  | stored (v : VehicleData) (junk : Junk)
  | collected (timeMilliseconds : ℚ) (now : UInt64)

/-- What a report does to the map. -/
def after (haversineDist : Distance) (a : StationMap) : Report → StationMap
  | .stored v junk => a.insert v junk
  | .collected time now => a.discard (StationMap.old haversineDist time now)

/-- The map a log describes. -/
def recorded (haversineDist : Distance) (reports : List Report) : StationMap :=
  reports.foldl (after haversineDist) StationMap.empty

theorem recorded_append (haversineDist : Distance) (reports : List Report) (report : Report) :
    recorded haversineDist (reports ++ [report]) =
      after haversineDist (recorded haversineDist reports) report := by
  simp [recorded]

/-! ## The service -/

/-- `sent` are the replies sent so far, with the descriptors. -/
structure Service where
  world : World
  rxBuff : List UInt8
  reports : List Report
  sent : List (ℕ × Text)

/-- A step of the writers, or a request that is received at a time. -/
inductive Event where
  | write (l : Client.Step)
  | request (nowUs : UInt64) (e : Receive)

/-- The options of the clients and of the server. -/
structure Settings where
  options : Client.Options
  rangeM : ℚ

section

variable (haversineDist : Distance) (settings : Settings)

/-- What a step of the writers adds to the log. -/
def reportOf (db : LDMMap) : Client.Step → List Report
  | .message client env m =>
    if accepts settings.options client db m then
      [.stored (vehicleData settings.options env db m) env.junk]
    else []
  | .collect time now => [.collected time now]
  | .terminate _ => []

/-- One step. -/
def Service.step (s : Service) : Event → Option Service
  | .write l =>
    (s.world.step haversineDist settings.options l).map fun world =>
      { s with world, reports := s.reports ++ reportOf settings s.world.db l }
  | .request nowUs e =>
    some { s with
      rxBuff := fillBuff s.rxBuff e.bytes
      sent := s.sent ++ ((serve haversineDist s.world.db settings.rangeM nowUs s.rxBuff e).map
        fun reply => (e.currd, reply)).toList }

/-- An empty database, an empty log and nothing sent. -/
def Service.initial (optsPtr : Option Trigger.RestOptions) (leftIndicatorEnabled : Bool)
    (rxBuff : List UInt8) : Service :=
  ⟨initialWorld optsPtr leftIndicatorEnabled, rxBuff, [], []⟩

end

/-! ## The database is what the log says -/

/-- A step of the writers adds at most one report. -/
theorem length_reportOf (settings : Settings) (db : LDMMap) (l : Client.Step) :
    (reportOf settings db l).length ≤ 1 := by
  cases l with
  | message client env m =>
    rw [reportOf]
    split
    · exact Nat.le_refl 1
    · exact Nat.zero_le 1
  | collect time now => exact Nat.le_refl 1
  | terminate session => exact Nat.zero_le 1

section Recorded

variable {haversineDist : Distance} {settings : Settings}

/-- The invariant of every run. -/
def Recorded (haversineDist : Distance) (s : Service) : Prop :=
  Related haversineDist s.world.db (recorded haversineDist s.reports)

theorem recorded_step (s : Service) (ev : Event) (s' : Service)
    (h : Recorded haversineDist s) (hs : s.step haversineDist settings ev = some s') :
    Recorded haversineDist s' := by
  cases ev with
  | write l =>
    obtain ⟨world, hworld, rfl⟩ := Option.map_eq_some_iff.mp hs
    cases l with
    | message client env m =>
      cases hworld
      unfold Recorded
      simp only [reportOf]
      cases hacc : accepts settings.options client s.world.db m with
      | false =>
        rw [onMessage_of_not_accepts hacc, if_neg (by decide), List.append_nil]
        exact h
      | true =>
        rw [onMessage_db_of_accepts hacc, if_pos rfl, recorded_append]
        exact (Related.insert h env.junk (stationID_lt m)).2
    | collect time now =>
      cases hworld
      unfold Recorded
      rw [reportOf, recorded_append]
      exact Related.sweep h (LDMMap.isOld now time) (fun _ args => args) ()
    | terminate session =>
      obtain ⟨trigger, -, rfl⟩ := Option.map_eq_some_iff.mp hworld
      unfold Recorded
      rw [reportOf, List.append_nil]
      exact h
  | request nowUs e =>
    cases hs
    exact h

theorem recorded_initial (optsPtr : Option Trigger.RestOptions) (left : Bool)
    (rxBuff : List UInt8) : Recorded haversineDist (Service.initial optsPtr left rxBuff) :=
  related_new

end Recorded

/-! ## What the service does -/

/-- A step does what the service is for. Stored data are logged and
nothing is sent for them; a request leaves the database alone and, if it
is a JSON text, is answered with the stations the log tells to be in
range. -/
def Serves (haversineDist : Distance) (settings : Settings) (s : Service) : Event → Prop
  | .write l => ∀ s', s.step haversineDist settings (.write l) = some s' →
      s'.sent = s.sent ∧ s'.reports = s.reports ++ reportOf settings s.world.db l
  | .request nowUs e => ∃ s', s.step haversineDist settings (.request nowUs e) = some s' ∧
      s'.world = s.world ∧ s'.reports = s.reports ∧
      ((∃ request, JsonText (chars (rxStr s.rxBuff e)) request ∧ ∃ text reply,
          s'.sent = s.sent ++ [(e.currd, text)] ∧ Json.parse text = some (reply, []) ∧
          ShowsReply haversineDist (recorded haversineDist s.reports) nowUs
            (getNum request "lat") (getNum request "lon")
            (rangeUsed settings.rangeM (getNum request "range")) reply) ∨
        ((∀ request, ¬ JsonText (chars (rxStr s.rxBuff e)) request) ∧ s'.sent = s.sent))

theorem serves_of_recorded (haversineDist : Distance) (settings : Settings) (s : Service)
    (ev : Event) (h : Recorded haversineDist s) : Serves haversineDist settings s ev := by
  cases ev with
  | write l =>
    intro s' hs
    obtain ⟨world, -, rfl⟩ := Option.map_eq_some_iff.mp hs
    exact ⟨rfl, rfl⟩
  | request nowUs e =>
    refine ⟨_, rfl, rfl, rfl, ?_⟩
    by_cases hjson : ∃ request, JsonText (chars (rxStr s.rxBuff e)) request
    · obtain ⟨request, hrequest⟩ := hjson
      obtain ⟨text, reply, hanswer, hparse, hshows⟩ :=
        answer_of_jsonText settings.rangeM nowUs h hrequest
      refine Or.inl ⟨request, hrequest, text, reply, ?_, hparse, hshows⟩
      rw [serve, hanswer]
      rfl
    · have hno := not_exists.mp hjson
      refine Or.inr ⟨hno, ?_⟩
      rw [serve, answer_of_not_jsonText settings.rangeM nowUs hno]
      exact List.append_nil _

/-- Whatever the order of messages, collections, ends of sessions and
requests: the database is what the log says in every state, and every step
does what the service is for. -/
theorem service_run (haversineDist : Distance) (settings : Settings)
    (optsPtr : Option Trigger.RestOptions) (left : Bool) (rxBuff : List UInt8)
    (events : List Event) :
    AllStates (Service.step haversineDist settings) (Recorded haversineDist)
        (Service.initial optsPtr left rxBuff) events ∧
      AllSteps (Service.step haversineDist settings) (Serves haversineDist settings)
        (Service.initial optsPtr left rxBuff) events := by
  have hall : AllStates (Service.step haversineDist settings) (Recorded haversineDist)
      (Service.initial optsPtr left rxBuff) events :=
    allStates_of_invariant recorded_step (recorded_initial optsPtr left rxBuff) events
  refine ⟨hall, fun pre ev post s heq hrun => ?_⟩
  exact serves_of_recorded haversineDist settings s ev
    (hall pre (ev :: post) s heq hrun)

end SLDM.System
