/-
SLDM.Trigger.Sessions — trigger sessions as a system of interleaved
steps.

The state is the trigger manager and the REST threads that have been
started and have not notified their termination yet. One step is a whole
`checkAndTrigger` (of any AMQP client thread, for any station) or the end
of one running session, which calls `notifyOpTermination`.

`Consistent` says what `m_already_triggered` is for: no duplicates, and a
station is in it exactly when one session is running for it. A step
breaks it in one way only: the object was allocated, the station was
listed, and `pthread_create` then failed. `consistent_iff_threadStarts`
says that a run stays consistent exactly when that never happens.
-/
import SLDM.Trigger.TriggerManager
import SLDM.Lib.Runs
import Mathlib.Data.List.Nodup

namespace SLDM.Trigger

open Runs

/-! ## The system -/

/-- The trigger manager and the sessions in progress. -/
structure System where
  manager : IndicatorTriggerManager
  sessions : List RestClient
  deriving DecidableEq, Inhabited, Repr

/-- The steps of the system. -/
inductive Step where
  | checkAndTrigger (stationID : UInt64) (exteriorLights : UInt8) (outcome : StartOutcome)
  | terminate (session : RestClient)
  deriving DecidableEq, Repr

/-- A `checkAndTrigger` and the session it may start. -/
def System.checkAndTrigger (s : System) (stationID : UInt64) (exteriorLights : UInt8)
    (outcome : StartOutcome) : System :=
  let (_, manager, started) := s.manager.checkAndTrigger stationID exteriorLights outcome
  { manager, sessions := s.sessions ++ started.toList }

/-- One step. The last lines of `RESTthread_callback` call the notify
function when one is bound. -/
def System.step (s : System) : Step → Option System
  | .checkAndTrigger stationID exteriorLights outcome =>
    some (s.checkAndTrigger stationID exteriorLights outcome)
  | .terminate session =>
    if session ∈ s.sessions then
      some { manager := if session.notifyFcn then
                          s.manager.notifyOpTermination session.refVehStationID
                        else s.manager,
             sessions := s.sessions.erase session }
    else none

/-- The system after start-up: nothing triggered, no session running. -/
def initialSystem (dbPtr : Bool) (optsPtr : Option RestOptions) (leftIndicatorEnabled : Bool) :
    System :=
  { manager := { dbPtr, optsPtr, leftIndicatorEnabled }, sessions := [] }

/-- How many sessions run for a station. -/
def System.running (s : System) (stationID : UInt64) : ℕ :=
  (s.sessions.map RestClient.refVehStationID).count stationID

/-- The list of triggered stations mirrors the running sessions. -/
structure Consistent (s : System) : Prop where
  nodup : s.manager.alreadyTriggered.Nodup
  mem_iff : ∀ id, id ∈ s.manager.alreadyTriggered ↔ s.running id = 1
  atMostOne : ∀ id, s.running id ≤ 1

/-- The step reaches `startRESTthread`. -/
def System.startsThread (s : System) : Step → Prop
  | .checkAndTrigger stationID exteriorLights outcome =>
    s.manager.dbPtr ∧ s.manager.optsPtr.isSome ∧
      turnSignalOn s.manager.leftIndicatorEnabled exteriorLights ∧
      stationID ∉ s.manager.alreadyTriggered ∧ outcome.allocated
  | .terminate _ => False

/-- `pthread_create` succeeds if the step calls it. -/
def ThreadStarts (s : System) : Step → Prop
  | .checkAndTrigger stationID exteriorLights outcome =>
    s.startsThread (.checkAndTrigger stationID exteriorLights outcome) → outcome.pthreadCreate
  | .terminate _ => True

/-! ## What a step can do -/

/-- The three ways a `checkAndTrigger` can end. -/
theorem step_checkAndTrigger_cases (s : System) (id : UInt64) (lights : UInt8)
    (outcome : StartOutcome) :
    (¬ s.startsThread (.checkAndTrigger id lights outcome) ∧
      s.step (.checkAndTrigger id lights outcome) = some s) ∨
    (s.startsThread (.checkAndTrigger id lights outcome) ∧ outcome.pthreadCreate = false ∧
      s.step (.checkAndTrigger id lights outcome) =
        some { s with manager := { s.manager with
          alreadyTriggered := s.manager.alreadyTriggered ++ [id] } }) ∨
    (s.startsThread (.checkAndTrigger id lights outcome) ∧ outcome.pthreadCreate = true ∧
      ∃ session : RestClient, session.refVehStationID = id ∧ session.notifyFcn = true ∧
        s.step (.checkAndTrigger id lights outcome) =
          some { manager := { s.manager with
                   alreadyTriggered := s.manager.alreadyTriggered ++ [id] },
                 sessions := s.sessions ++ [session] }) := by
  obtain ⟨⟨dbPtr, optsPtr, left, triggered⟩, sessions⟩ := s
  simp only [System.step, System.checkAndTrigger, System.startsThread,
    IndicatorTriggerManager.checkAndTrigger]
  cases dbPtr with
  | false => simp
  | true =>
    cases optsPtr with
    | none => simp
    | some opts =>
      by_cases hlights : turnSignalOn left lights
      · by_cases hmem : id ∈ triggered
        · simp [hmem]
        · rcases outcome with ⟨allocated, create, tid⟩
          cases allocated <;> cases create <;>
            simp [hlights, hmem, RestClient.startRESTthread]
      · simp [hlights]

/-- A session that ends leaves one session fewer for its station. -/
theorem running_erase {s : System} {session : RestClient} (h : session ∈ s.sessions)
    (manager : IndicatorTriggerManager) (id : UInt64) :
    s.running id = ({ manager, sessions := s.sessions.erase session } : System).running id
      + if session.refVehStationID = id then 1 else 0 := by
  have hperm := (List.perm_cons_erase h).map RestClient.refVehStationID
  rw [System.running, hperm.count_eq, List.map_cons, List.count_cons]
  simp [System.running]

/-- A session that starts adds one session for its station. -/
theorem running_append (s : System) (session : RestClient)
    (manager : IndicatorTriggerManager) (id : UInt64) :
    ({ manager, sessions := s.sessions ++ [session] } : System).running id
      = s.running id + if session.refVehStationID = id then 1 else 0 := by
  simp [System.running, List.count_append, List.count_singleton]

/-! ## Invariants -/

/-- Every running session will notify its termination. -/
def AllNotify (s : System) : Prop := ∀ session ∈ s.sessions, session.notifyFcn = true

theorem step_allNotify (s : System) (l : Step) (s' : System) (hI : AllNotify s)
    (hs : s.step l = some s') : AllNotify s' := by
  cases l with
  | checkAndTrigger id lights outcome =>
    rcases step_checkAndTrigger_cases s id lights outcome with
      ⟨-, heq⟩ | ⟨-, -, heq⟩ | ⟨-, -, session, -, hnotify, heq⟩
    all_goals rw [heq] at hs; cases hs
    · exact hI
    · exact hI
    · intro c hc
      rcases List.mem_append.mp hc with hc | hc
      · exact hI c hc
      · rw [List.mem_singleton.mp hc]; exact hnotify
  | terminate session =>
    simp only [System.step] at hs
    split at hs
    · cases hs
      exact fun c hc => hI c (List.mem_of_mem_erase hc)
    · cases hs

/-- A step whose thread starts keeps the list and the sessions in line. -/
theorem step_consistent (s : System) (l : Step) (s' : System)
    (hI : Consistent s ∧ AllNotify s) (hC : ThreadStarts s l) (hs : s.step l = some s') :
    Consistent s' ∧ AllNotify s' := by
  refine ⟨?_, step_allNotify s l s' hI.2 hs⟩
  obtain ⟨⟨hnodup, hmem, hone⟩, hnotify⟩ := hI
  cases l with
  | checkAndTrigger id lights outcome =>
    rcases step_checkAndTrigger_cases s id lights outcome with
      ⟨-, heq⟩ | ⟨hstarts, hfail, -⟩ | ⟨hstarts, -, session, hid, -, heq⟩
    · rw [heq] at hs; cases hs
      exact ⟨hnodup, hmem, hone⟩
    · have hcreate : outcome.pthreadCreate = true := hC hstarts
      rw [hfail] at hcreate
      cases hcreate
    · rw [heq] at hs; cases hs
      have hnew : id ∉ s.manager.alreadyTriggered := hstarts.2.2.2.1
      have hzero : s.running id = 0 := by
        have hne : s.running id ≠ 1 := fun h => hnew ((hmem id).mpr h)
        have hle := hone id
        omega
      refine ⟨List.Nodup.append hnodup (List.nodup_singleton id) (by simpa using hnew),
        fun id' => ?_, fun id' => ?_⟩
      · rw [running_append, hid, List.mem_append, List.mem_singleton, hmem id']
        by_cases h : id = id'
        · subst h; simp [hzero]
        · simp [h, Ne.symm h]
      · rw [running_append, hid]
        by_cases h : id = id'
        · subst h; simp [hzero]
        · simpa [h] using hone id'
  | terminate session =>
    simp only [System.step] at hs
    split at hs
    · rename_i hsession
      cases hs
      have hrun := running_erase hsession
        (if session.notifyFcn then s.manager.notifyOpTermination session.refVehStationID
          else s.manager)
      rw [if_pos (hnotify session hsession)] at hrun ⊢
      refine ⟨hnodup.filter _, fun id => ?_, fun id => ?_⟩
      · have hle := hone id
        have heq := hrun id
        simp only [IndicatorTriggerManager.notifyOpTermination, List.mem_filter, hmem id,
          bne_iff_ne, ne_eq]
        by_cases h : session.refVehStationID = id
        · simp only [h, if_true] at heq ⊢
          simp only [not_true_eq_false, and_false, false_iff]
          simp only [IndicatorTriggerManager.notifyOpTermination] at heq
          omega
        · simp only [h, if_false, Nat.add_zero] at heq
          rw [heq]
          simp [Ne.symm h, IndicatorTriggerManager.notifyOpTermination]
      · have hle := hone id
        have heq := hrun id
        omega
    · cases hs

/-- A thread that does not start leaves its station listed without a
session. -/
theorem step_not_consistent (s : System) (l : Step) (hI : Consistent s)
    (hC : ¬ ThreadStarts s l) : ∃ s', s.step l = some s' ∧ ¬ Consistent s' := by
  cases l with
  | checkAndTrigger id lights outcome =>
    simp only [ThreadStarts, Classical.not_imp] at hC
    obtain ⟨hstarts, hcreate⟩ := hC
    rcases step_checkAndTrigger_cases s id lights outcome with
      ⟨hno, -⟩ | ⟨-, -, heq⟩ | ⟨-, hok, -⟩
    · exact absurd hstarts hno
    · refine ⟨_, heq, fun hcons => ?_⟩
      have hnew : id ∉ s.manager.alreadyTriggered := hstarts.2.2.2.1
      have hone : s.running id = 1 := (hcons.mem_iff id).mp (by simp)
      exact hnew ((hI.mem_iff id).mpr hone)
    · exact absurd hok hcreate
  | terminate _ => exact absurd trivial hC

theorem initialSystem_consistent (dbPtr : Bool) (optsPtr : Option RestOptions) (left : Bool) :
    Consistent (initialSystem dbPtr optsPtr left) :=
  ⟨List.nodup_nil, fun id => by simp [initialSystem, System.running],
    fun id => by simp [initialSystem, System.running]⟩

/-! ## Runs -/

/-- A run keeps `m_already_triggered` in line with the running sessions
in every state exactly when every thread it tries to start is created. -/
theorem consistent_iff_threadStarts (dbPtr : Bool) (optsPtr : Option RestOptions)
    (left : Bool) (steps : List Step) :
    AllStates System.step Consistent (initialSystem dbPtr optsPtr left) steps ↔
      AllSteps System.step ThreadStarts (initialSystem dbPtr optsPtr left) steps := by
  have hnotify : AllNotify (initialSystem dbPtr optsPtr left) := fun _ h => by cases h
  have hall : AllStates System.step AllNotify (initialSystem dbPtr optsPtr left) steps :=
    allStates_of_invariant step_allNotify hnotify steps
  have hiff : AllStates System.step (fun s => Consistent s ∧ AllNotify s)
      (initialSystem dbPtr optsPtr left) steps ↔
      AllSteps System.step ThreadStarts (initialSystem dbPtr optsPtr left) steps :=
    allStates_iff_allSteps step_consistent (fun s l hI hC =>
      have ⟨s', hs, hbroken⟩ := step_not_consistent s l hI.1 hC
      ⟨s', hs, fun h => hbroken h.1⟩)
    ⟨initialSystem_consistent dbPtr optsPtr left, hnotify⟩
  exact ⟨fun h => hiff.mp (h.and hall), fun h => (hiff.mpr h).mono fun _ hI => hI.1⟩

/-- The right turn signal of station 5 seen while no thread can be
created. -/
def failedStart : Step :=
  .checkAndTrigger 5 0x10 { allocated := true, pthreadCreate := false, tid := 0 }

/-- After one failed start station 5 stays listed without a session. -/
theorem failedStart_not_consistent :
    ¬ AllStates System.step Consistent (initialSystem true (some default) false)
      [failedStart] := by
  intro hall
  have hcons := hall [failedStart] []
    { manager := { dbPtr := true, optsPtr := some default, alreadyTriggered := [5] },
      sessions := [] } rfl (by decide)
  exact absurd ((hcons.mem_iff 5).mp (by decide)) (by decide)

end SLDM.Trigger
