/-
SLDM.Rest.Thread — `RESTthread_callback`, the thread of a trigger session.

A turn of its loop sends one request and looks at what the HTTP library
makes of the answer. `jsonResponse` is the variable `json_response`, which
lives longer than a turn: it is assigned only when the status is OK, so
after any other status the fields of an earlier answer are read again. The
accessors of `web::json::value` throw, with a text of the library, when a
field is missing or of another kind. `turn_snd` says what that comes to:
whether the thread goes on depends on the outcome of the turn alone
(`Outcome.ending`), because an earlier answer that is read again has not
ended the thread before.

`Thread.act` cuts the callback where other threads can come between: the
timer, the three reads of the database, the loop over the path history of
each vehicle in turn, and the answer. The second read leaves pointers to
histories that the database goes on with; `Thread.follow` is what other
threads' changes of the database do to what they lead to. A loop over one
history is a step, as a change of the database is.

`Progress` is what an observer at the Maneuvering Service can tell of a
station. `progress_act` says that the thread never does anything else.

The printed values are left out, but for the accessors they go through.
-/
import SLDM.Rest.RequestBody
import SLDM.Trigger.TriggerManager
import SLDM.Lib.Runs
import Mathlib.Data.List.Infix

namespace SLDM.Rest

open NumberText Store Trigger Runs

/-! ## Answers -/

/-- The fields of an answer the thread reads, each a value or the text of
the exception its accessor throws. -/
structure Response where
  rspType : Except String Text
  rspTime : Except String UInt64
  postTime : Except String UInt64

/-- The null value `json_response` starts with. -/
def Response.null (what : String) : Response := ⟨.error what, .error what, .error what⟩

/-- `web::http::status_codes::OK`. -/
def statusOK : ℕ := 200

/-- What the library reports for a request: an exception out of the
request, its continuation or the extraction of the JSON text, or an answer
with its status. -/
inductive Outcome where
  | exception (what : String)
  | answer (statusCode : ℕ) (json : Response)

/-- How a turn ends. -/
inductive Ending where
  | goOn
  | stop
  | disconnected
  deriving DecidableEq, Repr

/-! ## A turn -/

/-- `strstr(excpt.what(),"Failed to connect") != NULL`. -/
def failedToConnect (what : String) : Bool := "Failed to connect".toList <:+: what.toList

/-- The `catch` block. -/
def caught (what : String) : Ending := if failedToConnect what then .disconnected else .goOn

/-- The accesses of the `try` block and the comparison with `STOP`. -/
def isStop (jsonResponse : Response) : Except String Bool := do
  let rspType ← jsonResponse.rspType
  let _ ← jsonResponse.rspTime
  let _ ← jsonResponse.postTime
  return rspType = "STOP".toList

/-- How a turn with this value of `json_response` ends. -/
def Response.ending (jsonResponse : Response) : Ending :=
  match isStop jsonResponse with
  | .ok stop => if stop then .stop else .goOn
  | .error what => caught what

/-- The `try` and `catch` blocks of a turn. -/
def turn (jsonResponse : Response) : Outcome → Response × Ending
  | .exception what => (jsonResponse, caught what)
  | .answer statusCode json =>
    let jsonResponse := if statusCode = statusOK then json else jsonResponse
    (jsonResponse, jsonResponse.ending)

/-! ## What ends the loop -/

/-- What an outcome says by itself. -/
def Outcome.ending : Outcome → Ending
  | .exception what => caught what
  | .answer statusCode json => if statusCode = statusOK then json.ending else .goOn

/-- A value of `json_response` a turn can start with. -/
def Kept (jsonResponse : Response) : Prop := jsonResponse.ending = .goOn

/-- The value the loop starts with is such a one, unless the library's text
for it speaks of a failed connection. -/
theorem kept_null {what : String} (h : failedToConnect what = false) :
    Kept (Response.null what) := by
  show caught what = .goOn
  rw [caught, h, if_neg (by decide)]

/-- Whether the thread goes on depends on the outcome of the turn alone. -/
theorem turn_snd {jsonResponse : Response} (h : Kept jsonResponse) (outcome : Outcome) :
    (turn jsonResponse outcome).2 = outcome.ending := by
  cases outcome with
  | exception what => rfl
  | answer statusCode json =>
    simp only [turn, Outcome.ending]
    by_cases hok : statusCode = statusOK
    · rw [if_pos hok, if_pos hok]
    · rw [if_neg hok, if_neg hok]
      exact h

theorem kept_turn {jsonResponse : Response} (h : Kept jsonResponse) {outcome : Outcome}
    (hgo : outcome.ending = .goOn) : Kept (turn jsonResponse outcome).1 := by
  cases outcome with
  | exception what => exact h
  | answer statusCode json =>
    have hsnd := turn_snd h (.answer statusCode json)
    rw [hgo] at hsnd
    exact hsnd

/-! ## The thread -/

/-- A vehicle the second read has returned. `phData` is what its pointer
leads to by now; `attached` says that the database still has that object. -/
structure Held where
  vehdata : ReturnedVehicleData
  attached : Bool

/-- As it is returned. -/
def Held.of (vehdata : ReturnedVehicleData) : Held := ⟨vehdata, true⟩

/-- After a change of the database: an object the database still has is as
it is there; one whose entry was erased is not deleted and stays as it was,
and an entry made for the station later has an object of its own. -/
def Held.follow (db : LDMMap) (held : Held) : Held :=
  if held.attached then
    match db.entry held.vehdata.vehData.stationID with
    | some e => { held with vehdata := { held.vehdata with phData := e.phData } }
    | none => { held with attached := false }
  else held

/-- Where the thread stands, with what `make_SLDM_json` has read. -/
inductive Phase where
  | polling
  | locating (nowUs : UInt64)
  | selecting (nowUs : UInt64) (retData : ReturnedVehicleData)
  | referring (nowUs : UInt64) (returnedvehs : List Held)
  /-- In the loop: the vehicles behind it, with the histories it found. -/
  | making (nowUs : UInt64) (refveh : ReturnedVehicleData) (made : List ReturnedVehicleData)
      (rest : List Held)
  | waiting
  | leaving

/-- What other threads' changes of the database do to what is held. -/
def Phase.follow (db : LDMMap) : Phase → Phase
  | .referring nowUs returnedvehs => .referring nowUs (returnedvehs.map (Held.follow db))
  | .making nowUs refveh made rest => .making nowUs refveh made (rest.map (Held.follow db))
  | phase => phase

/-- The thread of a REST client object. -/
structure Thread where
  object : RestClient
  phase : Phase
  jsonResponse : Response

/-- The station the thread is about. -/
def Thread.stationID (t : Thread) : UInt64 := t.object.refVehStationID

/-- The thread while other threads change the database. -/
def Thread.follow (db : LDMMap) (t : Thread) : Thread := { t with phase := t.phase.follow db }

@[simp] theorem Thread.follow_object (db : LDMMap) (t : Thread) :
    (t.follow db).object = t.object := rfl

@[simp] theorem Thread.follow_stationID (db : LDMMap) (t : Thread) :
    (t.follow db).stationID = t.stationID := rfl

/-- The thread at its start; `nullText` is what the accessors of a null
value throw. -/
def Thread.new (nullText : String) (object : RestClient) : Thread :=
  ⟨object, .polling, Response.null nullText⟩

/-- What makes a thread move on. -/
inductive Action where
  | timer (nowUs : UInt64)
  | read
  | answer (outcome : Outcome)

/-- What can be seen of a thread. -/
inductive Sign where
  | started
  | posted (nowUs : UInt64) (body : Value)
  | answered (outcome : Outcome)
  | finished

/-- The request is sent. -/
def Thread.post (inverse : Distance) (t : Thread) (nowUs : UInt64)
    (selected : LDMMapError × List ReturnedVehicleData)
    (reference : LDMMapError × Option ReturnedVehicleData) : Thread × List Sign :=
  ({ t with phase := .waiting },
    [.posted nowUs (makeSLDMJson inverse selected reference t.object.refVehStationID nowUs 0)])

/-- A move of a thread, with the database as it finds it. The first two
reads are the lookup and the scan of `rangeSelect`, which returns
`LDMMAP_OK` when the lookup does. -/
def Thread.act (haversineDist inverse : Distance) (db : LDMMap) (t : Thread) :
    Action → Option (Thread × List Sign)
  | .timer nowUs =>
    match t.phase with
    | .polling => some ({ t with phase := .locating nowUs }, [])
    | _ => none
  | .read =>
    match t.phase with
    | .locating nowUs =>
      match db.lookup t.object.refVehStationID with
      | (.ok, some retData) => some ({ t with phase := .selecting nowUs retData }, [])
      | _ => some (t.post inverse nowUs (.itemNotFound, []) (.itemNotFound, none))
    | .selecting nowUs retData =>
      let selected := db.rangeSelect haversineDist t.object.rangeM retData.vehData.lat
        retData.vehData.lon []
      some ({ t with phase := .referring nowUs (selected.2.map Held.of) }, [])
    | .referring nowUs returnedvehs =>
      match db.lookup t.object.refVehStationID with
      | (.ok, some refveh) => some ({ t with phase := .making nowUs refveh [] returnedvehs }, [])
      | _ => some (t.post inverse nowUs (.ok, returnedvehs.map Held.vehdata) (.itemNotFound, none))
    | .making nowUs refveh made rest =>
      match rest with
      | held :: rest =>
        some ({ t with phase := .making nowUs refveh (made ++ [held.vehdata]) rest }, [])
      | [] => some (t.post inverse nowUs (.ok, made) (.ok, some refveh))
    | _ => none
  | .answer outcome =>
    match t.phase with
    | .waiting =>
      let (jsonResponse, ending) := turn t.jsonResponse outcome
      let phase := if ending = .goOn then .polling else .leaving
      some ({ t with phase, jsonResponse }, [.answered outcome])
    | _ => none

/-! ## What a thread does -/

/-- What an observer knows of a station. -/
inductive Progress where
  | idle
  | ready
  | asked
  | over
  deriving DecidableEq, Repr

/-- A session: requests and answers in turn, to the first answer that ends
it. -/
def Progress.next : Progress → Sign → Option Progress
  | .idle, .started => some .ready
  | .ready, .posted _ _ => some .asked
  | .asked, .answered outcome => some (if outcome.ending = .goOn then .ready else .over)
  | .over, .finished => some .idle
  | _, _ => none

/-- What can be told of a thread from its phase. -/
def Phase.progress : Phase → Progress
  | .waiting => .asked
  | .leaving => .over
  | _ => .ready

/-- A thread that has not left its loop has seen no answer that ends it. -/
def Thread.Fresh (t : Thread) : Prop :=
  match t.phase with
  | .leaving => True
  | _ => Kept t.jsonResponse

theorem fresh_new {nullText : String} (h : failedToConnect nullText = false)
    (object : RestClient) : (Thread.new nullText object).Fresh := kept_null h

section Act

variable (haversineDist inverse : Distance) (db : LDMMap) (t : Thread)

/-- Everything a move can be. -/
inductive Thread.Moves : Thread × List Sign → Prop
  | timed (nowUs : UInt64) (hphase : t.phase = .polling) :
    Moves ({ t with phase := .locating nowUs }, [])
  | located {nowUs : UInt64} {retData : ReturnedVehicleData} (hphase : t.phase = .locating nowUs)
    (hfound : db.lookup t.stationID = (.ok, some retData)) :
    Moves ({ t with phase := .selecting nowUs retData }, [])
  | unknown {nowUs : UInt64} (hphase : t.phase = .locating nowUs)
    (hnone : ∀ e, db.lookup t.stationID ≠ (.ok, some e)) :
    Moves (t.post inverse nowUs (.itemNotFound, []) (.itemNotFound, none))
  | selected {nowUs : UInt64} {retData : ReturnedVehicleData}
    (hphase : t.phase = .selecting nowUs retData) :
    Moves ({ t with phase := .referring nowUs ((db.rangeSelect haversineDist t.object.rangeM
      retData.vehData.lat retData.vehData.lon []).2.map Held.of) }, [])
  | referred {nowUs : UInt64} {returnedvehs : List Held} {refveh : ReturnedVehicleData}
    (hphase : t.phase = .referring nowUs returnedvehs)
    (hfound : db.lookup t.stationID = (.ok, some refveh)) :
    Moves ({ t with phase := .making nowUs refveh [] returnedvehs }, [])
  | vanished {nowUs : UInt64} {returnedvehs : List Held}
    (hphase : t.phase = .referring nowUs returnedvehs)
    (hnone : ∀ e, db.lookup t.stationID ≠ (.ok, some e)) :
    Moves (t.post inverse nowUs (.ok, returnedvehs.map Held.vehdata) (.itemNotFound, none))
  | made {nowUs : UInt64} {refveh : ReturnedVehicleData} {made : List ReturnedVehicleData}
    {held : Held} {rest : List Held} (hphase : t.phase = .making nowUs refveh made (held :: rest)) :
    Moves ({ t with phase := .making nowUs refveh (made ++ [held.vehdata]) rest }, [])
  | posted {nowUs : UInt64} {refveh : ReturnedVehicleData} {made : List ReturnedVehicleData}
    (hphase : t.phase = .making nowUs refveh made []) :
    Moves (t.post inverse nowUs (.ok, made) (.ok, some refveh))
  | answered (outcome : Outcome) (hphase : t.phase = .waiting) :
    Moves ({ t with
      phase := if (turn t.jsonResponse outcome).2 = .goOn then .polling else .leaving
      jsonResponse := (turn t.jsonResponse outcome).1 }, [.answered outcome])

variable {haversineDist inverse db t} {action : Action} {out : Thread × List Sign}

theorem moves_act (h : t.act haversineDist inverse db action = some out) :
    t.Moves haversineDist inverse db out := by
  obtain ⟨object, phase, jsonResponse⟩ := t
  cases action with
  | timer nowUs =>
    cases phase with
    | polling => cases h; exact .timed nowUs rfl
    | _ => cases h
  | read =>
    cases phase with
    | locating nowUs =>
      simp only [Thread.act] at h
      split at h
      · rename_i retData hfound
        cases h
        exact .located rfl hfound
      · rename_i hnone
        cases h
        exact .unknown rfl fun e he => hnone e he
    | selecting nowUs retData => cases h; exact .selected rfl
    | referring nowUs returnedvehs =>
      simp only [Thread.act] at h
      split at h
      · rename_i refveh hfound
        cases h
        exact .referred rfl hfound
      · rename_i hnone
        cases h
        exact .vanished rfl fun e he => hnone e he
    | making nowUs refveh made rest =>
      cases rest with
      | cons held rest => cases h; exact .made rfl
      | nil => cases h; exact .posted rfl
    | _ => cases h
  | answer outcome =>
    cases phase with
    | waiting => cases h; exact .answered outcome rfl
    | _ => cases h

/-- A move does not change what the thread is about. -/
theorem object_act (h : t.act haversineDist inverse db action = some out) :
    out.1.object = t.object := by
  cases moves_act h <;> rfl

/-- No move is the start of a session. -/
theorem started_act (h : t.act haversineDist inverse db action = some out) :
    Sign.started ∉ out.2 := by
  cases moves_act h <;> simp [Thread.post]

/-- What is seen of a move is a step of the session. -/
theorem progress_act (hfresh : t.Fresh) (h : t.act haversineDist inverse db action = some out) :
    run Progress.next t.phase.progress out.2 = some out.1.phase.progress ∧ out.1.Fresh := by
  have hkept (hphase : t.phase ≠ .leaving) : Kept t.jsonResponse := by
    unfold Thread.Fresh at hfresh
    split at hfresh
    · rename_i hleaving
      exact absurd hleaving hphase
    · exact hfresh
  cases moves_act h with
  | answered outcome hphase =>
    have hkept := hkept (by rw [hphase]; simp)
    rw [hphase]
    by_cases hgo : outcome.ending = .goOn
    · simp [Progress.next, Phase.progress, Thread.Fresh, run_cons, turn_snd hkept, hgo,
        kept_turn hkept hgo]
    · simp [Progress.next, Phase.progress, Thread.Fresh, run_cons, turn_snd hkept, hgo]
  | timed _ hphase | located hphase _ | unknown hphase _ | selected hphase | referred hphase _
  | vanished hphase _ | made hphase | posted hphase =>
    have hkept := hkept (by rw [hphase]; simp)
    rw [hphase]
    exact ⟨rfl, hkept⟩

/-- Nothing of a session is seen while others change the database. -/
@[simp] theorem Phase.progress_follow (db : LDMMap) (phase : Phase) :
    (phase.follow db).progress = phase.progress := by
  cases phase <;> rfl

theorem fresh_follow {t : Thread} (h : t.Fresh) (db : LDMMap) : (t.follow db).Fresh := by
  obtain ⟨object, phase, jsonResponse⟩ := t
  cases phase <;> exact h

end Act

end SLDM.Rest
