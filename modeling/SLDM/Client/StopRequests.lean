/-
SLDM.Client.StopRequests — `force_container_stop` against the life of an
AMQP client.

A client sets itself up, an additional one registers in `amqpclimap`, and
runs a container. `on_container_start` stores a pointer to the container in
`m_cont`. When the local idle timeout expires and a restart is asked for,
the client calls `force_container_stop` itself and starts over; any other
exception ends it.

Another thread stops the client through `force_container_stop`: it looks
whether `m_cont` is null, loads the pointer again and calls `stop`, and
sets the pointer to null. Each of these is one step. `stop` on a container
whose event loop is over, or on a null pointer, is undefined in C++; here
it does nothing.

The main client is stopped by additional clients that failed, an
additional client by the end of `main`, once, with `amqpclimutex` held.
-/
import SLDM.Lib.Runs

namespace SLDM.Client

open Runs

/-! ## The client and the calls -/

/-- Which client the requests are for. -/
inductive ClientKind where
  | main
  | additional
  deriving DecidableEq, Repr

/-- Where the client is: setting its options, before `run`, before
`on_container_start`, in its event loop, in the three steps of its own
`force_container_stop`, with an exception that ends it, or at its end. -/
inductive ClientPc where
  | setup
  | beforeRun
  | starting
  | running
  | ownCheck
  | ownStop
  | ownClear
  | failed
  | ended
  deriving DecidableEq, Repr

/-- Where a call of `force_container_stop` from outside is: before the
comparison with null, before `stop`, before the pointer is cleared, or
returned. -/
inductive CallPc where
  | check
  | stop
  | clear
  | returned
  deriving DecidableEq, Repr

/-- The call may still stop a container. -/
def CallPc.pending : CallPc → Bool
  | .check | .stop => true
  | .clear | .returned => false

/-- The client, the calls so far, and what they share. `container` counts
the containers the client has run; `mCont` is the one `m_cont` points to. -/
structure Stopping where
  client : ClientPc
  registered : Bool
  container : ℕ
  mCont : Option ℕ
  calls : List CallPc
  deriving DecidableEq, Repr

/-- The steps of the client, and those of the calls. `idleTimeout` says
which exception leaves `run`. -/
inductive StopStep where
  | setUp
  | run
  | containerStart
  | runReturns
  | exception (idleTimeout : Bool)
  | ownCheck
  | ownStop
  | ownClear
  | erase
  | call
  | callCheck (i : ℕ)
  | callStop (i : ℕ)
  | callClear (i : ℕ)
  deriving DecidableEq, Repr

namespace Stopping

/-! ## The steps -/

/-- `amqpclimutex` is free for the client: it is held during a call for an
additional one. -/
def mutexFree (kind : ClientKind) (s : Stopping) : Bool :=
  kind = .main || s.calls.all (· = .returned)

/-- A call can be made: `main` calls a registered client once. -/
def callable (kind : ClientKind) (s : Stopping) : Bool :=
  kind = .main || (s.registered && s.calls.isEmpty)

/-- One step. `restart` is whether the client is to be restarted after a
local idle timeout. -/
def step (kind : ClientKind) (restart : Bool) (s : Stopping) : StopStep → Option Stopping
  | .setUp =>
    if s.client = .setup && s.mutexFree kind then
      some { s with client := .beforeRun, registered := s.registered || kind = .additional }
    else none
  | .run =>
    if s.client = .beforeRun then some { s with client := .starting, container := s.container + 1 }
    else none
  | .containerStart =>
    if s.client = .starting then some { s with client := .running, mCont := some s.container }
    else none
  | .runReturns => if s.client = .running then some { s with client := .ended } else none
  | .exception idleTimeout =>
    if s.client = .running then
      if restart && idleTimeout then some { s with client := .ownCheck }
      else some { s with client := .failed }
    else none
  | .ownCheck =>
    if s.client = .ownCheck then
      if s.mCont = none then some { s with client := .setup }
      else some { s with client := .ownStop }
    else none
  -- the container is gone already
  | .ownStop => if s.client = .ownStop then some { s with client := .ownClear } else none
  | .ownClear =>
    if s.client = .ownClear then some { s with client := .setup, mCont := none } else none
  | .erase =>
    if s.client = .failed && s.mutexFree kind then
      some { s with client := .ended, registered := false }
    else none
  | .call => if s.callable kind then some { s with calls := s.calls ++ [.check] } else none
  | .callCheck i =>
    if s.calls[i]? = some .check then
      if s.mCont = none then some { s with calls := s.calls.set i .returned }
      else some { s with calls := s.calls.set i .stop }
    else none
  | .callStop i =>
    if s.calls[i]? = some .stop then
      if s.client = .running && s.mCont = some s.container then
        some { s with client := .ended, calls := s.calls.set i .clear }
      else some { s with calls := s.calls.set i .clear }
    else none
  | .callClear i =>
    if s.calls[i]? = some .clear then
      some { s with mCont := none, calls := s.calls.set i .returned }
    else none

/-- The client has been created. -/
def initial : Stopping := ⟨.setup, false, 0, none, []⟩

/-! ## What must hold -/

/-- The client's event loop is running or about to run. -/
def alive (s : Stopping) : Bool := s.client ≠ .failed && s.client ≠ .ended

/-- A call has been made, none can still stop a container, and the client
lives on. -/
def Lost (s : Stopping) : Prop :=
  s.calls ≠ [] ∧ s.calls.any CallPc.pending = false ∧ s.alive = true

/-- Another call than this one can still stop a container. -/
def otherPending (s : Stopping) (i : ℕ) : Bool := (s.calls.eraseIdx i).any CallPc.pending

/-- A call that has come to its comparison finds the pointer set, and one
that has come to its `stop` finds the container whose loop is running,
unless the client is over or another call can still stop it. -/
def Effective (s : Stopping) : StopStep → Prop
  | .callCheck i => s.calls[i]? = some .check →
    s.mCont ≠ none ∨ s.alive = false ∨ s.otherPending i = true
  | .callStop i => s.calls[i]? = some .stop →
    (s.client = .running ∧ s.mCont = some s.container) ∨ s.alive = false ∨
      s.otherPending i = true
  | _ => True

instance : DecidablePred Lost := fun _ => inferInstanceAs (Decidable (_ ∧ _ ∧ _))

/-! ## One step -/

theorem any_set {α : Type} (p : α → Bool) (x : α) : ∀ {l : List α} {i : ℕ} {y : α},
    l[i]? = some y → (l.set i x).any p = (p x || (l.eraseIdx i).any p)
  | z :: l, 0, y, _ => rfl
  | z :: l, i + 1, y, h => by
      have hrest := any_set p x (l := l) (i := i) (y := y) (by simpa using h)
      rw [List.set_cons_succ, List.eraseIdx_cons_succ, List.any_cons, List.any_cons, hrest,
        Bool.or_left_comm]

theorem any_eraseIdx {α : Type} (p : α → Bool) {l : List α} {i : ℕ} {y : α}
    (h : l[i]? = some y) : l.any p = (p y || (l.eraseIdx i).any p) := by
  have hset := any_set p y h
  obtain ⟨hi, rfl⟩ := List.getElem?_eq_some_iff.mp h
  rwa [List.set_getElem_self] at hset

variable {kind : ClientKind} {restart : Bool}

/-- A step of the client alone loses nothing. -/
theorem not_lost_of_client {s s' : Stopping} (h : ¬ s.Lost) (hcalls : s'.calls = s.calls)
    (halive : s'.alive = true → s.alive = true) : ¬ s'.Lost := by
  rintro ⟨hmade, hpending, halive'⟩
  rw [hcalls] at hmade hpending
  exact h ⟨hmade, hpending, halive halive'⟩

/-- What a call leaves behind decides when it has come to its end. -/
theorem lost_set_iff {s : Stopping} {i : ℕ} {c c' : CallPc} (h : s.calls[i]? = some c)
    (hc' : c'.pending = false) (client : ClientPc) (mCont : Option ℕ) :
    Lost { s with client, mCont, calls := s.calls.set i c' } ↔
      s.otherPending i = false ∧ client ≠ .failed ∧ client ≠ .ended := by
  have hne : s.calls.set i c' ≠ [] := by
    intro hnil
    rw [List.set_eq_nil_iff] at hnil
    rw [hnil] at h
    cases h
  have hany : (s.calls.set i c').any CallPc.pending = s.otherPending i := by
    rw [any_set CallPc.pending c' h, hc', Bool.false_or, otherPending]
  simp [Lost, hne, hany, alive]

/-- A call that can stop nothing any more, of a client that is over or that
another call can still stop. -/
theorem not_lost_set {s : Stopping} {i : ℕ} {c c' : CallPc} (h : s.calls[i]? = some c)
    (hc' : c'.pending = false) (hok : s.alive = false ∨ s.otherPending i = true)
    (mCont : Option ℕ) : ¬ Lost { s with mCont, calls := s.calls.set i c' } := by
  rw [lost_set_iff h hc']
  rintro ⟨hother, hlives⟩
  rcases hok with hover | hpending
  · simp [alive, hlives] at hover
  · rw [hother] at hpending
    cases hpending

/-- An effective step loses nothing. -/
theorem not_lost_step (s : Stopping) (l : StopStep) (s' : Stopping) (h : ¬ s.Lost)
    (hC : s.Effective l) (hs : s.step kind restart l = some s') : ¬ s'.Lost := by
  cases l with
  | setUp =>
    obtain ⟨hat, hs⟩ := Option.ite_none_right_eq_some.mp hs
    have hsetup : s.client = .setup := of_decide_eq_true (Bool.and_eq_true_iff.mp hat).1
    cases hs
    exact not_lost_of_client h rfl fun _ => by simp [alive, hsetup]
  | run | containerStart | runReturns | ownStop | ownClear =>
    obtain ⟨hat, hs⟩ := Option.ite_none_right_eq_some.mp hs
    cases hs
    exact not_lost_of_client h rfl fun _ => by simp [alive, hat]
  | exception idleTimeout | ownCheck =>
    obtain ⟨hat, hs⟩ := Option.ite_none_right_eq_some.mp hs
    split at hs <;> cases hs <;> exact not_lost_of_client h rfl fun _ => by simp [alive, hat]
  | erase =>
    obtain ⟨hat, hs⟩ := Option.ite_none_right_eq_some.mp hs
    cases hs
    exact not_lost_of_client h rfl fun halive => by simp [alive] at halive
  | call =>
    obtain ⟨-, hs⟩ := Option.ite_none_right_eq_some.mp hs
    cases hs
    simp [Lost, CallPc.pending]
  | callCheck i =>
    obtain ⟨hat, hs⟩ := Option.ite_none_right_eq_some.mp hs
    have hnull := hC hat
    split at hs
    · rename_i hnone
      cases hs
      exact not_lost_set hat rfl (hnull.resolve_left (not_not_intro hnone)) s.mCont
    · cases hs
      rintro ⟨-, hpending, -⟩
      rw [any_set CallPc.pending .stop hat] at hpending
      cases hpending
  | callStop i =>
    obtain ⟨hat, hs⟩ := Option.ite_none_right_eq_some.mp hs
    have hfound := hC hat
    split at hs
    · cases hs
      rw [lost_set_iff hat rfl]
      simp
    · rename_i hmissed
      cases hs
      have hstops : ¬ (s.client = .running ∧ s.mCont = some s.container) := by
        simpa using hmissed
      exact not_lost_set hat rfl (hfound.resolve_left hstops) s.mCont
  | callClear i =>
    obtain ⟨hat, hs⟩ := Option.ite_none_right_eq_some.mp hs
    cases hs
    refine not_lost_set hat rfl ?_ none
    -- this call could stop nothing any more, so what saved the request still does
    by_contra hnot
    rw [not_or, Bool.not_eq_false, Bool.not_eq_true] at hnot
    obtain ⟨halive, hother⟩ := hnot
    refine h ⟨List.ne_nil_of_mem (List.mem_of_getElem? hat), ?_, halive⟩
    rw [any_eraseIdx CallPc.pending hat]
    exact hother

/-- A step that is not effective loses the request. -/
theorem lost_step (s : Stopping) (l : StopStep) (_ : ¬ s.Lost) (hC : ¬ s.Effective l) :
    ∃ s', s.step kind restart l = some s' ∧ ¬ ¬ s'.Lost := by
  cases l with
  | callCheck i =>
    simp only [Effective, Classical.not_imp, not_or, not_not, Bool.not_eq_false,
      Bool.not_eq_true] at hC
    obtain ⟨hat, hnone, halive, hother⟩ := hC
    have hs : s.step kind restart (.callCheck i) =
        some { s with calls := s.calls.set i .returned } := by
      simp [step, hat, hnone]
    refine ⟨_, hs, not_not_intro ((lost_set_iff hat rfl _ _).mpr ⟨hother, ?_⟩)⟩
    simpa [alive] using halive
  | callStop i =>
    simp only [Effective, Classical.not_imp, not_or, Bool.not_eq_false, Bool.not_eq_true] at hC
    obtain ⟨hat, hmissed, halive, hother⟩ := hC
    have hs : s.step kind restart (.callStop i) =
        some { s with calls := s.calls.set i .clear } := by
      simp only [step, if_pos hat]
      rw [if_neg (by simpa using hmissed)]
    refine ⟨_, hs, not_not_intro ((lost_set_iff hat rfl _ _).mpr ⟨hother, ?_⟩)⟩
    simpa [alive] using halive
  | _ => exact absurd trivial hC

/-! ## Runs -/

theorem not_lost_initial : ¬ Lost initial := fun h => h.1 rfl

/-- Along every run of a client and the calls that are to stop it, no
request is lost exactly when every call is effective. -/
theorem notLost_iff (kind : ClientKind) (restart : Bool) (ls : List StopStep) :
    AllStates (step kind restart) (fun s => ¬ s.Lost) initial ls ↔
      AllSteps (step kind restart) Effective initial ls :=
  allStates_iff_allSteps not_lost_step lost_step not_lost_initial

/-- The call for the main client comes before its container is started. -/
def beforeStart : List StopStep :=
  [.setUp, .call, .callCheck 0, .run, .containerStart]

/-- The call for a registered client comes while it restarts. -/
def duringRestart : List StopStep :=
  [.setUp, .run, .containerStart, .exception true, .ownCheck, .ownStop, .ownClear, .call,
    .callCheck 0, .setUp, .run, .containerStart]

/-- The client runs, and the request is gone. -/
theorem requests_lost :
    ¬ AllStates (step .main false) (fun s => ¬ s.Lost) initial beforeStart ∧
      ¬ AllStates (step .additional true) (fun s => ¬ s.Lost) initial duringRestart := by
  decide

end Stopping

end SLDM.Client
