/-
SLDM.Startup.Handshake — the database cleaner waits for the visualizer.

`DBcleaner_callback` starts its timer, locks `syncmtx` and waits on
`synccv`; then it runs its deletion loop with `globVehVizPtr`.
`VehVizUpdater_callback` sets the pointer, notifies all, and goes on to its
own loop. The wait has no predicate, and the notification is sent without
the mutex, which the cleaner alone ever locks; a wait may end without a
notification.

Each access to the pointer, the condition variable, the timer and
`terminatorFlag` is one step. `good_iff_inOrder` says which orders of the
steps work. A wait that ends by itself before the pointer is set works only
when the pointer comes before the cleaner's timer expires; `good_of_timely`
does without that race, and after every step it excludes the run can go on
into a bad state.
-/
import SLDM.Lib.Runs

namespace SLDM.Startup

open Runs

/-! ## The threads -/

/-- Where `DBcleaner_callback` is: before the start of its timer, before
the lock, before the wait, in the wait, at the head of its loop, waiting
for its timer, in the deletion, or at its end. -/
inductive Cleaner where
  | timerStart
  | lock
  | wait
  | blocked
  | loopHead
  | timerWait
  | deletion
  | ended
  deriving DecidableEq, Repr

/-- Where `VehVizUpdater_callback` is: setting up the visualizer, before
the notification, before the start of its timer, in its loop, or at its
end. -/
inductive Updater where
  | setup
  | notify
  | timerStart
  | loop
  | ended
  deriving DecidableEq, Repr

/-- The two threads and what they share. -/
structure Handshake where
  cleaner : Cleaner
  updater : Updater
  globVehVizPtr : Bool
  terminatorFlag : Bool
  deriving DecidableEq, Repr

/-- The steps. `ok` is what the timer answers; `terminate` is any other
thread that sets `terminatorFlag`. -/
inductive HandshakeStep where
  | cleanerTimerStart (ok : Bool)
  | cleanerLock
  | cleanerWait
  | spuriousWakeUp
  | cleanerLoopHead
  | cleanerTimerWait (ok : Bool)
  | cleanerDeletion
  | publish
  | notifyAll
  | updaterTimerStart (ok : Bool)
  | updaterLoop (ok : Bool)
  | terminate
  deriving DecidableEq, Repr

namespace Handshake

/-- One step; `none` when the thread is not there. -/
def step (s : Handshake) : HandshakeStep → Option Handshake
  | .cleanerTimerStart ok =>
    if s.cleaner = .timerStart then
      if ok then some { s with cleaner := .lock }
      else some { s with cleaner := .ended, terminatorFlag := true }
    else none
  | .cleanerLock => if s.cleaner = .lock then some { s with cleaner := .wait } else none
  | .cleanerWait => if s.cleaner = .wait then some { s with cleaner := .blocked } else none
  | .spuriousWakeUp =>
    if s.cleaner = .blocked then some { s with cleaner := .loopHead } else none
  | .cleanerLoopHead =>
    if s.cleaner = .loopHead then
      if s.terminatorFlag then some { s with cleaner := .ended }
      else some { s with cleaner := .timerWait }
    else none
  | .cleanerTimerWait ok =>
    if s.cleaner = .timerWait then
      if ok then some { s with cleaner := .deletion } else some { s with cleaner := .ended }
    else none
  | .cleanerDeletion =>
    if s.cleaner = .deletion then some { s with cleaner := .loopHead } else none
  | .publish =>
    if s.updater = .setup then some { s with updater := .notify, globVehVizPtr := true }
    else none
  | .notifyAll =>
    if s.updater = .notify then
      -- a thread that is not in the wait yet is not woken
      some { s with
        updater := .timerStart
        cleaner := if s.cleaner = .blocked then .loopHead else s.cleaner }
    else none
  | .updaterTimerStart ok =>
    if s.updater = .timerStart then
      if ok then some { s with updater := .loop }
      else some { s with updater := .ended, terminatorFlag := true }
    else none
  | .updaterLoop ok =>
    if s.updater = .loop then
      if !s.terminatorFlag && ok then some s else some { s with updater := .ended }
    else none
  | .terminate => some { s with terminatorFlag := true }

/-- Both threads have been created. -/
def initial : Handshake := ⟨.timerStart, .setup, false, false⟩

/-! ## What must hold -/

/-- `notify_all` has been executed. -/
def Notified (s : Handshake) : Prop := s.updater ≠ .setup ∧ s.updater ≠ .notify

/-- The cleaner is blocked in the wait, or about to block. -/
def Waits (s : Handshake) : Prop :=
  s.cleaner = .lock ∨ s.cleaner = .wait ∨ s.cleaner = .blocked

/-- The deletion has its pointer, and the notification is not lost. -/
def Good (s : Handshake) : Prop :=
  (s.cleaner = .deletion → s.globVehVizPtr = true) ∧
    ¬ (s.globVehVizPtr = true ∧ s.Notified ∧ s.Waits)

/-- The step comes in order: the notification when the cleaner is not on
its way into the wait, the start of the cleaner's timer, if it succeeds,
before the notification, and the end of its period in the loop, if it is
reached, after the setup of the visualizer. -/
def InOrder (s : Handshake) : HandshakeStep → Prop
  | .notifyAll => s.updater = .notify → s.cleaner ≠ .lock ∧ s.cleaner ≠ .wait
  | .cleanerTimerStart ok => s.cleaner = .timerStart → ok = true → ¬ s.Notified
  | .cleanerTimerWait ok => s.cleaner = .timerWait → ok = true → s.updater ≠ .setup
  | _ => True

/-- The step comes in time: the notification when the cleaner is not on
its way into the wait, the start of the cleaner's timer, if it succeeds,
before the notification, and a wake-up without notification after the
pointer is set or once the threads are to end. -/
def Timely (s : Handshake) : HandshakeStep → Prop
  | .notifyAll => s.cleaner ≠ .lock ∧ s.cleaner ≠ .wait
  | .cleanerTimerStart ok => ok = true → ¬ s.Notified
  | .spuriousWakeUp => s.globVehVizPtr = true ∨ s.terminatorFlag = true
  | _ => True

instance (s : Handshake) : Decidable s.Notified := inferInstanceAs (Decidable (_ ∧ _))

instance (s : Handshake) : Decidable s.Waits := inferInstanceAs (Decidable (_ ∨ _ ∨ _))

instance : DecidablePred Good := fun _ => inferInstanceAs (Decidable (_ ∧ _))

instance (s : Handshake) : ∀ l, Decidable (s.InOrder l)
  | .notifyAll | .cleanerTimerStart _ | .cleanerTimerWait _ => inferInstanceAs (Decidable (_ → _))
  | .cleanerLock | .cleanerWait | .spuriousWakeUp | .cleanerLoopHead | .cleanerDeletion
  | .publish | .updaterTimerStart _ | .updaterLoop _ | .terminate => isTrue trivial

instance (s : Handshake) : ∀ l, Decidable (s.Timely l)
  | .notifyAll => inferInstanceAs (Decidable (_ ∧ _))
  | .cleanerTimerStart _ => inferInstanceAs (Decidable (_ → _))
  | .spuriousWakeUp => inferInstanceAs (Decidable (_ ∨ _))
  | .cleanerLock | .cleanerWait | .cleanerLoopHead | .cleanerTimerWait _ | .cleanerDeletion
  | .publish | .updaterTimerStart _ | .updaterLoop _ | .terminate => isTrue trivial

/-! ## What a step can do -/

/-- Everything a step can be. -/
inductive Moves (s : Handshake) : HandshakeStep → Handshake → Prop
  | timerStarts (hat : s.cleaner = .timerStart) :
    Moves s (.cleanerTimerStart true) { s with cleaner := .lock }
  | timerFails (hat : s.cleaner = .timerStart) :
    Moves s (.cleanerTimerStart false) { s with cleaner := .ended, terminatorFlag := true }
  | locks (hat : s.cleaner = .lock) : Moves s .cleanerLock { s with cleaner := .wait }
  | blocks (hat : s.cleaner = .wait) : Moves s .cleanerWait { s with cleaner := .blocked }
  | wakesUp (hat : s.cleaner = .blocked) : Moves s .spuriousWakeUp { s with cleaner := .loopHead }
  | leaves (hat : s.cleaner = .loopHead) : Moves s .cleanerLoopHead { s with cleaner := .ended }
  | goesOn (hat : s.cleaner = .loopHead) (hflag : s.terminatorFlag = false) :
    Moves s .cleanerLoopHead { s with cleaner := .timerWait }
  | expires (hat : s.cleaner = .timerWait) :
    Moves s (.cleanerTimerWait true) { s with cleaner := .deletion }
  | breaks (hat : s.cleaner = .timerWait) :
    Moves s (.cleanerTimerWait false) { s with cleaner := .ended }
  | deletes (hat : s.cleaner = .deletion) : Moves s .cleanerDeletion { s with cleaner := .loopHead }
  | publishes (hat : s.updater = .setup) :
    Moves s .publish { s with updater := .notify, globVehVizPtr := true }
  | notifies (hat : s.updater = .notify) : Moves s .notifyAll { s with
      updater := .timerStart
      cleaner := if s.cleaner = .blocked then .loopHead else s.cleaner }
  | updaterStarts (hat : s.updater = .timerStart) :
    Moves s (.updaterTimerStart true) { s with updater := .loop }
  | updaterFails (hat : s.updater = .timerStart) :
    Moves s (.updaterTimerStart false) { s with updater := .ended, terminatorFlag := true }
  | updates (ok : Bool) (hat : s.updater = .loop) : Moves s (.updaterLoop ok) s
  | updaterEnds (ok : Bool) (hat : s.updater = .loop) :
    Moves s (.updaterLoop ok) { s with updater := .ended }
  | terminates : Moves s .terminate { s with terminatorFlag := true }

theorem moves_step {s s' : Handshake} {l : HandshakeStep} (hs : s.step l = some s') :
    s.Moves l s' := by
  cases l with
  | cleanerTimerStart ok =>
    obtain ⟨hat, hs⟩ := Option.ite_none_right_eq_some.mp hs
    cases ok with
    | true => cases hs; exact .timerStarts hat
    | false => cases hs; exact .timerFails hat
  | cleanerLock =>
    obtain ⟨hat, hs⟩ := Option.ite_none_right_eq_some.mp hs
    cases hs
    exact .locks hat
  | cleanerWait =>
    obtain ⟨hat, hs⟩ := Option.ite_none_right_eq_some.mp hs
    cases hs
    exact .blocks hat
  | spuriousWakeUp =>
    obtain ⟨hat, hs⟩ := Option.ite_none_right_eq_some.mp hs
    cases hs
    exact .wakesUp hat
  | cleanerLoopHead =>
    obtain ⟨hat, hs⟩ := Option.ite_none_right_eq_some.mp hs
    split at hs
    · cases hs
      exact .leaves hat
    · rename_i hflag
      cases hs
      exact .goesOn hat (Bool.eq_false_iff.mpr hflag)
  | cleanerTimerWait ok =>
    obtain ⟨hat, hs⟩ := Option.ite_none_right_eq_some.mp hs
    cases ok with
    | true => cases hs; exact .expires hat
    | false => cases hs; exact .breaks hat
  | cleanerDeletion =>
    obtain ⟨hat, hs⟩ := Option.ite_none_right_eq_some.mp hs
    cases hs
    exact .deletes hat
  | publish =>
    obtain ⟨hat, hs⟩ := Option.ite_none_right_eq_some.mp hs
    cases hs
    exact .publishes hat
  | notifyAll =>
    obtain ⟨hat, hs⟩ := Option.ite_none_right_eq_some.mp hs
    cases hs
    exact .notifies hat
  | updaterTimerStart ok =>
    obtain ⟨hat, hs⟩ := Option.ite_none_right_eq_some.mp hs
    cases ok with
    | true => cases hs; exact .updaterStarts hat
    | false => cases hs; exact .updaterFails hat
  | updaterLoop ok =>
    obtain ⟨hat, hs⟩ := Option.ite_none_right_eq_some.mp hs
    split at hs
    · cases hs
      exact .updates ok hat
    · cases hs
      exact .updaterEnds ok hat
  | terminate =>
    cases hs
    exact .terminates

/-! ## The invariant -/

/-- What holds along a run in order. -/
structure Ordered (s : Handshake) : Prop where
  published : s.globVehVizPtr = true ↔ s.updater ≠ .setup
  notLost : s.Notified → ¬ s.Waits
  deletes : s.cleaner = .deletion → s.globVehVizPtr = true

theorem Ordered.good {s : Handshake} (h : s.Ordered) : s.Good :=
  ⟨h.deletes, fun hlost => h.notLost hlost.2.1 hlost.2.2⟩

theorem ordered_initial : Ordered initial :=
  ⟨by simp [initial], fun hn => absurd rfl hn.1, by simp [initial]⟩

/-- A step in order keeps the invariant. -/
theorem ordered_step (s : Handshake) (l : HandshakeStep) (s' : Handshake) (h : s.Ordered)
    (hC : s.InOrder l) (hs : s.step l = some s') : s'.Ordered := by
  obtain ⟨hpublished, hnotLost, hdeletes⟩ := h
  -- once the setup is over the pointer is set, and no notification is lost
  have hptr (hne : s.updater ≠ .setup) : s.globVehVizPtr = true := hpublished.mpr hne
  cases moves_step hs with
  | timerStarts hat => exact ⟨hpublished, fun hn => absurd hn (hC hat rfl), by simp⟩
  | timerFails hat => exact ⟨hpublished, fun _ => by simp [Waits], by simp⟩
  | locks hat => exact ⟨hpublished, fun hn => absurd (Or.inl hat) (hnotLost hn), by simp⟩
  | blocks hat => exact ⟨hpublished, fun hn => absurd (Or.inr (Or.inl hat)) (hnotLost hn), by simp⟩
  | wakesUp hat => exact ⟨hpublished, fun _ => by simp [Waits], by simp⟩
  | leaves hat => exact ⟨hpublished, fun _ => by simp [Waits], by simp⟩
  | goesOn hat hflag => exact ⟨hpublished, fun _ => by simp [Waits], by simp⟩
  | expires hat => exact ⟨hpublished, fun _ => by simp [Waits], fun _ => hptr (hC hat rfl)⟩
  | breaks hat => exact ⟨hpublished, fun _ => by simp [Waits], by simp⟩
  | deletes hat => exact ⟨hpublished, fun _ => by simp [Waits], by simp⟩
  | publishes hat => exact ⟨by simp, fun hn => by simp [Notified] at hn, fun _ => rfl⟩
  | notifies hat =>
    have hset : s.globVehVizPtr = true := hptr (by simp [hat])
    refine ⟨by simp [hset], fun _ => ?_, fun _ => hset⟩
    -- a blocked cleaner is woken, and it is not on its way into the wait
    obtain ⟨hlock, hwait⟩ := hC hat
    by_cases hblocked : s.cleaner = .blocked
    · simp [Waits, hblocked]
    · simp [Waits, hblocked, hlock, hwait]
  | updaterStarts hat | updaterFails hat =>
    have hwaits : ¬ s.Waits := hnotLost (by simp [Notified, hat])
    exact ⟨by simp [hptr, hat], fun _ => hwaits, hdeletes⟩
  | updates ok hat => exact ⟨hpublished, hnotLost, hdeletes⟩
  | updaterEnds ok hat =>
    have hwaits : ¬ s.Waits := hnotLost (by simp [Notified, hat])
    exact ⟨by simp [hptr, hat], fun _ => hwaits, hdeletes⟩
  | terminates => exact ⟨hpublished, hnotLost, hdeletes⟩

/-- A step that is not in order leads to a bad state. -/
theorem bad_of_not_inOrder (s : Handshake) (l : HandshakeStep) (h : s.Ordered)
    (hC : ¬ s.InOrder l) : ∃ s', s.step l = some s' ∧ ¬ s'.Good := by
  cases l with
  | notifyAll =>
    simp only [InOrder, Classical.not_imp, not_and_or, not_not] at hC
    obtain ⟨hat, hway⟩ := hC
    have hptr : s.globVehVizPtr = true := h.published.mpr (by simp [hat])
    refine ⟨_, if_pos hat, fun hgood => hgood.2 ⟨hptr, by simp [Notified], ?_⟩⟩
    -- it goes on into the wait
    rcases hway with hlock | hwait
    · simp [Waits, hlock]
    · simp [Waits, hwait]
  | cleanerTimerStart ok =>
    simp only [InOrder, Classical.not_imp, not_not] at hC
    obtain ⟨hat, rfl, hn⟩ := hC
    have hptr : s.globVehVizPtr = true := h.published.mpr hn.1
    exact ⟨_, if_pos hat, fun hgood => hgood.2 ⟨hptr, hn, Or.inl rfl⟩⟩
  | cleanerTimerWait ok =>
    simp only [InOrder, Classical.not_imp, not_not] at hC
    obtain ⟨hat, rfl, hsetup⟩ := hC
    exact ⟨_, if_pos hat, fun hgood => h.published.mp (hgood.1 rfl) hsetup⟩
  | _ => exact absurd trivial hC

/-- What holds along a timely run: the cleaner is in its loop only with
the pointer. -/
structure Sound (s : Handshake) : Prop extends Ordered s where
  woken : s.cleaner = .loopHead → s.globVehVizPtr = true ∨ s.terminatorFlag = true
  inLoop : s.cleaner = .timerWait → s.globVehVizPtr = true

theorem sound_initial : Sound initial :=
  ⟨ordered_initial, by simp [initial], by simp [initial]⟩

/-- A timely step is in order. -/
theorem Sound.inOrder {s : Handshake} (h : s.Sound) {l : HandshakeStep} (hC : s.Timely l) :
    s.InOrder l := by
  cases l with
  | notifyAll => exact fun _ => hC
  | cleanerTimerStart ok => exact fun _ => hC
  | cleanerTimerWait ok => exact fun hat _ => h.published.mp (h.inLoop hat)
  | _ => trivial

/-- A timely step keeps the invariant. -/
theorem sound_step (s : Handshake) (l : HandshakeStep) (s' : Handshake) (h : s.Sound)
    (hC : s.Timely l) (hs : s.step l = some s') : s'.Sound := by
  have hordered := ordered_step s l s' h.toOrdered (h.inOrder hC) hs
  obtain ⟨⟨hpublished, -, hdeletes⟩, hwoken, hinLoop⟩ := h
  cases moves_step hs with
  | timerStarts hat | timerFails hat => exact ⟨hordered, by simp, by simp⟩
  | locks hat | blocks hat => exact ⟨hordered, by simp, by simp⟩
  | wakesUp hat => exact ⟨hordered, fun _ => hC, by simp⟩
  | leaves hat => exact ⟨hordered, by simp, by simp⟩
  | goesOn hat hflag =>
    have hset : s.globVehVizPtr = true := (hwoken hat).resolve_right (by simp [hflag])
    exact ⟨hordered, by simp, fun _ => hset⟩
  | expires hat | breaks hat => exact ⟨hordered, by simp, by simp⟩
  | deletes hat => exact ⟨hordered, fun _ => Or.inl (hdeletes hat), by simp⟩
  | publishes hat => exact ⟨hordered, fun _ => Or.inl rfl, fun _ => rfl⟩
  | notifies hat =>
    -- the pointer is set before the notification is sent
    have hset : s.globVehVizPtr = true := hpublished.mpr (by simp [hat])
    exact ⟨hordered, fun _ => Or.inl hset, fun _ => hset⟩
  | updaterStarts hat => exact ⟨hordered, hwoken, hinLoop⟩
  | updaterFails hat => exact ⟨hordered, fun _ => Or.inr rfl, hinLoop⟩
  | updates ok hat | updaterEnds ok hat => exact ⟨hordered, hwoken, hinLoop⟩
  | terminates => exact ⟨hordered, fun _ => Or.inr rfl, hinLoop⟩

/-- After a step that is not timely the run can go on into a bad state. -/
theorem bad_of_not_timely (s : Handshake) (l : HandshakeStep) (s' : Handshake) (h : s.Sound)
    (hC : ¬ s.Timely l) (hs : s.step l = some s') : ∃ ls, ¬ AllStates step Good s' ls := by
  by_cases horder : s.InOrder l
  · -- in order and not timely: nothing stops the cleaner before its first deletion
    cases moves_step hs with
    | wakesUp hat =>
      simp only [Timely, not_or, Bool.not_eq_true] at hC
      obtain ⟨hptr, hflag⟩ := hC
      have hrun : run step { s with cleaner := .loopHead }
          [.cleanerLoopHead, .cleanerTimerWait true] = some { s with cleaner := .deletion } := by
        simp [run, step, hflag]
      refine ⟨[.cleanerLoopHead, .cleanerTimerWait true], fun hall => ?_⟩
      have hdeletion := (hall.last hrun).1 rfl
      rw [hptr] at hdeletion
      cases hdeletion
    | timerStarts hat | timerFails hat => exact absurd (horder hat) hC
    | notifies hat => exact absurd (horder hat) hC
    | _ => exact absurd trivial hC
  · -- not in order: the step itself leads to a bad state
    obtain ⟨s'', hs'', hbad⟩ := bad_of_not_inOrder s l h.toOrdered horder
    obtain rfl : s' = s'' := Option.some.inj (hs.symm.trans hs'')
    exact ⟨[], fun hall => hbad (allStates_nil.mp hall)⟩

/-! ## Runs -/

/-- The handshake works along every run whose steps are timely; and after
a timely run, every step that is not timely has a continuation in which it
does not work. -/
theorem good_of_timely {ls : List HandshakeStep} (hC : AllSteps step Timely initial ls) :
    AllStates step Good initial ls ∧
      ∀ s l s', run step initial ls = some s → ¬ s.Timely l → s.step l = some s' →
        ∃ ls', ¬ AllStates step Good s' ls' := by
  have hsound := allStates_of_allSteps sound_step sound_initial hC
  refine ⟨hsound.mono fun _ h => h.good, fun s l s' hrun hnot hs => ?_⟩
  exact bad_of_not_timely s l s' (hsound.last hrun) hnot hs

/-- The handshake works along a run exactly when each step is in order. So
it does when each step is timely, and after such a run, every step that is
not timely has a continuation in which it does not work. -/
theorem good_iff_inOrder (ls : List HandshakeStep) :
    (AllStates step Good initial ls ↔ AllSteps step InOrder initial ls) ∧
      (AllSteps step Timely initial ls → AllStates step Good initial ls ∧
        ∀ s l s', run step initial ls = some s → ¬ s.Timely l → s.step l = some s' →
          ∃ ls', ¬ AllStates step Good s' ls') := by
  refine ⟨⟨fun hall => ?_, fun hC => ?_⟩, good_of_timely⟩
  · exact allSteps_of_allStates ordered_step bad_of_not_inOrder ordered_initial hall
  · exact (allStates_of_allSteps ordered_step ordered_initial hC).mono fun _ h => h.good

/-- The cleaner waits, the pointer is set, and the notification comes. -/
def inTime : List HandshakeStep :=
  [.cleanerTimerStart true, .cleanerLock, .cleanerWait, .publish, .notifyAll, .cleanerLoopHead,
    .cleanerTimerWait true]

/-- The wait ends by itself, and the pointer comes before the timer. -/
def justInTime : List HandshakeStep :=
  [.cleanerTimerStart true, .cleanerLock, .cleanerWait, .spuriousWakeUp, .cleanerLoopHead,
    .publish, .notifyAll, .cleanerTimerWait true]

/-- Both runs work, the second without being timely. -/
theorem good_iff_inOrder_inTime :
    AllStates step Good initial inTime ∧ AllStates step Good initial justInTime ∧
      ¬ AllSteps step Timely initial justInTime :=
  ⟨((good_iff_inOrder inTime).2 (by decide)).1, (good_iff_inOrder justInTime).1.mpr (by decide),
    by decide⟩

/-- The notification comes while the cleaner is before its wait. -/
def lostWakeUp : List HandshakeStep :=
  [.cleanerTimerStart true, .cleanerLock, .publish, .notifyAll, .cleanerWait]

/-- The wait ends by itself before the visualizer is there. -/
def earlyWakeUp : List HandshakeStep :=
  [.cleanerTimerStart true, .cleanerLock, .cleanerWait, .spuriousWakeUp, .cleanerLoopHead,
    .cleanerTimerWait true]

/-- The cleaner waits for ever, or deletes with the null pointer. -/
theorem wakeUps_not_good :
    ¬ AllStates step Good initial lostWakeUp ∧ ¬ AllStates step Good initial earlyWakeUp := by
  decide

end Handshake

end SLDM.Startup
