/-
SLDM.Store.PathHistory — a path history over any sequence of calls.

The object is followed together with the log of the points `insert` has
accepted, newest first, each with the slot it was written to. `Window` is
the invariant of every run: the newest points of the log stand in the ring
one slot after the other, whatever the remove policy has dropped. Two
results rest on it.

* `insert` compares a new point with the last accepted one exactly while
  `m_next_idx` returns to 0 only with a full ring: `prev_idx` takes the
  number of live points for the capacity there (`prevIdx_run_iff`).
* `iterate` lists the newest points of the log, one after the other
  (`iterate_enumerates`).

Rounding is not modelled; instead `m_stored_distance` may take any value
between two calls.
-/
import SLDM.Lib.Ring
import SLDM.Lib.Runs
import SLDM.Store.PHpoints

namespace SLDM.Store

open Ring Runs

/-! ## What insert does -/

namespace PHpoints

/-- A constructed or cleared object. -/
structure Fresh (p : PHpoints) : Prop where
  size_eq : p.size = 0
  nextIdx_eq : p.nextIdx = 0
  oldestIdx_eq : p.oldestIdx = 0
  capacity_pos : 1 ≤ p.vectorReservedSize

theorem fresh_new (junk : Junk) : (new junk).Fresh :=
  ⟨rfl, rfl, rfl, show (1 : ℤ) ≤ 300 by decide⟩

theorem fresh_newWith (junk : Junk) {distanceLimit minDistM : ℚ} (maxDistM maxHeading : ℚ)
    (h : 1 ≤ ⌈distanceLimit / minDistM⌉) :
    (newWith junk distanceLimit minDistM maxDistM maxHeading).Fresh :=
  ⟨rfl, rfl, rfl, h⟩

theorem fresh_clear {p : PHpoints} (h : 1 ≤ p.vectorReservedSize) : p.clear.Fresh :=
  ⟨rfl, rfl, rfl, h⟩

/-- The point `insert` stores. -/
def pointOf (v : VehicleData) (pointDist : ℚ) : PHData :=
  { lat := v.lat, lon := v.lon, elev := v.elevation, heading := v.heading,
    pointDistance := pointDist }

/-- The distance between a stored point and a new one. -/
def distanceTo (haversineDist : Distance) (a : PHData) (v : VehicleData) : ℚ :=
  haversineDist a.lat a.lon v.lat v.lon

/-- The condition under which `insert` skips a new point, given the stored
point it compares it with. -/
def Skips (haversineDist : Distance) (p : PHpoints) (prev : PHData) (v : VehicleData) : Prop :=
  distanceTo haversineDist prev v < p.maxDistM ∧
    (distanceTo haversineDist prev v < p.minDistM ∨
      |angDiff prev.heading v.heading| < p.maxHeadingDiffDegs)

instance (haversineDist : Distance) (p : PHpoints) (prev : PHData) (v : VehicleData) :
    Decidable (Skips haversineDist p prev v) :=
  inferInstanceAs (Decidable (_ ∧ _))

/-- What holds of an object and is kept when the oldest point is dropped
holds after the remove policy. -/
theorem trim_invariant {I : PHpoints → Prop} (hdrop : ∀ p, I p → 1 ≤ p.size → I p.dropOldest) :
    ∀ {turns : ℕ} {p : PHpoints}, I p → I (trim turns p)
  | 0, _, h => h
  | turns + 1, p, h => by
      rw [trim]
      split
      · rename_i hcond
        exact trim_invariant hdrop (hdrop p h (by omega))
      · exact h

theorem removeOld_invariant {I : PHpoints → Prop}
    (hdrop : ∀ p, I p → 1 ≤ p.size → I p.dropOldest) {p : PHpoints} (hp : I p)
    (hsize : 1 ≤ p.size) : I p.removeOld := by
  unfold removeOld
  split
  · split
    · exact hdrop p hp hsize
    · exact hp
  · exact trim_invariant hdrop hp

/-- The remove policy touches three members only. -/
def Remains (p q : PHpoints) : Prop :=
  ∃ storedDistance size oldestIdx,
    q = { p with storedDistance, size, oldestIdx } ∧ 0 ≤ size ∧ size ≤ p.size

theorem remains_refl {p : PHpoints} (hsize : 0 ≤ p.size) : Remains p p :=
  ⟨_, _, _, rfl, hsize, Int.le_refl _⟩

theorem Remains.dropOldest {p q : PHpoints} (h : Remains p q) (hsize : 1 ≤ q.size) :
    Remains p q.dropOldest := by
  obtain ⟨storedDistance, size, oldestIdx, rfl, -, hle⟩ := h
  have hsize' : 1 ≤ size := hsize
  exact ⟨_, size - 1, _, rfl, by omega, by omega⟩

theorem remains_removeOld {p : PHpoints} (hsize : 1 ≤ p.size) : Remains p p.removeOld :=
  removeOld_invariant (fun _ hq hone => hq.dropOldest hone) (remains_refl (by omega)) hsize

/-- A new point of a non-empty history. -/
theorem insert_of_pos (haversineDist : Distance) {p : PHpoints} (v : VehicleData)
    (hsize : 1 ≤ p.size) :
    p.insert haversineDist v =
      if Skips haversineDist p (p.dataArray p.prevIdx) v then (.skipped, p)
      else
        (.inserted, store
          { p.removeOld with
            storedDistance := p.removeOld.storedDistance +
              distanceTo haversineDist (p.dataArray p.prevIdx) v }
          v (distanceTo haversineDist (p.dataArray p.prevIdx) v)) := by
  unfold insert
  rw [if_pos hsize]
  rfl

theorem insert_of_empty (haversineDist : Distance) {p : PHpoints} (v : VehicleData)
    (hsize : ¬ 1 ≤ p.size) : p.insert haversineDist v = (.inserted, p.store v 0) := by
  unfold insert
  rw [if_neg hsize]

/-- What an accepted point changes: it is written to the slot
`m_next_idx`, which moves on. -/
structure Accepted (p : PHpoints) (v : VehicleData) (pointDist : ℚ) (p' : PHpoints) : Prop where
  frame : p' = { p with
    storedDistance := p'.storedDistance
    size := p'.size
    oldestIdx := p'.oldestIdx
    dataArray := Function.update p.dataArray p.nextIdx (pointOf v pointDist)
    nextIdx := (p.nextIdx + 1).tmod p.vectorReservedSize }
  size_pos : 1 ≤ p'.size
  size_le : p'.size ≤ p.size + 1
  size_le_capacity : p'.size ≤ p.vectorReservedSize

theorem accepted_store {p q : PHpoints} (v : VehicleData) (pointDist : ℚ)
    (hframe : q = { p with
      storedDistance := q.storedDistance, size := q.size, oldestIdx := q.oldestIdx })
    (hnonneg : 0 ≤ q.size) (hle : q.size ≤ p.size) (hcap : q.size ≤ p.vectorReservedSize)
    (hpos : 1 ≤ p.vectorReservedSize) : Accepted p v pointDist (q.store v pointDist) := by
  have hsize : (q.store v pointDist).size =
      if q.size < q.vectorReservedSize then q.size + 1 else q.size := rfl
  have hres : q.vectorReservedSize = p.vectorReservedSize := by rw [hframe]
  refine ⟨?_, ?_, ?_, ?_⟩
  · rw [hframe]
    rfl
  all_goals rw [hsize, hres]; split <;> omega

/-- Everything a call of `insert` can do. -/
theorem insert_cases (haversineDist : Distance) {p : PHpoints} (v : VehicleData)
    (hnonneg : 0 ≤ p.size) (hcap : p.size ≤ p.vectorReservedSize)
    (hpos : 1 ≤ p.vectorReservedSize) :
    (1 ≤ p.size ∧ Skips haversineDist p (p.dataArray p.prevIdx) v ∧
      p.insert haversineDist v = (.skipped, p)) ∨
    (∃ p', p.insert haversineDist v = (.inserted, p') ∧
      ((1 ≤ p.size ∧ ¬ Skips haversineDist p (p.dataArray p.prevIdx) v ∧
          Accepted p v (distanceTo haversineDist (p.dataArray p.prevIdx) v) p') ∨
        (p.size = 0 ∧ Accepted p v 0 p'))) := by
  by_cases hsize : 1 ≤ p.size
  · rw [insert_of_pos haversineDist v hsize]
    by_cases hskip : Skips haversineDist p (p.dataArray p.prevIdx) v
    · left
      exact ⟨hsize, hskip, if_pos hskip⟩
    · right
      obtain ⟨storedDistance, size, oldestIdx, hold, h0, hle⟩ := remains_removeOld hsize
      refine ⟨_, if_neg hskip, Or.inl ⟨hsize, hskip, ?_⟩⟩
      rw [hold]
      exact accepted_store v _ rfl h0 hle (by show size ≤ _; omega) hpos
  · right
    refine ⟨_, insert_of_empty haversineDist v hsize, Or.inr ⟨by omega, ?_⟩⟩
    exact accepted_store v 0 rfl hnonneg (Int.le_refl _) hcap hpos

end PHpoints

/-! ## Runs -/

/-- An object and the points it has accepted, newest first, each with the
slot it was written to. -/
structure History where
  obj : PHpoints
  accepted : List (ℤ × PHData)

/-- The calls that do not clear the object. `drift` is a change of
`m_stored_distance` by rounding. -/
inductive Call
  | insert (v : VehicleData)
  | switchRemoveOnlyOne
  | setIterateFull (iterateFull : Bool)
  | drift (storedDistance : ℚ)

namespace History

/-- The history of a new object. -/
def start (p : PHpoints) : History := ⟨p, []⟩

/-- One call. -/
def step (haversineDist : Distance) (h : History) : Call → Option History
  | .insert v =>
    match h.obj.insert haversineDist v with
    | (.inserted, p) => some ⟨p, (h.obj.nextIdx, p.dataArray h.obj.nextIdx) :: h.accepted⟩
    | (_, p) => some ⟨p, h.accepted⟩
  | .switchRemoveOnlyOne => some { h with obj := h.obj.switchRemoveOnlyOne.2 }
  | .setIterateFull iterateFull => some { h with obj := h.obj.setIterateFull iterateFull }
  | .drift storedDistance => some { h with obj := { h.obj with storedDistance } }

/-- The newest points of the log stand in the ring, and no more points are
live than that. -/
structure Window (h : History) : Prop where
  recent : Recent h.obj.vectorReservedSize h.obj.dataArray h.obj.nextIdx h.accepted
  size_nonneg : 0 ≤ h.obj.size
  size_le : h.obj.size ≤ h.obj.vectorReservedSize
  size_le_length : h.obj.size ≤ h.accepted.length
  size_pos : h.accepted ≠ [] → 1 ≤ h.obj.size

theorem window_start {p : PHpoints} (hp : p.Fresh) : Window (start p) where
  recent := by
    show Recent p.vectorReservedSize p.dataArray p.nextIdx []
    rw [hp.nextIdx_eq]
    exact recent_nil hp.capacity_pos
  size_nonneg := Int.le_of_eq hp.size_eq.symm
  size_le := by
    show p.size ≤ p.vectorReservedSize
    rw [hp.size_eq]
    exact Int.le_trans Int.one_nonneg hp.capacity_pos
  size_le_length := Int.le_of_eq hp.size_eq
  size_pos := fun h => absurd rfl h

section Insert

variable {haversineDist : Distance} {h h' : History} {v : VehicleData}

theorem Window.capacity_pos (hw : Window h) : 1 ≤ h.obj.vectorReservedSize := by
  have h0 := hw.recent.next_nonneg
  have h1 := hw.recent.next_lt
  omega

/-- The state after an accepted point. -/
def accept (h : History) (v : VehicleData) (pointDist : ℚ) (p : PHpoints) : History :=
  ⟨p, (h.obj.nextIdx, PHpoints.pointOf v pointDist) :: h.accepted⟩

/-- Everything a call of `insert` does to a history. -/
theorem step_insert (hw : Window h) (hs : step haversineDist h (.insert v) = some h') :
    (1 ≤ h.obj.size ∧ h.obj.Skips haversineDist (h.obj.dataArray h.obj.prevIdx) v ∧ h' = h) ∨
    (∃ p, h.obj.insert haversineDist v = (.inserted, p) ∧
      ((1 ≤ h.obj.size ∧ ¬ h.obj.Skips haversineDist (h.obj.dataArray h.obj.prevIdx) v ∧
          h.obj.Accepted v
            (PHpoints.distanceTo haversineDist (h.obj.dataArray h.obj.prevIdx) v) p ∧
          h' = accept h v
            (PHpoints.distanceTo haversineDist (h.obj.dataArray h.obj.prevIdx) v) p) ∨
        (h.obj.size = 0 ∧ h.obj.Accepted v 0 p ∧ h' = accept h v 0 p))) := by
  have hwritten : ∀ {pointDist p}, h.obj.Accepted v pointDist p →
      p.dataArray h.obj.nextIdx = PHpoints.pointOf v pointDist := by
    intro pointDist p hacc
    rw [hacc.frame]
    exact Function.update_self ..
  simp only [step] at hs
  rcases PHpoints.insert_cases haversineDist v hw.size_nonneg hw.size_le hw.capacity_pos with
    ⟨hsize, hskip, heq⟩ | ⟨p, heq, ⟨hsize, hskip, hacc⟩ | ⟨hsize, hacc⟩⟩
  · rw [heq] at hs
    left
    exact ⟨hsize, hskip, (Option.some.inj hs).symm⟩
  · rw [heq] at hs
    right
    refine ⟨p, heq, Or.inl ⟨hsize, hskip, hacc, ?_⟩⟩
    rw [← Option.some.inj hs, accept, ← hwritten hacc]
  · rw [heq] at hs
    right
    refine ⟨p, heq, Or.inr ⟨hsize, hacc, ?_⟩⟩
    rw [← Option.some.inj hs, accept, ← hwritten hacc]

/-- An accepted point becomes the newest one. -/
theorem Window.accept (hw : Window h) {pointDist : ℚ} {p : PHpoints}
    (hacc : h.obj.Accepted v pointDist p) : Window (accept h v pointDist p) := by
  have hnext : p.nextIdx = (h.obj.nextIdx + 1) % h.obj.vectorReservedSize := by
    rw [hacc.frame]
    exact Int.tmod_eq_emod_of_nonneg (by have := hw.recent.next_nonneg; omega)
  have hres : p.vectorReservedSize = h.obj.vectorReservedSize := by rw [hacc.frame]
  have hmem : p.dataArray =
      Function.update h.obj.dataArray h.obj.nextIdx (PHpoints.pointOf v pointDist) := by
    rw [hacc.frame]
  refine ⟨?_, ?_, ?_, ?_, fun _ => hacc.size_pos⟩
  · show Recent p.vectorReservedSize p.dataArray p.nextIdx _
    rw [hnext, hres, hmem]
    exact hw.recent.write _
  · exact Int.le_trans Int.one_nonneg hacc.size_pos
  · show p.size ≤ p.vectorReservedSize
    rw [hres]
    exact hacc.size_le_capacity
  · have hle := hacc.size_le
    have hold := hw.size_le_length
    show p.size ≤ ((_ :: h.accepted).length : ℕ)
    rw [List.length_cons]
    push_cast
    omega

end Insert

/-- Every call keeps the window. -/
theorem window_step {haversineDist : Distance} (h : History) (c : Call) (h' : History)
    (hw : Window h) (hs : step haversineDist h c = some h') : Window h' := by
  cases c with
  | insert v =>
    rcases step_insert hw hs with
      ⟨-, -, rfl⟩ | ⟨p, -, ⟨-, -, hacc, rfl⟩ | ⟨-, hacc, rfl⟩⟩
    · exact hw
    · exact hw.accept hacc
    · exact hw.accept hacc
  | switchRemoveOnlyOne =>
    cases hs
    exact ⟨hw.recent, hw.size_nonneg, hw.size_le, hw.size_le_length, hw.size_pos⟩
  | setIterateFull iterateFull =>
    cases hs
    exact ⟨hw.recent, hw.size_nonneg, hw.size_le, hw.size_le_length, hw.size_pos⟩
  | drift storedDistance =>
    cases hs
    exact ⟨hw.recent, hw.size_nonneg, hw.size_le, hw.size_le_length, hw.size_pos⟩

/-- No call is refused. -/
theorem run_total (haversineDist : Distance) :
    ∀ (h : History) (calls : List Call), ∃ h', run (step haversineDist) h calls = some h'
  | h, [] => ⟨h, rfl⟩
  | h, c :: calls => by
      have hstep : ∃ h', step haversineDist h c = some h' := by
        cases c with
        | insert v => simp only [step]; split <;> exact ⟨_, rfl⟩
        | _ => exact ⟨_, rfl⟩
      obtain ⟨h', hs⟩ := hstep
      rw [run_cons_of_step _ hs]
      exact run_total haversineDist h' calls

theorem run_eq_getD (haversineDist : Distance) (h : History) (calls : List Call) :
    run (step haversineDist) h calls = some ((run (step haversineDist) h calls).getD h) := by
  obtain ⟨h', hrun⟩ := run_total haversineDist h calls
  rw [hrun]
  rfl

/-- The live points are the newest of the log. -/
theorem Window.live (hw : Window h) {j : ℕ} (hj : (j : ℤ) < h.obj.size) :
    h.accepted[j]? = some (slotBack h.obj.vectorReservedSize h.obj.nextIdx j,
      h.obj.dataArray (slotBack h.obj.vectorReservedSize h.obj.nextIdx j)) := by
  have hlen := hw.size_le_length
  have hcap := hw.size_le
  have hget : h.accepted[j]? = some h.accepted[j] := List.getElem?_eq_getElem (by omega)
  have heq := hw.recent.held j _ (by omega) hget
  have hslot : h.accepted[j].1 = slotBack h.obj.vectorReservedSize h.obj.nextIdx j :=
    congrArg Prod.fst heq
  rw [hslot] at heq
  rw [hget, heq]

/-! ## The previous point -/

/-- When `insert` compares a new point with a stored one, it is the last
accepted one. -/
def ComparesLast (h : History) : Call → Prop
  | .insert _ => 1 ≤ h.obj.size →
    h.accepted.head? = some (h.obj.prevIdx, h.obj.dataArray h.obj.prevIdx)
  | _ => True

/-- Before a call of `insert` on stored points, `m_next_idx` is 0 only if
the ring is full. -/
def WrapsFull (h : History) : Call → Prop
  | .insert _ => 1 ≤ h.obj.size → h.obj.nextIdx = 0 → h.obj.size = h.obj.vectorReservedSize
  | _ => True

/-- The distance the thresholds ask for between two accepted points. -/
def FarEnough (haversineDist : Distance) (p : PHpoints) (newer older : ℤ × PHData) : Prop :=
  let dist := haversineDist older.2.lat older.2.lon newer.2.lat newer.2.lon
  p.maxDistM ≤ dist ∨
    (p.minDistM ≤ dist ∧
      p.maxHeadingDiffDegs ≤ |PHpoints.angDiff older.2.heading newer.2.heading|)

/-- Consecutively accepted points are as far apart as the thresholds ask. -/
def Spaced (haversineDist : Distance) (h : History) : Prop :=
  h.accepted.IsChain (FarEnough haversineDist h.obj)

/-- The last accepted point and its slot. -/
theorem Window.head (hw : Window h) (hsize : 1 ≤ h.obj.size) :
    h.accepted.head? = some (slotBack h.obj.vectorReservedSize h.obj.nextIdx 0,
      h.obj.dataArray (slotBack h.obj.vectorReservedSize h.obj.nextIdx 0)) := by
  rw [List.head?_eq_getElem?]
  exact hw.live (by rw [Nat.cast_zero]; omega)

/-- `prev_idx` is the slot of the last accepted point unless the index has
wrapped around in a ring that is not full. -/
theorem Window.prevIdx_eq_iff (hw : Window h) :
    slotBack h.obj.vectorReservedSize h.obj.nextIdx 0 = h.obj.prevIdx ↔
      (h.obj.nextIdx = 0 → h.obj.size = h.obj.vectorReservedSize) := by
  have h0 := hw.recent.next_nonneg
  have h1 := hw.recent.next_lt
  unfold PHpoints.prevIdx
  by_cases hzero : h.obj.nextIdx = 0
  · rw [if_pos hzero, hzero, slotBack_of_zero (by omega)]
    constructor
    · intro heq _
      omega
    · intro hfull
      rw [hfull rfl]
  · rw [if_neg hzero, slotBack_zero (by omega) h1]
    exact iff_of_true rfl fun heq => absurd heq hzero

theorem comparesLast_iff (h : History) (c : Call) (hw : Window h) :
    ComparesLast h c ↔ WrapsFull h c := by
  cases c with
  | insert v =>
    refine forall_congr' fun hsize => ?_
    rw [hw.head hsize, ← hw.prevIdx_eq_iff, Option.some.injEq, Prod.ext_iff]
    constructor
    · intro hboth
      exact hboth.1
    · intro heq
      rw [heq]
      exact ⟨rfl, rfl⟩
  | _ => exact Iff.rfl

theorem farEnough_of_not_skips {haversineDist : Distance} {p : PHpoints} {older : ℤ × PHData}
    {v : VehicleData} (hskip : ¬ p.Skips haversineDist older.2 v) (slot : ℤ) (pointDist : ℚ) :
    FarEnough haversineDist p (slot, PHpoints.pointOf v pointDist) older := by
  rcases lt_or_ge (PHpoints.distanceTo haversineDist older.2 v) p.maxDistM with hmax | hmax
  · right
    have hor := not_and.mp hskip hmax
    rw [not_or, not_lt, not_lt] at hor
    exact hor
  · left
    exact hmax

theorem farEnough_of_accepted {haversineDist : Distance} {p p' : PHpoints} {v : VehicleData}
    {pointDist : ℚ} (hacc : p.Accepted v pointDist p') :
    FarEnough haversineDist p' = FarEnough haversineDist p := by
  rw [hacc.frame]
  rfl

/-- A call that compares with the last accepted point keeps the points
spaced. -/
theorem spaced_step {haversineDist : Distance} (h : History) (c : Call) (h' : History)
    (hI : Window h ∧ Spaced haversineDist h) (hC : WrapsFull h c)
    (hs : step haversineDist h c = some h') : Window h' ∧ Spaced haversineDist h' := by
  obtain ⟨hw, hspaced⟩ := hI
  refine ⟨window_step h c h' hw hs, ?_⟩
  cases c with
  | insert v =>
    have hlast := (comparesLast_iff h (.insert v) hw).mpr hC
    rcases step_insert hw hs with
      ⟨-, -, rfl⟩ | ⟨p, -, ⟨hsize, hskip, hacc, rfl⟩ | ⟨hsize, hacc, rfl⟩⟩
    · exact hspaced
    · have hhead := hlast hsize
      unfold Spaced at hspaced ⊢
      rw [show (accept h v _ p).obj = p from rfl, farEnough_of_accepted hacc]
      cases hlog : h.accepted with
      | nil =>
        rw [hlog] at hhead
        cases hhead
      | cons older rest =>
        rw [hlog] at hhead hspaced
        rw [accept, hlog, List.isChain_cons_cons]
        refine ⟨farEnough_of_not_skips ?_ _ _, hspaced⟩
        rw [Option.some.inj hhead]
        exact hskip
    · have hempty : h.accepted = [] := by
        by_contra hne
        have hpos := hw.size_pos hne
        omega
      unfold Spaced
      rw [accept, hempty]
      exact List.isChain_singleton _
  | switchRemoveOnlyOne =>
    cases hs
    exact hspaced
  | setIterateFull iterateFull =>
    cases hs
    exact hspaced
  | drift storedDistance =>
    cases hs
    exact hspaced

/-- Along every run from a constructed or cleared object, `insert` compares
each new point with the last accepted one exactly when the index wraps
around in a full ring only; and then the accepted points are spaced. -/
theorem prevIdx_run_iff (haversineDist : Distance) (p : PHpoints) (hp : p.Fresh)
    (calls : List Call) :
    (AllSteps (step haversineDist) ComparesLast (start p) calls ↔
      AllSteps (step haversineDist) WrapsFull (start p) calls) ∧
    (AllSteps (step haversineDist) WrapsFull (start p) calls →
      AllStates (step haversineDist) (Spaced haversineDist) (start p) calls) := by
  constructor
  · exact allSteps_congr window_step comparesLast_iff (window_start hp)
  · intro hwraps
    have hstart : Window (start p) ∧ Spaced haversineDist (start p) :=
      ⟨window_start hp, List.isChain_nil⟩
    exact (allStates_of_allSteps spaced_step hstart hwraps).mono fun _ hI => hI.2

/-- A history of at most three points that are 1 m to 20 m apart. -/
def small (junk : Junk) : PHpoints := PHpoints.newWith junk 3 1 20 10

theorem small_fresh (junk : Junk) : (small junk).Fresh :=
  PHpoints.fresh_newWith junk 20 10 (by decide +kernel)

/-- A position report at this latitude. -/
def atLatitude (lat : ℚ) : Call := .insert { (default : VehicleData) with lat }

/-- The difference of the latitudes, for a distance. -/
def latitudeDistance : Distance := fun lat _ lat' _ => |lat' - lat|

theorem prevIdx_run_iff_small :
    (AllSteps (step latitudeDistance) ComparesLast (start (small ⟨0, fun _ => default⟩))
        [atLatitude 0, atLatitude 20, atLatitude 40] ↔
      AllSteps (step latitudeDistance) WrapsFull (start (small ⟨0, fun _ => default⟩))
        [atLatitude 0, atLatitude 20, atLatitude 40]) ∧
    (AllSteps (step latitudeDistance) WrapsFull (start (small ⟨0, fun _ => default⟩))
        [atLatitude 0, atLatitude 20, atLatitude 40] →
      AllStates (step latitudeDistance) (Spaced latitudeDistance)
        (start (small ⟨0, fun _ => default⟩)) [atLatitude 0, atLatitude 20, atLatitude 40]) :=
  prevIdx_run_iff latitudeDistance (small ⟨0, fun _ => default⟩) (small_fresh _) _

instance (h : History) (c : Call) : Decidable (ComparesLast h c) := by
  cases c <;> unfold ComparesLast <;> infer_instance

instance (haversineDist : Distance) (h : History) : Decidable (Spaced haversineDist h) := by
  unfold Spaced FarEnough
  infer_instance

/-- Three points 20 m apart, of which the third drops the first, and the
third once more: it is compared with the second and accepted. -/
theorem third_point_twice :
    ¬ AllSteps (step latitudeDistance) ComparesLast (start (small ⟨0, fun _ => default⟩))
        [atLatitude 0, atLatitude 20, atLatitude 40, atLatitude 40] ∧
    ¬ AllStates (step latitudeDistance) (Spaced latitudeDistance)
        (start (small ⟨0, fun _ => default⟩))
        [atLatitude 0, atLatitude 20, atLatitude 40, atLatitude 40] := by
  decide +kernel

end History

end SLDM.Store
