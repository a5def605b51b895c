/-
SLDM.Store.Trimming — how far the default remove policy trims.

The header says of this policy: "remove, if needed, any number of points
until the stored distance is the minimum one >= distance_limit". The loop
that does it runs before the new point's distance is added: it stops below
the limit (`trim_spec`), and whether the new distance makes up for that
depends on how the points are spaced.

The spacing is read on the recorded path: `behind j` is how far the point
recorded `j` points before the last one lies behind it. A report passes a
point when it leaves it at least the limit behind and the last report did
not. `keepsMinimum_run_iff` says that the documented amount is kept exactly
by reports that pass one point each, for every run that never fills the
ring. Before the limit is reached nothing is dropped (`all_live_run`).
-/
import SLDM.Store.RingBookkeeping

namespace SLDM.Store

open Ring Runs

namespace PHpoints

/-! ## The trimming loop -/

/-- The stored distance without the `k` oldest points. -/
def leftAfter (p : PHpoints) (k : ℕ) : ℚ :=
  p.storedDistance - windowSum PHData.pointDistance p.vectorReservedSize p.dataArray p.oldestIdx k

/-- Trimming drops the `k` oldest points: it goes on as long as the stored
distance is at least the limit, and leaves one point. -/
structure TrimsTo (p : PHpoints) (k : ℕ) : Prop where
  lt_size : (k : ℤ) < p.size
  goes_on : ∀ j < k, p.distanceLimit ≤ p.leftAfter j
  stops : (k : ℤ) + 1 = p.size ∨ p.leftAfter k < p.distanceLimit

/-- The object without its `k` oldest points. -/
def dropped (p : PHpoints) (k : ℕ) : PHpoints :=
  { p with
    storedDistance := p.leftAfter k
    size := p.size - k
    oldestIdx := (p.oldestIdx + k) % p.vectorReservedSize }

section Trim

variable {p : PHpoints}

@[simp] theorem leftAfter_zero (p : PHpoints) : p.leftAfter 0 = p.storedDistance :=
  sub_zero _

theorem dropped_zero (h0 : 0 ≤ p.oldestIdx) (h : p.oldestIdx < p.vectorReservedSize) :
    p.dropped 0 = p := by
  unfold dropped
  rw [leftAfter_zero, Nat.cast_zero, sub_zero, add_zero, Int.emod_eq_of_lt h0 h]

/-- The oldest point is in the slots of the ring. -/
theorem dropOldest_oldestIdx (h0 : 0 ≤ p.oldestIdx) :
    p.dropOldest.oldestIdx = (p.oldestIdx + 1) % p.vectorReservedSize :=
  Int.tmod_eq_emod_of_nonneg (by omega)

/-- One point more is dropped. -/
theorem leftAfter_succ (h0 : 0 ≤ p.oldestIdx) (h : p.oldestIdx < p.vectorReservedSize) (k : ℕ) :
    p.leftAfter (k + 1) = p.dropOldest.leftAfter k := by
  have hrest : p.dropOldest.leftAfter k =
      p.storedDistance - (p.dataArray p.oldestIdx).pointDistance -
        windowSum PHData.pointDistance p.vectorReservedSize p.dataArray
          ((p.oldestIdx + 1) % p.vectorReservedSize) k := by
    unfold leftAfter
    rw [dropOldest_oldestIdx h0]
    rfl
  rw [hrest, leftAfter, windowSum_succ _ h0 h, sub_add_eq_sub_sub_swap]

theorem dropped_succ (h0 : 0 ≤ p.oldestIdx) (h : p.oldestIdx < p.vectorReservedSize) (k : ℕ) :
    p.dropped (k + 1) = p.dropOldest.dropped k := by
  have hrest : p.dropOldest.dropped k = { p with
      storedDistance := p.dropOldest.leftAfter k
      size := p.size - 1 - k
      oldestIdx := ((p.oldestIdx + 1) % p.vectorReservedSize + k) % p.vectorReservedSize } := by
    unfold dropped
    rw [dropOldest_oldestIdx h0]
    rfl
  have hsize : p.size - ((k + 1 : ℕ) : ℤ) = p.size - 1 - k := by
    push_cast
    ring
  have holdest : p.oldestIdx + ((k + 1 : ℕ) : ℤ) = p.oldestIdx + 1 + k := by
    push_cast
    ring
  rw [hrest, dropped, leftAfter_succ h0 h, Int.emod_add_emod, hsize, holdest]

theorem dropped_one (h0 : 0 ≤ p.oldestIdx) (h : p.oldestIdx < p.vectorReservedSize) :
    p.dropped 1 = p.dropOldest := by
  have hmove := dropOldest_oldestIdx h0
  rw [dropped_succ h0 h, dropped_zero]
  · rw [hmove]
    exact Int.emod_nonneg _ (by omega)
  · rw [hmove]
    exact Int.emod_lt_of_pos _ (by omega)

/-- What the loop does, by induction on the turns: it drops points as long
as its condition holds. -/
theorem trim_spec : ∀ {turns : ℕ} {p : PHpoints}, p.size = turns + 1 → 0 ≤ p.oldestIdx →
    p.oldestIdx < p.vectorReservedSize →
    ∃ k, TrimsTo p k ∧ trim (turns + 1) p = p.dropped k
  | turns, p, hsize, h0, h => by
      rw [trim]
      by_cases hcond : p.storedDistance ≥ p.distanceLimit ∧ p.size > 1
      · rw [if_pos hcond]
        obtain ⟨turns', rfl⟩ : ∃ turns', turns = turns' + 1 := ⟨turns - 1, by omega⟩
        have hmove := dropOldest_oldestIdx h0
        obtain ⟨k, hk, heq⟩ := trim_spec
          (show p.dropOldest.size = turns' + 1 by show p.size - 1 = _; omega)
          (by rw [hmove]; exact Int.emod_nonneg _ (by omega))
          (by rw [hmove]; exact Int.emod_lt_of_pos _ (by show 0 < p.vectorReservedSize; omega))
        have hlt : (k : ℤ) < p.size - 1 := hk.lt_size
        refine ⟨k + 1, ⟨?_, ?_, ?_⟩, ?_⟩
        · push_cast
          omega
        · intro j hj
          cases j with
          | zero =>
            rw [leftAfter_zero]
            exact hcond.1
          | succ j =>
            rw [leftAfter_succ h0 h]
            exact hk.goes_on j (by omega)
        · rw [leftAfter_succ h0 h]
          refine hk.stops.imp (fun hlast => ?_) id
          have hlast' : (k : ℤ) + 1 = p.size - 1 := hlast
          push_cast
          omega
        · rw [heq, dropped_succ h0 h]
      · rw [if_neg hcond]
        refine ⟨0, ⟨by rw [Nat.cast_zero]; omega, fun j hj => absurd hj (Nat.not_lt_zero j), ?_⟩,
          (dropped_zero h0 h).symm⟩
        rw [not_and_or, not_le, not_lt] at hcond
        rw [leftAfter_zero, Nat.cast_zero]
        rcases hcond with hshort | hone
        · exact Or.inr hshort
        · left
          omega

/-- What the default remove policy does. -/
theorem removeOld_spec (hpolicy : p.removeOnlyOne = false) (hsize : 1 ≤ p.size)
    (h0 : 0 ≤ p.oldestIdx) (h : p.oldestIdx < p.vectorReservedSize) :
    ∃ k, TrimsTo p k ∧ p.removeOld = p.dropped k := by
  obtain ⟨turns, hturns⟩ : ∃ turns, p.size.toNat = turns + 1 := ⟨p.size.toNat - 1, by omega⟩
  rw [removeOld_of_default hpolicy, hturns]
  exact trim_spec (by omega) h0 h

end Trim

end PHpoints

/-! ## Runs -/

namespace History

/-- A slot is free. -/
def NotFull (h : History) : Prop := h.obj.size < h.obj.vectorReservedSize

/-- The stored distance is at least the limit, and without the oldest
point's distance it is below, unless that is the only point. -/
def AtMinimum (p : PHpoints) : Prop :=
  p.distanceLimit ≤ p.storedDistance ∧
    (p.size = 1 ∨ p.storedDistance - (p.dataArray p.oldestIdx).pointDistance < p.distanceLimit)

/-- A report that is inserted leaves the documented amount of history. -/
def KeepsMinimum (haversineDist : Distance) (h : History) (v : VehicleData) : Prop :=
  ∀ p, h.obj.insert haversineDist v = (.inserted, p) → AtMinimum p

/-- Once the stored distance has reached the limit, every later report
keeps the documented amount of history. -/
def KeepsDocumented (haversineDist : Distance) (start : History) (vs : List VehicleData) : Prop :=
  ∀ pre post h, vs = pre ++ post → run (insertStep haversineDist) start pre = some h →
    h.obj.distanceLimit ≤ h.obj.storedDistance →
    AllSteps (insertStep haversineDist) (KeepsMinimum haversineDist) h post

/-- How far the point recorded `j` points before the last one lies behind
it on the recorded path. -/
def behind (h : History) (j : ℕ) : ℚ :=
  ((h.accepted.take j).map fun e => e.2.pointDistance).sum

/-- With a report `d` further on, point `j` is left at least the limit
behind; so far it was nearer. -/
def Passes (h : History) (d : ℚ) (j : ℕ) : Prop :=
  j < h.accepted.length ∧ h.behind j < h.obj.distanceLimit ∧ h.obj.distanceLimit ≤ h.behind j + d

/-- A report passes one of the recorded points; and where the last of them
came the limit or more after the one before it, the report comes nearer
than that. -/
def PassesOne (haversineDist : Distance) (h : History) (v : VehicleData) : Prop :=
  1 ≤ h.obj.size → h.obj.distanceLimit ≤ h.obj.storedDistance →
    ¬ h.obj.Skips haversineDist (h.obj.dataArray h.obj.prevIdx) v →
    let d := PHpoints.distanceTo haversineDist (h.obj.dataArray h.obj.prevIdx) v
    if h.behind 1 < h.obj.distanceLimit then ∃! j, h.Passes d j else d < h.obj.distanceLimit

/-! ## The recorded path -/

section Path

variable {h : History}

@[simp] theorem behind_zero (h : History) : h.behind 0 = 0 := rfl

theorem behind_succ {j : ℕ} {e : ℤ × PHData} (he : h.accepted[j]? = some e) :
    h.behind (j + 1) = h.behind j + e.2.pointDistance := by
  rw [behind, List.take_add_one, he]
  simp [behind]

/-- No recorded distance is negative. -/
def Forward (h : History) : Prop := ∀ e ∈ h.accepted, 0 ≤ e.2.pointDistance

theorem Forward.monotone (hf : Forward h) : Monotone h.behind := by
  refine monotone_nat_of_le_succ fun j => ?_
  cases he : h.accepted[j]? with
  | none =>
    rw [behind, behind, List.take_add_one, he]
    simp
  | some e =>
    rw [behind_succ he]
    exact le_add_of_nonneg_right (hf e (List.mem_of_getElem? he))

/-- What trimming leaves is what lies behind the last point, up to the
point before the oldest one left. -/
theorem leftAfter_eq_behind (hl : Ledger h) :
    ∀ {m k : ℕ}, h.obj.size = k + m → h.obj.leftAfter k = h.behind m
  | 0, k, hsize => by
      have hk : h.obj.size.toNat = k := by omega
      rw [PHpoints.leftAfter, hl.books.storedDistance_eq, hk, sub_self, behind_zero]
  | m + 1, k, hsize => by
      have hrec := leftAfter_eq_behind hl (m := m) (k := k + 1) (by rw [hsize]; push_cast; ring)
      have hslot : slotBack h.obj.vectorReservedSize h.obj.nextIdx m =
          (h.obj.oldestIdx + k) % h.obj.vectorReservedSize := by
        rw [hl.books.oldestIdx_eq, Int.emod_add_emod, slotBack, hsize]
        congr 1
        push_cast
        ring
      have hlive := hl.window.live (j := m) (by omega)
      rw [hslot] at hlive
      rw [behind_succ hlive, ← hrec, PHpoints.leftAfter, PHpoints.leftAfter, windowSum, windowSum,
        Finset.sum_range_succ]
      ring

/-- In a growing sequence that passes the limit behind index `m + 1`, that
index alone is passed by a step of `d` exactly when `d` takes it over the
limit and not the one before. -/
theorem existsUnique_passed {b : ℕ → ℚ} (hb : Monotone b) {m n : ℕ} {limit d : ℚ}
    (hm : m + 1 < n) (hlt : b (m + 1) < limit) (hle : limit ≤ b (m + 2)) :
    (∃! j, j < n ∧ b j < limit ∧ limit ≤ b j + d) ↔
      limit ≤ b (m + 1) + d ∧ b m + d < limit := by
  have hnear : ∀ j, b j < limit → j ≤ m + 1 := by
    intro j hj
    by_contra hfar
    exact absurd (le_trans hle (hb (show m + 2 ≤ j by omega))) (not_le.mpr hj)
  constructor
  · intro hex
    obtain ⟨j, ⟨-, hj, hjd⟩, huniq⟩ := hex
    have hgrown : b j ≤ b (m + 1) := hb (hnear j hj)
    have hlast : limit ≤ b (m + 1) + d := by linarith
    refine ⟨hlast, ?_⟩
    by_contra hbefore
    have h₁ : m + 1 = j := huniq _ ⟨hm, hlt, hlast⟩
    have h₂ : m = j :=
      huniq _ ⟨by omega, lt_of_le_of_lt (hb (Nat.le_succ m)) hlt, not_lt.mp hbefore⟩
    omega
  · intro hex
    obtain ⟨hlast, hbefore⟩ := hex
    refine ⟨m + 1, ⟨hm, hlt, hlast⟩, fun j hj => ?_⟩
    obtain ⟨-, hj, hjd⟩ := hj
    by_contra hne
    have hle' := hnear j hj
    have hgrown : b j ≤ b m := hb (by omega)
    linarith

end Path

section Step

variable {haversineDist : Distance} {h : History} {v : VehicleData}

/-- The object after an accepted report, by how many points are left. -/
theorem accepted_of_trimsTo (hl : Ledger h) (hfree : NotFull h) (hsize : 1 ≤ h.obj.size)
    (hskip : ¬ h.obj.Skips haversineDist (h.obj.dataArray h.obj.prevIdx) v)
    {p : PHpoints} (heq : h.obj.insert haversineDist v = (.inserted, p)) :
    ∃ k m : ℕ, h.obj.TrimsTo k ∧ h.obj.size = k + (m + 1) ∧
      p.distanceLimit = h.obj.distanceLimit ∧ p.size = m + 2 ∧
      p.storedDistance = h.behind (m + 1) +
        PHpoints.distanceTo haversineDist (h.obj.dataArray h.obj.prevIdx) v ∧
      h.behind (m + 1) = h.behind m + (p.dataArray p.oldestIdx).pointDistance := by
  have hb := hl.books
  obtain ⟨k, hk, hold⟩ :=
    PHpoints.removeOld_spec hl.policy hsize hb.oldestIdx_nonneg hb.oldestIdx_lt
  have hfree' : h.obj.size < h.obj.vectorReservedSize := hfree
  have hlt := hk.lt_size
  obtain ⟨m, hm⟩ : ∃ m : ℕ, h.obj.size = k + (m + 1) := ⟨(h.obj.size - k - 1).toNat, by omega⟩
  have hobj := obj_of_accepted hsize hskip heq
  rw [hold] at hobj
  refine ⟨k, m, hk, hm, by rw [hobj]; rfl, ?_, ?_, ?_⟩
  · rw [hobj]
    refine (if_pos (by show h.obj.size - k < h.obj.vectorReservedSize; omega)).trans ?_
    show h.obj.size - k + 1 = _
    omega
  · rw [hobj, ← leftAfter_eq_behind hl (m := m + 1) (k := k) (by push_cast; exact hm)]
    rfl
  · -- the slot written to is not one of the window
    have hslot : (h.obj.oldestIdx + k) % h.obj.vectorReservedSize ≠ h.obj.nextIdx := by
      have hne := emod_ne_of_lt (c := h.obj.vectorReservedSize)
        (a := h.obj.nextIdx - h.obj.size + k) (b := h.obj.nextIdx) (by omega) (by omega)
      rwa [Int.emod_eq_of_lt hb.nextIdx_nonneg hb.nextIdx_lt, ← Int.emod_add_emod,
        ← hb.oldestIdx_eq] at hne
    have hlive := hl.window.live (j := m) (by omega)
    have hback : slotBack h.obj.vectorReservedSize h.obj.nextIdx m =
        (h.obj.oldestIdx + k) % h.obj.vectorReservedSize := by
      rw [hb.oldestIdx_eq, Int.emod_add_emod, slotBack, hm]
      congr 1
      ring
    rw [hback] at hlive
    rw [behind_succ hlive, hobj]
    exact congrArg _ (congrArg PHData.pointDistance (Function.update_of_ne hslot _ _).symm)

/-- What is dropped, read on the recorded path: with two points left or
more, the oldest of them is the first that lies nearer than the limit
behind the last one. -/
theorem behind_of_trimsTo (hl : Ledger h) {k m : ℕ} (hk : h.obj.TrimsTo k)
    (hm : h.obj.size = k + (m + 1)) (hreached : h.obj.distanceLimit ≤ h.obj.storedDistance) :
    (h.behind (m + 1) < h.obj.distanceLimit ∧ h.obj.distanceLimit ≤ h.behind (m + 2) ∧
        (m : ℤ) + 2 ≤ h.obj.size) ∨
      (m = 0 ∧ h.obj.distanceLimit ≤ h.behind 1) := by
  have hleft := leftAfter_eq_behind hl (m := m + 1) (k := k) (by push_cast; exact hm)
  by_cases hbelow : h.behind (m + 1) < h.obj.distanceLimit
  · left
    cases k with
    | zero =>
      rw [PHpoints.leftAfter_zero] at hleft
      rw [← hleft] at hbelow
      exact absurd hreached (not_le.mpr hbelow)
    | succ k =>
      have hon := hk.goes_on k (Nat.lt_succ_self k)
      rw [leftAfter_eq_behind hl (m := m + 2) (k := k) (by rw [hm]; push_cast; ring)] at hon
      exact ⟨hbelow, hon, by rw [hm]; push_cast; omega⟩
  · right
    have hlast : m = 0 := by
      rcases hk.stops with hone | hshort
      · omega
      · rw [hleft] at hshort
        exact absurd hshort hbelow
    rw [hlast] at hbelow
    exact ⟨hlast, not_lt.mp hbelow⟩

/-- What holds along the runs. -/
structure Recorded (h : History) : Prop where
  ledger : Ledger h
  notFull : NotFull h
  forward : Forward h

/-- From a state that has reached the limit, a report that is inserted
leaves the documented amount exactly when it passes one point. -/
theorem atMinimum_iff (hI : Recorded h) (hsize : 1 ≤ h.obj.size)
    (hskip : ¬ h.obj.Skips haversineDist (h.obj.dataArray h.obj.prevIdx) v)
    (hdist : 0 ≤ PHpoints.distanceTo haversineDist (h.obj.dataArray h.obj.prevIdx) v)
    (hreached : h.obj.distanceLimit ≤ h.obj.storedDistance)
    {p : PHpoints} (heq : h.obj.insert haversineDist v = (.inserted, p)) :
    AtMinimum p ↔
      if h.behind 1 < h.obj.distanceLimit then
        ∃! j, h.Passes (PHpoints.distanceTo haversineDist (h.obj.dataArray h.obj.prevIdx) v) j
      else PHpoints.distanceTo haversineDist (h.obj.dataArray h.obj.prevIdx) v <
        h.obj.distanceLimit := by
  obtain ⟨k, m, hk, hm, hlimit, hsize', hstored, holdest⟩ :=
    accepted_of_trimsTo hI.ledger hI.notFull hsize hskip heq
  have hmono := hI.forward.monotone
  have hlen := hI.ledger.window.size_le_length
  -- the sum without the oldest point is what lies between it and the report
  have hminimum : AtMinimum p ↔
      h.obj.distanceLimit ≤ h.behind (m + 1) +
          PHpoints.distanceTo haversineDist (h.obj.dataArray h.obj.prevIdx) v ∧
        h.behind m + PHpoints.distanceTo haversineDist (h.obj.dataArray h.obj.prevIdx) v <
          h.obj.distanceLimit := by
    rw [AtMinimum, hlimit, hsize', hstored, holdest, or_iff_right (by omega), add_right_comm,
      add_sub_cancel_right]
  rw [hminimum]
  rcases behind_of_trimsTo hI.ledger hk hm hreached with ⟨hbelow, hon, hleft⟩ | ⟨rfl, hfar⟩
  · rw [if_pos (lt_of_le_of_lt (hmono (by omega)) hbelow)]
    exact (existsUnique_passed hmono (by omega) hbelow hon).symm
  · rw [if_neg (not_lt.mpr hfar), behind_zero, zero_add, zero_add,
      and_iff_right (le_trans hfar (le_add_of_nonneg_right hdist))]

/-- From a state that has reached the limit, a report keeps the documented
amount exactly when it passes one point. -/
theorem keepsMinimum_iff (hdist : ∀ latA lonA latB lonB, 0 ≤ haversineDist latA lonA latB lonB)
    (h : History) (v : VehicleData) (hI : Recorded h) :
    (h.obj.distanceLimit ≤ h.obj.storedDistance → KeepsMinimum haversineDist h v) ↔
      PassesOne haversineDist h v := by
  have hcases := PHpoints.insert_cases haversineDist v hI.ledger.window.size_nonneg
    hI.ledger.window.size_le hI.ledger.window.capacity_pos
  constructor
  · intro hkeeps hsize hreached hskip
    rcases hcases with ⟨-, hskip', -⟩ | ⟨p, heq, -⟩
    · exact absurd hskip' hskip
    · exact (atMinimum_iff hI hsize hskip (hdist _ _ _ _) hreached heq).mp (hkeeps hreached p heq)
  · intro hpasses hreached p heq
    rcases hcases with ⟨-, -, hskipped⟩ | ⟨p', heq', ⟨hsize, hskip, -⟩ | ⟨hempty, -⟩⟩
    · rw [hskipped] at heq
      cases heq
    · exact (atMinimum_iff hI hsize hskip (hdist _ _ _ _) hreached heq).mpr
        (hpasses hsize hreached hskip)
    · -- the first point
      have hcap := hI.ledger.window.capacity_pos
      rw [PHpoints.insert_of_empty haversineDist v (by omega), Prod.mk.injEq] at heq
      rw [← heq.2]
      refine ⟨hreached, Or.inl ?_⟩
      show (if h.obj.size < h.obj.vectorReservedSize then h.obj.size + 1 else h.obj.size) = 1
      rw [if_pos (by omega), hempty, zero_add]

/-- An accepted distance is one of `haversineDist`, or zero. -/
theorem forward_step (hdist : ∀ latA lonA latB lonB, 0 ≤ haversineDist latA lonA latB lonB)
    (hw : Window h) (hf : Forward h) {h' : History}
    (hs : insertStep haversineDist h v = some h') : Forward h' := by
  have haccept : ∀ (pointDist : ℚ) (p : PHpoints), 0 ≤ pointDist →
      Forward (accept h v pointDist p) := by
    intro pointDist p hnonneg e he
    rcases List.mem_cons.mp he with rfl | he
    · exact hnonneg
    · exact hf e he
  rcases step_insert hw hs with ⟨-, -, rfl⟩ | ⟨p, -, ⟨-, -, -, rfl⟩ | ⟨-, -, rfl⟩⟩
  · exact hf
  · exact haccept _ p (hdist _ _ _ _)
  · exact haccept 0 p le_rfl

/-- A report that keeps the documented amount leaves the limit reached. -/
theorem reached_step (hw : Window h) {h' : History}
    (hreached : h.obj.distanceLimit ≤ h.obj.storedDistance)
    (hkeeps : KeepsMinimum haversineDist h v) (hs : insertStep haversineDist h v = some h') :
    h'.obj.distanceLimit ≤ h'.obj.storedDistance := by
  rcases step_insert hw hs with
    ⟨-, -, rfl⟩ | ⟨p, heq, ⟨-, -, -, rfl⟩ | ⟨-, -, rfl⟩⟩
  · exact hreached
  · exact (hkeeps p heq).1
  · exact (hkeeps p heq).1

/-- Below the limit an accepted report joins the live points. -/
theorem live_step (hI : Ledger h ∧ h.obj.size = h.accepted.length) {h' : History}
    (hC : NotFull h ∧ h.obj.storedDistance < h.obj.distanceLimit)
    (hs : insertStep haversineDist h v = some h') :
    Ledger h' ∧ h'.obj.size = h'.accepted.length := by
  obtain ⟨hl, hlive⟩ := hI
  obtain ⟨hfree, hbelow⟩ := hC
  refine ⟨ledger_step h v h' hl (fun _ _ => Or.inl hfree) hs, ?_⟩
  rcases step_insert hl.window hs with
    ⟨-, -, rfl⟩ | ⟨p, heq, ⟨hsize, hskip, -, rfl⟩ | ⟨hempty, -, rfl⟩⟩
  · exact hlive
  · have hkept := PHpoints.removeOld_of_short hl.policy fun hlong =>
      absurd hbelow (not_lt.mpr hlong.2)
    have hobj := obj_of_accepted hsize hskip heq
    rw [hkept] at hobj
    have hgrown : p.size = h.obj.size + 1 := by
      rw [hobj]
      exact if_pos hfree
    rw [accept, List.length_cons, hgrown, hlive]
    push_cast
    rfl
  · rw [PHpoints.insert_of_empty haversineDist v (by omega), Prod.mk.injEq] at heq
    have hgrown : p.size = h.obj.size + 1 := by
      rw [← heq.2]
      exact if_pos hfree
    rw [accept, List.length_cons, hgrown, hlive]
    push_cast
    rfl

end Step

/-! ## Whole runs -/

section Run

variable {haversineDist : Distance} {start : History} {vs : List VehicleData}

/-- A run that never fills the ring keeps the ledger, and the recorded
distances are those of the reports. -/
theorem recorded_run (hdist : ∀ latA lonA latB lonB, 0 ≤ haversineDist latA lonA latB lonB)
    (hstart : Ledger start) (hforward : Forward start)
    (hfree : AllStates (insertStep haversineDist) NotFull start vs) :
    AllStates (insertStep haversineDist) Recorded start vs := by
  have hboth : AllStates (insertStep haversineDist) (fun h => Ledger h ∧ Forward h) start vs :=
    allStates_of_allSteps
      (fun h v h' hI hroom hs => ⟨ledger_step h v h' hI.1 (fun _ _ => Or.inl hroom) hs,
        forward_step hdist hI.1.window hI.2 hs⟩)
      ⟨hstart, hforward⟩ hfree.allSteps
  exact (hboth.and hfree).mono fun h hI => ⟨hI.1.1, hI.2, hI.1.2⟩

theorem KeepsDocumented.steps (hdoc : KeepsDocumented haversineDist start vs) :
    AllSteps (insertStep haversineDist)
      (fun h v => h.obj.distanceLimit ≤ h.obj.storedDistance → KeepsMinimum haversineDist h v)
      start vs :=
  fun pre v post h heq hrun hreached =>
    (allSteps_cons.mp (hdoc pre (v :: post) h heq hrun hreached)).1

/-- Once reached, the limit stays reached as long as each report keeps the
documented amount. -/
theorem keepsDocumented_iff
    (hall : AllStates (insertStep haversineDist) Recorded start vs) :
    KeepsDocumented haversineDist start vs ↔
      AllSteps (insertStep haversineDist)
        (fun h v => h.obj.distanceLimit ≤ h.obj.storedDistance → KeepsMinimum haversineDist h v)
        start vs := by
  constructor
  · exact KeepsDocumented.steps
  · rintro hsteps pre post h rfl hrun hreached
    refine allSteps_of_allSteps (I := fun h => h.obj.distanceLimit ≤ h.obj.storedDistance)
      (C := fun h v => Ledger h ∧
        (h.obj.distanceLimit ≤ h.obj.storedDistance → KeepsMinimum haversineDist h v))
      (fun s v s' hr hC hs => reached_step hC.1.window hr (hC.2 hr) hs)
      (fun s v hr hC => hC.2 hr) hreached ?_
    intro pre' v post' s heq hrun'
    exact ⟨(((hall.after hrun).allSteps) pre' v post' s heq hrun').ledger,
      hsteps.after hrun pre' v post' s heq hrun'⟩

/-- Until the stored distance reaches the limit, every accepted point is
live. -/
theorem all_live_run (hstart : Ledger start) (hempty : start.obj.size = start.accepted.length)
    (hfree : AllStates (insertStep haversineDist) NotFull start vs)
    (hbelow : AllSteps (insertStep haversineDist)
      (fun h _ => h.obj.storedDistance < h.obj.distanceLimit) start vs)
    {h : History} (hrun : run (insertStep haversineDist) start vs = some h) :
    h.obj.size = h.accepted.length := by
  have hlive := allStates_of_allSteps
    (I := fun h => Ledger h ∧ h.obj.size = h.accepted.length)
    (C := fun h _ => NotFull h ∧ h.obj.storedDistance < h.obj.distanceLimit)
    (fun _ _ _ hI hC hs => live_step hI hC hs) ⟨hstart, hempty⟩
    (fun pre v post s heq hr => ⟨hfree.allSteps pre v post s heq hr, hbelow pre v post s heq hr⟩)
  exact (hlive.last hrun).2

end Run

/-- A history of 10 m, of points at least 1 m apart. -/
def tenMetres : History := start (PHpoints.newWith ⟨0, fun _ => default⟩ 10 1 1 10)

instance : DecidablePred NotFull := fun h =>
  inferInstanceAs (Decidable (h.obj.size < h.obj.vectorReservedSize))

instance : DecidablePred AtMinimum := fun _ => inferInstanceAs (Decidable (_ ∧ _))

instance (haversineDist : Distance) (h : History) (v : VehicleData) :
    Decidable (KeepsMinimum haversineDist h v) :=
  match heq : h.obj.insert haversineDist v with
  | (.inserted, p) => decidable_of_iff (AtMinimum p) (by
      unfold KeepsMinimum
      rw [heq]
      simp)
  | (.skipped, _) | (.continueIteration, _) | (.terminateIteration, _) | (.error, _) =>
    isTrue (by
      intro p hp
      rw [heq] at hp
      cases hp)

end History

end SLDM.Store
