/-
SLDM.Store.HistoryScan — the loop that copies a path history.

Both JSON writers copy the history of a vehicle with

    while(path_history->iterate(phdataiter,nullptr)!=PHP_TERMINATE_ITERATION)

from a fresh iterator. `Window.exec_scanTurn` says where the loop is left
and with what: the live points, newest first, the newest one passed over
unless `m_iterateFull` is set. `Record.scan_history` reads that for the
history the database keeps of a station, in terms of the data inserted
for it.
-/
import SLDM.Lib.Loops
import SLDM.Store.PathHistoryIteration
import SLDM.Store.Refinement

namespace SLDM.Store

open Loops Ring Runs

namespace PHpoints

/-! ## The loop -/

/-- A turn of the loop. The list is what has been pushed so far. -/
def scanTurn (p : PHpoints) (s : PHDataIter × List PHData) : Option (PHDataIter × List PHData) :=
  let (retval, it, _) := p.iterate s.1 none
  if retval = .terminateIteration then none else some (it, s.2 ++ [it.data])

/-- What the loop has pushed when it is left. A turn for every live point
and one more suffice (`Window.exec_scanTurn`). -/
def scan (p : PHpoints) : List PHData :=
  ((exec p.scanTurn (p.size.toNat + 1) (History.newIterator, [])).map Prod.snd).getD []

theorem scanTurn_of_terminate {p : PHpoints} {it : PHDataIter} (acc : List PHData)
    (h : (p.iterate it none).1 = .terminateIteration) : p.scanTurn (it, acc) = none :=
  if_pos h

theorem scanTurn_of_continue {p : PHpoints} {it : PHDataIter} (acc : List PHData)
    (h : (p.iterate it none).1 = .continueIteration) :
    p.scanTurn (it, acc) =
      some ((p.iterate it none).2.1, acc ++ [(p.iterate it none).2.1.data]) := by
  have hne : (p.iterate it none).1 ≠ .terminateIteration := by rw [h]; decide
  exact if_neg hne

end PHpoints

namespace History

variable {h : History}

/-! ## What the loop pushes -/

/-- The live points, newest first. -/
def livePoints (h : History) : List PHData := (h.accepted.take h.obj.size.toNat).map Prod.snd

theorem Window.length_livePoints (hw : Window h) : h.livePoints.length = h.obj.size.toNat := by
  have hle := hw.size_le_length
  rw [livePoints, List.length_map, List.length_take]
  omega

theorem Window.length_drop_livePoints (hw : Window h) :
    (h.livePoints.drop h.obj.offset).length = h.obj.continuations := by
  have hnonneg := hw.size_nonneg
  rw [List.length_drop, hw.length_livePoints, PHpoints.offset, PHpoints.continuations]
  split <;> omega

/-- The `k`-th call returns the `k`-th of them. -/
theorem Window.getElem?_livePoints (hw : Window h) {it : PHDataIter} (hit : it.ptrDataArray = false)
    (out : ℕ → Option PHData) {k : ℕ} (hk : k < h.obj.continuations) :
    (h.livePoints.drop h.obj.offset)[k]? = some (h.obj.nthCall it out k).2.1.data := by
  obtain ⟨-, hdata⟩ := hw.nthCall_live hit out hk
  have hsize := PHpoints.lt_continuations_iff.mp hk
  have hlog := hw.live hsize
  rw [List.getElem?_drop, livePoints, List.getElem?_map, List.getElem?_take, if_pos (by omega),
    hlog,
    hdata]
  rfl

/-- From the `k`-th call on the loop pushes the points that are left. -/
theorem Window.exec_scanTurn (hw : Window h) (it : PHDataIter) (hit : it.ptrDataArray = false)
    (fuel : ℕ) : ∀ (n k : ℕ) (acc : List PHData), k + n = h.obj.continuations →
      ∃ it', exec h.obj.scanTurn (n + 1 + fuel) (h.obj.iterators it (fun _ => none) k, acc) =
        some (it', acc ++ (h.livePoints.drop h.obj.offset).drop k) := by
  intro n
  induction n with
  | zero =>
    intro k acc hk
    have hret := hw.nthCall_of_ge hit (fun _ => none) (Nat.le_of_eq hk.symm)
    have hall : (h.livePoints.drop h.obj.offset).drop k = [] :=
      List.drop_of_length_le (by rw [hw.length_drop_livePoints]; omega)
    refine ⟨h.obj.iterators it (fun _ => none) k, ?_⟩
    rw [hall, List.append_nil, Nat.zero_add, Nat.add_comm]
    exact exec_of_done (PHpoints.scanTurn_of_terminate acc hret) fuel
  | succ n ih =>
    intro k acc hk
    have hlt : k < h.obj.continuations := by omega
    obtain ⟨hret, -⟩ := hw.nthCall_live hit (fun _ => none) hlt
    obtain ⟨hbound, hpoint⟩ :=
      List.getElem?_eq_some_iff.mp (hw.getElem?_livePoints hit (fun _ => none) hlt)
    obtain ⟨it', hexec⟩ := ih (k + 1)
      (acc ++ [(h.obj.nthCall it (fun _ => none) k).2.1.data]) (by omega)
    refine ⟨it', ?_⟩
    rw [show n + 1 + 1 + fuel = (n + 1 + fuel) + 1 by omega,
      exec_of_turn (PHpoints.scanTurn_of_continue acc hret), List.drop_eq_getElem_cons hbound,
      hpoint]
    rw [List.append_assoc] at hexec
    exact hexec

/-- The loop ends, and pushes the live points without the newest one or,
with `m_iterateFull`, all of them. -/
theorem Window.scan_eq (hw : Window h) : h.obj.scan = h.livePoints.drop h.obj.offset := by
  have hle : h.obj.continuations ≤ h.obj.size.toNat := by
    rw [← hw.length_drop_livePoints, List.length_drop, hw.length_livePoints]
    omega
  obtain ⟨it', hexec⟩ := hw.exec_scanTurn newIterator rfl
    (h.obj.size.toNat - h.obj.continuations) h.obj.continuations 0 [] (Nat.zero_add _)
  rw [PHpoints.scan, show h.obj.size.toNat + 1 =
    h.obj.continuations + 1 + (h.obj.size.toNat - h.obj.continuations) by omega]
  rw [show h.obj.iterators newIterator (fun _ => none) 0 = newIterator from rfl] at hexec
  rw [hexec]
  simp

end History

/-! ## The history of a station -/

namespace Record

variable (haversineDist : Distance) (r : Record)

/-- The calls of `insert` the database has made on the history. -/
def run : Option History :=
  Runs.run (History.step haversineDist) (History.start (PHpoints.new r.junk))
    (r.inserted.map Call.insert)

/-- The history with the points it has accepted, newest first. -/
def log : History := (r.run haversineDist).getD (History.start (PHpoints.new r.junk))

theorem run_eq : r.run haversineDist = some (r.log haversineDist) :=
  History.run_eq_getD haversineDist _ _

/-- A run of insertions ends in the object the insertions give. -/
theorem obj_run_insert : ∀ {h h' : History} (vs : List VehicleData),
    Runs.run (History.step haversineDist) h (vs.map Call.insert) = some h' →
      h'.obj = h.obj.insertAll haversineDist vs
  | _, _, [], hrun => by cases hrun; rfl
  | h, h', v :: vs, hrun => by
      have hstep : ∃ h₁, History.step haversineDist h (.insert v) = some h₁ ∧
          h₁.obj = (h.obj.insert haversineDist v).2 := by
        rw [History.step]
        split <;> rename_i heq <;> exact ⟨_, rfl, by rw [heq]⟩
      obtain ⟨h₁, hs, hobj⟩ := hstep
      rw [List.map_cons, run_cons_of_step _ hs] at hrun
      rw [obj_run_insert vs hrun, hobj]
      rfl

theorem obj_log : (r.log haversineDist).obj = r.history haversineDist :=
  obj_run_insert haversineDist r.inserted (r.run_eq haversineDist)

/-- The iterate policy is the one of a new object, and every point comes
from data inserted. -/
structure FromData (vs : List VehicleData) (h : History) : Prop where
  window : History.Window h
  iterateFull : h.obj.iterateFull = false
  points : ∀ slot ∈ h.accepted, ∃ v ∈ vs, ∃ d, slot.2 = PHpoints.pointOf v d

theorem FromData.accept {vs : List VehicleData} {h : History} {v : VehicleData} {d : ℚ}
    {p : PHpoints} (hdata : FromData vs h) (hv : v ∈ vs) (hacc : h.obj.Accepted v d p) :
    FromData vs (History.accept h v d p) where
  window := hdata.window.accept hacc
  iterateFull := by
    show p.iterateFull = false
    rw [hacc.frame]
    exact hdata.iterateFull
  points := List.forall_mem_cons.mpr ⟨⟨v, hv, d, rfl⟩, hdata.points⟩

theorem fromData_step {vs : List VehicleData} (h : History) (c : Call) (h' : History)
    (hdata : FromData vs h) (hc : ∃ v ∈ vs, c = .insert v)
    (hs : History.step haversineDist h c = some h') : FromData vs h' := by
  obtain ⟨v, hv, rfl⟩ := hc
  rcases History.step_insert hdata.window hs with
    ⟨-, -, rfl⟩ | ⟨p, -, ⟨-, -, hacc, rfl⟩ | ⟨-, hacc, rfl⟩⟩
  · exact hdata
  · exact hdata.accept hv hacc
  · exact hdata.accept hv hacc

theorem fromData_log : FromData r.inserted (r.log haversineDist) := by
  have hcalls : AllSteps (History.step haversineDist)
      (fun _ c => ∃ v ∈ r.inserted, c = Call.insert v)
      (History.start (PHpoints.new r.junk)) (r.inserted.map Call.insert) := by
    intro pre c post _ heq _
    have hmem : c ∈ r.inserted.map Call.insert := by rw [heq]; simp
    obtain ⟨v, hv, rfl⟩ := List.mem_map.mp hmem
    exact ⟨v, hv, rfl⟩
  have hstart : FromData r.inserted (History.start (PHpoints.new r.junk)) :=
    ⟨History.window_start (PHpoints.fresh_new r.junk), rfl, fun slot hslot => by cases hslot⟩
  exact (allStates_of_allSteps (fromData_step haversineDist) hstart hcalls).last
    (r.run_eq haversineDist)

/-- The points a reader of the history gets: the live ones but the newest,
newest first. -/
def points : List PHData := (r.log haversineDist).livePoints.drop 1

theorem scan_history : (r.history haversineDist).scan = r.points haversineDist := by
  have hscan := (r.fromData_log haversineDist).window.scan_eq
  rw [PHpoints.offset, (r.fromData_log haversineDist).iterateFull] at hscan
  rw [← obj_log]
  exact hscan

/-- Each of them is the position of data inserted for the station. -/
theorem mem_points {point : PHData} (h : point ∈ r.points haversineDist) :
    ∃ v ∈ r.inserted, ∃ d, point = PHpoints.pointOf v d := by
  have hlive := List.mem_of_mem_drop h
  obtain ⟨slot, hslot, rfl⟩ := List.mem_map.mp hlive
  exact (r.fromData_log haversineDist).points slot (List.mem_of_mem_take hslot)

end Record

end SLDM.Store
