/-
SLDM.Store.ConcurrentInsertTheorems — when concurrent inserts and garbage
collection passes keep the database consistent.

`Sound` is what a caller relies on once all calls have finished: each
station written and not collected since is present with its data, the
cardinality is the number of entries, and no null history was used. An
insert decides on a path by checks made outside the locks; `StepSafe` says
that what the checks found still holds where the path acts on it: the slot
to be written is empty, the entry of a locked write is absent exactly if
it was counted, the entry to be appended to has not been collected.

`Consistent` is the invariant behind it: between a check that counted a
new entry and its locked write the cardinality runs ahead, so it is the
number of entries plus the number of calls in between (`pending`).
`step_consistent` is the step lemma, one case per step, and
`sound_of_safe` the statement about runs.
-/
import SLDM.Store.ConcurrentInsert

namespace SLDM.Store

open NestedMap Runs

namespace Concurrent

/-! ## Soundness and the condition on the steps -/

/-- All calls have returned and no pass is in progress. -/
def AllFinished (s : Concurrent) : Prop :=
  (∀ t ∈ s.inserts, ∃ retval, t.pc = .returned retval) ∧ s.passes = []

/-- What holds when all calls have finished, and what must never happen. -/
structure Sound (s : Concurrent) : Prop where
  noNullUse : s.nullUse = false
  present : s.AllFinished → ∀ id v, s.written id = some v →
    ∃ e, s.db.entry id = some e ∧ e.vehData = v
  card : s.AllFinished → s.db.card.toNat = size s.db.ldmmap

/-- What a call's checks found still holds where it acts on it. -/
def CallSafe (s : Concurrent) (t : InsertThread) : Prop :=
  let id := t.call.newVehicleData.stationID
  match t.pc with
  | .writeSlot => ∀ kl, find s.db.ldmmap (keyUpper id) kl = none
  | .lockedWrite retval =>
    if retval = .ok then s.db.entry id = none
    else ∃ e, s.db.entry id = some e ∧ e.vehData.stationID = id
  | .append _ => s.db.entry id ≠ none
  | _ => True

/-- The step is not one of a call whose checks have been overtaken. -/
def StepSafe (s : Concurrent) : ConcurrentStep → Prop
  | .insert i => ∀ t, s.inserts[i]? = some t → s.CallSafe t
  | _ => True

/-! ## The invariant -/

/-- A call that has counted its entry and not written it. -/
def isPending (t : InsertThread) : Bool := t.pc = .lockedWrite .ok

/-- How far the cardinality runs ahead. -/
def pending (s : Concurrent) : ℕ := s.inserts.countP isPending

/-- The invariant. -/
structure Consistent (s : Concurrent) : Prop where
  card : s.db.card = UInt64.ofNat (size s.db.ldmmap + s.pending)
  phData : ∀ ku kl e, find s.db.ldmmap ku kl = some e → e.phData.isSome
  keys : ∀ ku kl e, find s.db.ldmmap ku kl = some e →
    (ku, kl) = (keyUpper e.vehData.stationID, keyLower e.vehData.stationID)
  written : ∀ id v, s.written id = some v →
    ∃ e, s.db.entry id = some e ∧ e.vehData = v ∧ v.stationID = id
  noNullUse : s.nullUse = false

theorem initial_consistent : Consistent initial where
  card := rfl
  phData ku kl e h := by rw [show initial.db.ldmmap = ∅ from rfl, find_empty] at h; cases h
  keys ku kl e h := by rw [show initial.db.ldmmap = ∅ from rfl, find_empty] at h; cases h
  written id v h := by cases h
  noNullUse := rfl

/-- The invariant gives soundness. -/
theorem Consistent.sound {s : Concurrent} (h : Consistent s) : Sound s where
  noNullUse := h.noNullUse
  present _ id v hv := by
    obtain ⟨e, he, hdata, -⟩ := h.written id v hv
    exact ⟨e, he, hdata⟩
  card hfinished := by
    have hpending : s.pending = 0 := by
      refine List.countP_eq_zero.mpr fun t ht => ?_
      obtain ⟨retval, hpc⟩ := hfinished.1 t ht
      simp [isPending, hpc]
    have hsize : size s.db.ldmmap ≤ 2 ^ 32 :=
      LDMMap.size_le_of_keys fun ku kl e he => ⟨_, h.keys ku kl e he⟩
    rw [h.card, hpending, Nat.add_zero, UInt64.toNat_ofNat']
    exact Nat.mod_eq_of_lt (by omega)

/-- How a call that goes on changes the number of pending calls. -/
theorem pending_set {s : Concurrent} {i : ℕ} {t : InsertThread} (ht : s.inserts[i]? = some t)
    (t' : InsertThread) :
    (s.inserts.set i t').countP isPending + (if isPending t then 1 else 0)
      = s.pending + if isPending t' then 1 else 0 := by
  obtain ⟨hi, rfl⟩ := List.getElem?_eq_some_iff.mp ht
  have hle : (if isPending s.inserts[i] then 1 else 0) ≤ s.inserts.countP isPending :=
    List.boole_getElem_le_countP hi
  rw [List.countP_set hi, pending]
  omega

theorem eq_of_update_self {written : UInt64 → Option VehicleData} {id : UInt64}
    {v v' : VehicleData} (h : Function.update written id (some v) id = some v') : v' = v := by
  rw [Function.update_self] at h
  exact (Option.some.inj h).symm

/-- One cell rewritten with data of a station keeps all of the invariant
that is about cells. -/
theorem Consistent.of_cell {s s' : Concurrent} (h : Consistent s) {id : UInt64}
    {e : ReturnedVehicleData} (hphData : e.phData.isSome) (hid : e.vehData.stationID = id)
    (hfree : ∀ e', s.db.entry id = some e' → e'.vehData.stationID = id)
    (hfind : ∀ ku kl, find s'.db.ldmmap ku kl =
      if (ku, kl) = (keyUpper id, keyLower id) then some e else find s.db.ldmmap ku kl)
    (hcard : s'.db.card = UInt64.ofNat (size s'.db.ldmmap + s'.pending))
    (hother : ∀ id', id' ≠ id → s'.written id' = s.written id')
    (hself : ∀ v, s'.written id = some v → v = e.vehData)
    (hnull : s'.nullUse = false) : Consistent s' where
  card := hcard
  phData ku kl e' he' := by
    rw [hfind] at he'
    split at he'
    · cases he'; exact hphData
    · exact h.phData ku kl e' he'
  keys ku kl e' he' := by
    rw [hfind] at he'
    split at he'
    · rename_i hk; cases he'; rw [hid]; exact hk
    · exact h.keys ku kl e' he'
  written id' v hv := by
    by_cases heq : id' = id
    · subst heq
      have hdata := hself v hv
      refine ⟨e, ?_, hdata.symm, by rw [hdata, hid]⟩
      rw [LDMMap.entry, hfind, if_pos rfl]
    · rw [hother id' heq] at hv
      obtain ⟨e', he', hdata, hsid⟩ := h.written id' v hv
      refine ⟨e', ?_, hdata, hsid⟩
      rw [LDMMap.entry, hfind, if_neg fun hk => heq ?_]
      · exact he'
      · -- a station under the same keys would be the one the cell is free for
        obtain ⟨hu, hl⟩ := Prod.ext_iff.mp hk
        simp only at hu hl
        have hsame := hfree e' (by rw [LDMMap.entry, ← hu, ← hl]; exact he')
        rw [← hsid, ← hdata, hsame]
  noNullUse := hnull

/-! ## The steps of a call keep it -/

section Steps

variable {haversineDist : Distance} {s : Concurrent} {i : ℕ} {t : InsertThread}

/-- A call that only moves on. -/
theorem Consistent.of_move (h : Consistent s) (ht : s.inserts[i]? = some t) {pc : InsertPc}
    (hfrom : isPending t = false) (hto : isPending ⟨t.call, pc⟩ = false) :
    Consistent { s with inserts := s.inserts.set i ⟨t.call, pc⟩ } where
  card := by
    have hpend := pending_set ht ⟨t.call, pc⟩
    rw [hfrom, hto] at hpend
    simp only [Bool.false_eq_true, if_false, Nat.add_zero] at hpend
    rw [pending, hpend]
    exact h.card
  phData := h.phData
  keys := h.keys
  written := h.written
  noNullUse := h.noNullUse

/-- The write of a slot that was empty. -/
theorem Consistent.writeSlot (h : Consistent s) (ht : s.inserts[i]? = some t)
    (hpc : t.pc = .writeSlot)
    (hempty : ∀ kl, find s.db.ldmmap (keyUpper t.call.newVehicleData.stationID) kl = none) :
    Consistent { s with
      db := ⟨s.db.ldmmap.insert (keyUpper t.call.newVehicleData.stationID)
        (LDMMap.freshLowerMap t.call.junk t.call.newVehicleData), s.db.card + 1⟩
      written := Function.update s.written t.call.newVehicleData.stationID
        (some t.call.newVehicleData)
      inserts := s.inserts.set i ⟨t.call, .append .ok⟩ } := by
  have hslot : ∀ kl, find s.db.ldmmap (keyUpper t.call.newVehicleData.stationID) kl =
      (∅ : Slot UInt32 ReturnedVehicleData).lookup kl := fun kl => by
    rw [hempty kl, AList.lookup_empty]
  have hpend := pending_set ht ⟨t.call, .append .ok⟩
  rw [show isPending t = false by simp [isPending, hpc],
    show isPending ⟨t.call, .append .ok⟩ = false from rfl] at hpend
  simp only [Bool.false_eq_true, if_false, Nat.add_zero] at hpend
  refine h.of_cell (e := ⟨t.call.newVehicleData, some (PHpoints.new t.call.junk)⟩) rfl rfl ?_
    (find_insert_cell hslot _ _) ?_ (fun id' hne => Function.update_of_ne hne _ _) ?_ h.noNullUse
  · intro e' he'
    rw [LDMMap.entry, hempty] at he'
    cases he'
  · rw [pending, hpend]
    simp only [LDMMap.freshLowerMap]
    rw [size_insert_new hslot _ (hempty _), h.card, Nat.add_right_comm, UInt64.ofNat_add _ 1]
    rfl
  · exact fun v hv => eq_of_update_self hv

/-- The check of the lower key counts an entry that is absent. -/
theorem Consistent.count (h : Consistent s) (ht : s.inserts[i]? = some t)
    (hpc : t.pc = .checkLower) :
    Consistent { s with
      db := ⟨s.db.ldmmap, s.db.card + 1⟩
      inserts := s.inserts.set i ⟨t.call, .lockedWrite .ok⟩ } where
  card := by
    have hpend := pending_set ht ⟨t.call, .lockedWrite .ok⟩
    rw [show isPending t = false by simp [isPending, hpc],
      show isPending ⟨t.call, .lockedWrite .ok⟩ = true from rfl] at hpend
    simp only [Bool.false_eq_true, if_false, if_true, Nat.add_zero] at hpend
    rw [pending, hpend]
    simp only [← Nat.add_assoc]
    rw [h.card, UInt64.ofNat_add _ 1]
    rfl
  phData := h.phData
  keys := h.keys
  written := h.written
  noNullUse := h.noNullUse

/-- The locked write of an entry counted before: it is still absent. -/
theorem Consistent.writeNew (h : Consistent s) (ht : s.inserts[i]? = some t)
    (hpc : t.pc = .lockedWrite .ok)
    (habsent : s.db.entry t.call.newVehicleData.stationID = none) :
    Consistent { s with
      db := ⟨LDMMap.modifyEntry (fun e => { e with phData := some (PHpoints.new t.call.junk) })
        (LDMMap.modifyEntry (fun e => { e with vehData := t.call.newVehicleData }) s.db.ldmmap
          t.call.newVehicleData.stationID) t.call.newVehicleData.stationID, s.db.card⟩
      written := Function.update s.written t.call.newVehicleData.stationID
        (some t.call.newVehicleData)
      inserts := s.inserts.set i ⟨t.call, .append .ok⟩ } := by
  have hpend := pending_set ht ⟨t.call, .append .ok⟩
  rw [show isPending t = true by simp [isPending, hpc],
    show isPending ⟨t.call, .append .ok⟩ = false from rfl] at hpend
  simp only [Bool.false_eq_true, if_false, if_true, Nat.add_zero] at hpend
  refine h.of_cell (e := ⟨t.call.newVehicleData, some (PHpoints.new t.call.junk)⟩) rfl rfl ?_
    (fun ku kl => ?_) ?_ (fun id' hne => Function.update_of_ne hne _ _) ?_ h.noNullUse
  · intro e' he'
    rw [habsent] at he'
    cases he'
  · simp only [LDMMap.modifyEntry]
    rw [find_modify, find_modify_self]
    by_cases hk : (ku, kl) = (keyUpper t.call.newVehicleData.stationID,
        keyLower t.call.newVehicleData.stationID)
    · rw [if_pos hk, if_pos hk]; rfl
    · rw [if_neg hk, if_neg hk, find_modify_ne _ _ _ hk]
  · rw [pending]
    simp only [LDMMap.modifyEntry]
    rw [size_modify_old _ _ (find_modify_self _ _ _ _ _), size_modify_new _ _ habsent, h.card,
      ← hpend]
    congr 1
    omega
  · exact fun v hv => eq_of_update_self hv

/-- The locked write of an entry found before: it is still there, and the
station's own. -/
theorem Consistent.writeUpdate (h : Consistent s) (ht : s.inserts[i]? = some t)
    {retval : LDMMapError} (hpc : t.pc = .lockedWrite retval) (hretval : retval ≠ .ok)
    {e : ReturnedVehicleData} (hentry : s.db.entry t.call.newVehicleData.stationID = some e)
    (hsid : e.vehData.stationID = t.call.newVehicleData.stationID) :
    Consistent { s with
      db := ⟨LDMMap.modifyEntry (fun e => { e with vehData := t.call.newVehicleData }) s.db.ldmmap
        t.call.newVehicleData.stationID, s.db.card⟩
      written := Function.update s.written t.call.newVehicleData.stationID
        (some t.call.newVehicleData)
      inserts := s.inserts.set i ⟨t.call, .append retval⟩ } := by
  have hpend := pending_set ht ⟨t.call, .append retval⟩
  rw [show isPending t = false by simp [isPending, hpc, hretval],
    show isPending ⟨t.call, .append retval⟩ = false from rfl] at hpend
  simp only [Bool.false_eq_true, if_false, Nat.add_zero] at hpend
  have hphData : e.phData.isSome := h.phData _ _ _ hentry
  refine h.of_cell (e := ⟨t.call.newVehicleData, e.phData⟩) hphData rfl ?_ (fun ku kl => ?_) ?_
    (fun id' hne => Function.update_of_ne hne _ _) ?_ h.noNullUse
  · intro e' he'
    rw [hentry] at he'
    cases he'
    exact hsid
  · simp only [LDMMap.modifyEntry]
    rw [find_modify, show find s.db.ldmmap _ _ = some e from hentry, Option.getD_some]
  · rw [pending, hpend]
    simp only [LDMMap.modifyEntry]
    rw [size_modify_old _ _ hentry]
    exact h.card
  · exact fun v hv => eq_of_update_self hv

/-- The append to the history of an entry that is still there. -/
theorem Consistent.appendHistory (h : Consistent s) (ht : s.inserts[i]? = some t)
    {retval : LDMMapError} (hpc : t.pc = .append retval) {e : ReturnedVehicleData}
    (hentry : s.db.entry t.call.newVehicleData.stationID = some e) :
    Consistent { s with
      db := ⟨LDMMap.modifyEntry (LDMMap.appendHistory haversineDist t.call.newVehicleData)
        s.db.ldmmap t.call.newVehicleData.stationID, s.db.card⟩
      nullUse := s.nullUse ||
        ((s.db.entry t.call.newVehicleData.stationID).bind ReturnedVehicleData.phData).isNone
      inserts := s.inserts.set i ⟨t.call, .returned retval⟩ } := by
  have hpend := pending_set ht ⟨t.call, .returned retval⟩
  rw [show isPending t = false by simp [isPending, hpc],
    show isPending ⟨t.call, .returned retval⟩ = false from rfl] at hpend
  simp only [Bool.false_eq_true, if_false, Nat.add_zero] at hpend
  have hphData : e.phData.isSome := h.phData _ _ _ hentry
  have hkeys := h.keys _ _ _ hentry
  refine h.of_cell (e := LDMMap.appendHistory haversineDist t.call.newVehicleData e) ?_
    (show _ = e.vehData.stationID from rfl) ?_
    (fun ku kl => ?_) ?_ (fun _ _ => rfl) ?_ ?_
  · simp only [LDMMap.appendHistory, Option.isSome_map]
    exact hphData
  · intro e' he'
    obtain ⟨hu, hl⟩ := Prod.ext_iff.mp hkeys
    simp only at hu hl
    rw [LDMMap.entry, ← hu, ← hl] at he'
    rw [LDMMap.entry, he'] at hentry
    cases hentry
    rfl
  · simp only [LDMMap.modifyEntry]
    rw [find_modify, show find s.db.ldmmap _ _ = some e from hentry, Option.getD_some, hkeys]
  · rw [pending, hpend]
    simp only [LDMMap.modifyEntry]
    rw [size_modify_old _ _ hentry]
    exact h.card
  · intro v hv
    obtain ⟨e', he', hdata, hsid⟩ := h.written _ v hv
    obtain ⟨hu, hl⟩ := Prod.ext_iff.mp hkeys
    simp only at hu hl
    rw [LDMMap.entry, ← hu, ← hl] at he'
    rw [LDMMap.entry, he'] at hentry
    cases hentry
    exact hdata.symm
  · simp only [hentry, Option.bind_some, h.noNullUse, Bool.false_or]
    obtain ⟨p, hp⟩ := Option.isSome_iff_exists.mp hphData
    rw [hp]
    rfl

/-- A step of a call whose checks still hold keeps the invariant. -/
theorem insertStep_consistent (h : Consistent s) (ht : s.inserts[i]? = some t)
    (hC : s.CallSafe t) {s₁ : Concurrent} {pc : InsertPc}
    (hs : s.insertStep haversineDist t = some (s₁, pc)) :
    Consistent { s₁ with inserts := s₁.inserts.set i ⟨t.call, pc⟩ } := by
  unfold insertStep at hs
  unfold CallSafe at hC
  cases hpc : t.pc with
  | checkUpper =>
    simp only [hpc] at hs
    split at hs
    · cases hs; exact h.of_move ht (by simp [isPending, hpc]) rfl
    · split at hs
      · cases hs; exact h.of_move ht (by simp [isPending, hpc]) rfl
      · cases hs; exact h.of_move ht (by simp [isPending, hpc]) rfl
  | writeSlot =>
    simp only [hpc] at hs hC
    split at hs
    · cases hs; exact h.writeSlot ht hpc hC
    · cases hs
  | checkLower =>
    simp only [hpc] at hs
    split at hs
    · cases hs; exact h.count ht hpc
    · cases hs; exact h.of_move ht (by simp [isPending, hpc]) rfl
  | lockedWrite retval =>
    simp only [hpc] at hs hC
    by_cases hretval : retval = .ok
    · subst hretval
      simp only [if_true] at hs hC
      cases hs
      exact h.writeNew ht hpc hC
    · simp only [if_neg hretval] at hs hC
      obtain ⟨e, hentry, hsid⟩ := hC
      cases hs
      exact h.writeUpdate ht hpc hretval hentry hsid
  | append retval =>
    simp only [hpc] at hs hC
    obtain ⟨e, hentry⟩ := Option.ne_none_iff_exists'.mp hC
    cases hs
    exact h.appendHistory ht hpc hentry
  | returned retval =>
    simp only [hpc] at hs
    cases hs

/-! ## The visits of a pass keep it -/

/-- What a visit does to the database: the old entries of the lower map go
and are counted down. -/
theorem visit_spec (s : Concurrent) (p : GcPass) (key : UInt32) :
    let old := LDMMap.isOld p.now p.timeMilliseconds
    (∀ ku kl, find (s.visit p key).db.ldmmap ku kl =
      if ku = key then (find s.db.ldmmap ku kl).filter (fun e => !old e)
      else find s.db.ldmmap ku kl) ∧
    (∀ n, s.db.card = UInt64.ofNat (size s.db.ldmmap + n) →
      (s.visit p key).db.card = UInt64.ofNat (size (s.visit p key).db.ldmmap + n)) ∧
    ∀ id v, (s.visit p key).written id = some v → s.written id = some v ∧
      ∀ kl e, find s.db.ldmmap key kl = some e → e.vehData.stationID = id → old e = false := by
  intro old
  obtain ⟨hfind, hcard, hdeleted⟩ :=
    LDMMap.sweepSlot_spec old (fun id ids => ids ++ [id]) s.db key []
  have hwritten : (s.visit p key).written = fun id =>
      if id ∈ (((slot s.db.ldmmap key).entries.map (·.2)).filter old).map
        (fun e => e.vehData.stationID) then none else s.written id := by
    simp only [LDMMap.report, foldl_log, List.nil_append] at hdeleted
    rw [← hdeleted]; rfl
  refine ⟨hfind, hcard, fun id v hv => ?_⟩
  rw [hwritten] at hv
  simp only at hv
  split at hv
  · cases hv
  · rename_i hnot
    refine ⟨hv, fun kl e he hsid => ?_⟩
    cases hold : old e with
    | false => rfl
    | true =>
      refine absurd (List.mem_map.mpr ⟨e, List.mem_filter.mpr ⟨?_, hold⟩, hsid⟩) hnot
      rw [find_eq_slot] at he
      exact List.mem_map.mpr ⟨_, Slot.mem_entries.mpr he, rfl⟩

theorem visit_consistent (h : Consistent s) (p : GcPass) (key : UInt32) (passes : List GcPass) :
    Consistent { s.visit p key with passes } := by
  obtain ⟨hfind, hcard, hwritten⟩ := visit_spec s p key
  have hkeep : ∀ ku kl e, find (s.visit p key).db.ldmmap ku kl = some e →
      find s.db.ldmmap ku kl = some e := by
    intro ku kl e he
    rw [hfind] at he
    split at he
    · exact (Option.filter_eq_some_iff.mp he).1
    · exact he
  refine ⟨hcard _ h.card, fun ku kl e he => h.phData ku kl e (hkeep ku kl e he),
    fun ku kl e he => h.keys ku kl e (hkeep ku kl e he), fun id v hv => ?_, h.noNullUse⟩
  obtain ⟨hv, hyoung⟩ := hwritten id v hv
  obtain ⟨e, he, hdata, hsid⟩ := h.written id v hv
  refine ⟨e, ?_, hdata, hsid⟩
  show find (s.visit p key).db.ldmmap (keyUpper id) (keyLower id) = some e
  rw [hfind]
  split
  · rename_i hkey
    have hfalse := hyoung (keyLower id) e (hkey ▸ he) (by rw [hdata, hsid])
    rw [show find s.db.ldmmap (keyUpper id) (keyLower id) = some e from he, Option.filter_some,
      hfalse]
    rfl
  · exact he

/-! ## Runs -/

/-- A safe step keeps the invariant. -/
theorem step_consistent (s : Concurrent) (l : ConcurrentStep) (s' : Concurrent)
    (h : Consistent s) (hC : s.StepSafe l) (hs : s.step haversineDist l = some s') :
    Consistent s' := by
  cases l with
  | call c =>
    cases hs
    refine ⟨?_, h.phData, h.keys, h.written, h.noNullUse⟩
    rw [pending, List.countP_append]
    exact h.card
  | insert i =>
    simp only [step, Option.bind_eq_bind, Option.bind_eq_some_iff, Option.pure_def,
      Option.some.injEq] at hs
    obtain ⟨t, ht, ⟨s₁, pc⟩, hstep, rfl⟩ := hs
    exact insertStep_consistent h ht (hC t ht) hstep
  | gcStart time now =>
    cases hs
    exact ⟨h.card, h.phData, h.keys, h.written, h.noNullUse⟩
  | gcVisit i key =>
    simp only [step, Option.bind_eq_bind, Option.bind_eq_some_iff, Option.pure_def] at hs
    obtain ⟨p, -, hs⟩ := hs
    split at hs
    · cases hs; exact visit_consistent h p key _
    · cases hs
  | gcEnd i =>
    simp only [step, Option.bind_eq_bind, Option.bind_eq_some_iff, Option.pure_def] at hs
    obtain ⟨p, -, hs⟩ := hs
    split at hs
    · cases hs; exact ⟨h.card, h.phData, h.keys, h.written, h.noNullUse⟩
    · cases hs

end Steps

/-- In every run of inserts and passes, however interleaved, whose steps
are all safe, every state is sound. -/
theorem sound_of_safe (haversineDist : Distance) (ls : List ConcurrentStep)
    (hsafe : AllSteps (step haversineDist) StepSafe initial ls) :
    AllStates (step haversineDist) Sound initial ls :=
  have hall : AllStates (step haversineDist) Consistent initial ls :=
    allStates_of_allSteps step_consistent initial_consistent hsafe
  hall.mono fun _ h => h.sound

/-! ## Two inserts that overtake each other -/

/-- A call inserting a station whose other data are zero. -/
def callOf (stationID : UInt64) : InsertCall :=
  ⟨{ (default : VehicleData) with stationID := stationID }, ⟨0, fun _ => default⟩⟩

/-- A call inserting a station that was heard of after 6 seconds. -/
def laterCallOf (stationID : UInt64) : InsertCall :=
  ⟨{ (default : VehicleData) with stationID := stationID, timestampUs := 6000000 },
    ⟨0, fun _ => default⟩⟩

/-- Two inserts of stations with different upper keys, and a pass at 6
seconds that finds both of them written, one not yet appended to, and
collects the older one. -/
def overlapping : List ConcurrentStep :=
  [.call (callOf 1), .call (laterCallOf 65537), .insert 0, .insert 1, .insert 0, .insert 1,
   .insert 0, .gcStart 5000 6000000, .gcVisit 0 0, .gcVisit 0 1, .insert 1, .gcEnd 0]

/-- After that only the younger station is there. -/
example : ((run (step fun _ _ _ _ => 0) initial overlapping).map fun s =>
    (s.db.card, (s.db.entry 1).isSome, (s.db.entry 65537).isSome)) = some (1, false, true) := by
  decide +kernel

theorem sound_overlapping :
    AllStates (step fun _ _ _ _ => 0) Sound initial overlapping := by
  refine sound_of_safe (fun _ _ _ _ => 0) overlapping ?_
  refine (allSteps_cons_of_step rfl _).mpr ⟨trivial, ?_⟩
  refine (allSteps_cons_of_step rfl _).mpr ⟨trivial, ?_⟩
  refine (allSteps_cons_of_step rfl _).mpr ⟨fun t ht => by cases ht; trivial, ?_⟩
  refine (allSteps_cons_of_step rfl _).mpr ⟨fun t ht => by cases ht; trivial, ?_⟩
  refine (allSteps_cons_of_step rfl _).mpr ⟨fun t ht => by cases ht; exact fun kl => rfl, ?_⟩
  refine (allSteps_cons_of_step rfl _).mpr ⟨fun t ht => by cases ht; exact fun kl => rfl, ?_⟩
  refine (allSteps_cons_of_step rfl _).mpr ⟨fun t ht => by cases ht; exact nofun, ?_⟩
  refine (allSteps_cons_of_step rfl _).mpr ⟨trivial, ?_⟩
  refine (allSteps_cons_of_step rfl _).mpr ⟨trivial, ?_⟩
  refine (allSteps_cons_of_step rfl _).mpr ⟨trivial, ?_⟩
  refine (allSteps_cons_of_step rfl _).mpr ⟨fun t ht => ?_, ?_⟩
  · -- the pass has left the younger station where it was
    cases ht
    show LDMMap.entry _ _ ≠ none
    decide +kernel
  · exact allSteps_cons.mpr ⟨trivial, fun s hs => allSteps_nil⟩

/-- Two stations with the same upper key, inserted by two threads that both
found the upper key absent: the second slot write replaces the first. -/
def overtaken : List ConcurrentStep :=
  [.call (callOf 1), .call (callOf 2), .insert 0, .insert 1, .insert 0, .insert 0, .insert 1,
   .insert 1]

/-- When both calls have returned, station 1 is gone. -/
theorem overtaken_not_sound :
    ¬ AllStates (step fun _ _ _ _ => 0) Sound initial overtaken := by
  intro hall
  have hsound := hall overtaken [] _ (List.append_nil _).symm rfl
  obtain ⟨e, he, -⟩ := hsound.present
    ⟨fun t ht => by
      rcases List.mem_cons.mp ht with rfl | ht
      · exact ⟨_, rfl⟩
      · rw [List.mem_singleton.mp ht]; exact ⟨_, rfl⟩, rfl⟩ 1 _ rfl
  cases he

end Concurrent

end SLDM.Store
