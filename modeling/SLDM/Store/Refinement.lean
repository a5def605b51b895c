/-
SLDM.Store.Refinement — the database refines a finite map from station
IDs to the data inserted since the entry was created.

`StationMap` is what the database is for: nothing in it mentions keys,
slots or counters. A stored station has a `Record`, the vehicle data
inserted since its entry was created, and the entry a reader sees is
computed from it (`Record.entry`): the last data, and the path history
`PHpoints::insert` folds out of all of them.

`Related` is the simulation relation: each station below 2^32 has the
entry its record says, every cell of the two-level map is the cell of such
a station, and the hand-kept cardinality is the number of cells.
`exec_related` is the simulation, one case per operation, and
`refines_run` carries it along every sequence of operations.
-/
import SLDM.Store.LDMMapTheorems

namespace SLDM.Store

open NestedMap

/-! ## The abstract map -/

/-- The data inserted for a station since its entry was created, and the
memory its history object was created in. -/
structure Record where
  junk : Junk
  first : VehicleData
  later : List VehicleData

namespace Record

/-- All of the data, in the order of insertion. -/
def inserted (r : Record) : List VehicleData := r.first :: r.later

/-- The data of the last insertion. -/
def latest (r : Record) : VehicleData := r.later.getLastD r.first

/-- The path history: `PHpoints::insert` over the data inserted. -/
def history (haversineDist : Distance) (r : Record) : PHpoints :=
  (PHpoints.new r.junk).insertAll haversineDist r.inserted

/-- What the database shows of a station. -/
def entry (haversineDist : Distance) (r : Record) : ReturnedVehicleData :=
  ⟨r.latest, some (r.history haversineDist)⟩

/-- One insertion more. -/
def append (r : Record) (v : VehicleData) : Record := { r with later := r.later ++ [v] }

@[simp] theorem latest_append (r : Record) (v : VehicleData) : (r.append v).latest = v := by
  simp [latest, append]

@[simp] theorem latest_mk (junk : Junk) (v : VehicleData) : latest ⟨junk, v, []⟩ = v := rfl

theorem history_append (haversineDist : Distance) (r : Record) (v : VehicleData) :
    (r.append v).history haversineDist = ((r.history haversineDist).insert haversineDist v).2 := by
  simp [history, PHpoints.insertAll, inserted, append, List.foldl_append]

theorem entry_append (haversineDist : Distance) (r : Record) (v : VehicleData) :
    (r.append v).entry haversineDist =
      ⟨v, some ((r.history haversineDist).insert haversineDist v).2⟩ := by
  rw [entry, latest_append, history_append]

end Record

/-- Station IDs to records. -/
abbrev StationMap := UInt64 → Option Record

namespace StationMap

/-- The map with no station. -/
def empty : StationMap := fun _ => none

/-- Insertion of vehicle data under its station ID. -/
def insert (a : StationMap) (v : VehicleData) (junk : Junk) : StationMap :=
  Function.update a v.stationID (some (match a v.stationID with
    | none => ⟨junk, v, []⟩
    | some r => r.append v))

/-- The stations whose record passes a test, each listed once. -/
def Enumerates (a : StationMap) (p : Record → Prop) (ids : List UInt64) : Prop :=
  ids.Nodup ∧ ∀ id, id ∈ ids ↔ ∃ r, a id = some r ∧ p r

theorem Enumerates.congr {a : StationMap} {p q : Record → Prop} {ids : List UInt64}
    (h : a.Enumerates p ids) (hpq : ∀ r, p r ↔ q r) : a.Enumerates q ids :=
  ⟨h.1, fun id => (h.2 id).trans (exists_congr fun r => and_congr_right fun _ => hpq r)⟩

/-- What the database shows of these stations. -/
def entries (haversineDist : Distance) (a : StationMap) (ids : List UInt64) :
    List ReturnedVehicleData :=
  ids.filterMap fun id => (a id).map (Record.entry haversineDist)

/-- The records that fail a test. -/
def discard (a : StationMap) (p : Record → Bool) : StationMap :=
  fun id => (a id).filter fun r => !p r

end StationMap

/-! ## Operations and what they answer -/

/-- The operations of the database. `now` is the clock value a deletion
reads, `junk` the memory an insertion may allocate. -/
inductive Op where
  | insert (v : VehicleData) (junk : Junk)
  | lookup (stationID : UInt64)
  | rangeSelect (rangeM lat lon : ℚ) (selectedVehicles : List ReturnedVehicleData)
  | rangeSelectAround (rangeM : ℚ) (stationID : UInt64)
      (selectedVehicles : List ReturnedVehicleData)
  | deleteOlderThan (timeMilliseconds : ℚ) (now : UInt64)
  | deleteOlderThanAndExecute (timeMilliseconds : ℚ) (now : UInt64)
  | executeOnAllContents
  | clear

/-- What an operation answers. A callback is observed through the list of
its calls. -/
inductive Answer where
  | code (retval : LDMMapError)
  | record (retval : LDMMapError) (retVehicleData : Option ReturnedVehicleData)
  | vector (retval : LDMMapError) (selectedVehicles : List ReturnedVehicleData)
  | deleted (stationIDs : List UInt64)
  | visited (vehicles : List VehicleData)
  | nothing

/-- The station ID the operation is given is below 2^32. -/
def Op.IdBelow32 : Op → Prop
  | .insert v _ => v.stationID < 0x100000000
  | .lookup stationID => stationID < 0x100000000
  | .rangeSelectAround _ stationID _ => stationID < 0x100000000
  | _ => True

/-- One operation of the database. -/
def LDMMap.exec (haversineDist : Distance) (m : LDMMap) : Op → Answer × LDMMap
  | .insert v junk =>
    let (retval, m) := m.insert haversineDist v junk
    (.code retval, m)
  | .lookup stationID =>
    let (retval, e) := m.lookup stationID
    (.record retval e, m)
  | .rangeSelect rangeM lat lon sel =>
    let (retval, sel) := m.rangeSelect haversineDist rangeM lat lon sel
    (.vector retval sel, m)
  | .rangeSelectAround rangeM stationID sel =>
    let (retval, sel) := m.rangeSelectAround haversineDist rangeM stationID sel
    (.vector retval sel, m)
  | .deleteOlderThan time now => (.nothing, m.deleteOlderThan time now)
  | .deleteOlderThanAndExecute time now =>
    let (m, calls) := m.deleteOlderThanAndExecute time now (fun id calls => calls ++ [id]) []
    (.deleted calls, m)
  | .executeOnAllContents =>
    (.visited (m.executeOnAllContents (fun v calls => calls ++ [v]) []), m)
  | .clear => (.nothing, m.clear)

/-- The operations one after the other. -/
def LDMMap.execAll (haversineDist : Distance) (m : LDMMap) : List Op → List Answer × LDMMap
  | [] => ([], m)
  | op :: ops =>
    let (answer, m) := m.exec haversineDist op
    let (answers, m) := execAll haversineDist m ops
    (answer :: answers, m)

/-! ## What the abstract map answers -/

section Spec

variable (haversineDist : Distance)

/-- The age test of the delete functions, on a record. -/
def StationMap.old (time : ℚ) (now : UInt64) (r : Record) : Bool :=
  LDMMap.isOld now time (r.entry haversineDist)

/-- A selection around a position: every record in range once, after what
the vector held. -/
def StationMap.Selects (a : StationMap) (rangeM lat lon : ℚ)
    (sel : List ReturnedVehicleData) (answer : Answer) : Prop :=
  ∃ ids, a.Enumerates (fun r => haversineDist lat lon r.latest.lat r.latest.lon ≤ rangeM) ids ∧
    answer = .vector .ok (sel ++ a.entries haversineDist ids)

/-- The answer and the map after an operation. The order in which a scan
lists the stations is left open. -/
def StationMap.Step (a : StationMap) (op : Op) (answer : Answer) (a' : StationMap) : Prop :=
  match op with
  | .insert v junk =>
    answer = .code (if (a v.stationID).isSome then .updated else .ok) ∧ a' = a.insert v junk
  | .lookup stationID =>
    a' = a ∧ answer = match a stationID with
      | none => .record .itemNotFound none
      | some r => .record .ok (some (r.entry haversineDist))
  | .rangeSelect rangeM lat lon sel => a' = a ∧ a.Selects haversineDist rangeM lat lon sel answer
  | .rangeSelectAround rangeM stationID sel =>
    a' = a ∧ match a stationID with
      | none => answer = .vector .itemNotFound sel
      | some r => a.Selects haversineDist rangeM r.latest.lat r.latest.lon sel answer
  | .deleteOlderThan time now =>
    answer = .nothing ∧ a' = a.discard (StationMap.old haversineDist time now)
  | .deleteOlderThanAndExecute time now =>
    (∃ ids, a.Enumerates (StationMap.old haversineDist time now ·) ids ∧ answer = .deleted ids) ∧
      a' = a.discard (StationMap.old haversineDist time now)
  | .executeOnAllContents =>
    a' = a ∧ ∃ ids, a.Enumerates (fun _ => True) ids ∧
      answer = .visited ((a.entries haversineDist ids).map ReturnedVehicleData.vehData)
  | .clear => answer = .nothing ∧ a' = StationMap.empty

/-- A sequence of operations on the abstract map. -/
inductive StationMap.Run : StationMap → List Op → List Answer → StationMap → Prop
  | nil (a : StationMap) : Run a [] [] a
  | cons {a a' a'' : StationMap} {op : Op} {ops : List Op} {answer : Answer}
      {answers : List Answer} (hstep : a.Step haversineDist op answer a')
      (hrun : Run a' ops answers a'') : Run a (op :: ops) (answer :: answers) a''

end Spec

/-! ## The simulation relation -/

/-- The database shows what the abstract map says. -/
structure Related (haversineDist : Distance) (m : LDMMap) (a : StationMap) : Prop where
  /-- A station's entry is the one of its record, its history included. -/
  entry : ∀ id, id < 0x100000000 → m.entry id = (a id).map (Record.entry haversineDist)
  /-- Only IDs below 2^32 are stored. -/
  below32 : ∀ id r, a id = some r → id < 0x100000000
  /-- The data carry the ID they are stored under. -/
  stationID : ∀ id r, a id = some r → r.latest.stationID = id
  /-- Every cell is the cell of a station. -/
  cell : ∀ ku kl e, find m.ldmmap ku kl = some e →
    ∃ id, id < 0x100000000 ∧ (ku, kl) = (keyUpper id, keyLower id)
  /-- The cardinality is the number of cells. -/
  card : m.card = UInt64.ofNat (size m.ldmmap)

section Simulation

variable {haversineDist : Distance} {m : LDMMap} {a : StationMap}

theorem related_new : Related haversineDist LDMMap.new StationMap.empty where
  entry _ _ := find_empty _ _
  below32 _ _ h := by cases h
  stationID _ _ h := by cases h
  cell ku kl e h := by rw [LDMMap.new, find_empty] at h; cases h
  card := rfl

/-- The database shows what some abstract map says. -/
def Shows (haversineDist : Distance) (m : LDMMap) : Prop := ∃ a, Related haversineDist m a

theorem shows_new (haversineDist : Distance) : Shows haversineDist LDMMap.new := ⟨_, related_new⟩

/-- A cell and its record. -/
theorem Related.record (h : Related haversineDist m a) {ku kl : UInt32}
    {e : ReturnedVehicleData} (hfind : find m.ldmmap ku kl = some e) :
    ∃ r, a e.vehData.stationID = some r ∧ e = r.entry haversineDist ∧
      (ku, kl) = (keyUpper e.vehData.stationID, keyLower e.vehData.stationID) := by
  obtain ⟨id, hid, hkeys⟩ := h.cell ku kl e hfind
  obtain ⟨rfl, rfl⟩ := Prod.ext_iff.mp hkeys
  have hentry := h.entry id hid
  rw [show m.entry id = some e from hfind] at hentry
  cases ha : a id with
  | none => rw [ha] at hentry; cases hentry
  | some r =>
    rw [ha, Option.map_some, Option.some.injEq] at hentry
    have hsid : e.vehData.stationID = id := by rw [hentry]; exact h.stationID id r ha
    rw [hsid]
    exact ⟨r, ha, hentry, rfl⟩

/-- There are at most 2^32 cells. -/
theorem Related.size_le (h : Related haversineDist m a) : size m.ldmmap ≤ 2 ^ 32 :=
  LDMMap.size_le_of_keys fun ku kl e he =>
    have ⟨id, _, hkeys⟩ := h.cell ku kl e he
    ⟨id, hkeys⟩

/-- So the database is never full. -/
theorem Related.card_ne_max (h : Related haversineDist m a) : m.card ≠ 0xFFFFFFFFFFFFFFFF := by
  intro hmax
  have hsize := h.size_le
  have hnat := congrArg UInt64.toNat (h.card.symm.trans hmax)
  rw [UInt64.toNat_ofNat', Nat.mod_eq_of_lt (by omega),
    show (0xFFFFFFFFFFFFFFFF : UInt64).toNat = 18446744073709551615 from rfl] at hnat
  omega

/-- The entries that pass a test, read as records: each station once. -/
theorem Related.enumerates (h : Related haversineDist m a) (q : ReturnedVehicleData → Bool) :
    a.Enumerates (fun r => q (r.entry haversineDist))
        (((values m.ldmmap).filter q).map fun e => e.vehData.stationID) ∧
      a.entries haversineDist
          (((values m.ldmmap).filter q).map fun e => e.vehData.stationID)
        = (values m.ldmmap).filter q := by
  have hmem : ∀ e, e ∈ values m.ldmmap → ∃ ku kl, find m.ldmmap ku kl = some e :=
    fun _ => LDMMap.mem_values.mp
  refine ⟨⟨?_, fun id => ⟨fun hid => ?_, ?_⟩⟩, ?_⟩
  · have hnodup := LDMMap.nodup_stationIDs fun _ _ _ hfind =>
      have ⟨_, _, _, hkeys⟩ := h.record hfind
      hkeys
    exact hnodup.sublist (List.filter_sublist.map _)
  · obtain ⟨e, he, rfl⟩ := List.mem_map.mp hid
    obtain ⟨he, hq⟩ := List.mem_filter.mp he
    obtain ⟨ku, kl, hfind⟩ := hmem e he
    obtain ⟨r, hr, hentry, -⟩ := h.record hfind
    refine ⟨r, hr, ?_⟩
    show q (r.entry haversineDist) = true
    rw [← hentry]
    exact hq
  · intro hex
    obtain ⟨r, hr, hq⟩ := hex
    have hfind := h.entry id (h.below32 id r hr)
    rw [hr, Option.map_some] at hfind
    refine List.mem_map.mpr ⟨r.entry haversineDist, List.mem_filter.mpr ⟨?_, hq⟩,
      h.stationID id r hr⟩
    exact List.mem_map.mpr ⟨_, mem_cells.mpr hfind, rfl⟩
  · rw [StationMap.entries, List.filterMap_map]
    have hsome : ∀ e ∈ (values m.ldmmap).filter q,
        ((fun id => (a id).map (Record.entry haversineDist)) ∘
          fun e => e.vehData.stationID) e = some e := by
      intro e he
      obtain ⟨ku, kl, hfind⟩ := hmem e (List.mem_filter.mp he).1
      obtain ⟨r, hr, hentry, -⟩ := h.record hfind
      simp only [Function.comp_apply, hr, Option.map_some, ← hentry]
    rw [List.filterMap_congr hsome, List.filterMap_some]

/-- What a reader makes of the entries that pass a test: something for the
record of each station, once. -/
theorem Related.enumerates_map {α : Type} (h : Related haversineDist m a)
    (q : ReturnedVehicleData → Bool) (f : ReturnedVehicleData → α) :
    ∃ ids, a.Enumerates (fun r => q (r.entry haversineDist)) ids ∧
      List.Forall₂ (fun id x => ∃ r, a id = some r ∧ x = f (r.entry haversineDist)) ids
        (((values m.ldmmap).filter q).map f) := by
  refine ⟨_, (h.enumerates q).1, ?_⟩
  rw [List.forall₂_map_left_iff, List.forall₂_map_right_iff, List.forall₂_same]
  intro e he
  obtain ⟨ku, kl, hfind⟩ := LDMMap.mem_values.mp (List.mem_filter.mp he).1
  obtain ⟨r, hr, hentry, -⟩ := h.record hfind
  exact ⟨r, hr, congrArg f hentry⟩

/-! ## The operations keep the relation -/

/-- A cell of the database rewritten to match a record inserted. -/
theorem Related.of_insert (h : Related haversineDist m a) {v : VehicleData} {junk : Junk}
    {m' : LDMMap} {e : ReturnedVehicleData} (hid : v.stationID < 0x100000000)
    (hcard : m'.card = UInt64.ofNat (size m'.ldmmap))
    (hfind : ∀ ku kl, find m'.ldmmap ku kl =
      if (ku, kl) = (keyUpper v.stationID, keyLower v.stationID) then some e
      else find m.ldmmap ku kl)
    (he : some e = (a.insert v junk v.stationID).map (Record.entry haversineDist)) :
    Related haversineDist m' (a.insert v junk) where
  entry id hlt := by
    rw [LDMMap.entry, hfind]
    by_cases heq : id = v.stationID
    · subst heq; rw [if_pos rfl, he]
    · rw [if_neg fun hk => heq (keys_injective hlt hid hk), StationMap.insert,
        Function.update_of_ne heq]
      exact h.entry id hlt
  below32 id r hr := by
    by_cases heq : id = v.stationID
    · rw [heq]; exact hid
    · rw [StationMap.insert, Function.update_of_ne heq] at hr
      exact h.below32 id r hr
  stationID id r hr := by
    by_cases heq : id = v.stationID
    · subst heq
      rw [StationMap.insert, Function.update_self, Option.some.injEq] at hr
      cases ha : a v.stationID with
      | none => rw [ha] at hr; rw [← hr, Record.latest_mk]
      | some r' => rw [ha] at hr; rw [← hr, Record.latest_append]
    · rw [StationMap.insert, Function.update_of_ne heq] at hr
      exact h.stationID id r hr
  cell ku kl e' he' := by
    rw [hfind] at he'
    by_cases hk : (ku, kl) = (keyUpper v.stationID, keyLower v.stationID)
    · exact ⟨v.stationID, hid, hk⟩
    · rw [if_neg hk] at he'
      exact h.cell ku kl e' he'
  card := hcard

theorem Related.insert (h : Related haversineDist m a) {v : VehicleData} (junk : Junk)
    (hid : v.stationID < 0x100000000) :
    (m.insert haversineDist v junk).1
        = (if (a v.stationID).isSome then .updated else .ok) ∧
      Related haversineDist (m.insert haversineDist v junk).2 (a.insert v junk) := by
  have hentry := h.entry v.stationID hid
  cases ha : a v.stationID with
  | none =>
    rw [ha] at hentry
    obtain ⟨hcode, hcard, hsize, hfind⟩ := LDMMap.insert_absent haversineDist junk
      h.card_ne_max hentry
    refine ⟨hcode, h.of_insert hid ?_ hfind ?_⟩
    · rw [hcard, h.card, hsize, UInt64.ofNat_add]; rfl
    · rw [StationMap.insert, Function.update_self, ha]; rfl
  | some r =>
    rw [ha] at hentry
    obtain ⟨hcode, hcard, hsize, hfind⟩ := LDMMap.insert_present haversineDist junk
      h.card_ne_max hentry
    refine ⟨hcode, h.of_insert hid ?_ hfind ?_⟩
    · rw [hcard, h.card, hsize]
    · rw [StationMap.insert, Function.update_self, ha, Option.map_some, Record.entry_append]
      rfl

/-- The data a reader finds after an insertion. -/
theorem Related.vehData_insert (h : Related haversineDist m a) {v : VehicleData} (junk : Junk)
    (hv : v.stationID < 0x100000000) {id : UInt64} (hid : id < 0x100000000) :
    ((m.insert haversineDist v junk).2.entry id).map ReturnedVehicleData.vehData =
      if id = v.stationID then some v
      else (m.entry id).map ReturnedVehicleData.vehData := by
  rw [(h.insert junk hv).2.entry id hid]
  by_cases heq : id = v.stationID
  · subst heq
    rw [if_pos rfl, StationMap.insert, Function.update_self]
    cases a v.stationID with
    | none => rfl
    | some r => simp [Record.entry]
  · rw [if_neg heq, StationMap.insert, Function.update_of_ne heq, h.entry id hid]

theorem Related.sweep (h : Related haversineDist m a) {σ : Type}
    (old : ReturnedVehicleData → Bool) (operFcn : UInt64 → σ → σ) (args : σ) :
    Related haversineDist (m.sweep old operFcn args).1
      (a.discard fun r => old (r.entry haversineDist)) where
  entry id hlt := by
    rw [LDMMap.entry_sweep, h.entry id hlt, StationMap.discard]
    cases a id with
    | none => rfl
    | some r => simp only [Option.map_some, Option.filter_some]; split <;> rfl
  below32 id r hr := by
    rw [StationMap.discard, Option.filter_eq_some_iff] at hr
    exact h.below32 id r hr.1
  stationID id r hr := by
    rw [StationMap.discard, Option.filter_eq_some_iff] at hr
    exact h.stationID id r hr.1
  cell ku kl e he := by
    rw [(LDMMap.sweep_spec old operFcn args).1, find_retain, Option.filter_eq_some_iff] at he
    exact h.cell ku kl e he.1
  card := LDMMap.card_sweep old operFcn args h.card

/-- The entries of a lower map are those of the stations with its key. -/
theorem Related.mem_slot (h : Related haversineDist m a) {key : UInt32}
    {e : ReturnedVehicleData} :
    e ∈ (slot m.ldmmap key).entries.map (·.2) ↔
      keyUpper e.vehData.stationID = key ∧ e.vehData.stationID < 0x100000000 ∧
        m.entry e.vehData.stationID = some e := by
  rw [List.mem_map]
  constructor
  · rintro ⟨⟨kl, e'⟩, hmem, rfl⟩
    have hfind : find m.ldmmap key kl = some e' := by
      rw [find_eq_slot]
      exact Slot.mem_entries.mp hmem
    obtain ⟨r, hr, -, hkeys⟩ := h.record hfind
    obtain ⟨rfl, rfl⟩ := Prod.ext_iff.mp hkeys
    exact ⟨rfl, h.below32 _ r hr, hfind⟩
  · rintro ⟨rfl, -, hentry⟩
    rw [LDMMap.entry, find_eq_slot] at hentry
    exact ⟨_, Slot.mem_entries.mpr hentry, rfl⟩

/-- A deletion of the old entries of one lower map. -/
theorem Related.sweepSlot (h : Related haversineDist m a) {σ : Type}
    (old : ReturnedVehicleData → Bool) (operFcn : UInt64 → σ → σ) (key : UInt32) (args : σ) :
    let swept := LDMMap.sweepSlot old operFcn (slot m.ldmmap key) (m.card, args)
    Related haversineDist ⟨m.ldmmap.insert key swept.1, swept.2.1⟩
      (fun id => (a id).filter fun r =>
        !(decide (keyUpper id = key) && old (r.entry haversineDist))) := by
  intro swept
  obtain ⟨hfind, hcard, -⟩ := LDMMap.sweepSlot_spec old operFcn m key args
  refine ⟨fun id hid => ?_, fun id r hr => ?_, fun id r hr => ?_, fun ku kl e he => ?_, ?_⟩
  · have hentry := h.entry id hid
    rw [LDMMap.entry] at hentry ⊢
    rw [hfind, hentry]
    by_cases hkey : keyUpper id = key
    · rw [if_pos hkey]
      simp only [hkey, decide_true, Bool.true_and]
      cases a id with
      | none => rfl
      | some r => simp only [Option.map_some, Option.filter_some]; split <;> rfl
    · rw [if_neg hkey]
      simp only [hkey, decide_false, Bool.false_and, Bool.not_false]
      cases a id with
      | none => rfl
      | some r => rfl
  · exact h.below32 id r (Option.filter_eq_some_iff.mp hr).1
  · exact h.stationID id r (Option.filter_eq_some_iff.mp hr).1
  · rw [hfind] at he
    split at he
    · exact h.cell ku kl e (Option.filter_eq_some_iff.mp he).1
    · exact h.cell ku kl e he
  · exact hcard 0 h.card

theorem Related.selects (h : Related haversineDist m a) (rangeM lat lon : ℚ)
    (sel : List ReturnedVehicleData) :
    a.Selects haversineDist rangeM lat lon sel
      (.vector (m.rangeSelect haversineDist rangeM lat lon sel).1
        (m.rangeSelect haversineDist rangeM lat lon sel).2) := by
  obtain ⟨⟨hnodup, hmem⟩, hentries⟩ := h.enumerates fun e =>
    decide (haversineDist lat lon e.vehData.lat e.vehData.lon ≤ rangeM)
  refine ⟨_, ⟨hnodup, fun id => ?_⟩, by rw [LDMMap.rangeSelect_eq, hentries]⟩
  rw [hmem id]
  simp only [decide_eq_true_eq]
  rfl

/-- One operation of the database is one step of the abstract map. -/
theorem exec_related (h : Related haversineDist m a) {op : Op} (hid : op.IdBelow32) :
    ∃ a', a.Step haversineDist op (m.exec haversineDist op).1 a' ∧
      Related haversineDist (m.exec haversineDist op).2 a' := by
  cases op with
  | insert v junk =>
    obtain ⟨hcode, hrel⟩ := h.insert junk hid
    exact ⟨_, ⟨congrArg Answer.code hcode, rfl⟩, hrel⟩
  | lookup id =>
    refine ⟨a, ⟨rfl, ?_⟩, h⟩
    simp only [LDMMap.exec, LDMMap.lookup_eq, h.entry id hid]
    cases a id <;> rfl
  | rangeSelect rangeM lat lon sel => exact ⟨a, ⟨rfl, h.selects rangeM lat lon sel⟩, h⟩
  | rangeSelectAround rangeM id sel =>
    refine ⟨a, ⟨rfl, ?_⟩, h⟩
    simp only [LDMMap.exec, LDMMap.rangeSelectAround, LDMMap.lookup_eq, h.entry id hid]
    cases a id with
    | none => rfl
    | some r => exact h.selects rangeM r.latest.lat r.latest.lon sel
  | deleteOlderThan time now =>
    exact ⟨_, ⟨rfl, rfl⟩, h.sweep (LDMMap.isOld now time) (fun _ args => args) ()⟩
  | deleteOlderThanAndExecute time now =>
    refine ⟨_, ⟨⟨_, (h.enumerates (LDMMap.isOld now time)).1, ?_⟩, rfl⟩,
      h.sweep (LDMMap.isOld now time) (fun id calls => calls ++ [id]) []⟩
    simp only [LDMMap.exec, LDMMap.deleteOlderThanAndExecute,
      (LDMMap.sweep_spec (m := m) (LDMMap.isOld now time) (fun id calls => calls ++ [id]) []).2.2,
      LDMMap.report, foldl_log, List.nil_append]
  | executeOnAllContents =>
    obtain ⟨henum, hentries⟩ := h.enumerates fun _ => true
    refine ⟨a, ⟨rfl, _, ⟨henum.1, fun id => ?_⟩, ?_⟩, h⟩
    · rw [henum.2 id]; simp
    · rw [hentries]
      simp only [LDMMap.exec, LDMMap.executeOnAllContents_eq, foldl_log, List.nil_append,
        List.filter_true]
  | clear => exact ⟨_, ⟨rfl, rfl⟩, related_new⟩

/-- The simulation along a sequence of operations. -/
theorem execAll_related : ∀ {ops : List Op} {m : LDMMap} {a : StationMap},
    Related haversineDist m a → (∀ op ∈ ops, op.IdBelow32) →
      ∃ a', StationMap.Run haversineDist a ops (m.execAll haversineDist ops).1 a' ∧
        Related haversineDist (m.execAll haversineDist ops).2 a'
  | [], _, a, h, _ => ⟨a, .nil a, h⟩
  | op :: ops, _, _, h, hids => by
      obtain ⟨a', hstep, h'⟩ := exec_related h (hids op List.mem_cons_self)
      obtain ⟨a'', hrun, h''⟩ :=
        execAll_related h' (fun op' hop => hids op' (List.mem_cons_of_mem op hop))
      exact ⟨a'', .cons hstep hrun, h''⟩

end Simulation

/-! ## The database refines the map -/

/-- Whatever the distance function, every sequence of operations on
station IDs below 2^32 is a sequence of steps of the abstract map with the
same answers, and ends in a related state. -/
theorem refines_run (haversineDist : Distance) (ops : List Op)
    (hids : ∀ op ∈ ops, op.IdBelow32) :
    ∃ a, StationMap.Run haversineDist StationMap.empty ops
        (LDMMap.new.execAll haversineDist ops).1 a ∧
      Related haversineDist (LDMMap.new.execAll haversineDist ops).2 a :=
  execAll_related related_new hids

/-- Two insertions of station 7 and one of station 9, stamped at 0 s and 9 s,
and at 10 s a deletion of what is older than 5 s. -/
def shortRun : List Op :=
  [.insert { (default : VehicleData) with stationID := 7 } ⟨0, fun _ => default⟩,
   .insert { (default : VehicleData) with stationID := 7, lat := 1 } ⟨0, fun _ => default⟩,
   .insert { (default : VehicleData) with stationID := 9, timestampUs := 9000000 }
     ⟨0, fun _ => default⟩,
   .lookup 7, .deleteOlderThan 5000 10000000]

/-- Station 7 is gone, and station 9 stays. -/
theorem refines_shortRun :
    (LDMMap.new.execAll (fun _ _ _ _ => 0) shortRun).2.entry 7 = none ∧
    (LDMMap.new.execAll (fun _ _ _ _ => 0) shortRun).2.entry 9 ≠ none ∧
    ∃ a, StationMap.Run (fun _ _ _ _ => 0) StationMap.empty shortRun
        (LDMMap.new.execAll (fun _ _ _ _ => 0) shortRun).1 a ∧
      Related (fun _ _ _ _ => 0) (LDMMap.new.execAll (fun _ _ _ _ => 0) shortRun).2 a := by
  refine ⟨?_, ?_, refines_run (fun _ _ _ _ => 0) shortRun fun op hop => ?_⟩
  · refine (LDMMap.entry_sweep _ _ () 7).trans (Option.filter_eq_none_iff.mpr fun e he => ?_)
    cases he
    rw [LDMMap.isOld_of_age (n := 10000000) (by decide)]
    norm_num
  · have hsweep := LDMMap.entry_sweep (LDMMap.isOld 10000000 5000) (fun _ args => args)
      (m := (LDMMap.new.execAll (fun _ _ _ _ => 0) (shortRun.take 4)).2) () 9
    refine ne_of_eq_of_ne hsweep fun hnone => ?_
    have hkept := Option.filter_eq_none_iff.mp hnone _ rfl
    rw [LDMMap.isOld_of_age (n := 1000000) (by decide)] at hkept
    norm_num at hkept
  · simp only [shortRun, List.mem_cons, List.not_mem_nil, or_false] at hop
    rcases hop with rfl | rfl | rfl | rfl | rfl
    · show (7 : UInt64) < 0x100000000; decide
    · show (7 : UInt64) < 0x100000000; decide
    · show (9 : UInt64) < 0x100000000; decide
    · show (7 : UInt64) < 0x100000000; decide
    · trivial

end SLDM.Store
