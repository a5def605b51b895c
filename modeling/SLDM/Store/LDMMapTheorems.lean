/-
SLDM.Store.LDMMapTheorems — what each operation of the database does,
read through `entry`.

One spec lemma per operation; nothing outside this module unfolds an
operation. The keys come first: below 2^32 the two 16-bit halves determine
the station ID (`keys_injective`), and that is the only place where the
masks of `DEFINE_KEYS` are computed with.

* `insert_absent` / `insert_present` — the two ways `insert` can go;
* `sweepSlot_spec`, `sweep_spec` — deletion keeps exactly the entries that
  fail the age test, counts the others down one by one and reports each of
  them to the callback, in one lower map and in all of them;
* `rangeSelect_eq`, `executeOnAllContents_eq` — the two full scans.
-/
import SLDM.Store.LDMMap

namespace SLDM.Store

open NestedMap

/-! ## Keys -/

theorem keyLower_toNat (id : UInt64) : (keyLower id).toNat = id.toNat % 65536 := by
  have hmask : id.toNat &&& 65535 = id.toNat % 65536 := Nat.and_two_pow_sub_one_eq_mod id.toNat 16
  rw [keyLower, UInt64.toNat_toUInt32, UInt64.toNat_and,
    show (0x0000FFFF : UInt64).toNat = 65535 from rfl, hmask]
  omega

theorem keyUpper_toNat (id : UInt64) : (keyUpper id).toNat = id.toNat / 65536 % 65536 := by
  have hmask : id.toNat / 65536 &&& 65535 = id.toNat / 65536 % 65536 :=
    Nat.and_two_pow_sub_one_eq_mod _ 16
  rw [keyUpper, UInt64.toNat_toUInt32, UInt64.toNat_shiftRight, UInt64.toNat_and,
    show (0xFFFF0000 : UInt64).toNat = 65535 <<< 16 from rfl,
    show (16 : UInt64).toNat % 64 = 16 from rfl, Nat.shiftRight_and_distrib,
    Nat.shiftLeft_shiftRight, Nat.shiftRight_eq_div_pow, show 2 ^ 16 = 65536 from rfl, hmask]
  omega

/-- Below 2^32 the two keys determine the station ID. -/
theorem keys_injective {id id' : UInt64} (h : id < 0x100000000) (h' : id' < 0x100000000)
    (hkeys : (keyUpper id, keyLower id) = (keyUpper id', keyLower id')) : id = id' := by
  obtain ⟨hu, hl⟩ := Prod.ext_iff.mp hkeys
  have hu' : (keyUpper id).toNat = (keyUpper id').toNat := congrArg UInt32.toNat hu
  have hl' : (keyLower id).toNat = (keyLower id').toNat := congrArg UInt32.toNat hl
  have hlt : id.toNat < 4294967296 := UInt64.lt_iff_toNat_lt.mp h
  have hlt' : id'.toNat < 4294967296 := UInt64.lt_iff_toNat_lt.mp h'
  rw [keyUpper_toNat, keyUpper_toNat] at hu'
  rw [keyLower_toNat, keyLower_toNat] at hl'
  apply UInt64.toNat_inj.mp
  omega

/-- A log of calls is the list of what was called. -/
theorem foldl_log {α β : Type} (f : α → β) (l : List α) (calls : List β) :
    l.foldl (fun calls x => calls ++ [f x]) calls = calls ++ l.map f := by
  induction l generalizing calls with
  | nil => simp
  | cons x l ih => rw [List.foldl_cons, ih, List.map_cons, List.append_assoc]; rfl

namespace LDMMap

variable {haversineDist : Distance} {m : LDMMap}

/-- A database whose cells lie under the keys of station IDs holds at most
2^32 of them: the keys are 16 bits wide. -/
theorem size_le_of_keys (h : ∀ ku kl e, find m.ldmmap ku kl = some e →
    ∃ id, (ku, kl) = (keyUpper id, keyLower id)) : size m.ldmmap ≤ 2 ^ 32 := by
  let code : UInt32 × UInt32 → ℕ := fun k => k.1.toNat * 65536 + k.2.toNat
  have hkey : ∀ k ∈ keySet m.ldmmap, k.1.toNat < 65536 ∧ k.2.toNat < 65536 := by
    intro k hk
    obtain ⟨e, he⟩ := Option.isSome_iff_exists.mp (mem_keySet.mp hk)
    obtain ⟨id, hkeys⟩ := h k.1 k.2 e he
    obtain ⟨hu, hl⟩ := Prod.ext_iff.mp hkeys
    simp only at hu hl
    rw [hu, hl, keyUpper_toNat, keyLower_toNat]
    omega
  have hmaps : ∀ k ∈ keySet m.ldmmap, code k ∈ Finset.range (2 ^ 32) := by
    intro k hk
    have hk' := hkey k hk
    simp only [code, Finset.mem_range]
    omega
  have hinj : Set.InjOn code (keySet m.ldmmap) := by
    intro k hk k' hk' heq
    have hb := hkey k hk
    have hb' := hkey k' hk'
    simp only [code] at heq
    have h1 : k.1.toNat = k'.1.toNat := by omega
    have h2 : k.2.toNat = k'.2.toNat := by omega
    exact Prod.ext (UInt32.toNat_inj.mp h1) (UInt32.toNat_inj.mp h2)
  have hcard := Finset.card_le_card_of_injOn code hmaps hinj
  rwa [← size_eq_card, Finset.card_range] at hcard

/-! ## Insertion -/

/-- An upper key that is absent holds no entry. -/
theorem entry_eq_none_of_lookup {id : UInt64} (h : m.ldmmap.lookup (keyUpper id) = none) :
    m.entry id = none := find_of_lookup_none h _

/-- `insert` of a station that is not stored: a new entry with a history of
its own, and one more in the count. -/
theorem insert_absent (haversineDist : Distance) {v : VehicleData} (junk : Junk)
    (hcard : m.card ≠ 0xFFFFFFFFFFFFFFFF)
    (hentry : m.entry v.stationID = none) :
    (m.insert haversineDist v junk).1 = .ok ∧
      (m.insert haversineDist v junk).2.card = m.card + 1 ∧
      size (m.insert haversineDist v junk).2.ldmmap = size m.ldmmap + 1 ∧
      ∀ a b, find (m.insert haversineDist v junk).2.ldmmap a b =
        if (a, b) = (keyUpper v.stationID, keyLower v.stationID) then
          some ⟨v, some ((PHpoints.new junk).insert haversineDist v).2⟩
        else find m.ldmmap a b := by
  have hfind : find m.ldmmap (keyUpper v.stationID) (keyLower v.stationID) = none := hentry
  unfold insert
  rw [if_neg hcard]
  cases hup : m.ldmmap.lookup (keyUpper v.stationID) with
  | none =>
    have hlower : ∀ a b, find (m.ldmmap.insert (keyUpper v.stationID) (freshLowerMap junk v)) a b =
        if (a, b) = (keyUpper v.stationID, keyLower v.stationID) then
          some ⟨v, some (PHpoints.new junk)⟩
        else find m.ldmmap a b := by
      intro a b
      refine find_insert_cell (s := (∅ : Slot UInt32 ReturnedVehicleData)) (fun b => ?_) _ _ a b
      rw [find_of_lookup_none hup, AList.lookup_empty]
    have hsize : size (m.ldmmap.insert (keyUpper v.stationID) (freshLowerMap junk v))
        = size m.ldmmap + 1 := by
      refine size_insert_new (s := (∅ : Slot UInt32 ReturnedVehicleData)) (fun b => ?_) _ hfind
      rw [find_of_lookup_none hup, AList.lookup_empty]
    have hself := hlower (keyUpper v.stationID) (keyLower v.stationID)
    rw [if_pos rfl] at hself
    refine ⟨rfl, rfl, ?_, fun a b => ?_⟩
    · simp only [Option.isNone_none, if_true, modifyEntry]
      rw [size_modify_old _ _ hself, hsize]
    · simp only [Option.isNone_none, if_true, modifyEntry]
      rw [find_modify, hself]
      by_cases hab : (a, b) = (keyUpper v.stationID, keyLower v.stationID)
      · rw [if_pos hab, if_pos hab]; rfl
      · rw [if_neg hab, if_neg hab, hlower, if_neg hab]
  | some s =>
    simp only [Option.isNone_some, Bool.false_eq_true, if_false, hentry, Option.isNone_none,
      if_true, modifyEntry]
    refine ⟨trivial, trivial, ?_, fun a b => ?_⟩
    · rw [size_modify_old _ _ (find_modify_self _ _ _ _ _),
        size_modify_old _ _ (find_modify_self _ _ _ _ _), size_modify_new _ _ hfind]
    · rw [find_modify, find_modify_self, find_modify_self]
      by_cases hab : (a, b) = (keyUpper v.stationID, keyLower v.stationID)
      · rw [if_pos hab, if_pos hab]; rfl
      · rw [if_neg hab, if_neg hab, find_modify_ne _ _ _ hab, find_modify_ne _ _ _ hab]

/-- `insert` of a stored station: the data are replaced and appended to the
history; nothing is counted. -/
theorem insert_present (haversineDist : Distance) {v : VehicleData} (junk : Junk)
    {e : ReturnedVehicleData} (hcard : m.card ≠ 0xFFFFFFFFFFFFFFFF)
    (hentry : m.entry v.stationID = some e) :
    (m.insert haversineDist v junk).1 = .updated ∧
      (m.insert haversineDist v junk).2.card = m.card ∧
      size (m.insert haversineDist v junk).2.ldmmap = size m.ldmmap ∧
      ∀ a b, find (m.insert haversineDist v junk).2.ldmmap a b =
        if (a, b) = (keyUpper v.stationID, keyLower v.stationID) then
          some ⟨v, e.phData.map fun p => (p.insert haversineDist v).2⟩
        else find m.ldmmap a b := by
  have hfind : find m.ldmmap (keyUpper v.stationID) (keyLower v.stationID) = some e := hentry
  have hup : (m.ldmmap.lookup (keyUpper v.stationID)).isNone = false := by
    cases hup : m.ldmmap.lookup (keyUpper v.stationID) with
    | none => rw [find_of_lookup_none hup] at hfind; cases hfind
    | some s => rfl
  unfold insert
  rw [if_neg hcard]
  simp only [hup, hentry, Option.isNone_some, Bool.false_eq_true, if_false, modifyEntry]
  refine ⟨trivial, trivial, ?_, fun a b => ?_⟩
  · rw [size_modify_old _ _ (find_modify_self _ _ _ _ _), size_modify_old _ _ hfind]
  · rw [find_modify, find_modify_self, hfind]
    by_cases hab : (a, b) = (keyUpper v.stationID, keyLower v.stationID)
    · rw [if_pos hab, if_pos hab]; rfl
    · rw [if_neg hab, if_neg hab, find_modify_ne _ _ _ hab]

/-! ## Lookup -/

/-- `lookup` answers with the entry. -/
theorem lookup_eq (id : UInt64) : m.lookup id =
    match m.entry id with
    | none => (.itemNotFound, none)
    | some e => (.ok, some e) := by
  unfold lookup
  cases hup : m.ldmmap.lookup (keyUpper id) with
  | none => rw [entry_eq_none_of_lookup hup]; rfl
  | some s => rfl

theorem lookup_ok_iff {id : UInt64} {e : ReturnedVehicleData} :
    m.lookup id = (.ok, some e) ↔ m.entry id = some e := by
  rw [lookup_eq]
  cases m.entry id with
  | none => simp
  | some e' => simp

theorem mem_values {e : ReturnedVehicleData} :
    e ∈ values m.ldmmap ↔ ∃ ku kl, find m.ldmmap ku kl = some e := by
  constructor
  · intro he
    obtain ⟨⟨⟨ku, kl⟩, e'⟩, hcell, rfl⟩ := List.mem_map.mp he
    exact ⟨ku, kl, mem_cells.mp hcell⟩
  · intro hex
    obtain ⟨ku, kl, hfind⟩ := hex
    exact List.mem_map.mpr ⟨((ku, kl), e), mem_cells.mpr hfind, rfl⟩

/-- The keys of the cells are distinct, and so are the station IDs when they
determine the keys. -/
theorem nodup_stationIDs (h : ∀ ku kl e, find m.ldmmap ku kl = some e →
    (ku, kl) = (keyUpper e.vehData.stationID, keyLower e.vehData.stationID)) :
    ((values m.ldmmap).map fun e => e.vehData.stationID).Nodup := by
  have hkeys : ((values m.ldmmap).map fun e => e.vehData.stationID).map
      (fun id => (keyUpper id, keyLower id)) = (cells m.ldmmap).map Prod.fst := by
    rw [values, List.map_map, List.map_map]
    refine List.map_congr_left fun c hc => ?_
    obtain ⟨⟨ku, kl⟩, e⟩ := c
    exact (h ku kl e (mem_cells.mp hc)).symm
  exact List.Nodup.of_map _ (hkeys ▸ nodup_keys m.ldmmap)

/-! ## Deletion by age -/

section Sweep

variable {σ : Type} (old : ReturnedVehicleData → Bool) (operFcn : UInt64 → σ → σ)

/-- The calls of the callback for a list of entries, one after the other. -/
def report (l : List ReturnedVehicleData) (args : σ) : σ :=
  l.foldl (fun args e => operFcn e.vehData.stationID args) args

theorem report_append (l l' : List ReturnedVehicleData) (args : σ) :
    report operFcn (l ++ l') args = report operFcn l' (report operFcn l args) :=
  List.foldl_append

/-- Counting down twice is counting down by the sum. -/
theorem card_sub_sub (card a b : UInt64) : card - a - b = card - (a + b) := by grind

/-- What the loop over one lower map counts down and reports. -/
theorem sweepEntries_acc : ∀ (l : List (Sigma fun _ : UInt32 => ReturnedVehicleData))
    (card : UInt64) (args : σ), (sweepEntries old operFcn l (card, args)).2 =
      (card - UInt64.ofNat ((l.map (·.2)).filter old).length,
        report operFcn ((l.map (·.2)).filter old) args)
  | [], card, args => by simp [sweepEntries, report]
  | mit :: rest, card, args => by
      rw [sweepEntries]
      cases h : old mit.2 with
      | true =>
        rw [if_pos rfl, sweepEntries_acc rest, List.map_cons, List.filter_cons_of_pos h,
          List.length_cons, UInt64.ofNat_add]
        refine Prod.ext ?_ rfl
        show card - 1 - _ = card - (_ + 1)
        generalize UInt64.ofNat _ = n
        rw [card_sub_sub, UInt64.add_comm]
      | false =>
        rw [if_neg (by simp), List.map_cons, List.filter_cons_of_neg (by simp [h])]
        exact sweepEntries_acc rest card args

/-- One lower map swept and written back: the old entries go, each is
counted down and reported. -/
theorem sweepSlot_spec (m : LDMMap) (key : UInt32) (args : σ) :
    let swept := sweepSlot old operFcn (slot m.ldmmap key) (m.card, args)
    (∀ ku kl, find (m.ldmmap.insert key swept.1) ku kl =
      if ku = key then (find m.ldmmap ku kl).filter (fun e => !old e)
      else find m.ldmmap ku kl) ∧
    (∀ n, m.card = UInt64.ofNat (size m.ldmmap + n) →
      swept.2.1 = UInt64.ofNat (size (m.ldmmap.insert key swept.1) + n)) ∧
    swept.2.2 = report operFcn (((slot m.ldmmap key).entries.map (·.2)).filter old) args := by
  intro swept
  have hkept : swept.1 = Slot.retain (fun e => !old e) (slot m.ldmmap key) :=
    sweepSlot_eq old _ _ _
  have hacc := sweepEntries_acc old operFcn (slot m.ldmmap key).entries m.card args
  have hcard : swept.2.1 = m.card -
      UInt64.ofNat (((slot m.ldmmap key).entries.map (·.2)).filter old).length :=
    congrArg Prod.fst hacc
  refine ⟨fun ku kl => ?_, fun n hn => ?_, congrArg Prod.snd hacc⟩
  · rw [hkept, find_insert_slot]
    by_cases hku : ku = key
    · rw [if_pos hku, if_pos hku, Slot.lookup_retain, ← find_eq_slot, hku]
    · rw [if_neg hku, if_neg hku]
  · have hsize := size_insert_slot m.ldmmap key
      (Slot.retain (fun e => !old e) (slot m.ldmmap key))
    have hlen := Slot.length_retain (fun e => !old e) (slot m.ldmmap key)
    simp only [Bool.not_not] at hlen
    rw [hcard, hkept, hn]
    generalize (((slot m.ldmmap key).entries.map (·.2)).filter old).length = gone at hlen ⊢
    have hsum : size m.ldmmap + n = size (m.ldmmap.insert key
        (Slot.retain (fun e => !old e) (slot m.ldmmap key))) + n + gone := by omega
    rw [hsum, UInt64.ofNat_add _ gone]
    exact UInt64.add_sub_cancel _ _

theorem sweepSlots_acc : ∀ (l : List (Sigma fun _ : UInt32 => Slot UInt32 ReturnedVehicleData))
    (card : UInt64) (args : σ), (sweepSlots old operFcn l (card, args)).2 =
      (card - UInt64.ofNat ((l.flatMap fun e => e.2.entries.map (·.2)).filter old).length,
        report operFcn ((l.flatMap fun e => e.2.entries.map (·.2)).filter old) args)
  | [], card, args => by simp [sweepSlots, report]
  | val :: rest, card, args => by
      have hslot := sweepEntries_acc old operFcn val.2.entries card args
      have hrest := sweepSlots_acc rest
        (card - UInt64.ofNat ((val.2.entries.map (·.2)).filter old).length)
        (report operFcn ((val.2.entries.map (·.2)).filter old) args)
      rw [List.flatMap_cons, List.filter_append, List.length_append, UInt64.ofNat_add,
        report_append, ← card_sub_sub, ← hrest, ← hslot]
      rfl

/-- What a deletion does: the old entries go, every other one stays under
its key, each old one is counted down and reported once. -/
theorem sweep_spec (args : σ) :
    (m.sweep old operFcn args).1.ldmmap = retain (fun e => !old e) m.ldmmap ∧
      (m.sweep old operFcn args).1.card =
        m.card - UInt64.ofNat ((values m.ldmmap).filter old).length ∧
      (m.sweep old operFcn args).2 = report operFcn ((values m.ldmmap).filter old) args := by
  have hacc := sweepSlots_acc old operFcn m.ldmmap.entries m.card args
  rw [← values_eq] at hacc
  refine ⟨?_, congrArg Prod.fst hacc, congrArg Prod.snd hacc⟩
  ext1
  exact sweepSlots_eq old operFcn m.ldmmap.entries (m.card, args)

/-- The test, once the unsigned difference is known. -/
theorem isOld_of_age {now : UInt64} {e : ReturnedVehicleData} {n : ℕ}
    (hage : (now - e.vehData.timestampUs).toNat = n) (timeMilliseconds : ℚ) :
    isOld now timeMilliseconds e = decide ((n : ℚ) / 1000 > timeMilliseconds) := by
  rw [isOld, hage]

theorem entry_sweep (args : σ) (id : UInt64) :
    (m.sweep old operFcn args).1.entry id = (m.entry id).filter fun e => !old e := by
  rw [entry, (sweep_spec old operFcn args).1, find_retain]; rfl

/-- The count follows the entries through a deletion. -/
theorem card_sweep (args : σ) (h : m.card = UInt64.ofNat (size m.ldmmap)) :
    (m.sweep old operFcn args).1.card
      = UInt64.ofNat (size (m.sweep old operFcn args).1.ldmmap) := by
  obtain ⟨hmap, hcard, -⟩ := sweep_spec (m := m) old operFcn args
  have hsize := size_retain (fun e => !old e) m.ldmmap
  simp only [Bool.not_not] at hsize
  rw [hcard, hmap, h, ← hsize, UInt64.ofNat_add]
  exact UInt64.add_sub_cancel _ _

end Sweep

/-! ## Full scans -/

theorem rangeSelect_eq (rangeM lat lon : ℚ) (sel : List ReturnedVehicleData) :
    m.rangeSelect haversineDist rangeM lat lon sel =
      (.ok, sel ++ (values m.ldmmap).filter fun e =>
        decide (haversineDist lat lon e.vehData.lat e.vehData.lon ≤ rangeM)) := by
  rw [rangeSelect, values_eq, List.filter_flatMap]
  refine congrArg (fun l => (LDMMapError.ok, sel ++ l)) ?_
  refine congrArg (fun f => m.ldmmap.entries.flatMap f) (funext fun val => ?_)
  rw [List.filter_map, ← List.filterMap_eq_filter, List.map_filterMap]
  refine congrArg (fun f => val.2.entries.filterMap f) (funext fun vall => ?_)
  by_cases h : haversineDist lat lon vall.2.vehData.lat vall.2.vehData.lon ≤ rangeM <;>
    simp [Option.guard, h]

theorem executeOnAllContents_eq {σ : Type} (operFcn : VehicleData → σ → σ) (args : σ) :
    m.executeOnAllContents operFcn args =
      (values m.ldmmap).foldl (fun args e => operFcn e.vehData args) args := by
  rw [values_eq, List.foldl_flatMap, executeOnAllContents]
  simp only [List.foldl_map]

end LDMMap

end SLDM.Store
