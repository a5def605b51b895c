/-
SLDM.Store.CollectionCallback — garbage collection with and without a
callback.

The source has the loop twice. `sweep` is the one of
`deleteOlderThanAndExecute`; `eraseOld` below is the one of
`deleteOlderThan`, written out on its own, and the two stay in step entry by
entry (`eraseEntries_sweepEntries`), in whatever order the maps are walked.

`KeysMatch` is what the database keeps: every entry stands under the keys
of its station ID, and the cardinality counts the entries. From it the
calls of the callback are the station IDs that were stored and are gone,
each once (`collection_calls`).
-/
import SLDM.Store.GarbageCollection
import SLDM.Store.Refinement

namespace SLDM.Store

open NestedMap

namespace LDMMap

/-! ## The loop without the callback -/

section Erase

variable (old : ReturnedVehicleData → Bool)

/-- The loop of `deleteOlderThan` over one lower map: `erase` returns the
iterator to the next entry. -/
def eraseEntries : List (Sigma fun _ : UInt32 => ReturnedVehicleData) → UInt64 →
    List (Sigma fun _ : UInt32 => ReturnedVehicleData) × UInt64
  | [], card => ([], card)
  | mit :: rest, card =>
    if old mit.2 then eraseEntries rest (card - 1)
    else
      let (kept, card) := eraseEntries rest card
      (mit :: kept, card)

theorem eraseEntries_kept : ∀ (l : List (Sigma fun _ : UInt32 => ReturnedVehicleData))
    (card : UInt64), (eraseEntries old l card).1 = l.filter fun e => !old e.2
  | [], _ => rfl
  | mit :: rest, card => by
      rw [eraseEntries]
      cases h : old mit.2 with
      | true =>
        rw [if_pos rfl, eraseEntries_kept rest, List.filter_cons_of_neg (by simp [h])]
      | false =>
        rw [if_neg (by simp), List.filter_cons_of_pos (by simp [h]),
          ← eraseEntries_kept rest card]

/-- The loop over one lower map, as a lower map. -/
def eraseSlot (s : Slot UInt32 ReturnedVehicleData) (card : UInt64) :
    Slot UInt32 ReturnedVehicleData × UInt64 :=
  (⟨(eraseEntries old s.entries card).1, by
      rw [eraseEntries_kept]; exact s.nodupKeys.sublist List.filter_sublist⟩,
    (eraseEntries old s.entries card).2)

/-- The loop over the lower maps. -/
def eraseSlots : List (Sigma fun _ : UInt32 => Slot UInt32 ReturnedVehicleData) → UInt64 →
    List (Sigma fun _ : UInt32 => Slot UInt32 ReturnedVehicleData) × UInt64
  | [], card => ([], card)
  | val :: rest, card =>
    let (lower, card) := eraseSlot old val.2 card
    let (lowers, card) := eraseSlots rest card
    (⟨val.1, lower⟩ :: lowers, card)

/-! ## In step -/

variable {σ : Type} (operFcn : UInt64 → σ → σ)

/-- Entry by entry both loops keep the same and count down alike. -/
theorem eraseEntries_sweepEntries :
    ∀ (l : List (Sigma fun _ : UInt32 => ReturnedVehicleData)) (card : UInt64) (args : σ),
      eraseEntries old l card =
        ((sweepEntries old operFcn l (card, args)).1, (sweepEntries old operFcn l (card, args)).2.1)
  | [], _, _ => rfl
  | mit :: rest, card, args => by
      rw [eraseEntries, sweepEntries]
      cases h : old mit.2 with
      | true =>
        rw [if_pos rfl, if_pos rfl]
        exact eraseEntries_sweepEntries rest (card - 1) _
      | false =>
        rw [if_neg (by simp), if_neg (by simp), eraseEntries_sweepEntries rest card args]

theorem eraseSlot_sweepSlot (s : Slot UInt32 ReturnedVehicleData) (card : UInt64) (args : σ) :
    eraseSlot old s card =
      ((sweepSlot old operFcn s (card, args)).1, (sweepSlot old operFcn s (card, args)).2.1) := by
  have hloop := eraseEntries_sweepEntries old operFcn s.entries card args
  have hcard : (eraseSlot old s card).2 = (sweepSlot old operFcn s (card, args)).2.1 :=
    congrArg Prod.snd hloop
  refine Prod.ext ?_ hcard
  ext1
  exact congrArg Prod.fst hloop

theorem eraseSlots_sweepSlots :
    ∀ (l : List (Sigma fun _ : UInt32 => Slot UInt32 ReturnedVehicleData)) (card : UInt64)
      (args : σ), eraseSlots old l card =
        ((sweepSlots old operFcn l (card, args)).1, (sweepSlots old operFcn l (card, args)).2.1)
  | [], _, _ => rfl
  | val :: rest, card, args => by
      rw [eraseSlots, eraseSlot_sweepSlot old operFcn val.2 card args]
      dsimp only
      rw [eraseSlots_sweepSlots rest _ (sweepSlot old operFcn val.2 (card, args)).2.2]
      rfl

/-- The body of `deleteOlderThan`. -/
def eraseOld (m : LDMMap) : LDMMap :=
  let erased := eraseSlots old m.ldmmap.entries m.card
  ⟨⟨erased.1, by
      have hkept := congrArg Prod.fst
        (eraseSlots_sweepSlots old (fun _ args => args) m.ldmmap.entries m.card ())
      rw [show erased.1 = _ from hkept, sweepSlots_eq]
      exact (mapSlots (Slot.retain fun e => !old e) m.ldmmap).nodupKeys⟩,
    erased.2⟩

theorem eq_of_ldmmap_card {m m' : LDMMap} (hmap : m.ldmmap = m'.ldmmap)
    (hcard : m.card = m'.card) : m = m' := by
  cases m
  cases m'
  cases hmap
  cases hcard
  rfl

/-- The two bodies leave the same database, whatever the callback does. -/
theorem eraseOld_eq_sweep (m : LDMMap) (args : σ) :
    m.eraseOld old = (m.sweep old operFcn args).1 := by
  have hloop := eraseSlots_sweepSlots old operFcn m.ldmmap.entries m.card args
  have hmap : (m.eraseOld old).ldmmap = (m.sweep old operFcn args).1.ldmmap := by
    ext1
    exact congrArg Prod.fst hloop
  have hcard : (m.eraseOld old).card = (m.sweep old operFcn args).1.card :=
    congrArg Prod.snd hloop
  exact eq_of_ldmmap_card hmap hcard

end Erase

/-! ## The calls of the callback -/

/-- Every entry stands under the keys of its station ID, and the
cardinality is the number of entries. -/
structure KeysMatch (m : LDMMap) : Prop where
  keys : ∀ ku kl e, find m.ldmmap ku kl = some e → e.vehData.stationID < 0x100000000 ∧
    (ku, kl) = (keyUpper e.vehData.stationID, keyLower e.vehData.stationID)
  card : m.card = UInt64.ofNat (size m.ldmmap)

/-- A station ID is stored when some entry carries it. -/
def Stores (m : LDMMap) (id : UInt64) : Prop :=
  ∃ ku kl e, find m.ldmmap ku kl = some e ∧ e.vehData.stationID = id

/-- The station IDs the callback is called with, in the order of the calls. -/
def calls (m : LDMMap) (old : ReturnedVehicleData → Bool) : List UInt64 :=
  ((values m.ldmmap).filter old).map fun e => e.vehData.stationID

section Calls

variable {m : LDMMap} {old : ReturnedVehicleData → Bool}

theorem KeysMatch.nodup_calls (h : KeysMatch m) : (calls m old).Nodup :=
  (nodup_stationIDs fun ku kl e hfind => (h.keys ku kl e hfind).2).sublist
    (List.filter_sublist.map _)

/-- What is gone are the entries that were old. -/
theorem KeysMatch.mem_calls (h : KeysMatch m) {m' : LDMMap}
    (hmap : m'.ldmmap = retain (fun e => !old e) m.ldmmap) (id : UInt64) :
    id ∈ calls m old ↔ Stores m id ∧ ¬ Stores m' id := by
  constructor
  · intro hid
    obtain ⟨e, he, rfl⟩ := List.mem_map.mp hid
    obtain ⟨he, hold⟩ := List.mem_filter.mp he
    obtain ⟨ku, kl, hfind⟩ := mem_values.mp he
    refine ⟨⟨ku, kl, e, hfind, rfl⟩, ?_⟩
    rintro ⟨ku', kl', e', hfind', hsame⟩
    rw [hmap, find_retain, Option.filter_eq_some_iff] at hfind'
    obtain ⟨hfind', hkept⟩ := hfind'
    -- the same station ID is the same cell
    have hkeys := (h.keys ku' kl' e' hfind').2
    rw [hsame, ← (h.keys ku kl e hfind).2, Prod.mk.injEq] at hkeys
    rw [hkeys.1, hkeys.2, hfind, Option.some.injEq] at hfind'
    rw [← hfind', hold] at hkept
    cases hkept
  · rintro ⟨⟨ku, kl, e, hfind, rfl⟩, hgone⟩
    refine List.mem_map.mpr ⟨e, List.mem_filter.mpr ⟨mem_values.mpr ⟨ku, kl, hfind⟩, ?_⟩, rfl⟩
    by_contra hnew
    refine hgone ⟨ku, kl, e, ?_, rfl⟩
    rw [hmap, find_retain, Option.filter_eq_some_iff]
    exact ⟨hfind, by simp [hnew]⟩

/-- The callback is called with one station ID after the other. -/
theorem report_eq_calls {σ : Type} (operFcn : UInt64 → σ → σ) (args : σ) :
    report operFcn ((values m.ldmmap).filter old) args =
      (calls m old).foldl (fun args id => operFcn id args) args := by
  rw [calls, List.foldl_map]
  rfl

/-- Garbage collection keeps the invariant. -/
theorem KeysMatch.sweep (h : KeysMatch m) {σ : Type} (operFcn : UInt64 → σ → σ) (args : σ) :
    KeysMatch (m.sweep old operFcn args).1 where
  keys ku kl e hfind := by
    rw [(sweep_spec old operFcn args).1, find_retain, Option.filter_eq_some_iff] at hfind
    exact h.keys ku kl e hfind.1
  card := card_sweep old operFcn args h.card

end Calls

end LDMMap

/-- So it holds of every database that shows a station map, in particular of
every one a sequence of operations leads to. -/
theorem Related.keysMatch {haversineDist : Distance} {m : LDMMap} {a : StationMap}
    (h : Related haversineDist m a) : m.KeysMatch where
  keys ku kl e hfind := by
    obtain ⟨r, hr, -, hkeys⟩ := h.record hfind
    exact ⟨h.below32 _ r hr, hkeys⟩
  card := h.card

/-- Garbage collection with and without a callback leaves the same database,
whatever the callback does; and the callback is called with the station IDs
that were stored before and are not afterwards, with each of them once. -/
theorem collection_calls (m : LDMMap) (h : m.KeysMatch) (timeMilliseconds : ℚ) (now : UInt64) :
    m.eraseOld (LDMMap.isOld now timeMilliseconds) = m.deleteOlderThan timeMilliseconds now ∧
    (∀ (σ : Type) (operFcn : UInt64 → σ → σ) (args : σ),
      m.deleteOlderThan timeMilliseconds now =
        (m.deleteOlderThanAndExecute timeMilliseconds now operFcn args).1) ∧
    ∃ calls : List UInt64, calls.Nodup ∧
      (∀ id, id ∈ calls ↔ m.Stores id ∧ ¬ (m.deleteOlderThan timeMilliseconds now).Stores id) ∧
      ∀ (σ : Type) (operFcn : UInt64 → σ → σ) (args : σ),
        (m.deleteOlderThanAndExecute timeMilliseconds now operFcn args).2 =
          calls.foldl (fun args id => operFcn id args) args := by
  have herase : ∀ {σ : Type} (operFcn : UInt64 → σ → σ) (args : σ),
      m.eraseOld (LDMMap.isOld now timeMilliseconds) =
        (m.deleteOlderThanAndExecute timeMilliseconds now operFcn args).1 :=
    fun operFcn args => LDMMap.eraseOld_eq_sweep _ operFcn m args
  refine ⟨herase (fun _ args => args) (), fun σ operFcn args => ?_,
    m.calls (LDMMap.isOld now timeMilliseconds), h.nodup_calls, fun id => ?_,
    fun σ operFcn args => ?_⟩
  · exact (herase (fun _ args => args) ()).symm.trans (herase operFcn args)
  · exact h.mem_calls (LDMMap.sweep_spec _ _ _).1 id
  · rw [← LDMMap.report_eq_calls]
    exact (LDMMap.sweep_spec _ operFcn args).2.2

theorem lateMap_keysMatch : lateMap.KeysMatch :=
  ((@related_new fun _ _ _ _ => 0).insert (v := lateVehicle)
    ⟨0, fun _ => default⟩ (by decide)).2.keysMatch

/-- Eight seconds later every entry of the vehicle is old. -/
theorem isOld_lateVehicle (phData : Option PHpoints) :
    LDMMap.isOld 10000000 5000 ⟨lateVehicle, phData⟩ = true := by
  have hage : (10000000 - lateVehicle.timestampUs).toNat = 8000000 := by decide
  rw [LDMMap.isOld_of_age (e := ⟨lateVehicle, phData⟩) (by exact hage)]
  norm_num

/-- Then the late vehicle is collected, and the callback is called once, for
it. -/
theorem collection_calls_lateMap :
    lateMap.Stores 7 ∧ ¬ (lateMap.deleteOlderThan 5000 10000000).Stores 7 ∧
    lateMap.eraseOld (LDMMap.isOld 10000000 5000) = lateMap.deleteOlderThan 5000 10000000 ∧
    ∀ (σ : Type) (operFcn : UInt64 → σ → σ) (args : σ),
      lateMap.deleteOlderThanAndExecute 5000 10000000 operFcn args =
        (lateMap.deleteOlderThan 5000 10000000, operFcn 7 args) := by
  have hstored : lateMap.Stores 7 :=
    ⟨keyUpper 7, keyLower 7, _, (find_lateMap _ _).trans (if_pos rfl), rfl⟩
  have honly : ∀ id, lateMap.Stores id → id = 7 := by
    rintro id ⟨ku, kl, e, hfind, rfl⟩
    rw [find_lateMap, Option.ite_none_right_eq_some, Option.some.injEq] at hfind
    rw [← hfind.2]
    rfl
  have hgone : ¬ (lateMap.deleteOlderThan 5000 10000000).Stores 7 := by
    rintro ⟨ku, kl, e, hfind, -⟩
    rw [LDMMap.deleteOlderThan, (LDMMap.sweep_spec _ _ _).1, find_retain,
      Option.filter_eq_some_iff, find_lateMap, Option.ite_none_right_eq_some] at hfind
    obtain ⟨⟨-, hentry⟩, hkept⟩ := hfind
    cases hentry
    rw [isOld_lateVehicle] at hkept
    cases hkept
  obtain ⟨herase, hmap, calls, hnodup, hmem, hcalls⟩ :=
    collection_calls lateMap lateMap_keysMatch 5000 10000000
  have hone : calls = [7] := by
    refine List.perm_singleton.mp ((List.perm_ext_iff_of_nodup hnodup (by simp)).mpr fun id => ?_)
    rw [hmem, List.mem_singleton]
    constructor
    · intro h
      exact honly id h.1
    · rintro rfl
      exact ⟨hstored, hgone⟩
  refine ⟨hstored, hgone, herase, fun σ operFcn args => Prod.ext (hmap σ operFcn args).symm ?_⟩
  rw [hcalls, hone]
  rfl

end SLDM.Store
