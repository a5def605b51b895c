/-
SLDM.Visualizer.Markers — the markers on the map against the stations in
the database.

Three activities run at once: insertions, passes that send an update for
every entry and passes that erase the old entries and send a removal for
each. A pass works through the lower maps it found at its start, in any
order, and holds the mutex of a lower map during its visit, so a visit is
one step and sends its messages within it. `m_mainmapmut` is left out: it
only keeps some of these interleavings from happening.

The state keeps the log of all insertions and messages. What the browser
shows is computed from the log, and `Sound` ties it to the database: a
marker belongs to a stored station, and no stored station has been removed
since it was last inserted.
-/
import SLDM.Visualizer.Browser
import SLDM.Store.Refinement
import SLDM.Lib.Runs

namespace SLDM.Visualizer

open Store Runs NestedMap

/-! ## The system -/

/-- What a pass does with a lower map. -/
inductive PassKind where
  | update
  | clean (timeMilliseconds : ℚ) (now : UInt64)

/-- A pass in progress, with the upper keys of the lower maps it has not
visited. -/
structure Pass where
  kind : PassKind
  remaining : List UInt32

/-- The messages to the browser. -/
inductive Sent where
  | map
  | object (vehdata : VehicleData)
  | objclean (id : UInt64)

/-- What is remembered of a run. -/
inductive Event where
  | inserted (stationID : UInt64)
  | sent (message : Sent)

/-- The database, the passes over it, and the log, oldest first. -/
structure Visualized where
  db : LDMMap
  passes : List Pass
  log : List Event

/-- The steps: an insertion of a station with 32 bits, a browser connects,
a pass starts, visits a lower map or ends. -/
inductive VisualizerStep where
  | insert (v : VehicleData) (junk : Junk) (below32 : v.stationID < 0x100000000)
  | connection
  | start (kind : PassKind)
  | visit (i : ℕ) (key : UInt32)
  | finish (i : ℕ)

namespace Visualized

/-- The visit of one lower map, under its mutex: the database and the log
after it. -/
def visit (kind : PassKind) (key : UInt32) (db : LDMMap) (log : List Event) :
    LDMMap × List Event :=
  match kind with
  | .update =>
    (db, (slot db.ldmmap key).entries.foldl
      (fun log vall => log ++ [.sent (.object vall.2.vehData)]) log)
  | .clean timeMilliseconds now =>
    let (kept, card, log) := LDMMap.sweepSlot (LDMMap.isOld now timeMilliseconds)
      (fun id log => log ++ [.sent (.objclean id)]) (slot db.ldmmap key) (db.card, log)
    (⟨db.ldmmap.insert key kept, card⟩, log)

/-- One step. -/
def step (haversineDist : Distance) (s : Visualized) : VisualizerStep → Option Visualized
  | .insert v junk _ =>
    some { s with db := (s.db.insert haversineDist v junk).2
                  log := s.log ++ [.inserted v.stationID] }
  | .connection => some { s with log := s.log ++ [.sent .map] }
  | .start kind => some { s with passes := s.passes ++ [⟨kind, s.db.ldmmap.keys⟩] }
  | .visit i key => do
    let p ← s.passes[i]?
    if key ∈ p.remaining then
      let (db, log) := visit p.kind key s.db s.log
      return ⟨db, s.passes.set i { p with remaining := p.remaining.erase key }, log⟩
    else none
  | .finish i => do
    let p ← s.passes[i]?
    if p.remaining.isEmpty then return { s with passes := s.passes.eraseIdx i }
    else none

/-- An empty database, and nothing sent. -/
def initial : Visualized := ⟨LDMMap.new, [], []⟩

/-! ## A pass alone -/

/-- The lower maps visited one after the other. -/
def visits (kind : PassKind) (keys : List UInt32) (x : LDMMap × List Event) :
    LDMMap × List Event :=
  keys.foldl (fun x key => visit kind key x.1 x.2) x

/-- The visits of a pass, and its end, with nothing in between. -/
theorem run_visits (haversineDist : Distance) (kind : PassKind) : ∀ (keys : List UInt32)
    (x : LDMMap × List Event),
    run (step haversineDist) ⟨x.1, [⟨kind, keys⟩], x.2⟩ (keys.map (.visit 0) ++ [.finish 0]) =
      some ⟨(visits kind keys x).1, [], (visits kind keys x).2⟩
  | [], x => by
      have hfinish : step haversineDist ⟨x.1, [⟨kind, []⟩], x.2⟩ (.finish 0) =
          some ⟨x.1, [], x.2⟩ := rfl
      exact run_cons_of_step _ hfinish []
  | key :: keys, x => by
      have hvisit : step haversineDist ⟨x.1, [⟨kind, key :: keys⟩], x.2⟩ (.visit 0 key) =
          some ⟨(visit kind key x.1 x.2).1, [⟨kind, keys⟩], (visit kind key x.1 x.2).2⟩ := by
        simp [step]
      rw [List.map_cons, List.cons_append, run_cons_of_step _ hvisit]
      exact run_visits haversineDist kind keys (visit kind key x.1 x.2)

/-- The visits of an update pass do what the loop over the lower maps does. -/
theorem visits_update (db : LDMMap) : ∀ (l : List (Sigma fun _ : UInt32 =>
    Slot UInt32 ReturnedVehicleData)) (log : List Event),
    (∀ val ∈ l, slot db.ldmmap val.1 = val.2) →
    visits .update (l.map (·.1)) (db, log) = (db, l.foldl (fun log val => val.2.entries.foldl
      (fun log vall => log ++ [.sent (.object vall.2.vehData)]) log) log)
  | [], log, _ => rfl
  | val :: l, log, h => by
      have hval := h val List.mem_cons_self
      have hrest := visits_update db l (val.2.entries.foldl
        (fun log vall => log ++ [.sent (.object vall.2.vehData)]) log)
        fun val' hval' => h val' (List.mem_cons_of_mem val hval')
      rw [List.map_cons, List.foldl_cons, ← hrest, ← hval]
      rfl

/-- The visits of a pass that erases do what the loop over the lower maps
does. -/
theorem visits_clean (time : ℚ) (now : UInt64) : ∀ (l : List (Sigma fun _ : UInt32 =>
    Slot UInt32 ReturnedVehicleData)) (db : LDMMap) (log : List Event), (l.map (·.1)).Nodup →
    (∀ val ∈ l, slot db.ldmmap val.1 = val.2) →
    let x := visits (.clean time now) (l.map (·.1)) (db, log)
    let swept := LDMMap.sweepSlots (LDMMap.isOld now time)
      (fun id log => log ++ [Event.sent (.objclean id)]) l (db.card, log)
    (x.1.card, x.2) = swept.2 ∧
      ∀ ku kl, find x.1.ldmmap ku kl = if ku ∈ l.map (·.1) then
        (find db.ldmmap ku kl).filter (fun e => !LDMMap.isOld now time e)
        else find db.ldmmap ku kl
  | [], db, log, _, _ => ⟨rfl, fun _ _ => rfl⟩
  | val :: l, db, log, hnodup, h => by
      obtain ⟨hnot, hnodup'⟩ := List.nodup_cons.mp hnodup
      have hnot : val.1 ∉ l.map (·.1) := hnot
      obtain ⟨hfind, -, -⟩ := LDMMap.sweepSlot_spec (LDMMap.isOld now time)
        (fun id log => log ++ [Event.sent (.objclean id)]) db val.1 log
      rw [h val List.mem_cons_self] at hfind
      let swept := LDMMap.sweepSlot (LDMMap.isOld now time)
        (fun id log => log ++ [Event.sent (.objclean id)]) val.2 (db.card, log)
      have hvisit : visit (.clean time now) val.1 db log =
          (⟨db.ldmmap.insert val.1 swept.1, swept.2.1⟩, swept.2.2) := by
        rw [visit, h val List.mem_cons_self]
      -- the lower maps still to be visited are as they were
      obtain ⟨hacc, hrest⟩ := visits_clean time now l ⟨db.ldmmap.insert val.1 swept.1, swept.2.1⟩
        swept.2.2 hnodup' fun val' hval' => by
          have hne : val'.1 ≠ val.1 := fun heq => hnot (List.mem_map.mpr ⟨val', hval', heq⟩)
          rw [← h val' (List.mem_cons_of_mem val hval'), slot, AList.lookup_insert_ne hne, slot]
      have hvisits : visits (.clean time now) ((val :: l).map (·.1)) (db, log) =
          visits (.clean time now) (l.map (·.1))
            (⟨db.ldmmap.insert val.1 swept.1, swept.2.1⟩, swept.2.2) := by
        rw [← hvisit]; rfl
      rw [hvisits]
      refine ⟨hacc, fun ku kl => ?_⟩
      rw [hrest, hfind]
      by_cases hku : ku = val.1
      · subst hku
        rw [if_neg hnot, if_pos rfl, if_pos (by simp)]
      · rw [if_neg hku, List.map_cons]
        simp only [List.mem_cons, hku, false_or]

/-- The lower maps a pass finds are those of the database. -/
theorem slot_of_mem {db : LDMMap} : ∀ val ∈ db.ldmmap.entries, slot db.ldmmap val.1 = val.2 := by
  intro val hval
  rw [slot, AList.mem_lookup_iff.mpr hval, Option.getD_some]

/-- A pass that sends updates, with nothing in between, is
`executeOnAllContents`. -/
theorem update_alone (haversineDist : Distance) (db : LDMMap) (log : List Event) :
    run (step haversineDist) ⟨db, [], log⟩
        (.start .update :: (db.ldmmap.keys.map (.visit 0) ++ [.finish 0])) =
      some ⟨db, [], db.executeOnAllContents (fun v log => log ++ [.sent (.object v)]) log⟩ := by
  have hstart : step haversineDist ⟨db, [], log⟩ (.start .update) =
      some ⟨db, [⟨.update, db.ldmmap.keys⟩], log⟩ := rfl
  have hvisits := visits_update db db.ldmmap.entries log slot_of_mem
  have hrun := run_visits haversineDist .update db.ldmmap.keys (db, log)
  rw [show visits .update db.ldmmap.keys (db, log) = _ from hvisits] at hrun
  exact (run_cons_of_step _ hstart _).trans hrun

/-- A pass that erases, with nothing in between, is
`deleteOlderThanAndExecute`, up to the order of the lower maps. -/
theorem clean_alone (haversineDist : Distance) (time : ℚ) (now : UInt64) (db : LDMMap)
    (log : List Event) :
    let deleted := db.deleteOlderThanAndExecute time now
      (fun id log => log ++ [Event.sent (.objclean id)]) log
    ∃ db', run (step haversineDist) ⟨db, [], log⟩
        (.start (.clean time now) :: (db.ldmmap.keys.map (.visit 0) ++ [.finish 0])) =
        some ⟨db', [], deleted.2⟩ ∧
      db'.card = deleted.1.card ∧
      ∀ ku kl, find db'.ldmmap ku kl = find deleted.1.ldmmap ku kl := by
  intro deleted
  have hstart : step haversineDist ⟨db, [], log⟩ (.start (.clean time now)) =
      some ⟨db, [⟨.clean time now, db.ldmmap.keys⟩], log⟩ := rfl
  have hrun := run_visits haversineDist (.clean time now) db.ldmmap.keys (db, log)
  obtain ⟨hacc, hfind⟩ := visits_clean time now db.ldmmap.entries db log db.ldmmap.keys_nodup
    slot_of_mem
  obtain ⟨hcard, hlog⟩ := Prod.ext_iff.mp hacc
  refine ⟨_, (run_cons_of_step _ hstart _).trans (hrun.trans ?_), hcard, fun ku kl => ?_⟩
  · exact congrArg (fun log => some (Visualized.mk _ [] log)) hlog
  · have hkept := (LDMMap.sweep_spec (m := db) (LDMMap.isOld now time)
      (fun id log => log ++ [Event.sent (.objclean id)]) log).1
    rw [show deleted.1.ldmmap = _ from hkept, find_retain, hfind]
    split
    · rfl
    · rename_i hku
      have habsent : db.ldmmap.lookup ku = none := AList.lookup_eq_none.mpr hku
      rw [find_of_lookup_none habsent, Option.filter_none]

end Visualized

/-! ## What must hold -/

/-- What the texts of the messages depend on. -/
structure Setup where
  showDouble : ShowDouble
  area : MapArea
  mapboxToken : Text

/-- The text of a message. -/
def Setup.text (c : Setup) : Sent → Option Text
  | .map => mapmsg (some (sendMapDraw c.showDouble c.area)) c.mapboxToken
  | .object vehdata => some (updateVisualizer c.showDouble vehdata)
  | .objclean id => some (clearVisualizerObject id)

/-- The browser after an event. -/
def Setup.show (c : Setup) (b : Browser) : Event → Browser
  | .inserted _ => b
  | .sent message => b.receive (c.text message)

/-- The browser that has received everything sent so far. -/
def Setup.browser (c : Setup) (log : List Event) : Browser := log.foldl c.show .loaded

/-- The station is found in the database. -/
def IsStored (m : LDMMap) (id : UInt64) : Prop :=
  id < 0x100000000 ∧ ∃ e, m.lookup id = (.ok, some e)

/-- Every marker is that of a stored station. -/
def NoGhosts (c : Setup) (s : Visualized) : Prop :=
  ∀ key ∈ (c.browser s.log).markers, ∃ id, IsStored s.db id ∧ key = idText id

/-- An update that follows a removal of its station follows an insertion in
between. -/
def NoLateUpdate (log : List Event) : Prop :=
  ∀ pre id mid v post,
    log = pre ++ .sent (.objclean id) :: (mid ++ .sent (.object v) :: post) →
    v.stationID = id → .inserted id ∈ mid

/-! ## The log -/

/-- The station has been removed and not inserted since. -/
def Removed (log : List Event) (id : UInt64) : Prop :=
  ∃ pre mid, log = pre ++ .sent (.objclean id) :: mid ∧ .inserted id ∉ mid

theorem removed_concat {log : List Event} {e : Event} {id : UInt64} :
    Removed (log ++ [e]) id ↔
      e = .sent (.objclean id) ∨ (Removed log id ∧ e ≠ .inserted id) := by
  constructor
  · rintro ⟨pre, mid, heq, hmid⟩
    rcases List.eq_nil_or_concat mid with rfl | ⟨mid, e', rfl⟩
    · have hlast := List.append_inj_right' heq rfl
      exact Or.inl (List.cons.inj hlast).1
    · rw [List.concat_eq_append, ← List.cons_append, ← List.append_assoc] at heq
      obtain ⟨rfl, hlast⟩ := List.append_inj' heq rfl
      cases hlast
      rw [List.concat_eq_append, List.mem_append, not_or, List.mem_singleton] at hmid
      exact Or.inr ⟨⟨pre, mid, rfl, hmid.1⟩, fun h => hmid.2 h.symm⟩
  · rintro (rfl | ⟨⟨pre, mid, rfl, hmid⟩, hne⟩)
    · exact ⟨log, [], rfl, List.not_mem_nil⟩
    · refine ⟨pre, mid ++ [e], by simp, ?_⟩
      rw [List.mem_append, not_or, List.mem_singleton]
      exact ⟨hmid, fun h => hne h.symm⟩

/-- A log stays in order as long as no update is about a station that has
been removed. -/
theorem NoLateUpdate.concat {log : List Event} {e : Event} (h : NoLateUpdate log)
    (he : ∀ v, e = .sent (.object v) → ¬ Removed log v.stationID) :
    NoLateUpdate (log ++ [e]) := by
  intro pre id mid v post heq hid
  subst hid
  rcases List.eq_nil_or_concat post with rfl | ⟨post, e', rfl⟩
  · rw [← List.cons_append, ← List.append_assoc] at heq
    obtain ⟨rfl, hlast⟩ := List.append_inj' heq rfl
    cases hlast
    by_contra hmid
    exact he v rfl ⟨pre, mid, rfl, hmid⟩
  · have heq' : log ++ [e] = (pre ++ .sent (.objclean v.stationID) ::
        (mid ++ .sent (.object v) :: post)) ++ [e'] := by
      rw [heq]; simp
    exact h pre _ mid v post (List.append_inj' heq' rfl).1 rfl

/-- What the log says when `stored` are the stations in the database. -/
structure LogSound (c : Setup) (stored : Set UInt64) (log : List Event) : Prop where
  markers : ∀ key ∈ (c.browser log).markers, ∃ id ∈ stored, key = idText id
  notRemoved : ∀ id ∈ stored, ¬ Removed log id
  inOrder : NoLateUpdate log

section Log

variable {c : Setup} {stored : Set UInt64} {log : List Event}

theorem browser_concat (c : Setup) (log : List Event) (e : Event) :
    c.browser (log ++ [e]) = c.show (c.browser log) e := List.foldl_append

theorem logSound_nil (c : Setup) : LogSound c ∅ [] where
  markers key h := by cases h
  notRemoved id h := h.elim
  inOrder pre id mid v post heq := by simp at heq

/-- Only a removal makes a station removed. -/
theorem LogSound.notRemoved_concat (h : LogSound c stored log) {e : Event}
    (he : ∀ id, e ≠ .sent (.objclean id)) : ∀ id ∈ stored, ¬ Removed (log ++ [e]) id := by
  intro id hid hremoved
  rcases removed_concat.mp hremoved with hclean | ⟨hold, -⟩
  · exact he id hclean
  · exact h.notRemoved id hid hold

theorem LogSound.inserted (h : LogSound c stored log) (id : UInt64) :
    LogSound c (insert id stored) (log ++ [.inserted id]) where
  markers key hkey := by
    rw [browser_concat] at hkey
    obtain ⟨id', hid', heq⟩ := h.markers key hkey
    exact ⟨id', Set.mem_insert_of_mem id hid', heq⟩
  notRemoved id' hid' hremoved := by
    rcases hid' with rfl | hstored
    · rcases removed_concat.mp hremoved with hclean | ⟨-, hne⟩
      · cases hclean
      · exact hne rfl
    · exact h.notRemoved_concat (fun _ he => by cases he) id' hstored hremoved
  inOrder := h.inOrder.concat fun _ he => by cases he

theorem LogSound.map (h : LogSound c stored log) : LogSound c stored (log ++ [.sent .map]) where
  markers key hkey := by
    rw [browser_concat, Setup.show, Setup.text, Browser.markers_map] at hkey
    exact h.markers key hkey
  notRemoved := h.notRemoved_concat fun _ he => by cases he
  inOrder := h.inOrder.concat fun _ he => by cases he

theorem LogSound.object (h : LogSound c stored log) {v : VehicleData}
    (hv : v.stationID ∈ stored) : LogSound c stored (log ++ [.sent (.object v)]) where
  markers key hkey := by
    rw [browser_concat, Setup.show, Setup.text] at hkey
    rcases Browser.markers_update c.showDouble (c.browser log) v hkey with hold | heq
    · exact h.markers key hold
    · exact ⟨v.stationID, hv, heq⟩
  notRemoved := h.notRemoved_concat fun _ he => by cases he
  inOrder := h.inOrder.concat fun v' he => by
    cases he
    exact h.notRemoved v.stationID hv

theorem LogSound.objclean (h : LogSound c stored log) (id : UInt64) :
    LogSound c (stored \ {id}) (log ++ [.sent (.objclean id)]) where
  markers key hkey := by
    rw [browser_concat, Setup.show, Setup.text, Browser.markers_clear, Finset.mem_erase] at hkey
    obtain ⟨hne, hold⟩ := hkey
    obtain ⟨id', hid', rfl⟩ := h.markers key hold
    exact ⟨id', ⟨hid', fun heq => hne (congrArg idText heq)⟩, rfl⟩
  notRemoved id' hid' hremoved := by
    obtain ⟨hstored, hne⟩ := hid'
    rcases removed_concat.mp hremoved with hclean | ⟨hold, -⟩
    · cases hclean
      exact hne rfl
    · exact h.notRemoved id' hstored hold
  inOrder := h.inOrder.concat fun _ he => by cases he

/-- The updates of a visit, about stored stations. -/
theorem LogSound.objects : ∀ (vs : List VehicleData) {log : List Event},
    LogSound c stored log → (∀ v ∈ vs, v.stationID ∈ stored) →
    LogSound c stored (log ++ vs.map fun v => .sent (.object v))
  | [], log, h, _ => by simpa using h
  | v :: vs, log, h, hvs => by
      have hfirst := h.object (hvs v List.mem_cons_self)
      have hrest := hfirst.objects vs fun v' hv' => hvs v' (List.mem_cons_of_mem v hv')
      simpa using hrest

/-- The removals of a visit. -/
theorem LogSound.objcleans : ∀ (ids : List UInt64) {stored : Set UInt64} {log : List Event},
    LogSound c stored log →
    LogSound c (stored \ {id | id ∈ ids}) (log ++ ids.map fun id => .sent (.objclean id))
  | [], stored, log, h => by simpa using h
  | id :: ids, stored, log, h => by
      have hrest := (h.objclean id).objcleans ids
      have hsame : (stored \ {id}) \ {id' | id' ∈ ids} = stored \ {id' | id' ∈ id :: ids} := by
        ext id'
        simp only [Set.mem_sdiff, Set.mem_singleton_iff, Set.mem_ofPred_eq, List.mem_cons, not_or,
          and_assoc]
      rw [hsame] at hrest
      simpa using hrest

end Log

/-! ## The database -/

section Database

variable {haversineDist : Distance} {m : LDMMap} {id : UInt64}

theorem isStored_iff : IsStored m id ↔ id < 0x100000000 ∧ ∃ e, m.entry id = some e := by
  simp only [IsStored, LDMMap.lookup_ok_iff]

/-- An insertion adds its station. -/
theorem isStored_insert (h : Shows haversineDist m) {v : VehicleData} (junk : Junk)
    (hv : v.stationID < 0x100000000) :
    IsStored (m.insert haversineDist v junk).2 id ↔ id = v.stationID ∨ IsStored m id := by
  obtain ⟨a, ha⟩ := h
  rw [isStored_iff, isStored_iff]
  have hentry : ∀ hid : id < 0x100000000, ((m.insert haversineDist v junk).2.entry id).isSome =
      (decide (id = v.stationID) || (m.entry id).isSome) := by
    intro hid
    have hdata := congrArg Option.isSome (ha.vehData_insert (v := v) junk hv hid)
    rw [Option.isSome_map] at hdata
    rw [hdata]
    split
    · rename_i heq; simp [heq]
    · rename_i hne; simp [hne]
  simp only [← Option.isSome_iff_exists]
  constructor
  · rintro ⟨hid, hsome⟩
    rw [hentry hid, Bool.or_eq_true, decide_eq_true_eq] at hsome
    exact hsome.imp_right fun hold => ⟨hid, hold⟩
  · rintro (rfl | ⟨hid, hold⟩)
    · exact ⟨hv, by rw [hentry hv]; simp⟩
    · exact ⟨hid, by rw [hentry hid, hold, Bool.or_true]⟩

/-- The entries of a lower map are about stored stations. -/
theorem isStored_of_mem_slot (h : Shows haversineDist m) {key : UInt32} {e : ReturnedVehicleData}
    (he : e ∈ (slot m.ldmmap key).entries.map (·.2)) : IsStored m e.vehData.stationID := by
  obtain ⟨a, ha⟩ := h
  obtain ⟨-, hid, hentry⟩ := ha.mem_slot.mp he
  exact isStored_iff.mpr ⟨hid, e, hentry⟩

/-- A visit that erases reports a stored station exactly when it is in its
lower map and old. -/
theorem mem_reported_iff {a : StationMap} (ha : Related haversineDist m a)
    (old : ReturnedVehicleData → Bool) {key : UInt32} {e : ReturnedVehicleData}
    (hid : id < 0x100000000) (he : m.entry id = some e) :
    id ∈ (((slot m.ldmmap key).entries.map (·.2)).filter old).map
        (fun e => e.vehData.stationID) ↔ keyUpper id = key ∧ old e = true := by
  rw [List.mem_map]
  constructor
  · rintro ⟨e', hmem, rfl⟩
    obtain ⟨hslot, hold⟩ := List.mem_filter.mp hmem
    obtain ⟨hkey, -, hentry⟩ := ha.mem_slot.mp hslot
    rw [he] at hentry
    cases hentry
    exact ⟨hkey, hold⟩
  · rintro ⟨hkey, hold⟩
    have hsame : e.vehData.stationID = id := by
      rw [ha.entry id hid] at he
      obtain ⟨r, hr, rfl⟩ := Option.map_eq_some_iff.mp he
      exact ha.stationID id r hr
    refine ⟨e, List.mem_filter.mpr ⟨ha.mem_slot.mpr ?_, hold⟩, hsame⟩
    rw [hsame]
    exact ⟨hkey, hid, he⟩

/-- A visit that erases removes the stations it reports, and no other. -/
theorem isStored_sweepSlot (h : Shows haversineDist m) {σ : Type}
    (old : ReturnedVehicleData → Bool) (operFcn : UInt64 → σ → σ) (key : UInt32) (args : σ) :
    let swept := LDMMap.sweepSlot old operFcn (slot m.ldmmap key) (m.card, args)
    IsStored ⟨m.ldmmap.insert key swept.1, swept.2.1⟩ id ↔ IsStored m id ∧
      id ∉ (((slot m.ldmmap key).entries.map (·.2)).filter old).map
        fun e => e.vehData.stationID := by
  intro swept
  obtain ⟨a, ha⟩ := h
  obtain ⟨hfind, -, -⟩ := LDMMap.sweepSlot_spec old operFcn m key args
  rw [isStored_iff, isStored_iff]
  have hentry : LDMMap.entry ⟨m.ldmmap.insert key swept.1, swept.2.1⟩ id =
      if keyUpper id = key then (m.entry id).filter (fun e => !old e) else m.entry id :=
    hfind (keyUpper id) (keyLower id)
  rw [hentry]
  cases he : m.entry id with
  | none => simp
  | some e =>
    by_cases hid : id < 0x100000000
    · rw [mem_reported_iff ha old hid he]
      by_cases hkey : keyUpper id = key
      · cases hold : old e <;> simp [hkey, hold, hid]
      · simp [hkey, hid]
    · simp [hid]

end Database

/-! ## Runs -/

section Runs

variable {haversineDist : Distance} {c : Setup}

/-- The database is described by some station map, and the log says of its
stations what it must. -/
structure Sound (haversineDist : Distance) (c : Setup) (db : LDMMap) (log : List Event) :
    Prop where
  shows : Shows haversineDist db
  log : LogSound c {id | IsStored db id} log

theorem sound_new (haversineDist : Distance) (c : Setup) :
    Sound haversineDist c LDMMap.new [] where
  shows := shows_new haversineDist
  log := by
    have hnone : {id | IsStored LDMMap.new id} = ∅ := by
      ext id
      simp [isStored_iff, LDMMap.new, LDMMap.entry]
    rw [hnone]
    exact logSound_nil c

theorem Sound.visit {db : LDMMap} {log : List Event} (h : Sound haversineDist c db log)
    (kind : PassKind) (key : UInt32) :
    Sound haversineDist c (Visualized.visit kind key db log).1
      (Visualized.visit kind key db log).2 := by
  cases kind with
  | update =>
    refine ⟨h.shows, ?_⟩
    have hobjects := h.log.objects (((slot db.ldmmap key).entries.map (·.2)).map
      ReturnedVehicleData.vehData) fun v hv => ?_
    · simpa only [Visualized.visit, foldl_log, List.map_map, Function.comp_def] using hobjects
    · obtain ⟨e, he, rfl⟩ := List.mem_map.mp hv
      exact isStored_of_mem_slot h.shows he
  | clean time now =>
    obtain ⟨a, ha⟩ := h.shows
    refine ⟨⟨_, ha.sweepSlot _ _ key log⟩, ?_⟩
    have hcleans := h.log.objcleans ((((slot db.ldmmap key).entries.map (·.2)).filter
      (LDMMap.isOld now time)).map fun e => e.vehData.stationID)
    obtain ⟨-, -, hlog⟩ := LDMMap.sweepSlot_spec (LDMMap.isOld now time)
      (fun id log => log ++ [Event.sent (.objclean id)]) db key log
    rw [LDMMap.report, foldl_log] at hlog
    have hstored : {id | IsStored (Visualized.visit (.clean time now) key db log).1 id} =
        {id | IsStored db id} \ {id | id ∈ (((slot db.ldmmap key).entries.map (·.2)).filter
          (LDMMap.isOld now time)).map fun e => e.vehData.stationID} := by
      ext id
      exact isStored_sweepSlot h.shows _ _ key log
    rw [hstored, show (Visualized.visit (.clean time now) key db log).2 = _ from hlog]
    simpa only [List.map_map, Function.comp_def] using hcleans

/-- Every step keeps the invariant. -/
theorem sound_step (s : Visualized) (l : VisualizerStep) (s' : Visualized)
    (h : Sound haversineDist c s.db s.log) (hs : s.step haversineDist l = some s') :
    Sound haversineDist c s'.db s'.log := by
  cases l with
  | insert v junk below32 =>
    cases hs
    obtain ⟨a, ha⟩ := h.shows
    refine ⟨⟨_, (ha.insert junk below32).2⟩, ?_⟩
    have hstored : {id | IsStored (s.db.insert haversineDist v junk).2 id} =
        insert v.stationID {id | IsStored s.db id} := by
      ext id
      exact isStored_insert h.shows junk below32
    show LogSound c {id | IsStored (s.db.insert haversineDist v junk).2 id} _
    rw [hstored]
    exact h.log.inserted v.stationID
  | connection => cases hs; exact ⟨h.shows, h.log.map⟩
  | start kind => cases hs; exact h
  | visit i key =>
    simp only [Visualized.step, Option.bind_eq_bind, Option.bind_eq_some_iff] at hs
    obtain ⟨p, -, hs⟩ := hs
    split at hs
    · cases hs
      exact h.visit p.kind key
    · cases hs
  | finish i =>
    simp only [Visualized.step, Option.bind_eq_bind, Option.bind_eq_some_iff] at hs
    obtain ⟨p, -, hs⟩ := hs
    split at hs
    · cases hs
      exact h
    · cases hs

/-- In every state of every interleaving, each marker in the browser is
that of a stored station, and no update of a station follows its removal
without an insertion in between. -/
theorem noGhosts_run (haversineDist : Distance) (c : Setup) (ls : List VisualizerStep) :
    AllStates (Visualized.step haversineDist) (fun s => NoGhosts c s ∧ NoLateUpdate s.log)
      .initial ls :=
  (allStates_of_invariant sound_step (sound_new haversineDist c) ls).mono
    fun _ h => ⟨h.log.markers, h.log.inOrder⟩

/-- A stored station is shown after the visit of its lower map. -/
example : ((run (Visualized.step fun _ _ _ _ => 0) .initial
    [.connection, .insert { (default : VehicleData) with stationID := 7 } ⟨0, fun _ => default⟩
      (by decide), .start .update, .visit 0 0]).map fun s =>
        decide (idText 7 ∈ (Setup.browser ⟨fun _ _ => ['0'], ⟨0, 0, 0, 0, 0, 0, 0, 0⟩, ['t']⟩
          s.log).markers)) = some true := by decide +kernel

end Runs

end SLDM.Visualizer
