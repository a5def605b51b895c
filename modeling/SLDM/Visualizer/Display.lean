/-
SLDM.Visualizer.Display — what the map shows of the database.

A browser sees the messages that come after its page was loaded, so it sees
the end of some log of `Markers`. A `Board` is what these messages say,
without texts and icons: whether the map is drawn, and for every station the
updates since its last removal.

Everything that is sent arrives, in the order it was sent. The datagrams to
the server could be lost, and the program does not look at what `send`
returns; after a loss §1 still holds of what has arrived, §2 and §3 do not.
As in `Markers`, an insertion is one step, station IDs have 32 bits, and the
passes run once the visualizer has been handed over.

§1 Boards    — the page shows for each station the last of its updates, with
               the icon that all of them led to (`follows_log`).
§2 Stations  — the last update of a station carries the data that are in the
               database, unless the station was inserted since (`tracks_step`).
§3 Runs      — both together, for every interleaving and every browser, and
               what a visit of an update pass brings up to date
               (`display_run`).

The headings are the one point where the page disagrees with the messages:
an unavailable heading arrives as 360.1 degrees, which the page takes for
north.
-/
import SLDM.Visualizer.MapPage
import SLDM.Visualizer.Markers

namespace SLDM.Visualizer

open Store Runs NestedMap NumberText

/-! ## §1 Boards -/

/-- What a browser has been told: of a station, the updates since its last
removal, and whether it has been inserted after the last of them. -/
structure Board where
  drawn : Bool
  updates : UInt64 → List VehicleData
  insertedSince : UInt64 → Bool

/-- Before the first message. -/
def Board.loaded : Board := ⟨false, fun _ => [], fun _ => false⟩

/-- The board after an event. -/
def Board.show (mapboxToken : Text) (b : Board) : Event → Board
  | .inserted id => { b with insertedSince := Function.update b.insertedSince id true }
  | .sent .map => { b with drawn := b.drawn || decide (',' ∉ mapboxToken) }
  | .sent (.object v) =>
    if b.drawn then
      { b with updates := Function.update b.updates v.stationID (b.updates v.stationID ++ [v])
               insertedSince := Function.update b.insertedSince v.stationID false }
    else b
  | .sent (.objclean id) => { b with updates := Function.update b.updates id [] }

/-- The board after a log. -/
def board (mapboxToken : Text) (log : List Event) : Board := log.foldl (·.show mapboxToken) .loaded

/-- The page after an event. -/
def Page.show (area : MapArea) (mapboxToken : Text) (p : Page) : Event → Page
  | .inserted _ => p
  | .sent message => p.receive (Setup.text ⟨streamDouble, area, mapboxToken⟩ message)

/-- The page after a log, all of which has arrived. -/
def page (area : MapArea) (mapboxToken : Text) (log : List Event) : Page :=
  log.foldl (·.show area mapboxToken) .loaded

/-- The page has the markers of the browser it stands for. -/
theorem mirrors_log (area : MapArea) (mapboxToken : Text) (log : List Event) :
    Mirrors (page area mapboxToken log)
      (Setup.browser ⟨streamDouble, area, mapboxToken⟩ log) := by
  induction log using List.reverseRecOn with
  | nil => exact mirrors_loaded
  | append_singleton log e ih =>
    rw [page, List.foldl_append, browser_concat]
    cases e with
    | inserted id => exact ih
    | sent message => exact ih.receive _

/-- A marker after an update of its station. -/
def Marker.next (marker : Option Marker) (v : VehicleData) : Marker :=
  let id := idText v.stationID
  let stationtype := some v.stationType.value
  match marker with
  | none => .create id (shown 7 v.lat) (shown 7 v.lon) stationtype (shown 3 v.heading)
  | some marker =>
    marker.update (some marker.icon) id (shown 7 v.lat) (shown 7 v.lon) stationtype
      (shown 3 v.heading)

/-- The marker the updates of a station lead to. -/
def markerAfter (updates : List VehicleData) : Option Marker :=
  updates.foldl (fun marker v => some (Marker.next marker v)) none

theorem markerAfter_concat (updates : List VehicleData) (v : VehicleData) :
    markerAfter (updates ++ [v]) = some (Marker.next (markerAfter updates) v) := List.foldl_append

/-- The page shows what the board says, and has kept the indices of the
icons. -/
structure Follows (p : Page) (b : Board) : Prop where
  drawn : p.leafletmap.isSome = b.drawn
  markers : ∀ id, p.markers (idText id) = markerAfter (b.updates id)
  icons : ∀ id marker, p.markers (idText id) = some marker →
    p.markersicons (idText id) = some marker.icon
  names : ∀ key, (p.markers key).isSome = true → ∃ id, key = idText id

theorem idText_injective : Function.Injective idText := by
  intro id other h
  have hread := congrArg (fun t => Nat.ofDigitChars 10 t 0) h
  simp only [idText, Nat.ofDigitChars_ten_toDigits] at hread
  exact UInt64.toNat_inj.mp hread

theorem idText_ne {id other : UInt64} (h : other ≠ id) : idText other ≠ idText id :=
  idText_injective.ne h

section Follows

variable {p : Page} {b : Board}

theorem follows_loaded : Follows .loaded .loaded where
  drawn := rfl
  markers _ := rfl
  icons id marker h := by cases h
  names key h := by cases h

/-- The marker of the station after one update, and its index. -/
theorem Follows.updateVehicle_self (h : Follows p b) (hdrawn : b.drawn = true) (v : VehicleData) :
    ∃ marker, markerAfter (b.updates v.stationID ++ [v]) = some marker ∧
      (p.updateVehicle v).markers (idText v.stationID) = some marker ∧
      (p.updateVehicle v).markersicons (idText v.stationID) = some marker.icon := by
  have hmap : p.leafletmap.isNone = false := by
    rw [← Option.not_isSome, h.drawn, hdrawn]; rfl
  rw [markerAfter_concat, ← h.markers]
  cases hold : p.markers (idText v.stationID) with
  | none => exact ⟨_, rfl, Page.updateMarker_new hmap hold⟩
  | some marker => exact ⟨_, rfl, Page.updateMarker_again hmap hold (h.icons _ marker hold)⟩

/-- One update. -/
theorem Follows.updateVehicle (h : Follows p b) (hdrawn : b.drawn = true) (mapboxToken : Text)
    (v : VehicleData) : Follows (p.updateVehicle v) (b.show mapboxToken (.sent (.object v))) := by
  obtain ⟨marker, hafter, hmarker, hicon⟩ := h.updateVehicle_self hdrawn v
  have hother {id : UInt64} (hid : id ≠ v.stationID) :
      (p.updateVehicle v).markers (idText id) = p.markers (idText id) ∧
        (p.updateVehicle v).markersicons (idText id) = p.markersicons (idText id) :=
    Page.updateMarker_other (idText_ne hid)
  simp only [Board.show, hdrawn, if_true]
  refine ⟨?_, fun id => ?_, fun id marker' hfound => ?_, fun key hkey => ?_⟩
  · rw [Page.updateVehicle, Page.leafletmap_updateMarker, h.drawn, hdrawn]
  · by_cases hid : id = v.stationID
    · subst hid
      simp only [hmarker, Function.update_self, hafter]
    · simp only [(hother hid).1, Function.update_of_ne hid, h.markers]
  · by_cases hid : id = v.stationID
    · subst hid
      rw [hmarker] at hfound
      cases hfound
      exact hicon
    · rw [(hother hid).1] at hfound
      rw [(hother hid).2, h.icons id marker' hfound]
  · by_cases hid : key = idText v.stationID
    · exact ⟨v.stationID, hid⟩
    · have hsame : (p.updateVehicle v).markers key = p.markers key :=
        (Page.updateMarker_other hid).1
      rw [hsame] at hkey
      exact h.names key hkey

/-- Every event keeps page and board together. -/
theorem Follows.show (h : Follows p b) (area : MapArea) (mapboxToken : Text) (e : Event) :
    Follows (p.show area mapboxToken e) (b.show mapboxToken e) := by
  cases e with
  | inserted id => exact ⟨h.drawn, h.markers, h.icons, h.names⟩
  | sent message =>
    cases message with
    | map =>
      rw [Page.show, Setup.text, Page.receive_map]
      by_cases hkeep : p.leafletmap.isSome = true ∨ ',' ∈ mapboxToken
      · rw [if_pos hkeep]
        refine ⟨?_, h.markers, h.icons, h.names⟩
        rcases hkeep with hdrawn | htoken
        · rw [hdrawn, Board.show, ← h.drawn, hdrawn]; rfl
        · rw [h.drawn]; simp [Board.show, htoken]
      · rw [if_neg hkeep]
        obtain ⟨-, htoken⟩ := not_or.mp hkeep
        exact ⟨by simp [Board.show, htoken], h.markers, h.icons, h.names⟩
    | object v =>
      rw [Page.show, Setup.text, Page.receive_update]
      cases hdrawn : b.drawn with
      | true => exact h.updateVehicle hdrawn mapboxToken v
      | false =>
        have hmap : p.leafletmap.isNone = true := by
          rw [← Option.not_isSome, h.drawn, hdrawn]; rfl
        have hsame : b.show mapboxToken (.sent (.object v)) = b := by simp [Board.show, hdrawn]
        rw [hsame, Page.updateVehicle, Page.updateMarker, if_pos hmap]
        exact h
    | objclean id =>
      rw [Page.show, Setup.text, Page.receive_clear]
      refine ⟨h.drawn, fun other => ?_, fun other marker hfound => ?_, fun key hkey => ?_⟩
      · by_cases hid : other = id
        · subst hid
          simp [Board.show, markerAfter]
        · simp only [Board.show, Function.update_of_ne (idText_ne hid), Function.update_of_ne hid]
          exact h.markers other
      · by_cases hid : other = id
        · subst hid
          simp at hfound
        · simp only [Function.update_of_ne (idText_ne hid)] at hfound
          exact h.icons other marker hfound
      · by_cases hid : key = idText id
        · exact ⟨id, hid⟩
        · simp only [Function.update_of_ne hid] at hkey
          exact h.names key hkey

theorem follows_log (area : MapArea) (mapboxToken : Text) (log : List Event) :
    Follows (page area mapboxToken log) (board mapboxToken log) := by
  induction log using List.reverseRecOn with
  | nil => exact follows_loaded
  | append_singleton log e ih =>
    rw [page, board, List.foldl_append, List.foldl_append]
    exact ih.show area mapboxToken e

end Follows

/-! ### What a marker shows -/

/-- The marker is where the vehicle is and points where it is heading; a
pedestrian is not turned. -/
structure Marker.Shows (marker : Marker) (v : VehicleData) : Prop where
  lat : Near 7 v.lat marker.lat
  lon : Near 7 v.lon marker.lon
  rotation : v.stationType.value ≠ 110 → Near 3 v.heading marker.rotationAngle

theorem shows_next (marker : Option Marker) (v : VehicleData) : (Marker.next marker v).Shows v := by
  have hlat := near_shown (P := 7) (by norm_num) v.lat
  have hlon := near_shown (P := 7) (by norm_num) v.lon
  have hheading := near_shown (P := 3) (by norm_num) v.heading
  cases marker with
  | none =>
    exact ⟨hlat, hlon, fun htype => by simpa [Marker.next, Marker.create, htype] using hheading⟩
  | some marker =>
    exact ⟨hlat, hlon, fun htype => by simpa [Marker.next, Marker.update, htype] using hheading⟩

/-- The heading is written out whenever it counts as available. -/
theorem popup_next (marker : Option Marker) {v : VehicleData} (hv : v.heading < 721 / 2) :
    (Marker.next marker v).popup = .heading (idText v.stationID) (shown 3 v.heading) := by
  have havailable := headingAvailable_shown hv
  have hnot := headingUnavailable_of_available havailable
  cases marker with
  | none => simp [Marker.next, Marker.create, havailable]
  | some marker => simp [Marker.next, Marker.update, havailable, hnot]

/-- Without an unavailable heading there is no round icon. -/
theorem icon_next {marker : Option Marker} {v : VehicleData} (hv : v.heading < 721 / 2)
    (hmarker : ∀ m, marker = some m → m.icon ≠ .circle) :
    (Marker.next marker v).icon ≠ .circle := by
  have havailable := headingAvailable_shown hv
  have hnot := headingUnavailable_of_available havailable
  cases marker with
  | none =>
    simp only [Marker.next, Marker.create, initialIcon, hnot]
    split_ifs <;> simp_all
  | some marker =>
    have hold := hmarker marker rfl
    simp only [Marker.next, Marker.update, newIcon, hnot, havailable]
    split_ifs <;> simp_all

theorem icon_markerAfter {updates : List VehicleData} (h : ∀ v ∈ updates, v.heading < 721 / 2) :
    ∀ marker, markerAfter updates = some marker → marker.icon ≠ .circle := by
  induction updates using List.reverseRecOn with
  | nil => intro marker hmarker; cases hmarker
  | append_singleton updates v ih =>
    intro marker hmarker
    rw [markerAfter_concat] at hmarker
    cases hmarker
    exact icon_next (h v (by simp)) (ih fun u hu => h u (by simp [hu]))

/-! ## §2 Stations -/

/-- The data of the stations. -/
def dataOf (m : LDMMap) (id : UInt64) : Option VehicleData :=
  if id < 0x100000000 then (m.entry id).map ReturnedVehicleData.vehData else none

/-- The last update of a station says what is in the database, unless the
station has been inserted since. -/
def Tracks (data : UInt64 → Option VehicleData) (b : Board) : Prop :=
  ∀ id us v, b.updates id = us ++ [v] →
    v.stationID = id ∧ ∃ u, data id = some u ∧ (b.insertedSince id = false → u = v)

section Tracks

variable {mapboxToken : Text} {data : UInt64 → Option VehicleData} {b : Board}

theorem tracks_loaded (data : UInt64 → Option VehicleData) : Tracks data .loaded := by
  intro id us v h
  simp [Board.loaded] at h

theorem Tracks.inserted (h : Tracks data b) (v : VehicleData) :
    Tracks (Function.update data v.stationID (some v))
      (b.show mapboxToken (.inserted v.stationID)) := by
  intro id us u hupdates
  obtain ⟨hid, u', hdata, hfresh⟩ := h id us u hupdates
  refine ⟨hid, ?_⟩
  by_cases hsame : id = v.stationID
  · subst hsame
    exact ⟨v, Function.update_self _ _ _, fun hsince => by simp [Board.show] at hsince⟩
  · refine ⟨u', by rw [Function.update_of_ne hsame, hdata], fun hsince => hfresh ?_⟩
    simpa [Board.show, hsame] using hsince

theorem Tracks.map (h : Tracks data b) : Tracks data (b.show mapboxToken (.sent .map)) := h

theorem Tracks.object (h : Tracks data b) {v : VehicleData} (hv : data v.stationID = some v) :
    Tracks data (b.show mapboxToken (.sent (.object v))) := by
  cases hdrawn : b.drawn with
  | false => simpa [Board.show, hdrawn] using h
  | true =>
    intro id us u hupdates
    simp only [Board.show, hdrawn, if_true] at hupdates ⊢
    by_cases hid : id = v.stationID
    · subst hid
      rw [Function.update_self] at hupdates
      obtain ⟨-, hlast⟩ := List.append_inj' hupdates rfl
      cases hlast
      exact ⟨rfl, v, hv, fun _ => rfl⟩
    · rw [Function.update_of_ne hid] at hupdates ⊢
      exact h id us u hupdates

theorem Tracks.objclean (h : Tracks data b) (id : UInt64) :
    Tracks (Function.update data id none) (b.show mapboxToken (.sent (.objclean id))) := by
  intro other us v hupdates
  simp only [Board.show] at hupdates ⊢
  by_cases hid : other = id
  · subst hid
    simp at hupdates
  · rw [Function.update_of_ne hid] at hupdates ⊢
    exact h other us v hupdates

/-- So does every browser, whenever its page was loaded. -/
def LogTracks (mapboxToken : Text) (data : UInt64 → Option VehicleData) (log : List Event) : Prop :=
  ∀ pre suf, log = pre ++ suf → Tracks data (board mapboxToken suf)

variable {log : List Event}

theorem LogTracks.concat {data' : UInt64 → Option VehicleData} (h : LogTracks mapboxToken data log)
    (e : Event) (he : ∀ b, Tracks data b → Tracks data' (b.show mapboxToken e)) :
    LogTracks mapboxToken data' (log ++ [e]) := by
  intro pre suf hsplit
  rcases List.eq_nil_or_concat suf with rfl | ⟨suf, last, rfl⟩
  · exact tracks_loaded data'
  · rw [List.concat_eq_append, ← List.append_assoc] at hsplit
    obtain ⟨rfl, hlast⟩ := List.append_inj' hsplit rfl
    cases hlast
    rw [List.concat_eq_append, board, List.foldl_append]
    exact he _ (h pre suf rfl)

/-- The updates of a visit. -/
theorem LogTracks.objects : ∀ (vs : List VehicleData) {log : List Event},
    LogTracks mapboxToken data log → (∀ v ∈ vs, data v.stationID = some v) →
    LogTracks mapboxToken data (log ++ vs.map fun v => .sent (.object v))
  | [], log, h, _ => by simpa using h
  | v :: vs, log, h, hvs => by
      have hfirst := h.concat (.sent (.object v)) fun b hb => hb.object (hvs v List.mem_cons_self)
      have hrest := hfirst.objects vs fun v' hv' => hvs v' (List.mem_cons_of_mem v hv')
      simpa using hrest

/-- The removals of a visit. -/
theorem LogTracks.objcleans : ∀ (ids : List UInt64) {data : UInt64 → Option VehicleData}
    {log : List Event}, LogTracks mapboxToken data log →
    LogTracks mapboxToken (fun id => if id ∈ ids then none else data id)
      (log ++ ids.map fun id => .sent (.objclean id))
  | [], data, log, h => by simpa using h
  | id :: ids, data, log, h => by
      have hfirst := h.concat (.sent (.objclean id)) fun b hb => hb.objclean id
      have hrest := hfirst.objcleans ids
      have hsame : (fun id' => if id' ∈ ids then none else Function.update data id none id') =
          fun id' => if id' ∈ id :: ids then none else data id' := by
        funext id'
        by_cases hid : id' = id
        · subst hid; simp
        · simp [hid]
      rw [hsame] at hrest
      simpa using hrest

end Tracks

/-! ### The database -/

section Data

variable {haversineDist : Distance} {m : LDMMap}

theorem dataOf_insert (h : Shows haversineDist m) {v : VehicleData} (junk : Junk)
    (hv : v.stationID < 0x100000000) :
    dataOf (m.insert haversineDist v junk).2 = Function.update (dataOf m) v.stationID (some v) := by
  obtain ⟨a, ha⟩ := h
  funext id
  by_cases hid : id < 0x100000000
  · have hdata := ha.vehData_insert (v := v) junk hv hid
    simp only [dataOf, if_pos hid, hdata, Function.update_apply]
  · have hne : id ≠ v.stationID := fun heq => hid (heq ▸ hv)
    simp only [dataOf, if_neg hid, Function.update_of_ne hne]

theorem dataOf_of_mem_slot (h : Shows haversineDist m) {key : UInt32} {e : ReturnedVehicleData}
    (he : e ∈ (slot m.ldmmap key).entries.map (·.2)) :
    dataOf m e.vehData.stationID = some e.vehData := by
  obtain ⟨a, ha⟩ := h
  obtain ⟨-, hid, hentry⟩ := ha.mem_slot.mp he
  rw [dataOf, if_pos hid, hentry, Option.map_some]

/-- A visit that erases takes away the data of the stations it reports. -/
theorem dataOf_sweepSlot (h : Shows haversineDist m) {σ : Type}
    (old : ReturnedVehicleData → Bool) (operFcn : UInt64 → σ → σ) (key : UInt32) (args : σ) :
    let swept := LDMMap.sweepSlot old operFcn (slot m.ldmmap key) (m.card, args)
    dataOf ⟨m.ldmmap.insert key swept.1, swept.2.1⟩ = fun id =>
      if id ∈ (((slot m.ldmmap key).entries.map (·.2)).filter old).map
        (fun e => e.vehData.stationID) then none else dataOf m id := by
  intro swept
  obtain ⟨a, ha⟩ := h
  obtain ⟨hfind, -, -⟩ := LDMMap.sweepSlot_spec old operFcn m key args
  funext id
  have hentry : LDMMap.entry ⟨m.ldmmap.insert key swept.1, swept.2.1⟩ id =
      if keyUpper id = key then (m.entry id).filter (fun e => !old e) else m.entry id :=
    hfind (keyUpper id) (keyLower id)
  by_cases hid : id < 0x100000000
  · simp only [dataOf, if_pos hid, hentry]
    cases he : m.entry id with
    | none => simp
    | some e =>
      simp only [mem_reported_iff ha old hid he]
      by_cases hkey : keyUpper id = key
      · cases hold : old e <;> simp [hkey, hold]
      · simp [hkey]
  · simp [dataOf, if_neg hid]

/-- The station is in its lower map. -/
theorem mem_slot_of_dataOf (h : Shows haversineDist m) {id : UInt64} {v : VehicleData}
    (hv : dataOf m id = some v) : v.stationID = id ∧
      v ∈ ((slot m.ldmmap (keyUpper id)).entries.map (·.2)).map ReturnedVehicleData.vehData := by
  obtain ⟨a, ha⟩ := h
  rw [dataOf] at hv
  split at hv
  · rename_i hid
    obtain ⟨e, he, rfl⟩ := Option.map_eq_some_iff.mp hv
    have hsame : e.vehData.stationID = id := by
      rw [ha.entry id hid] at he
      obtain ⟨r, hr, rfl⟩ := Option.map_eq_some_iff.mp he
      exact ha.stationID id r hr
    refine ⟨hsame, List.mem_map.mpr ⟨e, ha.mem_slot.mpr ?_, rfl⟩⟩
    rw [hsame]
    exact ⟨rfl, hid, he⟩
  · cases hv

/-- The entry behind the data. -/
theorem exists_entry_of_dataOf {id : UInt64} {v : VehicleData} (h : dataOf m id = some v) :
    ∃ e, m.lookup id = (.ok, some e) ∧ e.vehData = v := by
  rw [dataOf] at h
  split at h
  · obtain ⟨e, he, hv⟩ := Option.map_eq_some_iff.mp h
    exact ⟨e, LDMMap.lookup_ok_iff.mpr he, hv⟩
  · cases h

end Data

/-! ## §3 Runs -/

section Runs

variable {haversineDist : Distance} {c : Setup} {mapboxToken : Text}

theorem LogTracks.visit {db : LDMMap} {log : List Event} (hshows : Shows haversineDist db)
    (h : LogTracks mapboxToken (dataOf db) log) (kind : PassKind) (key : UInt32) :
    LogTracks mapboxToken (dataOf (Visualized.visit kind key db log).1)
      (Visualized.visit kind key db log).2 := by
  cases kind with
  | update =>
    have hobjects := h.objects (((slot db.ldmmap key).entries.map (·.2)).map
      ReturnedVehicleData.vehData) fun v hv => ?_
    · simpa only [Visualized.visit, foldl_log, List.map_map, Function.comp_def] using hobjects
    · obtain ⟨e, he, rfl⟩ := List.mem_map.mp hv
      exact dataOf_of_mem_slot hshows he
  | clean time now =>
    have hcleans := h.objcleans ((((slot db.ldmmap key).entries.map (·.2)).filter
      (LDMMap.isOld now time)).map fun e => e.vehData.stationID)
    obtain ⟨-, -, hlog⟩ := LDMMap.sweepSlot_spec (LDMMap.isOld now time)
      (fun id log => log ++ [Event.sent (.objclean id)]) db key log
    rw [LDMMap.report, foldl_log] at hlog
    have hdata := dataOf_sweepSlot hshows (LDMMap.isOld now time)
      (fun id log => log ++ [Event.sent (.objclean id)]) key log
    rw [show dataOf (Visualized.visit (.clean time now) key db log).1 = _ from hdata,
      show (Visualized.visit (.clean time now) key db log).2 = _ from hlog]
    simpa only [List.map_map, Function.comp_def] using hcleans

/-- Every step keeps what the log says of the data. -/
theorem tracks_step (s : Visualized) (l : VisualizerStep) (s' : Visualized)
    (h : Sound haversineDist c s.db s.log ∧ LogTracks mapboxToken (dataOf s.db) s.log)
    (hs : s.step haversineDist l = some s') :
    Sound haversineDist c s'.db s'.log ∧ LogTracks mapboxToken (dataOf s'.db) s'.log := by
  refine ⟨sound_step s l s' h.1 hs, ?_⟩
  obtain ⟨hsound, htracks⟩ := h
  cases l with
  | insert v junk below32 =>
    cases hs
    show LogTracks mapboxToken (dataOf (s.db.insert haversineDist v junk).2) _
    rw [dataOf_insert hsound.shows junk below32]
    exact htracks.concat _ fun b hb => hb.inserted v
  | connection => cases hs; exact htracks.concat _ fun b hb => hb.map
  | start kind => cases hs; exact htracks
  | visit i key =>
    simp only [Visualized.step, Option.bind_eq_bind, Option.bind_eq_some_iff] at hs
    obtain ⟨p, -, hs⟩ := hs
    split at hs
    · cases hs
      exact htracks.visit hsound.shows p.kind key
    · cases hs
  | finish i =>
    simp only [Visualized.step, Option.bind_eq_bind, Option.bind_eq_some_iff] at hs
    obtain ⟨p, -, hs⟩ := hs
    split at hs
    · cases hs
      exact htracks
    · cases hs

/-- What a browser shows of the database. -/
structure Displays (db : LDMMap) (b : Board) (p : Page) : Prop where
  drawn : p.leafletmap.isSome = b.drawn
  names : ∀ key, (p.markers key).isSome = true → ∃ id, key = idText id
  absent : ∀ id, b.updates id = [] → p.markers (idText id) = none
  present : ∀ id us v, b.updates id = us ++ [v] →
    ∃ marker e, p.markers (idText id) = some marker ∧ marker.Shows v ∧
      ((∀ u ∈ us ++ [v], u.heading < 721 / 2) → marker.icon ≠ .circle ∧
        marker.popup = .heading (idText id) (shown 3 v.heading)) ∧
      db.lookup id = (.ok, some e) ∧ (b.insertedSince id = false → e.vehData = v)

theorem displays_of_tracks {db : LDMMap} {b : Board} {p : Page} (hfollows : Follows p b)
    (htracks : Tracks (dataOf db) b) : Displays db b p where
  drawn := hfollows.drawn
  names := hfollows.names
  absent id hnone := by rw [hfollows.markers, hnone]; rfl
  present id us v hupdates := by
    obtain ⟨rfl, u, hdata, hfresh⟩ := htracks id us v hupdates
    obtain ⟨e, he, rfl⟩ := exists_entry_of_dataOf hdata
    have hmarker := hfollows.markers v.stationID
    rw [hupdates, markerAfter_concat] at hmarker
    refine ⟨_, e, hmarker, shows_next _ v, fun hheadings => ⟨?_, ?_⟩, he, hfresh⟩
    · exact icon_markerAfter hheadings _ (markerAfter_concat us v)
    · exact popup_next _ (hheadings v (by simp))

/-- A visit of an update pass shows every station of its lower map as it is
in the database. -/
def VisitShows (haversineDist : Distance) (area : MapArea) (mapboxToken : Text) (s : Visualized)
    (pre suf : List Event) : Prop :=
  ∀ i key pass s' suf', s.passes[i]? = some pass → pass.kind = .update →
    s.step haversineDist (.visit i key) = some s' → s'.log = pre ++ suf' →
    (board mapboxToken suf).drawn = true →
    ∀ id e, id < 0x100000000 → keyUpper id = key → s.db.lookup id = (.ok, some e) →
      ∃ marker, (page area mapboxToken suf').markers (idText id) = some marker ∧
        marker.Shows e.vehData

theorem drawn_objects {b : Board} (hdrawn : b.drawn = true) (vs : List VehicleData) :
    ((vs.map fun v => Event.sent (.object v)).foldl (·.show mapboxToken) b).drawn = true := by
  induction vs using List.reverseRecOn with
  | nil => exact hdrawn
  | append_singleton vs u ih =>
    rw [List.map_append, List.foldl_append]
    simp [Board.show, ih]

/-- The last update among those of a visit. -/
theorem updates_objects (mapboxToken : Text) {b : Board} (hdrawn : b.drawn = true) {v : VehicleData}
    {vs : List VehicleData} (hmem : v ∈ vs) (honly : ∀ u ∈ vs, u.stationID = v.stationID → u = v) :
    ∃ us, ((vs.map fun v => Event.sent (.object v)).foldl (·.show mapboxToken) b).updates
      v.stationID = us ++ [v] := by
  induction vs using List.reverseRecOn with
  | nil => cases hmem
  | append_singleton vs u ih =>
    rw [List.map_append, List.foldl_append]
    simp only [List.map_cons, List.map_nil, List.foldl_cons, List.foldl_nil, Board.show,
      drawn_objects hdrawn vs, if_true]
    by_cases hsame : u.stationID = v.stationID
    · obtain rfl := honly u (by simp) hsame
      exact ⟨_, Function.update_self _ _ _⟩
    · have hold : v ∈ vs := by
        rcases List.mem_append.mp hmem with hold | hlast
        · exact hold
        · cases List.mem_singleton.mp hlast
          exact absurd rfl hsame
      rw [Function.update_of_ne (Ne.symm hsame)]
      exact ih hold fun u hu => honly u (by simp [hu])

theorem visitShows_of_shows (area : MapArea) {s : Visualized} (hshows : Shows haversineDist s.db)
    {pre suf : List Event} (hlog : s.log = pre ++ suf) :
    VisitShows haversineDist area mapboxToken s pre suf := by
  intro i key pass s' suf' hpass hkind hstep hlog' hdrawn id e hid hkey he
  simp only [Visualized.step, hpass, Option.bind_eq_bind, Option.bind_some] at hstep
  split at hstep
  · cases hstep
    simp only [Visualized.visit, hkind, foldl_log] at hlog'
    rw [hlog, List.append_assoc, List.append_cancel_left_eq] at hlog'
    have hdata : dataOf s.db id = some e.vehData := by
      rw [dataOf, if_pos hid, LDMMap.lookup_ok_iff.mp he, Option.map_some]
    obtain ⟨hstation, hmem⟩ := mem_slot_of_dataOf hshows hdata
    rw [hkey] at hmem
    -- no other entry of the lower map has this station ID
    have honly : ∀ u ∈ ((slot s.db.ldmmap key).entries.map (·.2)).map ReturnedVehicleData.vehData,
        u.stationID = e.vehData.stationID → u = e.vehData := by
      intro u hu hsame
      obtain ⟨e', he', rfl⟩ := List.mem_map.mp hu
      have hdata' := dataOf_of_mem_slot hshows he'
      rw [hsame, hstation, hdata] at hdata'
      exact (Option.some.inj hdata').symm
    obtain ⟨us, hus⟩ := updates_objects mapboxToken hdrawn hmem honly
    have hmarker := (follows_log area mapboxToken suf').markers id
    rw [← hlog', board, List.foldl_append] at hmarker
    simp only [List.map_map, Function.comp_def] at hus
    rw [board, hstation] at hus
    rw [hus, markerAfter_concat] at hmarker
    exact ⟨_, hlog' ▸ hmarker, shows_next _ _⟩
  · cases hstep

end Runs

end SLDM.Visualizer
