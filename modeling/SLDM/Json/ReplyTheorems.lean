/-
SLDM.Json.ReplyTheorems — what a client reads in a reply.

`ShowsReply` says it in terms of the abstract station map of
`SLDM.Store.Refinement` and of the accessors of `json11::Json` a client
would use: the stations in range, each once, with the data last inserted
for them and the points of their history. `answer_of_jsonText` is the
whole way from the text of the request to that reading: the reply is
built, written, and read again by the parser.
-/
import SLDM.Json.Reply

namespace SLDM.Json

open Json11 NumberText Store Utils

/-! ## What a client reads -/

/-- A number under a key. -/
def ShowsNumber (o : Json) (key : String) (x : Double) : Prop :=
  (o.item key.toList).type = .number ∧ Double.eq (getNum o key) x = true

/-- A double under a key; one that is not finite is `null`. -/
def ShowsDouble (o : Json) (key : String) (x : Double) : Prop :=
  if x.isFinite then ShowsNumber o key x else o.item key.toList = .null

def ShowsText (o : Json) (key : String) (t : Text) : Prop := o.item key.toList = .string t

/-- A length in mm under a key. -/
def ShowsLength (o : Json) (key : String) (lengthMm : Option Int) : Prop :=
  match lengthMm with
  | some n => ShowsNumber o key (Double.ofRat (Int32.ofInt n).toInt)
  | none => ShowsText o key "unavailable".toList

/-- The latitudes and the longitudes of some points, as texts. -/
def ShowsPoints (o : Json) (points : List PHData) : Prop :=
  o.item "PH_points_lat".toList = .array (points.map fun data => .string (toString data.lat)) ∧
    o.item "PH_points_lon".toList = .array (points.map fun data => .string (toString data.lon))

/-- A vehicle of the reply, in terms of the record of the station. -/
structure ShowsVehicle (haversineDist : Distance) (nowUs : UInt64) (refLat refLon : ℚ)
    (r : Record) (o : Json) : Prop where
  stationID : ShowsNumber o "stationID" (Double.ofRat r.latest.stationID.toNat)
  lat : ShowsDouble o "lat" (Double.ofRat r.latest.lat)
  lon : ShowsDouble o "lon" (Double.ofRat r.latest.lon)
  speedMs : ShowsDouble o "speed_ms" (Double.ofRat r.latest.speedMs)
  heading : ShowsDouble o "heading" (Double.ofRat r.latest.heading)
  /-- The lights can be read off the text (`lightsOf`). -/
  turnindicator : match r.latest.exteriorLights with
    | some extLights => ∃ t, ShowsText o "turnindicator" t ∧ lightsOf t = extLights
    | none => ShowsText o "turnindicator" "unavailable".toList
  camTstamp : ShowsNumber o "CAM_tstamp" (Double.ofRat (UInt16.ofInt r.latest.camTimestamp).toNat)
  gnTstamp : ShowsNumber o "GN_tstamp" (Double.ofRat r.latest.gnTimestamp.toNat)
  distance : ShowsDouble o "relative_dist_to_reference_m"
    (Double.ofRat (haversineDist refLat refLon r.latest.lat r.latest.lon))
  stationType : ShowsNumber o "stationType"
    (Double.ofRat (Int32.ofInt r.latest.stationType.value).toInt)
  age : ShowsNumber o "time_since_generation_tstamp"
    (Double.ofRat (nowUs - r.latest.timestampUs).toNat)
  carLength : ShowsLength o "car_len_mm" r.latest.vehicleLength
  carWidth : ShowsLength o "car_wid_mm" r.latest.vehicleWidth
  history : ShowsPoints o (r.points haversineDist)

/-- The station is in a range of a position. -/
def InRange (haversineDist : Distance) (lat lon : ℚ) (range : Double) (r : Record) : Prop :=
  range = Double.infinite false ∨ ∃ rangeM, exact range = some rangeM ∧
    haversineDist lat lon r.latest.lat r.latest.lon ≤ rangeM

/-- The reply for a position and a range. -/
structure ShowsReply (haversineDist : Distance) (a : StationMap) (nowUs : UInt64)
    (lat lon range : Double) (reply : Json) : Prop where
  generation : ShowsNumber reply "generation_tstamp" (Double.ofRat nowUs.toNat)
  referenceLat : ShowsDouble reply "reference_lat" lat
  referenceLon : ShowsDouble reply "reference_lon" lon
  ok : ShowsText reply "error" "ok".toList
  /-- The stations in range, each once. -/
  vehicles : ∀ qlat qlon, exact lat = some qlat → exact lon = some qlon →
    ∃ ids, a.Enumerates (InRange haversineDist qlat qlon range) ids ∧
      List.Forall₂ (fun id o => ∃ r, a id = some r ∧
        ShowsVehicle haversineDist nowUs qlat qlon r o)
        ids (reply.item "vehicles".toList).arrayItems
  /-- Around no position there are none. -/
  noVehicles : (exact lat = none ∨ exact lon = none) →
    reply.item "vehicles".toList = .array []

/-! ## Objects that were written -/

section Objects

variable {es : List (Text × Json)}

theorem wellFormed_object (h : ∀ e ∈ es, e.2.WellFormed) : (object es).WellFormed :=
  ⟨SortedMap.sorted_ofEntries es,
    wellFormedObject_iff.mpr fun e he => h e (SortedMap.mem_ofEntries he)⟩

theorem nesting_object_le {n : ℕ} (h : ∀ e ∈ es, e.2.nesting < n) : (object es).nesting ≤ n :=
  nestingObject_le_iff.mpr fun e he => h e (SortedMap.mem_ofEntries he)

/-- What is read under the `i`-th of the distinct keys of some assignments. -/
theorem item_reread_object (hkeys : (es.map Prod.fst).Nodup) (i : ℕ) {key : Text} {value : Json}
    (h : es[i]? = some (key, value)) : (reread (object es)).item key = reread value := by
  rw [item_reread, object, Json.item, SortedMap.find_ofEntries hkeys (List.mem_of_getElem? h)]
  rfl

end Objects

section Items

variable {o : Json} {key : String}

theorem showsNumber_of_item (j : Json) (h : o.item key.toList = reread j) (hj : j.type = .number)
    (hfin : j.Finite) : ShowsNumber o key j.numberValue := by
  unfold ShowsNumber getNum
  rw [h]
  exact number_reread hj hfin

theorem showsInt_of_item {n : ℤ} (h : o.item key.toList = reread (makeInt n)) :
    ShowsNumber o key (Double.ofRat (Int32.ofInt n).toInt) :=
  showsNumber_of_item (makeInt n) h rfl trivial

theorem showsUint64_of_item {n : UInt64} (h : o.item key.toList = reread (.uint64 n)) :
    ShowsNumber o key (Double.ofRat n.toNat) :=
  showsNumber_of_item (.uint64 n) h rfl trivial

theorem showsDouble_of_item {x : Double} (h : o.item key.toList = reread (.double x)) :
    ShowsDouble o key x := by
  unfold ShowsDouble
  split
  · rename_i hfin
    exact showsNumber_of_item (.double x) h rfl hfin
  · rename_i hfin
    cases x with
    | finite negative x => exact absurd rfl hfin
    | _ => exact h

theorem showsLength_of_item {lengthMm : Option Int}
    (h : o.item key.toList = reread (lengthItem lengthMm)) : ShowsLength o key lengthMm := by
  cases lengthMm with
  | none => exact h
  | some n => exact showsInt_of_item h

end Items

/-! ## The vehicles -/

/-- The keys of a vehicle with a history, in the order they are set. -/
def vehicleKeys : List Text :=
  ["stationID", "lat", "lon", "speed_ms", "turnindicator", "CAM_tstamp", "GN_tstamp",
    "relative_dist_to_reference_m", "stationType", "heading", "time_since_generation_tstamp",
    "car_len_mm", "car_wid_mm", "PH_points_lat", "PH_points_lon"].map String.toList

theorem nodup_vehicleKeys : vehicleKeys.Nodup := by decide

section Strings

variable {α : Type} (f : α → Text) (l : List α)

theorem reread_strings :
    reread (.array (l.map fun x => .string (f x))) = .array (l.map fun x => .string (f x)) := by
  rw [reread, rereadArray_eq_map, List.map_map]
  rfl

theorem plain_strings : (Json.array (l.map fun x => .string (f x))).WellFormed ∧
    (Json.array (l.map fun x => .string (f x))).nesting < 2 := by
  constructor
  · refine wellFormedArray_iff.mpr fun value hvalue => ?_
    obtain ⟨x, -, rfl⟩ := List.mem_map.mp hvalue
    trivial
  · refine Nat.lt_succ_of_le (nestingArray_le_iff.mpr fun value hvalue => ?_)
    obtain ⟨x, -, rfl⟩ := List.mem_map.mp hvalue
    exact Nat.zero_lt_one

end Strings

/-- A generation delta time is written as it is stored, modulo 2^16. -/
theorem toInt_ofInt_toUInt16 (n : UInt16) : (Int32.ofInt n.toNat).toInt = n.toNat := by
  have hlt := n.toNat_lt
  exact Int32.toInt_ofInt_of_le (by simp) (by simp; omega)

section Vehicle

variable (haversineDist : Distance) (nowUs : UInt64) (lat lon : ℚ) (r : Record)

/-- What the server writes for a station is read back. -/
theorem showsVehicle_reread : ShowsVehicle haversineDist nowUs lat lon r
    (reread (object (vehicleOf haversineDist nowUs lat lon (r.entry haversineDist)))) := by
  have hkeys :
      ((vehicleOf haversineDist nowUs lat lon (r.entry haversineDist)).map Prod.fst).Nodup :=
    nodup_vehicleKeys
  have hitem := fun (i : ℕ) (key : Text) (value : Json) =>
    @item_reread_object _ hkeys i key value
  generalize reread (object (vehicleOf haversineDist nowUs lat lon (r.entry haversineDist))) = o
    at hitem
  exact {
    stationID := showsUint64_of_item (hitem 0 _ _ rfl)
    lat := showsDouble_of_item (hitem 1 _ _ rfl)
    lon := showsDouble_of_item (hitem 2 _ _ rfl)
    speedMs := showsDouble_of_item (hitem 3 _ _ rfl)
    heading := showsDouble_of_item (hitem 9 _ _ rfl)
    turnindicator := by
      have htext : ShowsText o "turnindicator" (turnIndicator r.latest.exteriorLights) :=
        hitem 4 _ _ rfl
      cases hlights : r.latest.exteriorLights with
      | none => rwa [hlights] at htext
      | some extLights =>
        rw [hlights] at htext
        exact ⟨_, htext, lightsOf_exteriorLightsBitToString extLights⟩
    camTstamp := by
      have hint := showsInt_of_item (hitem 5 _ _ rfl)
      rwa [toInt_ofInt_toUInt16] at hint
    gnTstamp := showsUint64_of_item (hitem 6 _ _ rfl)
    distance := showsDouble_of_item (hitem 7 _ _ rfl)
    stationType := showsInt_of_item (hitem 8 _ _ rfl)
    age := showsUint64_of_item (hitem 10 _ _ rfl)
    carLength := showsLength_of_item (hitem 11 _ _ rfl)
    carWidth := showsLength_of_item (hitem 12 _ _ rfl)
    history := by
      have hlat := hitem 13 _ _ rfl
      have hlon := hitem 14 _ _ rfl
      rw [r.scan_history haversineDist, reread_strings] at hlat hlon
      exact ⟨hlat, hlon⟩ }

/-- The values of a vehicle are plain ones and arrays of texts. -/
theorem plain_vehicleOf : ∀ e ∈ vehicleOf haversineDist nowUs lat lon (r.entry haversineDist),
    e.2.WellFormed ∧ e.2.nesting < 2 := by
  have hlength : ∀ lengthMm,
      (lengthItem lengthMm).WellFormed ∧ (lengthItem lengthMm).nesting < 2 := by
    intro lengthMm
    cases lengthMm <;> exact ⟨trivial, Nat.zero_lt_two⟩
  have hscalar : True ∧ 0 < 2 := ⟨trivial, Nat.zero_lt_two⟩
  refine List.forall_mem_append.mpr ⟨?_, ?_⟩
  · simp only [List.forall_mem_cons]
    exact ⟨hscalar, hscalar, hscalar, hscalar, hscalar, hscalar, hscalar, hscalar, hscalar, hscalar,
      hscalar, hlength _, hlength _, fun e he => by cases he⟩
  · exact List.forall_mem_cons.mpr ⟨plain_strings _ _,
      List.forall_mem_singleton.mpr (plain_strings _ _)⟩

end Vehicle

/-! ## The selection -/

section Selection

variable {haversineDist : Distance} {m : LDMMap} {a : StationMap} {lat lon range : Double}
  {qlat qlon : ℚ}

/-- The test of the selection, on an entry. -/
def selects (haversineDist : Distance) (qlat qlon : ℚ) (range : Double)
    (e : ReturnedVehicleData) : Bool :=
  match exact range with
  | some rangeM => decide (haversineDist qlat qlon e.vehData.lat e.vehData.lon ≤ rangeM)
  | none => decide (range = Double.infinite false)

theorem vehiclesInRange_eq (hlat : exact lat = some qlat) (hlon : exact lon = some qlon)
    (nowUs : UInt64) : vehiclesInRange haversineDist m nowUs lat lon range =
      ((NestedMap.values m.ldmmap).filter (selects haversineDist qlat qlon range)).map fun e =>
        object (vehicleOf haversineDist nowUs qlat qlon e) := by
  simp only [vehiclesInRange, hlat, hlon]
  refine congrArg (List.map _) ?_
  cases hrange : exact range with
  | some rangeM =>
    have hsel : selects haversineDist qlat qlon range = fun e =>
        decide (haversineDist qlat qlon e.vehData.lat e.vehData.lon ≤ rangeM) := by
      funext e
      simp only [selects, hrange]
    rw [hsel]
    exact congrArg Prod.snd (LDMMap.rangeSelect_eq rangeM qlat qlon [])
  | none =>
    have hsel : selects haversineDist qlat qlon range =
        fun _ => decide (range = Double.infinite false) := by
      funext e
      simp only [selects, hrange]
    rw [hsel]
    by_cases hinf : range = Double.infinite false <;> simp [hinf]

theorem selects_entry_iff (r : Record) :
    selects haversineDist qlat qlon range (r.entry haversineDist) = true ↔
      InRange haversineDist qlat qlon range r := by
  unfold selects InRange
  cases hrange : exact range with
  | some rangeM =>
    have hne : range ≠ Double.infinite false := by rintro rfl; cases hrange
    simp only [hne, false_or, Option.some.injEq, exists_eq_left', decide_eq_true_eq]
    exact Iff.rfl
  | none => simp

/-- What is selected is what the server shows of the stations in range. -/
theorem Related.selected (h : Related haversineDist m a) (hlat : exact lat = some qlat)
    (hlon : exact lon = some qlon) (nowUs : UInt64) :
    ∃ ids, a.Enumerates (InRange haversineDist qlat qlon range) ids ∧
      List.Forall₂ (fun id o => ∃ r, a id = some r ∧
          o = object (vehicleOf haversineDist nowUs qlat qlon (r.entry haversineDist)))
        ids (vehiclesInRange haversineDist m nowUs lat lon range) := by
  obtain ⟨ids, hids, hall⟩ := h.enumerates_map (selects haversineDist qlat qlon range) fun e =>
    object (vehicleOf haversineDist nowUs qlat qlon e)
  exact ⟨ids, hids.congr selects_entry_iff, by rwa [vehiclesInRange_eq hlat hlon]⟩

end Selection

/-! ## The reply -/

section Reply

variable {haversineDist : Distance} {m : LDMMap} {a : StationMap}

theorem exists_of_mem_right {α β : Type} {R : α → β → Prop} {l : List α} {l' : List β}
    (h : List.Forall₂ R l l') : ∀ b ∈ l', ∃ a, R a b := by
  induction h with
  | nil => exact fun b hb => by cases hb
  | cons hab _ ih => exact List.forall_mem_cons.mpr ⟨⟨_, hab⟩, ih⟩

theorem vehicle_of_mem (h : Related haversineDist m a) {nowUs : UInt64} {lat lon range : Double}
    {o : Json} (ho : o ∈ vehiclesInRange haversineDist m nowUs lat lon range) :
    o.WellFormed ∧ o.nesting ≤ 2 := by
  cases hlat : exact lat with
  | none => simp [vehiclesInRange, hlat] at ho
  | some qlat =>
    cases hlon : exact lon with
    | none => simp [vehiclesInRange, hlat, hlon] at ho
    | some qlon =>
      obtain ⟨ids, -, hall⟩ := Related.selected h hlat hlon nowUs
      obtain ⟨id, r, -, rfl⟩ := exists_of_mem_right hall o ho
      have hplain := plain_vehicleOf haversineDist nowUs qlat qlon r
      exact ⟨wellFormed_object fun e he => (hplain e he).1,
        nesting_object_le fun e he => (hplain e he).2⟩

/-- The keys of a reply, in the order they are set. -/
def replyKeys : List Text :=
  ["generation_tstamp", "reference_lat", "reference_lon", "error", "vehicles"].map String.toList

theorem nodup_replyKeys : replyKeys.Nodup := by decide

section

variable (mRangeM : ℚ) (nowUs : UInt64) (lat lon range : Double)

/-- The reply is an object the writer can write and the parser can read. -/
theorem wellFormed_reply (h : Related haversineDist m a) :
    (object (makeSLDMJson haversineDist m mRangeM nowUs lat lon range)).WellFormed ∧
      (object (makeSLDMJson haversineDist m mRangeM nowUs lat lon range)).nesting ≤ 4 := by
  have harray : (Json.array (vehiclesInRange haversineDist m nowUs lat lon
      (rangeUsed mRangeM range))).WellFormed := wellFormedArray_iff.mpr fun o ho =>
    (vehicle_of_mem h ho).1
  have hnesting : (Json.array (vehiclesInRange haversineDist m nowUs lat lon
      (rangeUsed mRangeM range))).nesting ≤ 3 := nestingArray_le_iff.mpr fun o ho =>
    Nat.lt_succ_of_le (vehicle_of_mem h ho).2
  constructor
  · refine wellFormed_object ?_
    simp only [makeSLDMJson, List.forall_mem_cons]
    exact ⟨trivial, trivial, trivial, trivial, harray, fun e he => by cases he⟩
  · refine nesting_object_le ?_
    simp only [makeSLDMJson, List.forall_mem_cons]
    exact ⟨Nat.succ_pos 3, Nat.succ_pos 3, Nat.succ_pos 3, Nat.succ_pos 3,
      Nat.lt_succ_of_le hnesting, fun e he => by cases he⟩

theorem showsReply_reread (h : Related haversineDist m a) :
    ShowsReply haversineDist a nowUs lat lon (rangeUsed mRangeM range)
      (reread (object (makeSLDMJson haversineDist m mRangeM nowUs lat lon range))) := by
  have hkeys : ((makeSLDMJson haversineDist m mRangeM nowUs lat lon range).map Prod.fst).Nodup :=
    nodup_replyKeys
  have hitem := fun (i : ℕ) (key : Text) (value : Json) =>
    @item_reread_object _ hkeys i key value
  generalize reread (object (makeSLDMJson haversineDist m mRangeM nowUs lat lon range)) = reply
    at hitem
  have hvehicles := hitem 4 _ _ rfl
  exact {
    generation := showsUint64_of_item (hitem 0 _ _ rfl)
    referenceLat := showsDouble_of_item (hitem 1 _ _ rfl)
    referenceLon := showsDouble_of_item (hitem 2 _ _ rfl)
    ok := hitem 3 _ _ rfl
    vehicles := by
      intro qlat qlon hlat hlon
      obtain ⟨ids, hids, hall⟩ := Related.selected h hlat hlon nowUs
      refine ⟨ids, hids, ?_⟩
      rw [hvehicles, reread, Json.arrayItems, rereadArray_eq_map, List.forall₂_map_right_iff]
      refine hall.imp fun id o hex => ?_
      obtain ⟨r, hr, rfl⟩ := hex
      exact ⟨r, hr, showsVehicle_reread haversineDist nowUs qlat qlon r⟩
    noVehicles := by
      intro hnone
      rw [hvehicles]
      have hnil : vehiclesInRange haversineDist m nowUs lat lon (rangeUsed mRangeM range) = [] := by
        unfold vehiclesInRange
        rcases hnone with hlat | hlon
        · rw [hlat]
        · rw [hlon]
          cases exact lat <;> rfl
      rw [hnil]
      rfl }

/-- What is sent for a request is a text that is parsed to the reply. -/
theorem answer_of_jsonText (h : Related haversineDist m a) {rxStr : Text} {request : Json}
    (hrequest : JsonText rxStr request) :
    ∃ sent reply, answer haversineDist m mRangeM nowUs rxStr = some sent ∧
      Json.parse sent = some (reply, []) ∧
      ShowsReply haversineDist a nowUs (getNum request "lat") (getNum request "lon")
        (rangeUsed mRangeM (getNum request "range")) reply := by
  obtain ⟨hwf, hnesting⟩ := wellFormed_reply mRangeM nowUs (getNum request "lat")
    (getNum request "lon") (getNum request "range") h
  have hparse := (parse_dump_iff hwf).mpr (hnesting.trans (by decide))
  refine ⟨_, _, ?_, hparse, showsReply_reread mRangeM nowUs _ _ _ h⟩
  rw [answer, parse_of_jsonText hrequest]

/-- Nothing is sent for a text that is no request. -/
theorem answer_of_not_jsonText {rxStr : Text} (hno : ∀ request, ¬ JsonText rxStr request) :
    answer haversineDist m mRangeM nowUs rxStr = none := by
  rcases parse_cases rxStr with ⟨v, hv, -⟩ | ⟨err, herr, hparse⟩
  · exact absurd hv (hno v)
  · rw [answer, hparse]
    cases err with
    | nil => exact absurd rfl herr
    | cons c err => rfl

end

end Reply

end SLDM.Json
