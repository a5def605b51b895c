/-
SLDM.QuadKey.FilterCache — `getQuadKeyFilter` and its cache file.

The cache file holds the four bounds of an area, written with six
decimals, and the quadkeys computed for it, one on each line. A call reads
the file, if there is one, and takes the quadkeys from it when the four
numbers are close to the bounds it is given; otherwise it truncates the
file, computes the quadkeys and writes the file anew.
-/
import SLDM.Lib.Decimal
import SLDM.QuadKey.Compression

namespace SLDM.QuadKey

open Lines Decimal

/-! ## The cache file -/

/-- The lines with the bounds, in the order of the file. -/
def headerLines (area : Area) : List Text :=
  [area.minLatitude, area.maxLatitude, area.minLongitude, area.maxLongitude].map (toFixed 6)

/-- The bytes a complete run writes. -/
def cacheText (area : Area) (quadKeys : List Key) : Text :=
  unlines (headerLines area ++ quadKeys)

/-- `doublecomp` with its default tolerance. -/
def doublecomp (d1 d2 : ℚ) : Bool := |d1 - d2| < 1 / 10000

/-- `stod(fromfile.at(i))`. -/
def stodAt (fromfile : List Text) (i : ℕ) : Except StdException ℚ := do
  let line ← vectorAt fromfile i
  match stod line with
  | some v => return v
  | none => .error .invalidArgument

/-- What the lines of the file set `cache_file_found` to. -/
def acceptsCache (fromfile : List Text) (area : Area) : Except StdException Bool := do
  let minlatff ← stodAt fromfile 0
  let maxlatff ← stodAt fromfile 1
  let minlonff ← stodAt fromfile 2
  let maxlonff ← stodAt fromfile 3
  return doublecomp minlatff area.minLatitude && doublecomp maxlatff area.maxLatitude &&
    doublecomp minlonff area.minLongitude && doublecomp maxlonff area.maxLongitude &&
    4 < fromfile.length

theorem newline_not_mem_header (area : Area) : ∀ line ∈ headerLines area, '\n' ∉ line := by
  intro line hline hmem
  obtain ⟨q, -, rfl⟩ := List.mem_map.mp hline
  rcases mem_toFixed hmem with h | h | h
  · revert h; decide
  · revert h; decide
  · revert h; decide

theorem newline_not_mem_lines (area : Area) {quadKeys : List Key} (h : AllQuadKeys quadKeys) :
    ∀ line ∈ headerLines area ++ quadKeys, '\n' ∉ line := by
  intro line hline
  rcases List.mem_append.mp hline with hheader | hkey
  · exact newline_not_mem_header area line hheader
  · exact newline_not_mem (h line hkey)

/-! ## Reading the bounds -/

theorem stodAt_eq_ok {fromfile : List Text} {i : ℕ} {v : ℚ} :
    stodAt fromfile i = .ok v ↔ ∃ line, fromfile[i]? = some line ∧ stod line = some v := by
  unfold stodAt vectorAt
  cases fromfile[i]? with
  | none => exact iff_of_false (fun h => by cases h) (by rintro ⟨_, h, -⟩; cases h)
  | some line =>
    have hread : (Except.ok line >>= fun line => match stod line with
        | some v => pure v
        | none => .error .invalidArgument : Except StdException ℚ) = .ok v ↔
        stod line = some v := by
      cases hv : stod line with
      | none => simp [bind, Except.bind, hv]
      | some w => simp [bind, Except.bind, hv, pure, Except.pure]
    rw [hread]
    simp

theorem acceptsCache_of_values {fromfile : List Text} {area : Area} {v0 v1 v2 v3 : ℚ}
    (h0 : stodAt fromfile 0 = .ok v0) (h1 : stodAt fromfile 1 = .ok v1)
    (h2 : stodAt fromfile 2 = .ok v2) (h3 : stodAt fromfile 3 = .ok v3) :
    acceptsCache fromfile area = .ok (doublecomp v0 area.minLatitude &&
      doublecomp v1 area.maxLatitude && doublecomp v2 area.minLongitude &&
      doublecomp v3 area.maxLongitude && 4 < fromfile.length) :=
  bind_eq_ok.mpr ⟨v0, h0, bind_eq_ok.mpr ⟨v1, h1, bind_eq_ok.mpr ⟨v2, h2,
    bind_eq_ok.mpr ⟨v3, h3, rfl⟩⟩⟩⟩

/-- The fourth line is the last one `stod` is applied to. -/
theorem fourth_of_acceptsCache {fromfile : List Text} {area : Area} {b : Bool}
    (h : acceptsCache fromfile area = .ok b) : ∃ v, stodAt fromfile 3 = .ok v := by
  obtain ⟨_, -, h⟩ := bind_eq_ok.mp h
  obtain ⟨_, -, h⟩ := bind_eq_ok.mp h
  obtain ⟨_, -, h⟩ := bind_eq_ok.mp h
  obtain ⟨v, hv, -⟩ := bind_eq_ok.mp h
  exact ⟨v, hv⟩

/-- A bound read back from the file is close to what was written. -/
theorem stod_bound (q : ℚ) : ∃ v, stod (toFixed 6 q) = some v ∧ doublecomp v q = true := by
  obtain ⟨v, hv, hclose⟩ := stod_toFixed (d := 6) (by decide) q
  refine ⟨v, hv, decide_eq_true (lt_of_le_of_lt hclose ?_)⟩
  norm_num

/-- A complete header is accepted for its own area as soon as something
follows it. -/
theorem acceptsCache_header (area : Area) (rest : List Text) :
    acceptsCache (headerLines area ++ rest) area = .ok (decide (rest ≠ [])) := by
  obtain ⟨v0, hv0, hc0⟩ := stod_bound area.minLatitude
  obtain ⟨v1, hv1, hc1⟩ := stod_bound area.maxLatitude
  obtain ⟨v2, hv2, hc2⟩ := stod_bound area.minLongitude
  obtain ⟨v3, hv3, hc3⟩ := stod_bound area.maxLongitude
  rw [acceptsCache_of_values (stodAt_eq_ok.mpr ⟨_, rfl, hv0⟩) (stodAt_eq_ok.mpr ⟨_, rfl, hv1⟩)
    (stodAt_eq_ok.mpr ⟨_, rfl, hv2⟩) (stodAt_eq_ok.mpr ⟨_, rfl, hv3⟩), hc0, hc1, hc2, hc3]
  cases rest <;> simp [headerLines]

/-- A header whose last line is cut can still be read, and is rejected. -/
theorem acceptsCache_cutHeader {area : Area} {line : Text}
    (hline : line <+: toFixed 6 area.maxLongitude)
    (hdigit : (sign area.maxLongitude).length < line.length) :
    acceptsCache ((headerLines area).take 3 ++ [line]) area = .ok false := by
  obtain ⟨v0, hv0, -⟩ := stod_bound area.minLatitude
  obtain ⟨v1, hv1, -⟩ := stod_bound area.maxLatitude
  obtain ⟨v2, hv2, -⟩ := stod_bound area.minLongitude
  obtain ⟨v3, hv3⟩ := Option.isSome_iff_exists.mp ((isSome_stod_prefix_iff hline).mpr hdigit)
  rw [acceptsCache_of_values (stodAt_eq_ok.mpr ⟨_, rfl, hv0⟩) (stodAt_eq_ok.mpr ⟨_, rfl, hv1⟩)
    (stodAt_eq_ok.mpr ⟨_, rfl, hv2⟩) (stodAt_eq_ok.mpr ⟨_, rfl, hv3⟩)]
  simp [headerLines]

/-! ## The filter string -/

/-- `std::string::insert`. -/
def insertAt (s : Text) (pos : ℕ) (t : Text) : Text := s.take pos ++ t ++ s.drop pos

/-- The three insertions for one quadkey. -/
def appendClause (filterString : Text) (key : Key) : Text :=
  let s := insertAt filterString filterString.length "quadkeys LIKE ''".toList
  let s := insertAt s (s.length - 1) key
  insertAt s (s.length - 1) "%".toList

/-- The loop over the quadkeys, the same for both origins. -/
def appendClauses (filterString : Text) : List Key → Text
  | [] => filterString
  | [key] => appendClause filterString key
  | key :: next :: rest =>
    let s := appendClause filterString key
    appendClauses (insertAt s s.length " OR ".toList) (next :: rest)

theorem insertAt_length (s t : Text) : insertAt s s.length t = s ++ t := by
  rw [insertAt, List.take_length, List.drop_length, List.append_nil]

/-- An insertion before the last character. -/
theorem insertAt_pred (s t : Text) (c : Char) :
    insertAt (s ++ [c]) ((s ++ [c]).length - 1) t = s ++ t ++ [c] := by
  have hpos : (s ++ [c]).length - 1 = s.length := by
    rw [List.length_append, List.length_singleton]
    omega
  rw [insertAt, hpos, List.take_left, List.drop_left]

theorem appendClause_eq (s : Text) (key : Key) :
    appendClause s key = s ++ ("quadkeys LIKE '".toList ++ (key ++ "%'".toList)) := by
  have hopen : "quadkeys LIKE ''".toList = "quadkeys LIKE '".toList ++ ['\''] := by decide
  have hclose : "%'".toList = "%".toList ++ ['\''] := by decide
  simp only [appendClause]
  rw [insertAt_length, hopen, ← List.append_assoc, insertAt_pred, insertAt_pred, hclose]
  simp only [List.append_assoc]

/-- Every quadkey accounts for 21 characters and its digits, as `checkdim`
counts them; the last one is not followed by an `OR`. -/
theorem length_appendClauses : ∀ (s : Text) {keys : List Key}, keys ≠ [] →
    (appendClauses s keys).length + 4 = s.length + weight 21 keys
  | s, [], h => absurd rfl h
  | s, [key], _ => by
      rw [appendClauses, appendClause_eq, weight_cons, weight_nil]
      simp only [List.length_append, show "quadkeys LIKE '".toList.length = 15 by decide,
        show "%'".toList.length = 2 by decide]
      omega
  | s, key :: key' :: rest, _ => by
      rw [appendClauses, length_appendClauses _ (List.cons_ne_nil key' rest), insertAt_length,
        appendClause_eq, weight_cons 21 key (key' :: rest)]
      simp only [List.length_append,
        show "quadkeys LIKE '".toList.length = 15 by decide,
        show "%'".toList.length = 2 by decide, show " OR ".toList.length = 4 by decide]
      omega

/-! ## getQuadKeyFilter -/

/-- What a call returns and leaves behind. -/
structure Answer where
  filterString : Text
  cacheFileFound : Bool
  cacheFile : Option Text
deriving DecidableEq, Repr

/-- The reading half: `fromfile` and `cache_file_found`. -/
def readCache (file : Option Text) (area : Area) : Except StdException (List Text × Bool) :=
  match file with
  | some text => do
    let fromfile := getLines text
    let cacheFileFound ← acceptsCache fromfile area
    return (fromfile, cacheFileFound)
  | none => .ok ([], false)

/-- `file` is what the file holds at the call, if it can be opened;
`canWrite` tells whether it can be opened for writing. -/
def getQuadKeyFilter (p : Platform) (ts : QuadKeyTS) (canWrite : Bool) (file : Option Text)
    (area : Area) : Except StdException Answer := do
  let (fromfile, cacheFileFound) ← readCache file area
  if cacheFileFound then
    return { filterString := appendClauses [] (fromfile.drop 4)
             cacheFileFound := true
             cacheFile := file }
  else
    let quadKeys ← computeQuadKeys p ts area
    return { filterString := appendClauses [] quadKeys
             cacheFileFound := false
             cacheFile := if canWrite then some (cacheText area quadKeys) else file }

section Calls

variable {p : Platform} {ts : QuadKeyTS} {canWrite : Bool} {area : Area} {text : Text}

/-- A call that finds no cache. -/
theorem getQuadKeyFilter_none {quadKeys : List Key} (h : computeQuadKeys p ts area = .ok quadKeys) :
    getQuadKeyFilter p ts canWrite none area =
      .ok ⟨appendClauses [] quadKeys, false,
        if canWrite then some (cacheText area quadKeys) else none⟩ :=
  bind_eq_ok.mpr ⟨([], false), rfl, bind_eq_ok.mpr ⟨quadKeys, h, rfl⟩⟩

/-- A call that rejects the cache. -/
theorem getQuadKeyFilter_rejects {quadKeys : List Key}
    (h : computeQuadKeys p ts area = .ok quadKeys)
    (hfile : acceptsCache (getLines text) area = .ok false) :
    getQuadKeyFilter p ts canWrite (some text) area =
      .ok ⟨appendClauses [] quadKeys, false,
        if canWrite then some (cacheText area quadKeys) else some text⟩ :=
  bind_eq_ok.mpr ⟨(getLines text, false), bind_eq_ok.mpr ⟨false, hfile, rfl⟩,
    bind_eq_ok.mpr ⟨quadKeys, h, rfl⟩⟩

/-- A call that accepts the cache. -/
theorem getQuadKeyFilter_accepts (hfile : acceptsCache (getLines text) area = .ok true) :
    getQuadKeyFilter p ts canWrite (some text) area =
      .ok ⟨appendClauses [] ((getLines text).drop 4), true, some text⟩ :=
  bind_eq_ok.mpr ⟨(getLines text, true), bind_eq_ok.mpr ⟨true, hfile, rfl⟩, rfl⟩

/-- A call that returns has read the four numbers of the file. -/
theorem acceptsCache_of_returns {ans : Answer}
    (h : getQuadKeyFilter p ts canWrite (some text) area = .ok ans) :
    acceptsCache (getLines text) area = .ok ans.cacheFileFound := by
  obtain ⟨⟨fromfile, found⟩, hread, h⟩ := bind_eq_ok.mp h
  obtain ⟨found', hfound, hread⟩ := bind_eq_ok.mp hread
  cases hread
  cases found with
  | true => cases h; exact hfound
  | false =>
    obtain ⟨quadKeys, -, h⟩ := bind_eq_ok.mp h
    cases h
    exact hfound

/-- A call that took the quadkeys from nowhere has computed them. -/
theorem computed_of_not_found {file : Option Text} {ans : Answer}
    (h : getQuadKeyFilter p ts canWrite file area = .ok ans) (hfresh : ans.cacheFileFound = false) :
    ∃ quadKeys, computeQuadKeys p ts area = .ok quadKeys ∧
      ans.filterString = appendClauses [] quadKeys ∧
      ans.cacheFile = if canWrite then some (cacheText area quadKeys) else file := by
  obtain ⟨⟨fromfile, found⟩, -, h⟩ := bind_eq_ok.mp h
  cases found with
  | true => cases h; cases hfresh
  | false =>
    obtain ⟨quadKeys, hkeys, h⟩ := bind_eq_ok.mp h
    cases h
    exact ⟨quadKeys, hkeys, rfl, rfl⟩

end Calls

/-! ## On the equator -/

/-- At latitude 0 the Mercator ordinate is one half. -/
def onEquator : Platform where
  mercatorY _ := 1 / 2
  sortByLength v := v.insertionSort (·.length ≤ ·.length)
  sortByLength_perm v := List.perm_insertionSort _ v
  sortByLength_sorted v :=
    haveI : Std.Total fun k k' : Key => k.length ≤ k'.length := ⟨fun _ _ => Nat.le_total _ _⟩
    haveI : IsTrans Key fun k k' => k.length ≤ k'.length := ⟨fun _ _ _ => Nat.le_trans⟩
    List.pairwise_insertionSort _ v

end SLDM.QuadKey
