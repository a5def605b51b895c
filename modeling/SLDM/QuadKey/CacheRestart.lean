/-
SLDM.QuadKey.CacheRestart — restarting after a run was killed.

The cache file is truncated when it is opened and filled after the
quadkeys are computed, so a process killed inside `getQuadKeyFilter`
leaves a prefix of the bytes of a complete run. `Restarts` is what the
next start needs of that prefix, `Recoverable` the prefixes it can cope
with, `restarts_iff` their equivalence: the empty file and a header
without its fourth number make the reader throw, and a file with a part
of the quadkeys is taken for a complete one.
-/
import SLDM.QuadKey.FilterCache

namespace SLDM.QuadKey

open Lines Decimal

/-- The next call for the same area returns, and returns the filter
string of a run that is not interrupted. -/
def Restarts (p : Platform) (ts : QuadKeyTS) (area : Area) (filterString text : Text) : Prop :=
  ∀ canWrite, ∃ ans, getQuadKeyFilter p ts canWrite (some text) area = .ok ans ∧
    ans.filterString = filterString

/-- The cut leaves a digit of the fourth number, and it comes no later
than the end of the header unless the only thing it takes away is the line
break after a last quadkey that is not empty. -/
def Recoverable (area : Area) (full text : Text) : Prop :=
  (unlines ((headerLines area).take 3)).length + (sign area.maxLongitude).length < text.length ∧
    (text.length ≤ (unlines (headerLines area)).length ∨ text = full ∨
      text ++ ['\n'] = full ∧ text.getLast? ≠ some '\n')

section Cut

variable {area : Area} {quadKeys : List Key} {text : Text}

theorem headerLines_eq (area : Area) :
    headerLines area = (headerLines area).take 3 ++ [toFixed 6 area.maxLongitude] := rfl

/-- The lines of a header whose last line is cut. -/
theorem getLines_cutHeader {r : Text} (hne : r ≠ [])
    (hr : r <+: unlines [toFixed 6 area.maxLongitude]) :
    ∃ line, line <+: toFixed 6 area.maxLongitude ∧
      getLines (unlines ((headerLines area).take 3) ++ r) = (headerLines area).take 3 ++ [line] ∧
      ((sign area.maxLongitude).length < line.length ↔
        (sign area.maxLongitude).length < r.length) := by
  have hfirst : ∀ line ∈ (headerLines area).take 3, '\n' ∉ line :=
    fun line hline => newline_not_mem_header area line (List.mem_of_mem_take hline)
  have hlast : '\n' ∉ toFixed 6 area.maxLongitude :=
    newline_not_mem_header area _ (by simp [headerLines])
  rw [getLines_unlines_append hfirst]
  rcases prefix_unlines_cons hr with hpre | ⟨q, hq, rfl⟩
  · exact ⟨r, hpre, by rw [getLines_last (not_mem_of_initial hpre hlast) hne], Iff.rfl⟩
  · refine ⟨toFixed 6 area.maxLongitude, List.prefix_refl _, ?_, ?_⟩
    · rw [List.prefix_nil.mp hq, getLines_line hlast, getLines_nil]
    · -- the whole number is there, with at least one digit
      have hlong : (sign area.maxLongitude).length < (toFixed 6 area.maxLongitude).length := by
        simp only [toFixed, List.length_append, List.length_cons]
        omega
      rw [List.length_append]
      exact iff_of_true hlong (by omega)

/-- Where the cut can be: in the first three lines, in the fourth, or
among the quadkeys. -/
theorem cut_cases (hcut : text <+: cacheText area quadKeys) :
    text <+: unlines ((headerLines area).take 3) ∨
      (∃ r, r ≠ [] ∧ r <+: unlines [toFixed 6 area.maxLongitude] ∧
        text = unlines ((headerLines area).take 3) ++ r) ∨
      ∃ q, q ≠ [] ∧ q <+: unlines quadKeys ∧ text = unlines (headerLines area) ++ q := by
  rcases prefix_unlines_append hcut with hheader | hkeys
  · rw [headerLines_eq] at hheader
    rcases prefix_unlines_append hheader with hfirst | hfourth
    · exact Or.inl hfirst
    · exact Or.inr (Or.inl hfourth)
  · exact Or.inr (Or.inr hkeys)

/-- Too few lines, or a fourth one without a digit: the reader throws. -/
theorem fourth_digit_of_acceptsCache {b : Bool} (hcut : text <+: cacheText area quadKeys)
    (h : acceptsCache (getLines text) area = .ok b) :
    (unlines ((headerLines area).take 3)).length + (sign area.maxLongitude).length <
      text.length := by
  obtain ⟨v, hv⟩ := fourth_of_acceptsCache h
  obtain ⟨line, hline, hstod⟩ := stodAt_eq_ok.mp hv
  rcases cut_cases hcut with hfirst | ⟨r, hne, hr, rfl⟩ | ⟨q, -, -, rfl⟩
  · have hlen := length_getLines_le (fun l hl => newline_not_mem_header area l
      (List.mem_of_mem_take hl)) hfirst
    have hsome := (List.getElem?_eq_some_iff.mp hline).1
    rw [List.length_take] at hlen
    omega
  · obtain ⟨line', hpre, hlines, hiff⟩ := getLines_cutHeader hne hr
    rw [hlines] at hline
    have heq : line = line' := by
      have hthird : ((headerLines area).take 3 ++ [line'])[3]? = some line' := rfl
      rw [hthird] at hline
      exact (Option.some.inj hline).symm
    have hdigit := (isSome_stod_prefix_iff hpre).mp (by rw [← heq, hstod, Option.isSome_some])
    have hlong := hiff.mp hdigit
    rw [List.length_append]
    omega
  · have hlong : (sign area.maxLongitude).length < (toFixed 6 area.maxLongitude).length := by
      simp only [toFixed, List.length_append, List.length_cons]
      omega
    rw [headerLines_eq, unlines_append, unlines_cons]
    simp only [List.length_append, List.length_cons]
    rw [← headerLines_eq]
    omega

/-- A cut in the header that leaves a digit of the fourth number: the
cache is rejected. -/
theorem rejects_cutHeader (hheader : text <+: unlines (headerLines area))
    (hdigit : (unlines ((headerLines area).take 3)).length + (sign area.maxLongitude).length <
      text.length) :
    acceptsCache (getLines text) area = .ok false := by
  rw [headerLines_eq] at hheader
  rcases prefix_unlines_append hheader with hfirst | ⟨r, hne, hr, rfl⟩
  · have hlen := hfirst.length_le
    omega
  · obtain ⟨line, hpre, hlines, hiff⟩ := getLines_cutHeader hne hr
    rw [List.length_append] at hdigit
    rw [hlines]
    exact acceptsCache_cutHeader hpre (hiff.mpr (by omega))

/-- A cut among the quadkeys: the cache is accepted. -/
theorem acceptsCache_cutKeys (area : Area) {q : Text} (hne : q ≠ []) :
    acceptsCache (getLines (unlines (headerLines area) ++ q)) area = .ok true ∧
      (getLines (unlines (headerLines area) ++ q)).drop 4 = getLines q := by
  rw [getLines_unlines_append (newline_not_mem_header area), acceptsCache_header]
  exact ⟨by rw [decide_eq_true (mt getLines_eq_nil_iff.mp hne)], rfl⟩

/-- Filter strings of a file cut among its quadkeys: only the complete
list gives the string of the complete list. -/
theorem appendClauses_cut_iff {q : Text} (hkeys : AllQuadKeys quadKeys) (hne : q ≠ [])
    (hq : q <+: unlines quadKeys) :
    appendClauses [] (getLines q) = appendClauses [] quadKeys ↔ getLines q = quadKeys := by
  refine ⟨fun heq => ?_, fun heq => by rw [heq]⟩
  have hread : getLines q ≠ [] := mt getLines_eq_nil_iff.mp hne
  have hfull : quadKeys ≠ [] := by
    intro heq
    subst heq
    exact hne (List.prefix_nil.mp hq)
  have hlenq := length_appendClauses [] hread
  have hlen := length_appendClauses [] hfull
  rw [heq] at hlenq
  rcases getLines_eq_or_lighter (c := 21) (by decide) (fun k hk => newline_not_mem (hkeys k hk)) hq
    with hsame | hlighter
  · exact hsame
  · omega

/-- Which cuts among the quadkeys lose none of them. -/
theorem getLines_cutKeys_iff (area : Area) {q : Text} (hkeys : AllQuadKeys quadKeys) (hne : q ≠ [])
    (hq : q <+: unlines quadKeys) :
    getLines q = quadKeys ↔ unlines (headerLines area) ++ q = cacheText area quadKeys ∨
      unlines (headerLines area) ++ q ++ ['\n'] = cacheText area quadKeys ∧
        (unlines (headerLines area) ++ q).getLast? ≠ some '\n' := by
  rw [cacheText, unlines_append, List.append_assoc, List.append_cancel_left_eq,
    List.append_cancel_left_eq, List.getLast?_append_of_ne_nil _ hne]
  exact getLines_prefix_eq_iff (fun k hk => newline_not_mem (hkeys k hk)) hq hne

end Cut

/-- The prefixes of a complete file the next start can cope with. -/
theorem restarts_iff {p : Platform} {ts : QuadKeyTS} {area : Area} {file : Option Text}
    {ans : Answer} {full text : Text}
    (hrun : getQuadKeyFilter p ts true file area = .ok ans) (hfresh : ans.cacheFileFound = false)
    (hfull : ans.cacheFile = some full) (hcut : text <+: full) :
    Restarts p ts area ans.filterString text ↔ Recoverable area full text := by
  obtain ⟨quadKeys, hkeys, hstring, hwritten⟩ := computed_of_not_found hrun hfresh
  have hdigits := allQuadKeys_compute hkeys
  rw [hfull, if_pos rfl, Option.some.injEq] at hwritten
  subst hwritten
  rw [hstring]
  constructor
  · intro hrestarts
    obtain ⟨ans', hans', hsame⟩ := hrestarts true
    refine ⟨fourth_digit_of_acceptsCache hcut (acceptsCache_of_returns hans'), ?_⟩
    rcases prefix_unlines_append hcut with hheader | ⟨q, hne, hq, rfl⟩
    · exact Or.inl hheader.length_le
    · obtain ⟨hfound, hdrop⟩ := acceptsCache_cutKeys area hne
      rw [getQuadKeyFilter_accepts hfound] at hans'
      cases hans'
      have hlines := (appendClauses_cut_iff hdigits hne hq).mp (hdrop ▸ hsame)
      exact Or.inr ((getLines_cutKeys_iff area hdigits hne hq).mp hlines)
  · intro hex canWrite
    obtain ⟨hdigit, hcomplete⟩ := hex
    rcases prefix_unlines_append hcut with hheader | ⟨q, hne, hq, rfl⟩
    · exact ⟨_, getQuadKeyFilter_rejects hkeys (rejects_cutHeader hheader hdigit), rfl⟩
    · have hlong : ¬ (unlines (headerLines area) ++ q).length ≤
          (unlines (headerLines area)).length := by
        have hpos := List.length_pos_of_ne_nil hne
        rw [List.length_append]
        omega
      have hlines := (getLines_cutKeys_iff area hdigits hne hq).mpr (hcomplete.resolve_left hlong)
      obtain ⟨hfound, hdrop⟩ := acceptsCache_cutKeys area hne
      exact ⟨_, getQuadKeyFilter_accepts hfound, by rw [hdrop, hlines]⟩

/-! ## An area of one point -/

def onePoint : Area := ⟨0, 1 / 100, 0, 1 / 100⟩

def onePointKeys : List Key := ["3000000000000001".toList]

theorem computeQuadKeys_onePoint :
    computeQuadKeys onEquator (QuadKeyTS.new.setLevelOfDetail 16) onePoint = .ok onePointKeys := by
  decide +kernel

/-- A file cut inside its only quadkey. -/
theorem restarts_iff_cutKey :
    Restarts onEquator (QuadKeyTS.new.setLevelOfDetail 16) onePoint
        (appendClauses [] onePointKeys) ((cacheText onePoint onePointKeys).take 40) ↔
      Recoverable onePoint (cacheText onePoint onePointKeys)
        ((cacheText onePoint onePointKeys).take 40) :=
  restarts_iff (getQuadKeyFilter_none computeQuadKeys_onePoint) rfl rfl
    (List.take_prefix 40 _)

/-- The process is killed while the quadkeys are computed: the file is
empty and the next start throws. -/
theorem emptyCache_not_restarts :
    ∃ ans full, getQuadKeyFilter onEquator (QuadKeyTS.new.setLevelOfDetail 16) true none onePoint =
        .ok ans ∧ ans.cacheFileFound = false ∧ ans.cacheFile = some full ∧ [] <+: full ∧
      ¬ Restarts onEquator (QuadKeyTS.new.setLevelOfDetail 16) onePoint ans.filterString [] := by
  refine ⟨_, _, getQuadKeyFilter_none computeQuadKeys_onePoint, rfl, rfl, List.nil_prefix, ?_⟩
  intro hrestarts
  obtain ⟨ans, hans, -⟩ := hrestarts true
  have haccepts := acceptsCache_of_returns hans
  cases haccepts

end SLDM.QuadKey
