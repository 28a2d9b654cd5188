import Jcode.Agent.Recovery
import Jcode.Support.Positions

/-!
# Agent — the marker scan over a stream

`find_wrap_marker_incremental` of `agent/turn_streaming_mpsc.rs` by bytes, as it is called after each
delta of a text that streams in.  A slice that begins inside a character stops it.

* `findWrapMarkerIncremental_eq`: it never does, and the bytes are those of the scan by characters.
* `fullScan_eq_some_iff`: a scan of the whole text finds the least place of a marker.
* `scans_spec`: until a marker is there, each call finds what a scan of the whole text finds.
* `first_marker`: the first place that is found is the first place there is, as soon as it is there.
-/

namespace Jcode.Agent.Marker
open Occur Positions

/-- `str::find`, in bytes. -/
def strFind (p s : List Char) : Option ℕ := findPiece Char.utf8Size p s

def floorCharBoundary (text : String) (i : ℕ) : ℕ := floorBoundary Char.utf8Size text.toList i

def findWrapMarkerIncremental (accumulated : String) (appendedLen : ℕ) : Option (Option ℕ) :=
  let scanStart := accumulated.utf8ByteSize - (appendedLen + (maxMarkerLen - 1))
  let scanStart := floorCharBoundary accumulated scanStart
  (splitAt Char.utf8Size scanStart accumulated.toList).map fun parts =>
    (WRAP_TOOL_MARKERS.filterMap fun marker => strFind marker.toList parts.2).min?.map
      (scanStart + ·)

/-- The calls for a text that goes on, one after each delta. -/
def scans (text : String) : List String → Option (List (Option ℕ))
  | [] => some []
  | delta :: deltas => do
      let found ← findWrapMarkerIncremental (text ++ delta) delta.utf8ByteSize
      let later ← scans (text ++ delta) deltas
      some (found :: later)

/-- The text after so many deltas. -/
def accumulated (text : String) (deltas : List String) (n : ℕ) : String :=
  (deltas.take n).foldl (· ++ ·) text

/-- A marker stands at a byte of the text. -/
def MarkerAt (text : String) (i : ℕ) : Prop :=
  ∃ marker ∈ WRAP_TOOL_MARKERS, ∃ a b, text = a ++ marker ++ b ∧ a.utf8ByteSize = i

variable {text : String} {deltas : List String} {i k : ℕ}

/-! ### A scan of the whole text -/

/-- The first marker of the text, in bytes. -/
def fullScan (text : String) : Option ℕ :=
  (findWrapMarker text.toList).map fun n => weight Char.utf8Size (text.toList.take n)

/-- Places by bytes are ordered as places by characters are. -/
theorem monotone_weight (l : List Char) : Monotone fun n => weight Char.utf8Size (l.take n) :=
  fun _ _ hab => weight_take_mono hab l

theorem min_strFind (l : List Char) :
    (WRAP_TOOL_MARKERS.filterMap fun marker => strFind marker.toList l).min? =
      (findWrapMarker l).map fun n => weight Char.utf8Size (l.take n) := by
  simp only [findWrapMarker, WRAP_TOOL_MARKERS, strFind, findPiece, List.filterMap_cons, List.filterMap_nil]
  cases findAt "to=functions.".toList l with
  | none =>
      cases findAt "+#+#".toList l with
      | none => rfl
      | some b => rfl
  | some a =>
      cases findAt "+#+#".toList l with
      | none => rfl
      | some b => exact congrArg some ((monotone_weight l).map_min).symm

theorem markerAt_iff : MarkerAt text i ↔ ∃ marker ∈ WRAP_TOOL_MARKERS, ∃ n ≤ text.toList.length,
    marker.toList <+: text.toList.drop n ∧ weight Char.utf8Size (text.toList.take n) = i := by
  constructor
  · rintro ⟨marker, hmarker, a, b, rfl, rfl⟩
    refine ⟨marker, hmarker, a.toList.length, ?_, ?_, ?_⟩
    · simp only [String.toList_append, List.length_append]
      omega
    · rw [String.toList_append, String.toList_append, List.append_assoc, List.drop_left]
      exact List.prefix_append _ _
    · rw [String.toList_append, String.toList_append, List.append_assoc, List.take_left,
        ← utf8ByteSize_eq]
  · rintro ⟨marker, hmarker, n, -, ⟨b, hb⟩, rfl⟩
    refine ⟨marker, hmarker, String.ofList (text.toList.take n), String.ofList b, ?_, ?_⟩
    · rw [← String.toList_inj]
      simp only [String.toList_append, String.toList_ofList, List.append_assoc, hb,
        List.take_append_drop]
    · rw [utf8ByteSize_eq, String.toList_ofList]

theorem fullScan_eq_none_iff : fullScan text = none ↔ ∀ i, ¬ MarkerAt text i := by
  rw [fullScan, Option.map_eq_none_iff, findWrapMarker_eq_none_iff]
  constructor
  · intro h i hat
    obtain ⟨marker, hmarker, n, -, hp, -⟩ := markerAt_iff.mp hat
    exact h marker hmarker (hp.isInfix.trans (List.drop_suffix _ _).isInfix)
  · rintro h marker hmarker ⟨a, b, hab⟩
    refine h _ ⟨marker, hmarker, String.ofList a, String.ofList b, ?_, rfl⟩
    rw [← String.toList_inj]
    simp only [String.toList_append, String.toList_ofList, hab]

theorem isLeast_of_fullScan (h : fullScan text = some i) : IsLeast {i | MarkerAt text i} i := by
  obtain ⟨n, hn, rfl⟩ := Option.map_eq_some_iff.mp h
  rw [findWrapMarker, List.min?_eq_some_iff] at hn
  obtain ⟨hmem, hmin⟩ := hn
  constructor
  · obtain ⟨marker, hmarker, hfind⟩ := List.mem_filterMap.mp hmem
    obtain ⟨hle, hp, -⟩ := findAt_eq_some_iff.mp hfind
    exact markerAt_iff.mpr ⟨marker, hmarker, n, hle, hp, rfl⟩
  · intro i hat
    obtain ⟨marker, hmarker, m, -, hp, rfl⟩ := markerAt_iff.mp hat
    have hinfix : marker.toList <:+: text.toList := hp.isInfix.trans (List.drop_suffix _ _).isInfix
    obtain ⟨first, hfirst⟩ := Option.isSome_iff_exists.mp (findAt_isSome_iff.mpr hinfix)
    -- the first place of this marker is no later than the one at hand
    have hle : first ≤ m := by
      by_contra hlt
      exact (findAt_eq_some_iff.mp hfirst).2.2 m (by omega) hp
    have hn := hmin first (List.mem_filterMap.mpr ⟨marker, hmarker, hfirst⟩)
    exact monotone_weight text.toList (hn.trans hle)

/-- **The least place of a marker.** -/
theorem fullScan_eq_some_iff : fullScan text = some i ↔ IsLeast {i | MarkerAt text i} i := by
  constructor
  · exact isLeast_of_fullScan
  · intro hleast
    cases hscan : fullScan text with
    | none => exact absurd hleast.1 (fullScan_eq_none_iff.mp hscan i)
    | some i' => rw [(isLeast_of_fullScan hscan).unique hleast]

/-! ### A scan of what is appended -/

/-- The slice begins at a character, and the bytes that are found are those of the scan by
characters. -/
theorem findWrapMarkerIncremental_eq (accumulated : String) (appendedLen : ℕ) :
    findWrapMarkerIncremental accumulated appendedLen =
      some ((Agent.findWrapMarkerIncremental accumulated appendedLen).map fun n =>
        weight Char.utf8Size (accumulated.toList.take n)) := by
  rw [findWrapMarkerIncremental, Agent.findWrapMarkerIncremental, floorCharBoundary]
  generalize accumulated.utf8ByteSize - (appendedLen + (maxMarkerLen - 1)) = scanStart
  simp only [floorBoundary_eq Char.utf8Size_pos]
  generalize within Char.utf8Size scanStart accumulated.toList = n
  have hsplit : accumulated.toList = accumulated.toList.take n ++ accumulated.toList.drop n :=
    (List.take_append_drop n _).symm
  have hparts : splitAt Char.utf8Size (weight Char.utf8Size (accumulated.toList.take n))
      accumulated.toList = some (accumulated.toList.take n, accumulated.toList.drop n) :=
    (splitAt_eq_some_iff Char.utf8Size_pos).mpr ⟨hsplit, rfl⟩
  rw [hparts, Option.map_some, min_strFind, Option.map_map, Option.map_map]
  refine congrArg some (congrArg (Option.map · _) (funext fun m => ?_))
  rw [Function.comp_apply, Function.comp_apply, List.take_add, weight_append]

/-- Each call is a scan of the whole text, as long as no call before it has found a marker. -/
theorem scans_spec (text : String) (deltas : List String) :
    ∃ results, scans text deltas = some results ∧ results.length = deltas.length ∧
      ∀ k < deltas.length, (∀ j ≤ k, fullScan (accumulated text deltas j) = none) →
        results[k]? = some (fullScan (accumulated text deltas (k + 1))) := by
  induction deltas generalizing text with
  | nil => exact ⟨[], rfl, rfl, fun k hk => absurd hk (Nat.not_lt_zero k)⟩
  | cons delta deltas ih =>
      obtain ⟨later, hlater, hlen, hspec⟩ := ih (text ++ delta)
      refine ⟨_ :: later, by rw [scans, findWrapMarkerIncremental_eq, hlater]; rfl,
        congrArg (· + 1) hlen, fun k hk hnone => ?_⟩
      cases k with
      | zero =>
          have hbefore : findWrapMarker text.toList = none :=
            Option.map_eq_none_iff.mp (hnone 0 le_rfl)
          rw [List.getElem?_cons_zero, findWrapMarkerIncremental_append hbefore]
          rfl
      | succ k =>
          rw [List.getElem?_cons_succ]
          exact hspec k (Nat.lt_of_succ_lt_succ hk) fun j hj => hnone (j + 1) (by omega)

/-- **The first place that is found** is found as soon as the text contains a marker, and is the
least place at which one stands. -/
theorem first_marker (deltas : List String) :
    ∃ results, scans "" deltas = some results ∧ results.length = deltas.length ∧
      ∀ k i, (∀ j < k, results[j]? = some none) ∧ results[k]? = some (some i) ↔
        k < deltas.length ∧ (∀ j < k, ∀ i, ¬ MarkerAt (accumulated "" deltas (j + 1)) i) ∧
          IsLeast {i | MarkerAt (accumulated "" deltas (k + 1)) i} i := by
  obtain ⟨results, hscans, hlen, hspec⟩ := scans_spec "" deltas
  have hempty : fullScan (accumulated "" deltas 0) = none := rfl
  refine ⟨results, hscans, hlen, fun k i => ?_⟩
  constructor
  · rintro ⟨hbefore, hfound⟩
    have hk : k < deltas.length := hlen ▸ (List.getElem?_eq_some_iff.mp hfound).1
    -- no marker is in the text up to the call that finds one
    have hnone : ∀ j ≤ k, fullScan (accumulated "" deltas j) = none := by
      intro j
      induction j using Nat.strong_induction_on with
      | _ j ih =>
          intro hj
          cases j with
          | zero => exact hempty
          | succ j =>
              have hcall := hspec j (by omega) fun j' hj' => ih j' (by omega) (by omega)
              rw [hbefore j hj] at hcall
              exact (Option.some.inj hcall).symm
    rw [hspec k hk hnone] at hfound
    refine ⟨hk, fun j hj => ?_, fullScan_eq_some_iff.mp (Option.some.inj hfound)⟩
    exact fullScan_eq_none_iff.mp (hnone (j + 1) hj)
  · rintro ⟨hk, hbefore, hleast⟩
    have hnone : ∀ j ≤ k, fullScan (accumulated "" deltas j) = none := by
      intro j hj
      cases j with
      | zero => exact hempty
      | succ j => exact fullScan_eq_none_iff.mpr (hbefore j hj)
    constructor
    · intro j hj
      rw [hspec j (hj.trans hk) fun j' hj' => hnone j' (hj'.trans hj.le), hnone (j + 1) hj]
    · rw [hspec k hk hnone, fullScan_eq_some_iff.mpr hleast]

end Jcode.Agent.Marker
