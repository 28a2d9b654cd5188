import Jcode.Support.Text

/-!
# Provider — routes without duplicates

`dedupe_model_routes` of `jcode-provider-core/src/selection.rs`.  Two routes of one provider and model
are duplicates when their methods are equal, or when one is the generic OpenAI-compatible method and
the other a profile of it.  The routes that are kept are found by buckets of indices; the reference
scans all of them.

* `dedupe_eq_reference`: the buckets find what the scan finds.
* `Distinct.step`: no two of the routes that are kept are duplicates.
* `Keeps.step`: a route with a profile is kept.
* `dedupe_exact`: all of it, and that a second pass changes nothing.
-/

namespace Jcode.Provider.RouteDedupe
open Rust

variable {δ : Type}

/-- `ModelRoute`; its details are whether it is available, a text, and what it costs. -/
structure ModelRoute (δ : Type) where
  model : String
  provider : String
  apiMethod : String
  details : δ

def isGenericOpenaiCompatibleRoute (apiMethod : String) : Bool := apiMethod == "openai-compatible"

def isProfileOpenaiCompatibleRoute (apiMethod : String) : Bool :=
  startsWith apiMethod "openai-compatible:"

def duplicateRouteApiMethod (existing candidate : String) : Bool :=
  existing == candidate ||
    (isGenericOpenaiCompatibleRoute existing && isProfileOpenaiCompatibleRoute candidate) ||
    (isProfileOpenaiCompatibleRoute existing && isGenericOpenaiCompatibleRoute candidate)

def shouldReplaceDuplicateRoute (existing candidate : ModelRoute δ) : Bool :=
  !isProfileOpenaiCompatibleRoute existing.apiMethod &&
    isProfileOpenaiCompatibleRoute candidate.apiMethod

/-- The key of a route's bucket. -/
def ModelRoute.key (route : ModelRoute δ) : String × String := (route.provider, route.model)

/-- The routes that are kept, and their indices by key. -/
structure Deduped (δ : Type) where
  deduped : List (ModelRoute δ)
  buckets : String × String → List ℕ

/-- The loop of `dedupe_model_routes`, for one route. -/
def Deduped.step (s : Deduped δ) (route : ModelRoute δ) : Deduped δ :=
  let bucket := s.buckets route.key
  match bucket.find? fun i =>
      s.deduped[i]?.any fun existing => duplicateRouteApiMethod existing.apiMethod route.apiMethod with
  | some i =>
      if s.deduped[i]?.any (shouldReplaceDuplicateRoute · route) then
        { s with deduped := s.deduped.set i route }
      else s
  | none =>
      { deduped := s.deduped ++ [route]
        buckets := fun key =>
          if key = route.key then bucket ++ [s.deduped.length] else s.buckets key }

def dedupeModelRoutes (routes : List (ModelRoute δ)) : List (ModelRoute δ) :=
  (routes.foldl Deduped.step ⟨[], fun _ => []⟩).deduped

def duplicateModelRoute (existing candidate : ModelRoute δ) : Bool :=
  existing.provider == candidate.provider && existing.model == candidate.model &&
    duplicateRouteApiMethod existing.apiMethod candidate.apiMethod

/-- The loop of `dedupe_model_routes_reference`, for one route. -/
def referenceStep (deduped : List (ModelRoute δ)) (route : ModelRoute δ) : List (ModelRoute δ) :=
  match deduped.findIdx? (duplicateModelRoute · route) with
  | some i =>
      if deduped[i]?.any (shouldReplaceDuplicateRoute · route) then deduped.set i route else deduped
  | none => deduped ++ [route]

def dedupeModelRoutesReference (routes : List (ModelRoute δ)) : List (ModelRoute δ) :=
  routes.foldl referenceStep []

/-! ### Duplicates -/

theorem not_generic_of_profile {method : String} (h : isProfileOpenaiCompatibleRoute method = true) :
    isGenericOpenaiCompatibleRoute method = false := by
  rw [isGenericOpenaiCompatibleRoute, beq_eq_false_iff_ne]
  rintro rfl
  exact absurd h (by decide)

theorem duplicateRouteApiMethod_comm (a b : String) :
    duplicateRouteApiMethod a b = duplicateRouteApiMethod b a := by
  rw [duplicateRouteApiMethod, duplicateRouteApiMethod, Bool.beq_comm, Bool.or_assoc, Bool.or_assoc,
    Bool.or_comm (isGenericOpenaiCompatibleRoute a && _), Bool.and_comm (isProfileOpenaiCompatibleRoute a),
    Bool.and_comm (isGenericOpenaiCompatibleRoute a)]

theorem duplicateModelRoute_iff {a b : ModelRoute δ} :
    duplicateModelRoute a b = true ↔
      a.key = b.key ∧ duplicateRouteApiMethod a.apiMethod b.apiMethod = true := by
  rw [duplicateModelRoute, Bool.and_eq_true, Bool.and_eq_true, beq_iff_eq, beq_iff_eq,
    ModelRoute.key, ModelRoute.key, Prod.mk.injEq]

theorem duplicateModelRoute_comm (a b : ModelRoute δ) :
    duplicateModelRoute a b = duplicateModelRoute b a := by
  rw [Bool.eq_iff_iff, duplicateModelRoute_iff, duplicateModelRoute_iff, eq_comm,
    duplicateRouteApiMethod_comm]

/-! ### Buckets -/

/-- The indices of a key. -/
def indicesOf (keys : List (String × String)) (key : String × String) : List ℕ :=
  (List.range keys.length).filter fun i => keys[i]? == some key

theorem indicesOf_append (keys : List (String × String)) (last key : String × String) :
    indicesOf (keys ++ [last]) key =
      if key = last then indicesOf keys key ++ [keys.length] else indicesOf keys key := by
  have hold : (List.range keys.length).filter (fun i => (keys ++ [last])[i]? == some key) =
      indicesOf keys key := by
    refine List.filter_congr fun i hi => ?_
    rw [List.getElem?_append_left (List.mem_range.mp hi)]
  rw [indicesOf, List.length_append, List.length_singleton, List.range_succ, List.filter_append, hold]
  by_cases hkey : key = last
  · rw [if_pos hkey, List.filter_cons_of_pos (by simp [hkey]), List.filter_nil]
  · rw [if_neg hkey, List.filter_cons_of_neg (by simp [Ne.symm hkey]), List.filter_nil,
      List.append_nil]

/-- The buckets hold the indices of their keys. -/
def Deduped.Indexed (s : Deduped δ) : Prop :=
  ∀ key, s.buckets key = indicesOf (s.deduped.map ModelRoute.key) key

/-- **The bucket finds what the scan finds.** -/
theorem find_bucket (deduped : List (ModelRoute δ)) (route : ModelRoute δ) :
    (indicesOf (deduped.map ModelRoute.key) route.key).find? (fun i =>
        deduped[i]?.any fun existing =>
          duplicateRouteApiMethod existing.apiMethod route.apiMethod) =
      deduped.findIdx? (duplicateModelRoute · route) := by
  have hboth : (fun i : ℕ => decide (((deduped.map ModelRoute.key)[i]? == some route.key) = true ∧
      (deduped[i]?.any fun existing =>
        duplicateRouteApiMethod existing.apiMethod route.apiMethod) = true)) =
      fun i => deduped[i]?.any (duplicateModelRoute · route) := by
    funext i
    rw [List.getElem?_map]
    cases deduped[i]? with
    | none => rfl
    | some existing =>
        rw [Bool.eq_iff_iff, decide_eq_true_iff, Option.map_some, beq_iff_eq, Option.some.injEq,
          Option.any_some, Option.any_some, duplicateModelRoute_iff]
  rw [indicesOf, List.find?_filter, hboth, List.length_map]
  cases hfind : deduped.findIdx? (duplicateModelRoute · route) with
  | some i =>
      obtain ⟨hlt, hdup, hfirst⟩ := List.findIdx?_eq_some_iff_getElem.mp hfind
      refine List.find?_range_eq_some.mpr ⟨?_, List.mem_range.mpr hlt, fun j hj => ?_⟩
      · rw [List.getElem?_eq_getElem hlt]
        exact hdup
      · rw [List.getElem?_eq_getElem (hj.trans hlt)]
        exact (Bool.not_eq_true' _).mpr (Bool.eq_false_iff.mpr (hfirst j hj))
  | none =>
      rw [List.findIdx?_eq_none_iff] at hfind
      refine List.find?_eq_none.mpr fun i hi => ?_
      rw [List.getElem?_eq_getElem (List.mem_range.mp hi), Option.any_some,
        hfind _ (List.getElem_mem _)]
      exact Bool.false_ne_true

/-- What a scan finds is a duplicate, of the same key. -/
theorem findIdx_spec {deduped : List (ModelRoute δ)} {route : ModelRoute δ} {i : ℕ}
    (h : deduped.findIdx? (duplicateModelRoute · route) = some i) :
    ∃ existing, deduped[i]? = some existing ∧ duplicateModelRoute existing route = true := by
  obtain ⟨hlt, hdup, -⟩ := List.findIdx?_eq_some_iff_getElem.mp h
  exact ⟨_, List.getElem?_eq_getElem hlt, hdup⟩

/-- The list around what a scan finds, and the list in which it is replaced. -/
theorem findIdx_split {deduped : List (ModelRoute δ)} {route : ModelRoute δ} {i : ℕ}
    (h : deduped.findIdx? (duplicateModelRoute · route) = some i) :
    ∃ front existing back, deduped = front ++ existing :: back ∧ deduped[i]? = some existing ∧
      deduped.set i route = front ++ route :: back ∧ duplicateModelRoute existing route = true := by
  obtain ⟨existing, hget, hdup⟩ := findIdx_spec h
  obtain ⟨hlt, heq⟩ := List.getElem?_eq_some_iff.mp hget
  refine ⟨deduped.take i, existing, deduped.drop (i + 1), ?_, hget, ?_, hdup⟩
  · rw [← heq, List.getElem_cons_drop, List.take_append_drop]
  · rw [List.set_eq_take_append_cons_drop, if_pos hlt]

/-- A step with buckets is a step of the reference, and the buckets stay right. -/
theorem Deduped.step_eq {s : Deduped δ} (hindexed : s.Indexed) (route : ModelRoute δ) :
    (s.step route).deduped = referenceStep s.deduped route ∧ (s.step route).Indexed := by
  rw [Deduped.step, referenceStep]
  rw [hindexed route.key, find_bucket]
  cases hfind : s.deduped.findIdx? (duplicateModelRoute · route) with
  | none =>
      refine ⟨rfl, fun key => ?_⟩
      dsimp only
      rw [List.map_append, List.map_singleton, indicesOf_append, List.length_map]
      split
      · next hkey => rw [hkey]
      · exact hindexed key
  | some i =>
      dsimp only
      split
      · refine ⟨rfl, fun key => ?_⟩
        obtain ⟨existing, hget, hdup⟩ := findIdx_spec hfind
        obtain ⟨hlt, rfl⟩ := List.getElem?_eq_some_iff.mp hget
        have hsame : (s.deduped.set i route).map ModelRoute.key = s.deduped.map ModelRoute.key := by
          rw [List.map_set, ← (duplicateModelRoute_iff.mp hdup).1, ← List.map_set,
            List.set_getElem_self]
        dsimp only
        rw [hsame]
        exact hindexed key
      · exact ⟨rfl, hindexed⟩

/-- **The buckets find what the scan finds.** -/
theorem dedupe_eq_reference (routes : List (ModelRoute δ)) :
    dedupeModelRoutes routes = dedupeModelRoutesReference routes := by
  have hrun (s : Deduped δ) (hindexed : s.Indexed) :
      (routes.foldl Deduped.step s).deduped = routes.foldl referenceStep s.deduped := by
    induction routes generalizing s with
    | nil => rfl
    | cons route routes ih =>
        obtain ⟨hstep, hindexed⟩ := Deduped.step_eq hindexed route
        rw [List.foldl_cons, List.foldl_cons, ih _ hindexed, hstep]
  exact hrun ⟨[], fun _ => []⟩ fun _ => rfl

/-! ### What is kept -/

/-- No two of the routes are duplicates. -/
def Distinct (deduped : List (ModelRoute δ)) : Prop :=
  deduped.Pairwise fun a b => duplicateModelRoute a b = false

/-- A route that replaces another one has a profile, and the other is generic. -/
theorem replaced_generic {existing route : ModelRoute δ}
    (hdup : duplicateModelRoute existing route = true)
    (hreplace : shouldReplaceDuplicateRoute existing route = true) :
    isGenericOpenaiCompatibleRoute existing.apiMethod = true ∧
      isProfileOpenaiCompatibleRoute route.apiMethod = true := by
  rw [shouldReplaceDuplicateRoute, Bool.and_eq_true, Bool.not_eq_true'] at hreplace
  obtain ⟨hexisting, hroute⟩ := hreplace
  have hmethod := (duplicateModelRoute_iff.mp hdup).2
  rw [duplicateRouteApiMethod, hexisting, hroute, Bool.false_and, Bool.or_false, Bool.and_true,
    Bool.or_eq_true, beq_iff_eq] at hmethod
  refine ⟨hmethod.resolve_left fun heq => ?_, hroute⟩
  rw [heq, hroute] at hexisting
  cases hexisting

/-- A duplicate that is not replaced by a route with a profile is that route's own. -/
theorem same_of_not_replaced {existing route : ModelRoute δ}
    (hdup : duplicateModelRoute existing route = true)
    (hreplace : shouldReplaceDuplicateRoute existing route = false)
    (hprofile : isProfileOpenaiCompatibleRoute route.apiMethod = true) :
    existing.apiMethod = route.apiMethod := by
  rw [shouldReplaceDuplicateRoute, hprofile, Bool.and_true, Bool.not_eq_false'] at hreplace
  have hmethod := (duplicateModelRoute_iff.mp hdup).2
  rw [duplicateRouteApiMethod, not_generic_of_profile hreplace, not_generic_of_profile hprofile,
    Bool.false_and, Bool.and_false, Bool.or_false, Bool.or_false, beq_iff_eq] at hmethod
  exact hmethod

/-- What is no duplicate of a route that is replaced is none of the one that replaces it. -/
theorem distinct_of_replaced {existing route other : ModelRoute δ}
    (hdup : duplicateModelRoute existing route = true)
    (hreplace : shouldReplaceDuplicateRoute existing route = true)
    (h : duplicateModelRoute other existing = false) :
    duplicateModelRoute other route = false := by
  obtain ⟨hgeneric, hprofile⟩ := replaced_generic hdup hreplace
  rw [← Bool.not_eq_true] at h ⊢
  intro hother
  obtain ⟨hkey, hmethod⟩ := duplicateModelRoute_iff.mp hother
  refine h (duplicateModelRoute_iff.mpr
    ⟨hkey.trans (duplicateModelRoute_iff.mp hdup).1.symm, ?_⟩)
  rw [duplicateRouteApiMethod, not_generic_of_profile hprofile, hprofile, Bool.and_false,
    Bool.or_false, Bool.and_true, Bool.or_eq_true, beq_iff_eq] at hmethod
  rw [duplicateRouteApiMethod, hgeneric]
  rcases hmethod with heq | hother
  · rw [heq, hprofile]
    simp
  · have heq : other.apiMethod = existing.apiMethod := (beq_iff_eq.mp hother).trans
      (beq_iff_eq.mp hgeneric).symm
    rw [heq]
    simp

/-- **What is kept stays without duplicates.** -/
theorem Distinct.step {deduped : List (ModelRoute δ)} (h : Distinct deduped)
    (route : ModelRoute δ) : Distinct (referenceStep deduped route) := by
  rw [referenceStep]
  cases hfind : deduped.findIdx? (duplicateModelRoute · route) with
  | none =>
      rw [List.findIdx?_eq_none_iff] at hfind
      refine List.pairwise_append.mpr ⟨h, List.pairwise_singleton _ _, fun existing hmem last hlast => ?_⟩
      obtain rfl := List.mem_singleton.mp hlast
      exact hfind existing hmem
  | some i =>
      dsimp only
      split
      · next hreplace =>
          obtain ⟨front, existing, back, rfl, hget, hset, hdup⟩ := findIdx_split hfind
          rw [hget, Option.any_some] at hreplace
          rw [hset]
          obtain ⟨hfront, hback, hbetween⟩ := List.pairwise_append.mp h
          obtain ⟨hexisting, hback⟩ := List.pairwise_cons.mp hback
          refine List.pairwise_append.mpr ⟨hfront, List.pairwise_cons.mpr ⟨?_, hback⟩, ?_⟩
          · intro other hother
            rw [duplicateModelRoute_comm]
            refine distinct_of_replaced hdup hreplace ?_
            rw [duplicateModelRoute_comm]
            exact hexisting other hother
          · intro other hother last hlast
            rcases List.mem_cons.mp hlast with rfl | hlast
            · exact distinct_of_replaced hdup hreplace (hbetween other hother _ List.mem_cons_self)
            · exact hbetween other hother last (List.mem_cons_of_mem _ hlast)
      · exact h

/-- Every route with a profile is kept. -/
def Keeps (seen deduped : List (ModelRoute δ)) : Prop :=
  ∀ route ∈ seen, isProfileOpenaiCompatibleRoute route.apiMethod = true →
    ∃ kept ∈ deduped, kept.key = route.key ∧ kept.apiMethod = route.apiMethod

/-- **A route with a profile is kept**, and those that were kept before stay. -/
theorem Keeps.step {seen deduped : List (ModelRoute δ)} (h : Keeps seen deduped)
    (route : ModelRoute δ) : Keeps (seen ++ [route]) (referenceStep deduped route) := by
  intro older holder hprofile
  rw [referenceStep]
  cases hfind : deduped.findIdx? (duplicateModelRoute · route) with
  | none =>
      rcases List.mem_append.mp holder with holder | holder
      · obtain ⟨kept, hkept, hsame⟩ := h older holder hprofile
        exact ⟨kept, List.mem_append_left _ hkept, hsame⟩
      · obtain rfl := List.mem_singleton.mp holder
        exact ⟨older, List.mem_append_right _ List.mem_cons_self, rfl, rfl⟩
  | some i =>
      obtain ⟨front, existing, back, rfl, hget, hset, hdup⟩ := findIdx_split hfind
      have hkey := (duplicateModelRoute_iff.mp hdup).1
      dsimp only
      rw [hget, Option.any_some, hset]
      cases hreplace : shouldReplaceDuplicateRoute existing route with
      | true =>
          rw [if_pos rfl]
          rcases List.mem_append.mp holder with holder | holder
          · obtain ⟨kept, hkept, hsame⟩ := h older holder hprofile
            -- the route that is replaced is generic, so it is not the one that is kept for this
            have hne : kept ≠ existing := by
              rintro rfl
              have hgeneric := (replaced_generic hdup hreplace).1
              rw [hsame.2, not_generic_of_profile hprofile] at hgeneric
              cases hgeneric
            refine ⟨kept, ?_, hsame⟩
            rcases List.mem_append.mp hkept with hkept | hkept
            · exact List.mem_append_left _ hkept
            · exact List.mem_append_right _
                (List.mem_cons_of_mem _ ((List.mem_cons.mp hkept).resolve_left hne))
          · obtain rfl := List.mem_singleton.mp holder
            exact ⟨older, List.mem_append_right _ List.mem_cons_self, rfl, rfl⟩
      | false =>
          rw [if_neg Bool.false_ne_true]
          rcases List.mem_append.mp holder with holder | holder
          · exact h older holder hprofile
          · obtain rfl := List.mem_singleton.mp holder
            exact ⟨existing, List.mem_append_right _ List.mem_cons_self, hkey,
              same_of_not_replaced hdup hreplace hprofile⟩

/-- What a run of the reference keeps. -/
theorem reference_spec (routes : List (ModelRoute δ)) :
    Distinct (dedupeModelRoutesReference routes) ∧
      Keeps routes (dedupeModelRoutesReference routes) := by
  rw [dedupeModelRoutesReference]
  induction routes using List.reverseRecOn with
  | nil => exact ⟨List.Pairwise.nil, nofun⟩
  | append_singleton routes route ih =>
      rw [List.foldl_append, List.foldl_cons, List.foldl_nil]
      exact ⟨ih.1.step route, ih.2.step route⟩

/-- Routes without duplicates are all kept. -/
theorem reference_of_distinct {deduped routes : List (ModelRoute δ)}
    (h : Distinct (deduped ++ routes)) : routes.foldl referenceStep deduped = deduped ++ routes := by
  induction routes generalizing deduped with
  | nil => rw [List.foldl_nil, List.append_nil]
  | cons route routes ih =>
      have hnone : deduped.findIdx? (duplicateModelRoute · route) = none := by
        rw [List.findIdx?_eq_none_iff]
        intro existing hmem
        exact (List.pairwise_append.mp h).2.2 existing hmem route List.mem_cons_self
      have hstep : referenceStep deduped route = deduped ++ [route] := by rw [referenceStep, hnone]
      rw [List.foldl_cons, hstep, ih]
      · rw [List.append_assoc, List.singleton_append]
      · rwa [List.append_assoc, List.singleton_append]

/-- **Bucketed de-duplication is exact.** -/
theorem dedupe_exact (routes : List (ModelRoute δ)) :
    dedupeModelRoutes routes = dedupeModelRoutesReference routes ∧
    (dedupeModelRoutes routes).Pairwise (fun a b =>
      ¬ (a.provider = b.provider ∧ a.model = b.model ∧
        duplicateRouteApiMethod a.apiMethod b.apiMethod = true)) ∧
    (∀ route ∈ routes, isProfileOpenaiCompatibleRoute route.apiMethod = true →
      ∃ kept ∈ dedupeModelRoutes routes, kept.provider = route.provider ∧
        kept.model = route.model ∧ kept.apiMethod = route.apiMethod) ∧
    dedupeModelRoutes (dedupeModelRoutes routes) = dedupeModelRoutes routes := by
  obtain ⟨hdistinct, hkeeps⟩ := reference_spec routes
  rw [dedupe_eq_reference (dedupeModelRoutes routes), dedupe_eq_reference]
  refine ⟨rfl, hdistinct.imp fun {a b} hdup => ?_, fun route hroute hprofile => ?_, ?_⟩
  · rintro ⟨hprovider, hmodel, hmethod⟩
    have htrue := duplicateModelRoute_iff.mpr ⟨Prod.ext hprovider hmodel, hmethod⟩
    rw [hdup] at htrue
    cases htrue
  · obtain ⟨kept, hkept, hkey, hmethod⟩ := hkeeps route hroute hprofile
    obtain ⟨hprovider, hmodel⟩ := Prod.mk.inj hkey
    exact ⟨kept, hkept, hprovider, hmodel, hmethod⟩
  · exact reference_of_distinct hdistinct

end Jcode.Provider.RouteDedupe
