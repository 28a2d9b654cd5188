import Mathlib.Data.List.Induction
import Mathlib.Data.List.Sort
import Mathlib.Data.Prod.Lex
import Mathlib.Order.Lattice

/-!
# Memory — the best k

`ranking::top_k_by_ord` of the memory types, and its twin `top_k_scored` of the graph.  The items
go through a heap of bounded size whose smallest item, by key and then by place, gives way to an
item with a greater key; what is left is sorted by descending key and then by place.

Of the items that tie at the limit the heap gives up the earliest, and the sort would rank it first.

* `topK_spec`: no item that is left out has a greater key than one that is not.
* `topKByOrd_iff`: the result is the beginning of the stable sort, if and only if no greater key
  comes after `k` items that reach the `k`-th largest key (or the ties it makes the heap give up do
  not show).
* `tie_given_up`: three items, two of them tied.
-/

namespace Jcode.Memory

/-- An item of the heap. -/
structure TopKItem (α K : Type*) where
  key : K
  ordinal : ℕ
  value : α
  deriving DecidableEq

section
variable {α K : Type*} [LinearOrder K]

namespace TopKItem

/-- The order of the heap: by key, then by place. -/
def cmp (i : TopKItem α K) : K ×ₗ ℕ := toLex (i.key, i.ordinal)

/-- The order of the result: by descending key, then by place. -/
def rank (i : TopKItem α K) : Kᵒᵈ ×ₗ ℕ := toLex (OrderDual.toDual i.key, i.ordinal)

theorem cmp_le {i j : TopKItem α K} :
    i.cmp ≤ j.cmp ↔ i.key < j.key ∨ i.key = j.key ∧ i.ordinal ≤ j.ordinal := Prod.Lex.le_iff

theorem rank_le {i j : TopKItem α K} :
    i.rank ≤ j.rank ↔ j.key < i.key ∨ i.key = j.key ∧ i.ordinal ≤ j.ordinal := Prod.Lex.le_iff

def pair (i : TopKItem α K) : α × K := (i.value, i.key)

end TopKItem

/-- `BinaryHeap::push`; a heap is the list of its items in their order. -/
def push (heap : List (TopKItem α K)) (candidate : TopKItem α K) : List (TopKItem α K) :=
  heap.orderedInsert (fun i j => i.cmp ≤ j.cmp) candidate

/-- One item is offered to the heap. -/
def offer (limit : ℕ) (heap : List (TopKItem α K)) (candidate : TopKItem α K) :
    List (TopKItem α K) :=
  if heap.length < limit then push heap candidate
  else match heap with
    | smallest :: rest => if smallest.key < candidate.key then push rest candidate else heap
    | [] => heap

/-- `items.into_iter().enumerate()`. -/
def enumerate (items : List (α × K)) : List (TopKItem α K) :=
  items.zipIdx.map fun (item, ordinal) => ⟨item.2, ordinal, item.1⟩

/-- The heap after the items. -/
def heapOf (limit : ℕ) (items : List (TopKItem α K)) : List (TopKItem α K) :=
  items.foldl (offer limit) []

def sortRank (items : List (TopKItem α K)) : List (TopKItem α K) :=
  items.insertionSort fun i j => i.rank ≤ j.rank

def topK (items : List (α × K)) (limit : ℕ) : List (α × K) :=
  if limit = 0 then [] else (sortRank (heapOf limit (enumerate items))).map (·.pair)

/-- `top_k_by_ord`. -/
def topKByOrd (items : List (α × K)) (limit : ℕ) : List (α × K) := topK items limit

/-! ### The heap -/

theorem push_perm (heap : List (TopKItem α K)) (c : TopKItem α K) : (push heap c).Perm (c :: heap) :=
  List.perm_orderedInsert _ _ _

theorem push_sorted {heap : List (TopKItem α K)} (h : heap.Pairwise fun i j => i.cmp ≤ j.cmp)
    (c : TopKItem α K) : (push heap c).Pairwise fun i j => i.cmp ≤ j.cmp :=
  h.orderedInsert c heap

theorem offer_of_lt {limit : ℕ} {heap : List (TopKItem α K)} (h : heap.length < limit)
    (c : TopKItem α K) : offer limit heap c = push heap c := if_pos h

/-- What an offer does: it takes the item in, or in place of the smallest, or not. -/
theorem offer_cases (limit : ℕ) (heap : List (TopKItem α K)) (c : TopKItem α K) :
    (heap.length < limit ∧ offer limit heap c = push heap c) ∨
    (∃ smallest rest, heap = smallest :: rest ∧ limit ≤ heap.length ∧ smallest.key < c.key ∧
      offer limit heap c = push rest c) ∨
    (limit ≤ heap.length ∧ (∀ smallest rest, heap = smallest :: rest → c.key ≤ smallest.key) ∧
      offer limit heap c = heap) := by
  unfold offer
  split
  · next h => exact .inl ⟨h, rfl⟩
  · next h =>
      match heap with
      | [] => exact .inr (.inr ⟨not_lt.mp h, fun _ _ he => (List.cons_ne_nil _ _ he.symm).elim, rfl⟩)
      | smallest :: rest =>
          by_cases hlt : smallest.key < c.key
          · exact .inr (.inl ⟨smallest, rest, rfl, not_lt.mp h, hlt, if_pos hlt⟩)
          · refine .inr (.inr ⟨not_lt.mp h, fun s r he => ?_, if_neg hlt⟩)
            exact (List.cons.inj he).1 ▸ not_lt.mp hlt

theorem offer_sorted {limit : ℕ} {heap : List (TopKItem α K)}
    (h : heap.Pairwise fun i j => i.cmp ≤ j.cmp) (c : TopKItem α K) :
    (offer limit heap c).Pairwise fun i j => i.cmp ≤ j.cmp := by
  obtain ⟨-, he⟩ | ⟨smallest, rest, rfl, -, -, he⟩ | ⟨-, -, he⟩ := offer_cases limit heap c
  · rw [he]
    exact push_sorted h c
  · rw [he]
    exact push_sorted h.of_cons c
  · rwa [he]

theorem key_le_of_cmp {i j : TopKItem α K} (h : i.cmp ≤ j.cmp) : i.key ≤ j.key := by
  obtain h | ⟨h, -⟩ := TopKItem.cmp_le.mp h
  · exact h.le
  · exact h.le

theorem smallest_le {smallest : TopKItem α K} {rest : List (TopKItem α K)}
    (h : (smallest :: rest).Pairwise fun i j => i.cmp ≤ j.cmp) :
    ∀ i ∈ smallest :: rest, smallest.key ≤ i.key :=
  List.forall_mem_cons.mpr ⟨le_rfl, fun i hi => key_le_of_cmp ((List.pairwise_cons.mp h).1 i hi)⟩

theorem heapOf_concat (limit : ℕ) (items : List (TopKItem α K)) (c : TopKItem α K) :
    heapOf limit (items ++ [c]) = offer limit (heapOf limit items) c := by
  rw [heapOf, List.foldl_append]
  rfl

/-- **The heap keeps the best**: what is left out has no greater key than what is not. -/
theorem heapOf_spec (limit : ℕ) (items : List (TopKItem α K)) :
    (heapOf limit items).Pairwise (fun i j => i.cmp ≤ j.cmp) ∧
      (heapOf limit items).length = min limit items.length ∧
      ∃ omitted, (heapOf limit items ++ omitted).Perm items ∧
        ∀ o ∈ omitted, ∀ i ∈ heapOf limit items, o.key ≤ i.key := by
  induction items using List.reverseRecOn with
  | nil => exact ⟨.nil, by simp [heapOf], [], .refl _, by simp⟩
  | append_singleton items c ih =>
      obtain ⟨hsorted, hlength, omitted, hperm, hbest⟩ := ih
      rw [heapOf_concat, List.length_append, List.length_singleton]
      refine ⟨offer_sorted hsorted c, ?_⟩
      have hperm' : (heapOf limit items ++ c :: omitted).Perm (items ++ [c]) :=
        (List.perm_middle).trans ((hperm.cons c).trans (List.perm_append_singleton c items).symm)
      obtain ⟨hlt, he⟩ | ⟨smallest, rest, hheap, hle, hlt, he⟩ | ⟨hle, hsmall, he⟩ :=
        offer_cases limit (heapOf limit items) c
      · rw [he]
        have hnone : omitted = [] := by
          have hlen := hperm.length_eq
          rw [List.length_append, hlength] at hlen
          exact List.length_eq_zero_iff.mp (by omega)
        subst hnone
        refine ⟨by rw [(push_perm _ _).length_eq, List.length_cons]; omega, [], ?_, by simp⟩
        rw [List.append_nil]
        exact (push_perm _ _).trans ((List.perm_append_singleton _ _).symm.trans hperm')
      · rw [he]
        have hrest := smallest_le (hheap ▸ hsorted)
        rw [hheap] at hlength hperm' hbest hle
        rw [List.length_cons] at hlength hle
        refine ⟨by rw [(push_perm _ _).length_eq, List.length_cons]; omega, smallest :: omitted,
          ?_, List.forall_mem_cons.mpr ⟨fun i hi => ?_, fun o ho i hi => ?_⟩⟩
        · have hmid : (push rest c ++ smallest :: omitted).Perm (smallest :: rest ++ c :: omitted) :=
            ((push_perm rest c).append_right _).trans <|
              List.perm_middle.trans (List.perm_middle.symm.cons smallest)
          exact hmid.trans hperm'
        · obtain rfl | hi := List.mem_cons.mp ((push_perm _ _).mem_iff.mp hi)
          · exact hlt.le
          · exact hrest i (List.mem_cons_of_mem _ hi)
        · obtain rfl | hi := List.mem_cons.mp ((push_perm _ _).mem_iff.mp hi)
          · exact (hbest o ho smallest List.mem_cons_self).trans hlt.le
          · exact hbest o ho i (List.mem_cons_of_mem _ hi)
      · rw [he]
        refine ⟨by omega, c :: omitted, hperm', List.forall_mem_cons.mpr ⟨fun i hi => ?_, hbest⟩⟩
        obtain ⟨smallest, rest, hheap⟩ := List.exists_cons_of_ne_nil (List.ne_nil_of_mem hi)
        have hrest := smallest_le (hheap ▸ hsorted)
        exact (hsmall smallest rest hheap).trans (hrest i (hheap ▸ hi))

omit [LinearOrder K] in
theorem map_pair_enumerate (items : List (α × K)) : (enumerate items).map (·.pair) = items := by
  rw [enumerate, List.map_map]
  exact List.zipIdx_map_fst 0 items

theorem sortRank_perm (items : List (TopKItem α K)) : (sortRank items).Perm items :=
  List.perm_insertionSort _ _

theorem sortRank_sorted (items : List (TopKItem α K)) :
    (sortRank items).Pairwise fun i j => i.rank ≤ j.rank :=
  List.pairwise_insertionSort (fun i j : TopKItem α K => i.rank ≤ j.rank) _

theorem topK_eq (items : List (α × K)) {limit : ℕ} (h : limit ≠ 0) :
    topK items limit = (sortRank (heapOf limit (enumerate items))).map (·.pair) := if_neg h

theorem push_cons_of_le {a c : TopKItem α K} (h : c.cmp ≤ a.cmp) (heap : List (TopKItem α K)) :
    push (a :: heap) c = c :: a :: heap := List.orderedInsert_cons_of_le _ heap h

theorem push_cons_of_lt {a c : TopKItem α K} (h : a.cmp < c.cmp) (heap : List (TopKItem α K)) :
    push (a :: heap) c = a :: push heap c := List.orderedInsert_of_not_le _ heap (not_le.mpr h)

/-- The items of the heap that reach `v`, once another item is pushed. -/
theorem filter_push (heap : List (TopKItem α K)) (c : TopKItem α K) (v : K) :
    (push heap c).filter (v ≤ ·.key) =
      if v ≤ c.key then push (heap.filter (v ≤ ·.key)) c else heap.filter (v ≤ ·.key) := by
  induction heap with
  | nil =>
      by_cases hc : v ≤ c.key
      · rw [if_pos hc]
        exact List.filter_cons_of_pos (by simpa using hc)
      · rw [if_neg hc]
        exact List.filter_cons_of_neg (by simpa using hc)
  | cons a heap ih =>
      obtain hle | hlt := le_or_gt c.cmp a.cmp
      · rw [push_cons_of_le hle]
        by_cases hc : v ≤ c.key
        · have ha : v ≤ a.key := hc.trans (key_le_of_cmp hle)
          rw [if_pos hc, List.filter_cons_of_pos (by simpa using hc),
            List.filter_cons_of_pos (by simpa using ha), push_cons_of_le hle]
        · rw [if_neg hc, List.filter_cons_of_neg (by simpa using hc)]
      · rw [push_cons_of_lt hlt]
        by_cases ha : v ≤ a.key
        · have hc : v ≤ c.key := ha.trans (key_le_of_cmp hlt.le)
          rw [if_pos hc] at ih ⊢
          rw [List.filter_cons_of_pos (by simpa using ha), ih,
            List.filter_cons_of_pos (by simpa using ha), push_cons_of_lt hlt]
        · rw [List.filter_cons_of_neg (by simpa using ha), ih,
            List.filter_cons_of_neg (by simpa using ha)]

/-- The items of the heap that reach `v` are what a heap of only such items would hold. -/
theorem filter_offer {limit : ℕ} {heap : List (TopKItem α K)}
    (h : heap.Pairwise fun i j => i.cmp ≤ j.cmp) (hle : heap.length ≤ limit) (c : TopKItem α K)
    (v : K) : (offer limit heap c).filter (v ≤ ·.key) =
      if v ≤ c.key then offer limit (heap.filter (v ≤ ·.key)) c
      else heap.filter (v ≤ ·.key) := by
  have hfilter := List.length_filter_le (fun i : TopKItem α K => decide (v ≤ i.key)) heap
  obtain ⟨hlt, he⟩ | ⟨smallest, rest, rfl, hge, hkey, he⟩ | ⟨hge, hsmall, he⟩ :=
    offer_cases limit heap c
  · rw [he, filter_push, offer_of_lt (by omega)]
  · rw [he, filter_push]
    by_cases hs : v ≤ smallest.key
    · have hall : ∀ i ∈ smallest :: rest, v ≤ i.key := fun i hi => hs.trans (smallest_le h i hi)
      rw [List.filter_eq_self.mpr fun i hi => decide_eq_true (hall i hi),
        List.filter_eq_self.mpr fun i hi => decide_eq_true (hall i (List.mem_cons_of_mem _ hi)), he]
      simp [hs.trans hkey.le]
    · rw [List.filter_cons_of_neg (by simpa using hs)]
      have hrest := List.length_filter_le (fun i : TopKItem α K => decide (v ≤ i.key)) rest
      rw [List.length_cons] at hle hge
      rw [offer_of_lt (by omega)]
  · rw [he]
    split
    · next hc =>
        have hall : ∀ i ∈ heap, v ≤ i.key := by
          intro i hi
          obtain ⟨smallest, rest, rfl⟩ := List.exists_cons_of_ne_nil (List.ne_nil_of_mem hi)
          exact hc.trans ((hsmall smallest rest rfl).trans (smallest_le h i hi))
        rw [List.filter_eq_self.mpr fun i hi => decide_eq_true (hall i hi), he]
    · rfl

theorem filter_heapOf (limit : ℕ) (items : List (TopKItem α K)) (v : K) :
    (heapOf limit items).filter (v ≤ ·.key) = heapOf limit (items.filter (v ≤ ·.key)) := by
  induction items using List.reverseRecOn with
  | nil => rfl
  | append_singleton items c ih =>
      obtain ⟨hsorted, hlength, -⟩ := heapOf_spec limit items
      rw [heapOf_concat, filter_offer hsorted (by omega), ih, List.filter_append]
      split
      · next hc => rw [List.filter_cons_of_pos (by simpa using hc), List.filter_nil, heapOf_concat]
      · next hc =>
          rw [List.filter_cons_of_neg (by simpa using hc), List.filter_nil, List.append_nil]

/-! ### The ties -/

theorem push_append {ties above : List (TopKItem α K)} {c : TopKItem α K}
    (h : ∀ t ∈ ties, t.cmp < c.cmp) : push (ties ++ above) c = ties ++ push above c := by
  induction ties with
  | nil => rfl
  | cons t ties ih =>
      obtain ⟨ht, hties⟩ := List.forall_mem_cons.mp h
      rw [List.cons_append, push_cons_of_lt ht, ih hties, List.cons_append]

theorem push_of_le {above : List (TopKItem α K)} {c : TopKItem α K}
    (h : ∀ i ∈ above, c.cmp ≤ i.cmp) : push above c = c :: above := by
  cases above with
  | nil => rfl
  | cons i above => exact push_cons_of_le (h i List.mem_cons_self) above

theorem tie_lt {t c : TopKItem α K} {v : K} (ht : t.key = v) (hc : v ≤ c.key)
    (hordinal : t.ordinal < c.ordinal) : t.cmp < c.cmp := by
  refine lt_of_not_ge fun hle => ?_
  obtain h | ⟨-, h⟩ := TopKItem.cmp_le.mp hle
  · exact absurd (ht ▸ hc) (not_le.mpr h)
  · exact absurd hordinal (not_lt.mpr h)

/-- An item that reaches `v` is pushed behind the ties that came before it. -/
theorem push_ties {items above : List (TopKItem α K)} {c : TopKItem α K} {v : K}
    (hties : ∀ t ∈ items.filter (·.key = v), t.cmp < c.cmp) (hvc : v ≤ c.key)
    (habove : ∀ i ∈ above, v < i.key) (hperm : above.Perm (items.filter (v < ·.key))) :
    ∃ above', above'.Perm ((items ++ [c]).filter (v < ·.key)) ∧
      push (items.filter (·.key = v) ++ above) c = (items ++ [c]).filter (·.key = v) ++ above' := by
  rw [push_append hties, List.filter_append, List.filter_append]
  obtain heq | hlt := hvc.eq_or_lt
  · refine ⟨above, ?_, ?_⟩
    · rwa [List.filter_cons_of_neg (by simp [heq]), List.filter_nil, List.append_nil]
    · rw [push_of_le fun i hi => TopKItem.cmp_le.mpr (.inl (heq ▸ habove i hi)),
        List.filter_cons_of_pos (by simp [heq]), List.filter_nil, List.append_assoc,
        List.singleton_append]
  · refine ⟨push above c, ?_, ?_⟩
    · rw [List.filter_cons_of_pos (by simpa using hlt), List.filter_nil]
      exact (push_perm above c).trans ((hperm.cons c).trans (List.perm_append_singleton c _).symm)
    · rw [List.filter_cons_of_neg (by simpa using hlt.ne'), List.filter_nil, List.append_nil]

/-- **The heap gives up the earliest of the ties**: of the items with key `v` it takes those among
the first `limit` items, and gives one of them up for each later item with a greater key. -/
theorem heapOf_ties {limit : ℕ} {items : List (TopKItem α K)} {v : K}
    (hreach : ∀ i ∈ items, v ≤ i.key) (hordinal : items.Pairwise fun i j => i.ordinal < j.ordinal)
    (habove : items.countP (v < ·.key) < limit) :
    ∃ above, above.Perm (items.filter (v < ·.key)) ∧
      heapOf limit items = ((items.take limit).filter (·.key = v)).drop
        ((items.drop limit).countP (v < ·.key)) ++ above := by
  induction items using List.reverseRecOn with
  | nil => exact ⟨[], .refl _, by simp [heapOf]⟩
  | append_singleton items c ih =>
      rw [List.countP_append] at habove
      obtain ⟨hreach, hc⟩ := List.forall_mem_append.mp hreach
      have hvc := hc c List.mem_cons_self
      obtain ⟨hordinal, -, hbefore⟩ := List.pairwise_append.mp hordinal
      obtain ⟨above, hperm, hheap⟩ := ih hreach hordinal (by omega)
      have hmemabove : ∀ i ∈ above, v < i.key := fun i hi => by
        simpa using (List.mem_filter.mp (hperm.mem_iff.mp hi)).2
      obtain ⟨-, hlength, -⟩ := heapOf_spec limit items
      have hlt : ∀ t ∈ items, t.key = v → t.cmp < c.cmp := fun t ht htv =>
        tie_lt htv hvc (hbefore t ht c List.mem_cons_self)
      rw [heapOf_concat]
      obtain hshort | hfull := lt_or_ge items.length limit
      · -- the heap is not full: every item so far is in it
        have hlen : (items ++ [c]).length ≤ limit := by
          rw [List.length_append, List.length_singleton]
          omega
        rw [List.take_of_length_le hshort.le, List.drop_of_length_le hshort.le] at hheap
        rw [List.take_of_length_le hlen, List.drop_of_length_le hlen, offer_of_lt (by omega), hheap]
        have hties : ∀ t ∈ items.filter (·.key = v), t.cmp < c.cmp := fun t ht =>
          hlt t (List.mem_of_mem_filter ht) (of_decide_eq_true (List.mem_filter.mp ht).2)
        exact push_ties hties hvc hmemabove hperm
      · -- the heap is full, and its smallest item is a tie
        rw [List.take_append_of_le_length hfull, List.drop_append_of_le_length hfull,
          List.countP_append]
        generalize hT : (items.take limit).filter (·.key = v) = ties at hheap ⊢
        generalize (items.drop limit).countP (v < ·.key) = late at hheap ⊢
        have hkept : ties.drop late ≠ [] := by
          intro hnil
          rw [hnil, List.nil_append] at hheap
          have hcount := hperm.length_eq
          rw [← hheap, hlength, ← List.countP_eq_length_filter] at hcount
          omega
        obtain ⟨t, rest, hrest⟩ := List.exists_cons_of_ne_nil hkept
        have hmem : ∀ t ∈ ties.drop late, t ∈ items ∧ t.key = v := by
          intro t ht
          have ht := hT ▸ List.mem_of_mem_drop ht
          exact ⟨List.mem_of_mem_take (List.mem_of_mem_filter ht),
            of_decide_eq_true (List.mem_filter.mp ht).2⟩
        have htv : t.key = v := (hmem t (hrest ▸ List.mem_cons_self)).2
        have hrestlt : ∀ t ∈ rest, t.cmp < c.cmp := fun t ht => by
          obtain ⟨hitems, hv⟩ := hmem t (hrest ▸ List.mem_cons_of_mem _ ht)
          exact hlt t hitems hv
        have hlong : ¬ (t :: (rest ++ above)).length < limit := by
          rw [hrest, List.cons_append] at hheap
          rw [← hheap, hlength]
          omega
        rw [hheap, hrest, List.cons_append, offer, if_neg hlong, List.filter_append]
        obtain heq | hgt := hvc.eq_or_lt
        · refine ⟨above, ?_, ?_⟩
          · rwa [List.filter_cons_of_neg (by simp [heq]), List.filter_nil, List.append_nil]
          · rw [if_neg (by rw [htv, heq]; exact lt_irrefl _), List.countP_cons_of_neg (by simp [heq]),
              List.countP_nil, Nat.add_zero, hrest, List.cons_append]
        · refine ⟨push above c, ?_, ?_⟩
          · rw [List.filter_cons_of_pos (by simpa using hgt), List.filter_nil]
            exact (push_perm above c).trans
              ((hperm.cons c).trans (List.perm_append_singleton c _).symm)
          · rw [if_pos (htv ▸ hgt), push_append hrestlt, List.countP_cons_of_pos (by simpa using hgt),
              List.countP_nil, Nat.zero_add, ← List.tail_drop, hrest, List.tail_cons]

/-! ### The stable sort -/

/-- The items by descending key, ties in input order. -/
def sortDesc (items : List (α × K)) : List (α × K) := items.insertionSort fun a b => b.2 ≤ a.2

omit [LinearOrder K] in
theorem enumerate_ordinal (items : List (α × K)) :
    (enumerate items).Pairwise fun i j => i.ordinal < j.ordinal := by
  rw [enumerate, List.pairwise_map]
  have h : ((items.zipIdx).map Prod.snd).Pairwise (· < ·) := by
    rw [List.zipIdx_map_snd]
    exact List.pairwise_lt_range'
  exact List.pairwise_map.mp h

/-- With distinct places, a sorted list is determined by its items. -/
theorem eq_of_perm {l l' : List (TopKItem α K)} (hperm : l.Perm l')
    (hordinal : (l.map (·.ordinal)).Nodup)
    (h : l.Pairwise fun i j => i.rank ≤ j.rank) (h' : l'.Pairwise fun i j => i.rank ≤ j.rank) :
    l = l' := by
  refine List.Perm.eq_of_pairwise (fun i j hi hj hij hji => ?_) h h' hperm
  have heq : i.ordinal = j.ordinal := congrArg (fun p => (ofLex p).2) (le_antisymm hij hji)
  exact List.inj_on_of_nodup_map hordinal hi (hperm.mem_iff.mpr hj) heq

/-- An item that comes first goes before its ties. -/
theorem map_orderedInsert_rank {c : TopKItem α K} {l : List (TopKItem α K)}
    (h : ∀ i ∈ l, c.ordinal < i.ordinal) :
    (l.orderedInsert (fun i j => i.rank ≤ j.rank) c).map (·.pair) =
      (l.map (·.pair)).orderedInsert (fun a b => b.2 ≤ a.2) c.pair := by
  induction l with
  | nil => rfl
  | cons i l ih =>
      obtain ⟨hi, hl⟩ := List.forall_mem_cons.mp h
      have hiff : c.rank ≤ i.rank ↔ i.key ≤ c.key := by
        rw [TopKItem.rank_le, le_iff_lt_or_eq (a := i.key), eq_comm (a := i.key)]
        exact or_congr_right (and_iff_left hi.le)
      rw [List.map_cons, List.orderedInsert_cons, List.orderedInsert_cons, apply_ite (List.map _),
        List.map_cons, List.map_cons, List.map_cons, ih hl]
      exact if_congr hiff rfl rfl

theorem map_sortRank_zipIdx (items : List (α × K)) (start : ℕ) :
    (sortRank ((items.zipIdx start).map fun (item, ordinal) => ⟨item.2, ordinal, item.1⟩)).map
      (·.pair) = sortDesc items := by
  induction items generalizing start with
  | nil => rfl
  | cons item items ih =>
      rw [List.zipIdx_cons, List.map_cons, sortRank, List.insertionSort_cons,
        map_orderedInsert_rank, ← sortRank, ih]
      · rfl
      · intro i hi
        rw [List.mem_insertionSort] at hi
        obtain ⟨⟨item', ordinal⟩, hmem, rfl⟩ := List.mem_map.mp hi
        exact (List.mem_zipIdx hmem).1

/-- **The stable sort** is the sort by descending key and then by place. -/
theorem map_sortRank (items : List (α × K)) :
    (sortRank (enumerate items)).map (·.pair) = sortDesc items := map_sortRank_zipIdx items 0

theorem rank_le_of_key {i j : TopKItem α K} (h : j.key < i.key) : i.rank ≤ j.rank :=
  TopKItem.rank_le.mpr (.inl h)

/-- A sorted list has what is above a key, what ties at it, and what is below it. -/
theorem sortRank_eq {l above ties below : List (TopKItem α K)} {v : K}
    (hperm : l.Perm (above ++ ties ++ below)) (hordinal : (l.map (·.ordinal)).Nodup)
    (habove : ∀ i ∈ above, v < i.key) (hties : ∀ i ∈ ties, i.key = v)
    (hbelow : ∀ i ∈ below, i.key < v) (hasc : ties.Pairwise fun i j => i.ordinal < j.ordinal) :
    sortRank l = sortRank above ++ ties ++ sortRank below := by
  refine eq_of_perm ?_ ?_ (sortRank_sorted l) ?_
  · exact (sortRank_perm l).trans <| hperm.trans <|
      (((sortRank_perm above).append_right ties).append (sortRank_perm below)).symm
  · exact ((sortRank_perm l).map _).nodup_iff.mpr hordinal
  · have hties' : ties.Pairwise fun i j => i.rank ≤ j.rank :=
      hasc.imp_of_mem fun hi hj hlt =>
        TopKItem.rank_le.mpr (.inr ⟨(hties _ hi).trans (hties _ hj).symm, hlt.le⟩)
    refine List.pairwise_append.mpr ⟨List.pairwise_append.mpr
      ⟨sortRank_sorted above, hties', fun i hi j hj => ?_⟩, sortRank_sorted below,
      fun i hi j hj => ?_⟩
    · exact rank_le_of_key (hties j hj ▸ habove i ((sortRank_perm above).mem_iff.mp hi))
    · have hj := hbelow j ((sortRank_perm below).mem_iff.mp hj)
      refine rank_le_of_key (hj.trans_le ?_)
      obtain hi | hi := List.mem_append.mp hi
      · exact (habove i ((sortRank_perm above).mem_iff.mp hi)).le
      · exact (hties i hi).ge

theorem perm_split (l : List (TopKItem α K)) (v : K) :
    l.Perm (l.filter (v < ·.key) ++ l.filter (·.key = v) ++ l.filter (·.key < v)) := by
  induction l with
  | nil => exact .refl _
  | cons i l ih =>
      obtain hlt | heq | hgt := lt_trichotomy v i.key
      · rw [List.filter_cons_of_pos (by simpa using hlt),
          List.filter_cons_of_neg (by simpa using hlt.ne'),
          List.filter_cons_of_neg (by simpa using hlt.le)]
        exact ih.cons i
      · rw [List.filter_cons_of_neg (by simp [heq]), List.filter_cons_of_pos (by simp [heq]),
          List.filter_cons_of_neg (by simp [heq])]
        exact (ih.cons i).trans (List.perm_middle.symm.append_right _)
      · rw [List.filter_cons_of_neg (by simpa using hgt.le),
          List.filter_cons_of_neg (by simpa using hgt.ne),
          List.filter_cons_of_pos (by simpa using hgt)]
        exact (ih.cons i).trans List.perm_middle.symm

/-- The stable sort around a key. -/
theorem sortRank_enumerate (items : List (α × K)) (v : K) :
    sortRank (enumerate items) = sortRank ((enumerate items).filter (v < ·.key)) ++
      (enumerate items).filter (·.key = v) ++ sortRank ((enumerate items).filter (·.key < v)) := by
  refine sortRank_eq (v := v) (perm_split _ v) ?_ ?_ ?_ ?_ ((enumerate_ordinal items).filter _)
  · exact (List.pairwise_map.mpr (enumerate_ordinal items)).imp ne_of_lt
  all_goals exact fun i hi => of_decide_eq_true (List.mem_filter.mp hi).2

/-! ### The limit -/

/-- The `k`-th largest key. -/
def kthKey (items : List (α × K)) (k : ℕ) : Option K := ((sortDesc items)[k - 1]?).map (·.2)

/-- What the heap does to the ties at the limit does not show: of those it takes in it gives up one
for each greater key that comes after `limit` items that reach the key. -/
def TiesKept (items : List (α × K)) (limit : ℕ) (v : K) : Prop :=
  let reach := items.filter (v ≤ ·.2)
  let ties := (reach.take limit).filter (·.2 = v)
  let late := (reach.drop limit).countP (v < ·.2)
  ties.drop late = ties.take (ties.length - late)

theorem enumerate_eq_of_length_le {items : List (α × K)} {limit : ℕ} (h : items.length ≤ limit) :
    sortRank (heapOf limit (enumerate items)) = sortRank (enumerate items) := by
  have hlen : (enumerate items).length = items.length := by
    rw [enumerate, List.length_map, List.length_zipIdx]
  obtain ⟨-, hlength, omitted, hperm, -⟩ := heapOf_spec limit (enumerate items)
  have hnone : omitted = [] := by
    have hlen' := hperm.length_eq
    rw [List.length_append] at hlen'
    exact List.length_eq_zero_iff.mp (by omega)
  rw [hnone, List.append_nil] at hperm
  have hordinal : ((enumerate items).map (·.ordinal)).Nodup :=
    (List.pairwise_map.mpr (enumerate_ordinal items)).imp ne_of_lt
  refine eq_of_perm ((sortRank_perm _).trans (hperm.trans (sortRank_perm _).symm)) ?_
    (sortRank_sorted _) (sortRank_sorted _)
  exact (((sortRank_perm _).trans hperm).map _).nodup_iff.mpr hordinal

/-- Where the key at the limit stands among the items: there are fewer than `limit` above it. -/
theorem kthKey_spec {items : List (α × K)} {limit : ℕ} {v : K} (hlimit : limit ≠ 0)
    (h : kthKey items limit = some v) :
    ((enumerate items).filter (v < ·.key)).length < limit ∧
      limit ≤ ((enumerate items).filter (v < ·.key)).length +
        ((enumerate items).filter (·.key = v)).length := by
  rw [kthKey, ← map_sortRank, sortRank_enumerate items v, List.getElem?_map, Option.map_map,
    Option.map_eq_some_iff] at h
  obtain ⟨i, hi, hkey⟩ := h
  have hkey : i.key = v := hkey
  rw [← (sortRank_perm _).length_eq]
  generalize habove : sortRank ((enumerate items).filter (v < ·.key)) = above at hi ⊢
  generalize hties : (enumerate items).filter (·.key = v) = ties at hi ⊢
  by_contra hout
  obtain hlt | hge := lt_or_ge (limit - 1) above.length
  · rw [List.append_assoc, List.getElem?_append_left hlt] at hi
    have hmem := List.mem_of_getElem? hi
    rw [← habove, (sortRank_perm _).mem_iff] at hmem
    exact (of_decide_eq_true (List.mem_filter.mp hmem).2 : v < i.key).ne hkey.symm
  · rw [List.getElem?_append_right (by rw [List.length_append]; omega)] at hi
    have hmem := (sortRank_perm _).mem_iff.mp (List.mem_of_getElem? hi)
    exact (of_decide_eq_true (List.mem_filter.mp hmem).2 : i.key < v).ne hkey

/-- The items that reach `v`. -/
def reaching (items : List (TopKItem α K)) (v : K) : List (TopKItem α K) :=
  items.filter (v ≤ ·.key)

theorem filter_reaching_lt (items : List (TopKItem α K)) (v : K) :
    (reaching items v).filter (v < ·.key) = items.filter (v < ·.key) := by
  rw [reaching, List.filter_filter]
  refine List.filter_congr fun i _ => ?_
  by_cases hi : v < i.key
  · simp [hi, hi.le]
  · simp [hi]

theorem filter_reaching_eq (items : List (TopKItem α K)) (v : K) :
    (reaching items v).filter (·.key = v) = items.filter (·.key = v) := by
  rw [reaching, List.filter_filter]
  refine List.filter_congr fun i _ => ?_
  by_cases hi : i.key = v
  · simp [hi]
  · simp [hi]

theorem le_key_of_mem_reaching {items : List (TopKItem α K)} {v : K} :
    ∀ i ∈ reaching items v, v ≤ i.key := fun _ hi => of_decide_eq_true (List.mem_filter.mp hi).2

theorem length_of_reach {l : List (TopKItem α K)} {v : K} (h : ∀ i ∈ l, v ≤ i.key) :
    (l.filter (v < ·.key)).length + (l.filter (·.key = v)).length = l.length := by
  have hnone : l.filter (·.key < v) = [] :=
    List.filter_eq_nil_iff.mpr fun i hi => by simpa using h i hi
  have hsplit := (perm_split l v).length_eq
  rw [hnone, List.append_nil, List.length_append] at hsplit
  exact hsplit.symm

/-- The heap at the end, in the order of the result. -/
theorem sortRank_heapOf {items : List (TopKItem α K)} {limit : ℕ} {v : K}
    (hasc : items.Pairwise fun i j => i.ordinal < j.ordinal)
    (hlt : (items.filter (v < ·.key)).length < limit) (hle : limit ≤ (reaching items v).length) :
    sortRank (heapOf limit items) = sortRank (items.filter (v < ·.key)) ++
      (((reaching items v).take limit).filter (·.key = v)).drop
        (((reaching items v).drop limit).countP (v < ·.key)) := by
  have hkept : heapOf limit (reaching items v) = heapOf limit items := by
    obtain ⟨-, hlength, -⟩ := heapOf_spec limit items
    obtain ⟨-, hlength', -⟩ := heapOf_spec limit (reaching items v)
    have hsub : (reaching items v).length ≤ items.length := List.length_filter_le _ _
    rw [reaching, ← filter_heapOf] at hlength' ⊢
    refine List.filter_eq_self.mpr (List.length_filter_eq_length_iff.mp ?_)
    rw [hlength', hlength, ← reaching]
    omega
  have hsub : (reaching items v).Sublist items := List.filter_sublist
  obtain ⟨above, hperm, hheap⟩ := heapOf_ties le_key_of_mem_reaching (hasc.sublist hsub)
    (by rwa [List.countP_eq_length_filter, filter_reaching_lt])
  rw [filter_reaching_lt] at hperm
  rw [hkept] at hheap
  generalize hties : (((reaching items v).take limit).filter (·.key = v)).drop
    (((reaching items v).drop limit).countP (v < ·.key)) = ties at hheap ⊢
  have hmem : ∀ i ∈ ties, i.key = v := by
    intro i hi
    rw [← hties] at hi
    exact of_decide_eq_true (List.mem_filter.mp (List.mem_of_mem_drop hi)).2
  have hsubties : ties.Sublist items := by
    rw [← hties]
    exact (List.drop_sublist _ _).trans <|
      List.filter_sublist.trans ((List.take_sublist _ _).trans hsub)
  have hordinal : ∀ l : List (TopKItem α K), l.Subperm items → (l.map (·.ordinal)).Nodup := by
    intro l hl
    have hitems : (items.map (·.ordinal)).Nodup := (List.pairwise_map.mpr hasc).imp ne_of_lt
    obtain ⟨l', hperm', hsub'⟩ := hl
    exact (hperm'.map _).nodup_iff.mp ((hsub'.map _).nodup hitems)
  have hheapsub : (heapOf limit items).Subperm items := by
    obtain ⟨-, -, omitted, hall, -⟩ := heapOf_spec limit items
    exact ((List.sublist_append_left _ _).subperm).trans hall.subperm
  have habove : sortRank above = sortRank (items.filter (v < ·.key)) :=
    eq_of_perm ((sortRank_perm _).trans (hperm.trans (sortRank_perm _).symm))
      (hordinal _ (((sortRank_perm _).trans hperm).subperm.trans List.filter_sublist.subperm))
      (sortRank_sorted _) (sortRank_sorted _)
  have hsplit : (heapOf limit items).Perm (above ++ ties ++ []) := by
    rw [hheap, List.append_nil]
    exact List.perm_append_comm
  rw [sortRank_eq hsplit (hordinal _ hheapsub) (fun i hi => ?_) hmem (by simp)
    (hasc.sublist hsubties), habove]
  · exact List.append_nil _
  · exact of_decide_eq_true (List.mem_filter.mp (hperm.mem_iff.mp hi)).2

/-- The stable sort at its limit. -/
theorem take_sortRank {items : List (TopKItem α K)} {limit : ℕ} {v : K}
    (hsplit : sortRank items = sortRank (items.filter (v < ·.key)) ++ items.filter (·.key = v) ++
      sortRank (items.filter (·.key < v)))
    (hlt : (items.filter (v < ·.key)).length < limit) (hle : limit ≤ (reaching items v).length) :
    (sortRank items).take limit = sortRank (items.filter (v < ·.key)) ++
      (((reaching items v).take limit).filter (·.key = v)).take
        ((((reaching items v).take limit).filter (·.key = v)).length -
          ((reaching items v).drop limit).countP (v < ·.key)) := by
  set first := (reaching items v).take limit
  have hcut : reaching items v = first ++ (reaching items v).drop limit :=
    (List.take_append_drop _ _).symm
  have habove := congrArg List.length (filter_reaching_lt items v)
  have hties := (filter_reaching_eq items v).symm
  rw [hcut, List.filter_append] at hties
  rw [hcut, List.filter_append, List.length_append, ← List.countP_eq_length_filter
    (l := (reaching items v).drop limit)] at habove
  have hfull : (first.filter (v < ·.key)).length + (first.filter (·.key = v)).length = limit := by
    rw [length_of_reach fun i hi => le_key_of_mem_reaching i (List.mem_of_mem_take hi),
      List.length_take, min_eq_left hle]
  rw [hsplit, List.append_assoc, List.take_append, List.take_of_length_le
    (by rw [(sortRank_perm _).length_eq]; exact hlt.le), (sortRank_perm _).length_eq,
    List.take_append_of_le_length (by rw [hties, List.length_append]; omega), hties,
    List.take_append_of_le_length (by omega)]
  congr 2
  omega

omit [LinearOrder K] in
theorem map_pair_filter (l : List (TopKItem α K)) (p : K → Bool) :
    (l.filter fun i => p i.key).map (·.pair) = (l.map (·.pair)).filter fun a => p a.2 := by
  rw [List.filter_map]
  rfl

theorem topKByOrd_eq_iff (items : List (α × K)) (limit : ℕ) :
    topKByOrd items limit = (sortDesc items).take limit ↔
      ∀ v, kthKey items limit = some v → TiesKept items limit v := by
  by_cases hlimit : limit = 0
  · subst hlimit
    exact iff_of_true rfl fun v _ => by simp [TiesKept]
  rw [topKByOrd, topK_eq items hlimit]
  cases hk : kthKey items limit with
  | none =>
      have hlen : items.length ≤ limit := by
        rw [kthKey, Option.map_eq_none_iff, List.getElem?_eq_none_iff, sortDesc,
          List.length_insertionSort] at hk
        omega
      refine iff_of_true ?_ fun v hv => (by cases hv)
      rw [enumerate_eq_of_length_le hlen, map_sortRank, List.take_of_length_le]
      rwa [sortDesc, List.length_insertionSort]
  | some v =>
      obtain ⟨hlt, hle⟩ := kthKey_spec hlimit hk
      have hle' : limit ≤ (reaching (enumerate items) v).length := by
        rw [← length_of_reach le_key_of_mem_reaching, filter_reaching_lt, filter_reaching_eq]
        exact hle
      rw [sortRank_heapOf (enumerate_ordinal items) hlt hle', ← map_sortRank, ← List.map_take,
        take_sortRank (sortRank_enumerate items v) hlt hle', List.map_append, List.map_append,
        List.append_cancel_left_eq]
      have hreach : (reaching (enumerate items) v).map (·.pair) = items.filter (v ≤ ·.2) := by
        rw [reaching, map_pair_filter _ fun key => decide (v ≤ key), map_pair_enumerate]
      have hties : (((reaching (enumerate items) v).take limit).filter (·.key = v)).map (·.pair) =
          ((items.filter (v ≤ ·.2)).take limit).filter (·.2 = v) := by
        rw [map_pair_filter _ fun key => decide (key = v), List.map_take, hreach]
      have hlate : ((reaching (enumerate items) v).drop limit).countP (v < ·.key) =
          ((items.filter (v ≤ ·.2)).drop limit).countP (v < ·.2) := by
        rw [← hreach, ← List.map_drop, List.countP_map]
        rfl
      rw [List.map_drop, List.map_take, hties, hlate, ← List.length_map (f := (·.pair)), hties]
      simp only [Option.some.injEq, forall_eq', TiesKept]

/-- **The heap against the stable sort**: they agree if and only if what the heap does to the ties
at the limit does not show, as when no greater key comes after `limit` items that reach it; and
where they agree for two limits in a row, one result is the beginning of the other. -/
theorem topKByOrd_iff (items : List (α × K)) (limit : ℕ) :
    (topKByOrd items limit = (sortDesc items).take limit ↔
      ∀ v, kthKey items limit = some v → TiesKept items limit v) ∧
    ((∀ v, kthKey items limit = some v → TiesKept items limit v) →
      (∀ v, kthKey items (limit + 1) = some v → TiesKept items (limit + 1) v) →
      topKByOrd items limit <+: topKByOrd items (limit + 1)) := by
  refine ⟨topKByOrd_eq_iff items limit, fun h h' => ?_⟩
  rw [(topKByOrd_eq_iff items limit).mpr h, (topKByOrd_eq_iff items (limit + 1)).mpr h']
  exact (sortDesc items).take_prefix_take_left (Nat.le_succ limit)

end

/-- **The tie that came first is given up**: with a limit of two, the later of the tied items is
returned, and with a limit of three the earlier goes before it. -/
theorem tie_given_up :
    topKByOrd [("a", 1), ("b", 1), ("c", 2)] 2 = [("c", 2), ("b", 1)] ∧
      (sortDesc [("a", 1), ("b", 1), ("c", 2)]).take 2 = [("c", 2), ("a", 1)] ∧
      ¬ topKByOrd [("a", 1), ("b", 1), ("c", 2)] 2 <+:
        topKByOrd [("a", 1), ("b", 1), ("c", 2)] 3 := by
  decide

end Jcode.Memory
