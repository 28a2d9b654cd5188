import Mathlib

/-!
# Support — Splice

Edits of a list.  An edit takes some elements, from a place on, and puts others there; `splice` makes
many edits at once, each at its place in the list as it was.  A program that makes them one after
the other begins at the end, so that no edit moves what an earlier one takes.

* `foldr_apply`: edits made from the last to the first give the splice, if they take disjoint parts
  of the list and none of them is displaced by those made before it.
* `foldr_apply_of_inOrder`: edits in order are not displaced.
* `foldr_apply_filter`: edits that change nothing may be left out.
* `getLast?_splice`: the element that comes last.
-/

namespace Splice
variable {α : Type*}

/-- The `len` elements from `start` on are taken, and these are put there. -/
structure Edit (α : Type*) where
  start : ℕ
  len : ℕ
  new : List α

namespace Edit

def stop (e : Edit α) : ℕ := e.start + e.len

def apply (e : Edit α) (xs : List α) : List α := xs.take e.start ++ (e.new ++ xs.drop e.stop)

/-- How far the edit moves what follows it. -/
def shift (e : Edit α) : ℤ := e.new.length - e.len

theorem start_le_stop (e : Edit α) : e.start ≤ e.stop := Nat.le_add_right _ _

end Edit

/-- The list from `lo` on, with all the edits made. -/
def splice (xs : List α) : ℕ → List (Edit α) → List α
  | lo, [] => xs.drop lo
  | lo, e :: es => (xs.take e.start).drop lo ++ (e.new ++ splice xs e.stop es)

/-- The edits take disjoint parts of a list of `n` elements, from the first to the last. -/
structure InOrder (n : ℕ) (es : List (Edit α)) : Prop where
  pairwise : es.Pairwise fun e f => e.stop ≤ f.start
  le : ∀ e ∈ es, e.stop ≤ n

namespace InOrder
variable {n : ℕ} {e : Edit α} {es fs : List (Edit α)}

theorem nil : InOrder n ([] : List (Edit α)) := ⟨.nil, List.forall_mem_nil _⟩

theorem sublist (h : InOrder n fs) (hs : es.Sublist fs) : InOrder n es :=
  ⟨h.pairwise.sublist hs, fun e he => h.le e (hs.subset he)⟩

theorem tail (h : InOrder n (e :: es)) : InOrder n es := h.sublist (List.sublist_cons_self _ _)

theorem starts (h : InOrder n es) : es.Pairwise fun e f => e.start ≤ f.start :=
  h.pairwise.imp fun {e _} hef => e.start_le_stop.trans hef

end InOrder

/-! ### Parts of a splice -/

theorem drop_eq_append (xs : List α) {lo m : ℕ} (h : lo ≤ m) :
    xs.drop lo = (xs.take m).drop lo ++ xs.drop m := by
  have hdrop : xs.drop m = (xs.drop lo).drop (m - lo) := by
    rw [List.drop_drop, Nat.add_sub_cancel' h]
  rw [List.drop_take, hdrop, List.take_append_drop]

section
variable {xs : List α} {lo m : ℕ} {e : Edit α} {es A B : List (Edit α)}

/-- What stands before all the edits stays. -/
theorem splice_eq_append (hlo : lo ≤ m) (h : ∀ e ∈ es, m ≤ e.start) :
    splice xs lo es = (xs.take m).drop lo ++ splice xs m es := by
  cases es with
  | nil => exact drop_eq_append xs hlo
  | cons e es =>
      have he : m ≤ e.start := h e List.mem_cons_self
      rw [splice, splice, drop_eq_append (xs.take e.start) hlo, List.take_take, Nat.min_eq_left he,
        List.append_assoc]

/-- Edits before a place and edits behind it. -/
theorem splice_append (hlo : lo ≤ m) (hA : ∀ a ∈ A, a.stop ≤ m) (hB : ∀ b ∈ B, m ≤ b.start) :
    splice xs lo (A ++ B) = splice (xs.take m) lo A ++ splice xs m B := by
  induction A generalizing lo with
  | nil => exact splice_eq_append hlo hB
  | cons a A ih =>
      obtain ⟨ha, hA⟩ := List.forall_mem_cons.mp hA
      rw [List.cons_append, splice, splice, ih ha hA, List.take_take,
        Nat.min_eq_left (a.start_le_stop.trans ha), List.append_assoc, List.append_assoc]

theorem mem_splice {x : α} (h : x ∈ splice xs lo es) : x ∈ xs ∨ ∃ e ∈ es, x ∈ e.new := by
  induction es generalizing lo with
  | nil => exact .inl (List.mem_of_mem_drop h)
  | cons e es ih =>
      rcases List.mem_append.mp h with h | h
      · exact .inl (List.mem_of_mem_take (List.mem_of_mem_drop h))
      · rcases List.mem_append.mp h with h | h
        · exact .inr ⟨e, List.mem_cons_self, h⟩
        · exact (ih h).imp_right fun ⟨f, hf, hx⟩ => ⟨f, List.mem_cons_of_mem e hf, hx⟩

theorem splice_drop {k : ℕ} (hk : m + k ≤ xs.length) (h : ∀ e ∈ es, m + k ≤ e.start) :
    (splice xs m es).drop k = splice xs (m + k) es := by
  have hlen : ((xs.take (m + k)).drop m).length = k := by
    rw [List.length_drop, List.length_take, Nat.min_eq_left hk, Nat.add_sub_cancel_left]
  rw [splice_eq_append (Nat.le_add_right m k) h, List.drop_append_of_le_length hlen.ge,
    List.drop_of_length_le hlen.le, List.nil_append]

theorem length_splice (h : InOrder xs.length es) (hlo : lo ≤ xs.length)
    (hstart : ∀ e ∈ es, lo ≤ e.start) :
    ((splice xs lo es).length : ℤ) = xs.length - lo + (es.map Edit.shift).sum := by
  induction es generalizing lo with
  | nil =>
      rw [splice, List.length_drop, List.map_nil, List.sum_nil]
      omega
  | cons e es ih =>
      have hstop := h.le e List.mem_cons_self
      have hrest := ih h.tail hstop (List.pairwise_cons.mp h.pairwise).1
      have hlo := hstart e List.mem_cons_self
      have hle := e.start_le_stop.trans hstop
      rw [splice, List.length_append, List.length_append, List.length_drop, List.length_take,
        Nat.min_eq_left hle, List.map_cons, List.sum_cons, Edit.shift]
      have hlen : e.stop = e.start + e.len := rfl
      push_cast
      omega

/-- The parts of a list with an edit between them. -/
theorem InOrder.around (h : InOrder xs.length (A ++ e :: B)) :
    (∀ a ∈ A, a.stop ≤ e.start) ∧ (∀ b ∈ B, e.stop ≤ b.start) ∧ e.stop ≤ xs.length := by
  obtain ⟨-, hB, hcross⟩ := List.pairwise_append.mp h.pairwise
  exact ⟨fun a ha => hcross a ha e List.mem_cons_self, (List.pairwise_cons.mp hB).1,
    h.le e (List.mem_append_right A List.mem_cons_self)⟩

/-- What the edits before another leave is as long as what they were given. -/
theorem length_splice_before (h : InOrder xs.length (A ++ e :: B))
    (hshift : (A.map Edit.shift).sum = 0) : (splice (xs.take e.start) 0 A).length = e.start := by
  obtain ⟨hAe, -, hstop⟩ := h.around
  have htake : (xs.take e.start).length = e.start := by
    rw [List.length_take, Nat.min_eq_left (e.start_le_stop.trans hstop)]
  have hin : InOrder (xs.take e.start).length A :=
    ⟨(List.pairwise_append.mp h.pairwise).1, fun a ha => (hAe a ha).trans_eq htake.symm⟩
  have hsum := length_splice hin (Nat.zero_le _) fun _ _ => Nat.zero_le _
  rw [htake, hshift] at hsum
  omega

/-- **An edit made after those behind it**, and after others that do not displace it. -/
theorem apply_splice (h : InOrder xs.length (A ++ e :: B)) (hshift : (A.map Edit.shift).sum = 0) :
    e.start ≤ (splice xs 0 (A ++ B)).length ∧
      e.apply (splice xs 0 (A ++ B)) = splice xs 0 (A ++ e :: B) := by
  obtain ⟨hAe, heB, hstop⟩ := h.around
  have hstart : ∀ b ∈ B, e.start ≤ b.start := fun b hb => e.start_le_stop.trans (heB b hb)
  have hstarts : ∀ f ∈ e :: B, e.start ≤ f.start := List.forall_mem_cons.mpr ⟨le_rfl, hstart⟩
  have hlen := length_splice_before h hshift
  rw [splice_append (Nat.zero_le _) hAe hstart]
  refine ⟨?_, ?_⟩
  · rw [List.length_append, hlen]
    exact Nat.le_add_right _ _
  · rw [splice_append (Nat.zero_le _) hAe hstarts, splice, List.drop_take_self, List.nil_append,
      Edit.apply, List.take_append_of_le_length hlen.ge, List.take_of_length_le hlen.le,
      List.drop_append, List.drop_of_length_le (hlen.le.trans e.start_le_stop), List.nil_append,
      hlen, Edit.stop, Nat.add_sub_cancel_left, splice_drop hstop heB]

end

/-! ### The order of the edits -/

section
variable {xs : List α} {n : ℕ} {e : Edit α} {es : List (Edit α)}

/-- The edits from the first place to the last; at one place, as they are given. -/
def byStart (es : List (Edit α)) : List (Edit α) :=
  es.insertionSort fun e f => e.start ≤ f.start

/-- No edit is displaced by those that are made before it, which come after it in the list. -/
def Undisplaced : List (Edit α) → Prop
  | [] => True
  | e :: es => ((es.filter (·.start < e.start)).map Edit.shift).sum = 0 ∧ Undisplaced es

theorem byStart_sorted (es : List (Edit α)) :
    (byStart es).Pairwise fun e f => e.start ≤ f.start :=
  List.pairwise_insertionSort (fun e f : Edit α => e.start ≤ f.start) es

theorem mem_byStart : e ∈ byStart es ↔ e ∈ es := List.mem_insertionSort _

theorem byStart_of_inOrder (h : InOrder n es) : byStart es = es :=
  h.starts.insertionSort_eq

theorem undisplaced_of_inOrder (h : InOrder n es) : Undisplaced es := by
  induction es with
  | nil => trivial
  | cons e es ih =>
      refine ⟨?_, ih h.tail⟩
      have hnone : es.filter (·.start < e.start) = [] := by
        refine List.filter_eq_nil_iff.mpr fun f hf => ?_
        simpa using (List.pairwise_cons.mp h.starts).1 f hf
      rw [hnone]
      rfl

/-- One more edit, at its place. -/
def insertByStart (e : Edit α) (es : List (Edit α)) : List (Edit α) :=
  es.orderedInsert (fun e f => e.start ≤ f.start) e

theorem insertByStart_of_le {f : Edit α} (h : e.start ≤ f.start) (es : List (Edit α)) :
    insertByStart e (f :: es) = e :: f :: es := if_pos h

theorem insertByStart_of_not_le {f : Edit α} (h : ¬ e.start ≤ f.start) (es : List (Edit α)) :
    insertByStart e (f :: es) = f :: insertByStart e es := if_neg h

theorem insertByStart_of_forall_le (h : ∀ f ∈ es, e.start ≤ f.start) :
    insertByStart e es = e :: es := by
  cases es with
  | nil => rfl
  | cons f es => exact insertByStart_of_le (h f List.mem_cons_self) es

/-- Two edits, given in this order, take disjoint parts. -/
def Disjoint (e f : Edit α) : Prop := e.stop ≤ f.start ∨ f.stop ≤ e.start ∧ f.start < e.start

theorem pairwise_insertByStart (h : es.Pairwise fun e f => e.stop ≤ f.start)
    (he : ∀ f ∈ es, Disjoint e f) :
    (insertByStart e es).Pairwise fun e f => e.stop ≤ f.start := by
  induction es with
  | nil => exact List.pairwise_singleton _ _
  | cons f es ih =>
      obtain ⟨hf, hes⟩ := List.pairwise_cons.mp h
      obtain ⟨hef, he⟩ := List.forall_mem_cons.mp he
      by_cases hle : e.start ≤ f.start
      · rw [insertByStart_of_le hle]
        refine List.pairwise_cons.mpr ⟨List.forall_mem_cons.mpr ⟨?_, fun g hg => ?_⟩, h⟩
        · exact hef.resolve_right fun hback => absurd hback.2 hle.not_gt
        · have hfg := hle.trans (f.start_le_stop.trans (hf g hg))
          exact (he g hg).resolve_right fun hback => absurd hback.2 hfg.not_gt
      · rw [insertByStart_of_not_le hle]
        refine List.pairwise_cons.mpr ⟨fun g hg => ?_, ih hes he⟩
        rcases (List.mem_orderedInsert _).mp hg with rfl | hg
        · exact (hef.resolve_left fun hfront => hle (g.start_le_stop.trans hfront)).1
        · exact hf g hg

/-- Edits that take disjoint parts of a list are in order once they are sorted. -/
theorem inOrder_byStart (h : es.Pairwise Disjoint) (hle : ∀ e ∈ es, e.stop ≤ n) :
    InOrder n (byStart es) := by
  refine ⟨?_, fun e he => hle e (mem_byStart.mp he)⟩
  clear hle
  induction es with
  | nil => exact .nil
  | cons e es ih =>
      obtain ⟨he, hes⟩ := List.pairwise_cons.mp h
      exact pairwise_insertByStart (ih hes) fun f hf => he f (mem_byStart.mp hf)

/-- Of edits in the order of their places, those before a place come first. -/
theorem takeWhile_start (h : es.Pairwise fun e f => e.start ≤ f.start) (place : ℕ) :
    (es.takeWhile fun f => ¬ place ≤ f.start) = es.filter (·.start < place) := by
  induction es with
  | nil => rfl
  | cons e es ih =>
      obtain ⟨he, hes⟩ := List.pairwise_cons.mp h
      by_cases hlt : e.start < place
      · rw [List.takeWhile_cons_of_pos (by simpa using hlt), List.filter_cons_of_pos (by simpa using hlt),
          ih hes]
      · have hnone : es.filter (·.start < place) = [] := by
          refine List.filter_eq_nil_iff.mpr fun f hf => ?_
          simpa using (Nat.not_lt.mp hlt).trans (he f hf)
        rw [List.takeWhile_cons_of_neg (by simpa using hlt), List.filter_cons_of_neg (by simpa using hlt),
          hnone]

/-- An edit among those that are made before it. -/
theorem byStart_cons (hshift : Undisplaced (e :: es)) :
    ∃ A B, byStart (e :: es) = A ++ e :: B ∧ byStart es = A ++ B ∧
      (A.map Edit.shift).sum = 0 := by
  refine ⟨_, _, List.orderedInsert_eq_take_drop .., (List.takeWhile_append_dropWhile ..).symm, ?_⟩
  have hperm : (byStart es).Perm es := List.perm_insertionSort _ _
  refine Eq.trans ?_ hshift.1
  exact (congrArg (fun l => (l.map Edit.shift).sum) (takeWhile_start (byStart_sorted es) _)).trans
    ((hperm.filter _).map _).sum_eq

/-- **The edits made from the last to the first** give the splice, wherever each of them stands in
the list. -/
theorem foldr_apply (h : InOrder xs.length (byStart es)) (hshift : Undisplaced es) :
    es.foldr Edit.apply xs = splice xs 0 (byStart es) := by
  induction es with
  | nil => exact (List.drop_zero).symm
  | cons e es ih =>
      obtain ⟨A, B, hsplit, hrest, hbefore⟩ := byStart_cons hshift
      rw [hsplit] at h
      have hin : InOrder xs.length (byStart es) := by
        rw [hrest]
        exact h.sublist ((List.sublist_cons_self _ _).append_left _)
      rw [List.foldr_cons, ih hin hshift.2, hsplit, hrest]
      exact (apply_splice h hbefore).2

/-- An edit that is not displaced is made within the list. -/
theorem start_le_length (h : InOrder xs.length (byStart (e :: es)))
    (hshift : Undisplaced (e :: es)) :
    InOrder xs.length (byStart es) ∧ e.start ≤ (es.foldr Edit.apply xs).length := by
  obtain ⟨A, B, hsplit, hrest, hbefore⟩ := byStart_cons hshift
  rw [hsplit] at h
  have hin : InOrder xs.length (byStart es) := by
    rw [hrest]
    exact h.sublist ((List.sublist_cons_self _ _).append_left _)
  rw [foldr_apply hin hshift.2, hrest]
  exact ⟨hrest ▸ hin, (apply_splice h hbefore).1⟩

theorem foldr_apply_of_inOrder (h : InOrder xs.length es) :
    es.foldr Edit.apply xs = splice xs 0 es := by
  have hsorted := byStart_of_inOrder h
  rw [foldr_apply (hsorted.symm ▸ h) (undisplaced_of_inOrder h), hsorted]

theorem filter_insertByStart (p : Edit α → Bool) (h : es.Pairwise fun e f => e.start ≤ f.start) :
    (insertByStart e es).filter p =
      if p e then insertByStart e (es.filter p) else es.filter p := by
  induction es with
  | nil => exact List.filter_cons
  | cons f es ih =>
      obtain ⟨hf, hes⟩ := List.pairwise_cons.mp h
      by_cases hle : e.start ≤ f.start
      · have hall : ∀ g ∈ f :: es, e.start ≤ g.start :=
          List.forall_mem_cons.mpr ⟨hle, fun g hg => hle.trans (hf g hg)⟩
        rw [insertByStart_of_le hle, List.filter_cons,
          insertByStart_of_forall_le fun g hg => hall g (List.mem_of_mem_filter hg)]
      · rw [insertByStart_of_not_le hle, List.filter_cons, List.filter_cons, ih hes]
        by_cases hp : p f
        · rw [if_pos hp, if_pos hp, insertByStart_of_not_le hle]
          split <;> rfl
        · rw [if_neg hp, if_neg hp]

/-- To leave edits out, and to put the others in order, may be done in either order. -/
theorem filter_byStart (p : Edit α → Bool) (es : List (Edit α)) :
    (byStart es).filter p = byStart (es.filter p) := by
  induction es with
  | nil => rfl
  | cons e es ih =>
      have hinsert : byStart (e :: es) = insertByStart e (byStart es) := rfl
      rw [hinsert, filter_insertByStart p (byStart_sorted es), ih, List.filter_cons]
      split <;> rfl

/-- The edit, of a list whose elements are read. -/
def Edit.map {β : Type*} (f : α → β) (e : Edit α) : Edit β := ⟨e.start, e.len, e.new.map f⟩

theorem map_apply {β : Type*} (f : α → β) (e : Edit α) (xs : List α) :
    (e.map f).apply (xs.map f) = (e.apply xs).map f := by
  rw [Edit.apply, Edit.apply, List.map_append, List.map_append, List.map_take, List.map_drop]
  rfl

/-- What is before all the edits is there after them. -/
theorem le_length_foldr_apply {place : ℕ} (hplace : place ≤ xs.length)
    (h : ∀ e ∈ es, place ≤ e.start) : place ≤ (es.foldr Edit.apply xs).length := by
  induction es with
  | nil => exact hplace
  | cons e es ih =>
      obtain ⟨he, hes⟩ := List.forall_mem_cons.mp h
      have hle := ih hes
      rw [List.foldr_cons, Edit.apply, List.length_append, List.length_take]
      exact (le_min he hle).trans (Nat.le_add_right _ _)

/-- It takes nothing and puts nothing. -/
def Edit.isNoop (e : Edit α) : Bool := e.len == 0 && e.new.isEmpty

theorem foldr_apply_filter (es : List (Edit α)) (xs : List α) :
    (es.filter fun e => !e.isNoop).foldr Edit.apply xs = es.foldr Edit.apply xs := by
  induction es with
  | nil => rfl
  | cons e es ih =>
      rw [List.filter_cons]
      split
      · rw [List.foldr_cons, List.foldr_cons, ih]
      · rename_i hnoop
        obtain ⟨hlen, hnew⟩ : e.len = 0 ∧ e.new = [] := by simpa [Edit.isNoop] using hnoop
        rw [List.foldr_cons, ih, Edit.apply, Edit.stop, hlen, hnew, Nat.add_zero, List.nil_append,
          List.take_append_drop]

/-- The element that comes last in a list of `n`, with the edits made: they are given from the last
to the first. -/
def last? (xs : List α) : ℕ → List (Edit α) → Option α
  | n, [] => (xs.take n).getLast?
  | n, e :: es => if e.stop < n then (xs.take n).getLast? else e.new.getLast?.or (last? xs e.start es)

theorem getLast?_splice (h : InOrder n es) (hn : n ≤ xs.length) :
    (splice (xs.take n) 0 es).getLast? = last? xs n es.reverse := by
  induction es using List.reverseRecOn generalizing n with
  | nil => rfl
  | append_singleton es e ih =>
      obtain ⟨hpair, -, hcross⟩ := List.pairwise_append.mp h.pairwise
      have hes : ∀ f ∈ es, f.stop ≤ e.start := fun f hf => hcross f hf e List.mem_cons_self
      have hstop : e.stop ≤ n := h.le e (List.mem_append_right es List.mem_cons_self)
      have hle : e.start ≤ n := e.start_le_stop.trans hstop
      have hsplit : splice (xs.take n) 0 (es ++ [e]) =
          splice (xs.take e.start) 0 es ++ (e.new ++ (xs.take n).drop e.stop) := by
        rw [splice_append (Nat.zero_le _) hes (List.forall_mem_singleton.mpr le_rfl), splice, splice,
          List.drop_take_self, List.nil_append, List.take_take, Nat.min_eq_left hle]
      rw [hsplit, List.reverse_append, List.reverse_singleton, List.singleton_append, last?]
      split
      · rename_i hlt
        have hmore : ¬ (xs.take n).length ≤ e.stop := by
          rw [List.length_take, Nat.min_eq_left hn]
          exact Nat.not_le.mpr hlt
        have hsome : (xs.take n).getLast?.isSome := by
          rw [List.getLast?_isSome]
          rintro hnil
          rw [hnil] at hmore
          exact hmore (Nat.zero_le _)
        obtain ⟨x, hx⟩ := Option.isSome_iff_exists.mp hsome
        rw [List.getLast?_append, List.getLast?_append, List.getLast?_drop, if_neg hmore, hx]
        rfl
      · have hnil : (xs.take n).drop e.stop = [] := by
          refine List.drop_of_length_le ?_
          rw [List.length_take]
          omega
        rw [hnil, List.append_nil, List.getLast?_append, ih ⟨hpair, hes⟩ (hle.trans hn)]

end

end Splice
