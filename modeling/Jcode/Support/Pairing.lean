import Mathlib

/-!
# Support — Pairing

A log of entries, some of which are calls and some the answers to them.  A log is `Paired` when
each call is followed at once by its answer and no answer stands elsewhere.  `weave` puts an answer
behind each call, and `settle` does so for a log whose answers may already stand anywhere behind
their calls.

* `paired_weave`: weaving answers into a log without answers pairs it.
* `settle_eq_weave`: when each answer of a log stands behind its call, settling the log is weaving
  answers into the log without its own.
-/

namespace Pairing

/-- What an entry is: a call, the answer to one, or neither. -/
inductive Kind (κ : Type*) where
  | call (k : κ)
  | answer (k : κ)
  | other
  deriving DecidableEq

variable {α κ : Type*} {kind : α → Kind κ} {l m : List α}

/-- Each call is followed at once by its answer, and no answer stands elsewhere. -/
inductive Paired (kind : α → Kind κ) : List α → Prop
  | nil : Paired kind []
  | other {a : α} {l : List α} (ha : kind a = .other) (hl : Paired kind l) : Paired kind (a :: l)
  | call {c a : α} {k : κ} {l : List α} (hc : kind c = .call k) (ha : kind a = .answer k)
      (hl : Paired kind l) : Paired kind (c :: a :: l)

theorem Paired.append (hl : Paired kind l) (hm : Paired kind m) : Paired kind (l ++ m) := by
  induction hl with
  | nil => exact hm
  | other ha _ ih => exact .other ha ih
  | call hc ha _ ih => exact .call hc ha ih

theorem paired_of_forall_other (h : ∀ a ∈ l, kind a = .other) : Paired kind l := by
  induction l with
  | nil => exact .nil
  | cons a l ih => exact .other (h a List.mem_cons_self) (ih fun b hb => h b (.tail _ hb))

/-- Behind a call of a paired log stands its answer. -/
theorem Paired.getElem?_succ (hl : Paired kind l) {n : ℕ} {c : α} {k : κ} (hn : l[n]? = some c)
    (hc : kind c = .call k) : ∃ a, l[n + 1]? = some a ∧ kind a = .answer k := by
  induction hl generalizing n with
  | nil => cases hn
  | other ha _ ih =>
      cases n with
      | zero => rw [Option.some.inj hn, hc] at ha; cases ha
      | succ n => exact ih hn
  | @call c' a k' l hc' ha _ ih =>
      rcases n with - | - | n
      · cases hn
        cases hc'.symm.trans hc
        exact ⟨a, rfl, ha⟩
      · cases hn
        cases ha.symm.trans hc
      · exact ih hn

/-- Before an answer of a paired log stands its call. -/
theorem Paired.getElem?_pred (hl : Paired kind l) {n : ℕ} {a : α} {k : κ} (hn : l[n]? = some a)
    (ha : kind a = .answer k) : ∃ m c, n = m + 1 ∧ l[m]? = some c ∧ kind c = .call k := by
  induction hl generalizing n with
  | nil => cases hn
  | other hb _ ih =>
      cases n with
      | zero => rw [Option.some.inj hn, ha] at hb; cases hb
      | succ n =>
          obtain ⟨m, c, rfl, hm, hc⟩ := ih hn
          exact ⟨m + 1, c, rfl, hm, hc⟩
  | @call c a' k' l hc ha' _ ih =>
      rcases n with - | - | n
      · cases hn
        cases hc.symm.trans ha
      · cases hn
        cases ha'.symm.trans ha
        exact ⟨0, c, rfl, rfl, hc⟩
      · obtain ⟨m, c, rfl, hm, hc⟩ := ih hn
        exact ⟨m + 2, c, rfl, hm, hc⟩

/-! ### Weaving answers into a log -/

section
variable (kind) (answer : κ → α)

/-- The entry, and the answer to it when it is a call. -/
def withAnswer (a : α) : List α :=
  match kind a with
  | .call k => [a, answer k]
  | _ => [a]

def weave (l : List α) : List α := l.flatMap (withAnswer kind answer)

def isAnswer (a : α) : Bool :=
  match kind a with
  | .answer _ => true
  | _ => false

/-- The log without its answers. -/
def calls (l : List α) : List α := l.filter fun a => !isAnswer kind a

end

variable {answer : κ → α}

theorem isAnswer_eq_false {a : α} : isAnswer kind a = false ↔ ∀ k, kind a ≠ .answer k := by
  rw [isAnswer]
  split <;> simp_all

theorem calls_eq_self (h : ∀ a ∈ l, ∀ k, kind a ≠ .answer k) : calls kind l = l :=
  List.filter_eq_self.mpr fun a ha => by rw [isAnswer_eq_false.mpr (h a ha)]; rfl

theorem calls_cons_answer {a : α} {k : κ} (h : kind a = .answer k) :
    calls kind (a :: l) = calls kind l :=
  List.filter_cons_of_neg (by simp [isAnswer, h])

theorem calls_cons {a : α} (h : ∀ k, kind a ≠ .answer k) :
    calls kind (a :: l) = a :: calls kind l :=
  List.filter_cons_of_pos (by simp [isAnswer_eq_false.mpr h])

theorem weave_cons_call {a : α} {k : κ} (h : kind a = .call k) :
    weave kind answer (a :: l) = a :: answer k :: weave kind answer l := by
  rw [weave, List.flatMap_cons, withAnswer, h]
  rfl

theorem weave_cons_other {a : α} (h : kind a = .other) :
    weave kind answer (a :: l) = a :: weave kind answer l := by
  rw [weave, List.flatMap_cons, withAnswer, h]
  rfl

theorem mem_of_mem_calls {a : α} (h : a ∈ calls kind l) : a ∈ l := List.mem_of_mem_filter h

theorem calls_append : calls kind (l ++ m) = calls kind l ++ calls kind m := List.filter_append ..

theorem weave_append : weave kind answer (l ++ m) = weave kind answer l ++ weave kind answer m :=
  List.flatMap_append

theorem weave_eq_self (h : ∀ a ∈ l, kind a = .other) : weave kind answer l = l := by
  induction l with
  | nil => rfl
  | cons a l ih =>
      rw [weave_cons_other (h a List.mem_cons_self), ih fun b hb => h b (.tail _ hb)]

theorem weave_congr {answer' : κ → α}
    (h : ∀ a ∈ l, ∀ k, kind a = .call k → answer k = answer' k) :
    weave kind answer l = weave kind answer' l := by
  induction l with
  | nil => rfl
  | cons a l ih =>
      have htail := ih fun b hb => h b (.tail _ hb)
      rw [weave, weave, List.flatMap_cons, List.flatMap_cons, withAnswer, withAnswer]
      cases hkind : kind a with
      | call k =>
          dsimp only
          rw [h a List.mem_cons_self k hkind]
          exact congrArg _ htail
      | answer k => exact congrArg _ htail
      | other => exact congrArg _ htail

/-- What is read of each entry and not of the answers. -/
theorem flatMap_weave {β : Type*} {f : α → List β} (h : ∀ k, f (answer k) = []) :
    (weave kind answer l).flatMap f = l.flatMap f := by
  induction l with
  | nil => rfl
  | cons a l ih =>
      rw [weave, List.flatMap_cons, List.flatMap_append, List.flatMap_cons]
      refine congrArg₂ _ ?_ ih
      rw [withAnswer]
      split <;> simp [h]

/-- The answers of a woven log. -/
theorem mem_weave {a : α} {k : κ} (hl : ∀ b ∈ l, ∀ k, kind b ≠ .answer k)
    (hanswer : ∀ k, kind (answer k) = .answer k) (ha : kind a = .answer k) :
    a ∈ weave kind answer l ↔ a = answer k ∧ ∃ b ∈ l, kind b = .call k := by
  rw [weave, List.mem_flatMap]
  constructor
  · rintro ⟨b, hb, hmem⟩
    rw [withAnswer] at hmem
    split at hmem
    case h_1 k' hkind =>
      rcases List.mem_cons.mp hmem with rfl | hmem
      · exact absurd ha (hl a hb k)
      · obtain rfl := List.mem_singleton.mp hmem
        cases (hanswer k').symm.trans ha
        exact ⟨rfl, b, hb, hkind⟩
    case h_2 =>
      obtain rfl := List.mem_singleton.mp hmem
      exact absurd ha (hl a hb k)
  · rintro ⟨rfl, b, hb, hkind⟩
    refine ⟨b, hb, ?_⟩
    rw [withAnswer, hkind]
    exact .tail _ List.mem_cons_self

/-- **Weaving answers into a log without answers** pairs it. -/
theorem paired_weave (hl : ∀ a ∈ l, ∀ k, kind a ≠ .answer k)
    (hanswer : ∀ k, kind (answer k) = .answer k) : Paired kind (weave kind answer l) := by
  induction l with
  | nil => exact .nil
  | cons a l ih =>
      have htail := ih fun b hb => hl b (.tail _ hb)
      cases hkind : kind a with
      | call k =>
          rw [weave_cons_call hkind]
          exact .call hkind (hanswer k) htail
      | answer k => exact absurd hkind (hl a List.mem_cons_self k)
      | other =>
          rw [weave_cons_other hkind]
          exact .other hkind htail

/-! ### Settling a log -/

section
variable [DecidableEq κ]

/-- Puts its answer behind each call and drops an answer whose call stands before it; any other
answer is left to `stray`. -/
def settle (kind : α → Kind κ) (answer : κ → α) (stray : α → List α) : List κ → List α → List α
  | _, [] => []
  | seen, a :: l =>
    match kind a with
    | .call k => a :: answer k :: settle kind answer stray (k :: seen) l
    | .answer k => if k ∈ seen then settle kind answer stray seen l
        else stray a ++ settle kind answer stray seen l
    | .other => a :: settle kind answer stray seen l

end

/-- Each answer stands behind its call, which may have been made before the log. -/
def Follows (kind : α → Kind κ) (seen : List κ) (l : List α) : Prop :=
  ∀ pre a post k, l = pre ++ a :: post → kind a = .answer k →
    k ∈ seen ∨ ∃ c ∈ pre, kind c = .call k

theorem Follows.tail {a : α} {seen : List κ} (h : Follows kind seen (a :: l)) :
    Follows kind (match kind a with | .call k => k :: seen | _ => seen) l := by
  intro pre b post k hl hb
  rcases h (a :: pre) b post k (by rw [hl]; rfl) hb with hseen | ⟨c, hc, hcall⟩
  · left
    split
    · exact .tail _ hseen
    · exact hseen
  · rcases List.mem_cons.mp hc with rfl | hc
    · left
      rw [hcall]
      exact List.mem_cons_self
    · exact .inr ⟨c, hc, hcall⟩

/-- **Settling a log whose answers stand behind their calls** is weaving answers into the log
without its own. -/
theorem settle_eq_weave [DecidableEq κ] {stray : α → List α} {seen : List κ}
    (h : Follows kind seen l) :
    settle kind answer stray seen l = weave kind answer (calls kind l) := by
  induction l generalizing seen with
  | nil => rfl
  | cons a l ih =>
      have htail := ih h.tail
      rw [settle]
      cases hkind : kind a with
      | call k =>
          rw [hkind] at htail
          dsimp only at htail ⊢
          rw [htail, calls_cons fun _ h' => (by cases hkind.symm.trans h'), weave_cons_call hkind]
      | answer k =>
          rw [hkind] at htail
          have hseen : k ∈ seen := by
            rcases h [] a l k rfl hkind with hseen | ⟨c, hc, -⟩
            · exact hseen
            · cases hc
          dsimp only at htail ⊢
          rw [if_pos hseen, htail, calls_cons_answer hkind]
      | other =>
          rw [hkind] at htail
          dsimp only at htail ⊢
          rw [htail, calls_cons fun _ h' => (by cases hkind.symm.trans h'),
            weave_cons_other hkind]

/-- An answer put at the end of a log whose calls hold its own. -/
theorem Follows.concat {seen : List κ} (h : Follows kind seen l)
    {a : α} (ha : ∀ k, kind a = .answer k → k ∈ seen ∨ ∃ c ∈ l, kind c = .call k) :
    Follows kind seen (l ++ [a]) := by
  intro pre b post k hl hb
  rcases List.eq_nil_or_concat post with rfl | ⟨post, z, rfl⟩
  · obtain ⟨rfl, hab⟩ := List.append_inj' hl rfl
    cases hab
    exact ha k hb
  · rw [List.concat_eq_append, ← List.cons_append, ← List.append_assoc] at hl
    exact h pre b post k (List.append_inj' hl rfl).1 hb

/-- Answers put behind a log that holds their calls. -/
theorem Follows.append_of_mem {seen : List κ} (h : Follows kind seen l)
    (hm : ∀ a ∈ m, ∀ k, kind a = .answer k → ∃ c ∈ l, kind c = .call k) :
    Follows kind seen (l ++ m) := by
  induction m generalizing l with
  | nil => rwa [List.append_nil]
  | cons a m ih =>
      rw [List.append_cons]
      refine ih (h.concat fun k hk => .inr (hm a List.mem_cons_self k hk)) fun b hb k hk => ?_
      obtain ⟨c, hc, hcall⟩ := hm b (.tail _ hb) k hk
      exact ⟨c, List.mem_append_left _ hc, hcall⟩

theorem Follows.append_of_forall {seen : List κ} (h : Follows kind seen l)
    (hm : ∀ a ∈ m, ∀ k, kind a ≠ .answer k) : Follows kind seen (l ++ m) :=
  h.append_of_mem fun a ha k hk => absurd hk (hm a ha k)

end Pairing
