import Mathlib

/-!
# Support — Bloom

A filter that tells which elements may have been inserted: bits in words of 64, and for each element
the positions it sets.  A position is reduced by a mask, so that it lies in the words.

* `contains_of_mem`: there are no false negatives.
-/

namespace Bloom

/-- The bits, in words. -/
abbrev Bits := List UInt64

/-- `bits[bit / 64] |= 1 << (bit % 64)`. -/
def setBit (bits : Bits) (bit : UInt64) : Bits :=
  bits.modify (bit / 64).toNat fun word => word ||| (1 <<< (bit % 64))

/-- `bits[bit / 64] & (1 << (bit % 64)) != 0`. -/
def testBit (bits : Bits) (bit : UInt64) : Bool :=
  bits[(bit / 64).toNat]?.any fun word => (word &&& (1 <<< (bit % 64))) != 0

/-- The mask of so many words. -/
def maskOf (words : ℕ) : UInt64 := UInt64.ofNat (words * 64 - 1)

variable {α : Type} (probes : α → List UInt64)

def insert (mask : UInt64) (bits : Bits) (a : α) : Bits :=
  (probes a).foldl (fun bits probe => setBit bits (probe &&& mask)) bits

def contains (mask : UInt64) (bits : Bits) (a : α) : Bool :=
  (probes a).all fun probe => testBit bits (probe &&& mask)

variable {probes} {mask bit other : UInt64} {bits : Bits} {words : ℕ}

theorem length_setBit : (setBit bits bit).length = bits.length := List.length_modify ..

/-- A position that has been reduced lies in the words. -/
theorem reduced_lt (hpos : 0 < words) (hfit : words * 64 ≤ 2 ^ 64) (probe : UInt64) :
    ((probe &&& maskOf words) / 64).toNat < words := by
  have hsize : UInt64.size = 2 ^ 64 := rfl
  have h64 : (64 : UInt64).toNat = 64 := rfl
  have hmask : (maskOf words).toNat = words * 64 - 1 := UInt64.toNat_ofNat_of_lt' (by omega)
  have hand : (probe &&& maskOf words).toNat ≤ words * 64 - 1 := by
    rw [UInt64.toNat_and, ← hmask]
    exact Nat.and_le_right
  rw [UInt64.toNat_div, h64]
  omega

theorem one_shift_ne_zero (bit : UInt64) : (1 : UInt64) <<< (bit % 64) ≠ 0 := by
  intro h
  have hzero := congrArg UInt64.toNat h
  have hmod : (bit % 64).toNat < 64 := by
    rw [UInt64.toNat_mod]
    exact Nat.mod_lt _ (by decide)
  rw [UInt64.toNat_shiftLeft, Nat.mod_eq_of_lt hmod, Nat.shiftLeft_eq, UInt64.toNat_one,
    Nat.one_mul, Nat.mod_eq_of_lt (Nat.pow_lt_pow_right (by decide) hmod)] at hzero
  exact absurd hzero (Nat.pow_pos (by decide)).ne'

theorem or_and_self_right (word bit : UInt64) : (word ||| bit) &&& bit = bit := by
  apply UInt64.toNat_inj.mp
  apply Nat.eq_of_testBit_eq
  intro i
  rw [UInt64.toNat_and, UInt64.toNat_or, Nat.testBit_and, Nat.testBit_or]
  cases bit.toNat.testBit i with
  | false => exact Bool.and_false _
  | true => rw [Bool.or_true, Bool.true_and]

theorem or_and_ne_zero {word other : UInt64} (bit : UInt64) (h : word &&& other ≠ 0) :
    (word ||| bit) &&& other ≠ 0 := by
  intro hzero
  have hdistrib : (word ||| bit) &&& other = (word &&& other) ||| (bit &&& other) := by
    apply UInt64.toBitVec_inj.mp
    exact BitVec.and_or_distrib_right ..
  rw [hdistrib, UInt64.or_eq_zero_iff] at hzero
  exact h hzero.1

/-- A bit that is set is set. -/
theorem testBit_setBit_self (h : (bit / 64).toNat < bits.length) :
    testBit (setBit bits bit) bit = true := by
  rw [testBit, setBit, List.getElem?_modify_eq, List.getElem?_eq_getElem h, Option.map_eq_map,
    Option.map_some, Option.any_some, bne_iff_ne, or_and_self_right]
  exact one_shift_ne_zero bit

/-- And it stays set. -/
theorem testBit_setBit (h : testBit bits other = true) : testBit (setBit bits bit) other = true := by
  rw [testBit] at h ⊢
  obtain ⟨word, hword, hbit⟩ := (Option.any_eq_true _ _).mp h
  rw [setBit, List.getElem?_modify, hword, Option.map_eq_map, Option.map_some, Option.any_some]
  split
  · rw [bne_iff_ne] at hbit ⊢
    exact or_and_ne_zero _ hbit
  · exact hbit

/-! ### Elements -/

theorem length_setBits (l : List UInt64) (mask : UInt64) (bits : Bits) :
    (l.foldl (fun bits probe => setBit bits (probe &&& mask)) bits).length = bits.length := by
  induction l generalizing bits with
  | nil => rfl
  | cons probe l ih => rw [List.foldl_cons, ih, length_setBit]

theorem testBit_setBits (l : List UInt64) (h : testBit bits other = true) :
    testBit (l.foldl (fun bits probe => setBit bits (probe &&& mask)) bits) other = true := by
  induction l generalizing bits with
  | nil => exact h
  | cons probe l ih => exact ih (testBit_setBit h)

theorem testBit_of_mem_probes {l : List UInt64} {probe : UInt64} (hmem : probe ∈ l)
    (hfits : ((probe &&& mask) / 64).toNat < bits.length) :
    testBit (l.foldl (fun bits probe => setBit bits (probe &&& mask)) bits) (probe &&& mask) =
      true := by
  induction l generalizing bits with
  | nil => cases hmem
  | cons first l ih =>
      rcases List.mem_cons.mp hmem with rfl | hmem
      · exact testBit_setBits l (testBit_setBit_self hfits)
      · exact ih hmem (by rwa [length_setBit])

theorem contains_insert_self {a : α}
    (hfits : ∀ probe : UInt64, ((probe &&& mask) / 64).toNat < bits.length) :
    contains probes mask (insert probes mask bits a) a = true := by
  rw [contains, List.all_eq_true]
  intro probe hprobe
  exact testBit_of_mem_probes hprobe (hfits probe)

theorem contains_insert {a : α} (b : α) (h : contains probes mask bits a = true) :
    contains probes mask (insert probes mask bits b) a = true := by
  rw [contains, List.all_eq_true] at h ⊢
  intro probe hprobe
  exact testBit_setBits _ (h probe hprobe)

theorem length_inserts (l : List α) (mask : UInt64) (bits : Bits) :
    (l.foldl (insert probes mask) bits).length = bits.length := by
  induction l generalizing bits with
  | nil => rfl
  | cons a l ih => rw [List.foldl_cons, ih, insert, length_setBits]

theorem contains_inserts {a : α} (l : List α) (h : contains probes mask bits a = true) :
    contains probes mask (l.foldl (insert probes mask) bits) a = true := by
  induction l generalizing bits with
  | nil => exact h
  | cons b l ih => exact ih (contains_insert b h)

/-- **There are no false negatives.** -/
theorem contains_of_mem {l : List α} {a : α} (hmem : a ∈ l)
    (hfits : ∀ probe : UInt64, ((probe &&& mask) / 64).toNat < bits.length) :
    contains probes mask (l.foldl (insert probes mask) bits) a = true := by
  induction l generalizing bits with
  | nil => cases hmem
  | cons b l ih =>
      rcases List.mem_cons.mp hmem with rfl | hmem
      · exact contains_inserts l (contains_insert_self hfits)
      · refine ih hmem fun probe => ?_
        rw [insert, length_setBits]
        exact hfits probe

end Bloom
