import TactiqAttest.Bytes.BigEndian
import Mathlib.Data.Nat.Bitwise

/-!
# Bitmaps

A set of small numbers, kept as the bits of a few bytes: number `i` is bit `i % 8` of byte `i / 8`,
counted from the least significant.

* `hasBit_setBit`: setting a bit adds one number;
* `hasBit_ofIndices`: a bitmap that was filled from a list holds the numbers of the list;
* `ext_hasBit`: a bitmap is determined by its numbers.
-/

namespace Bitmap

variable {k : ℕ}

/-- Whether the bitmap holds `i`. -/
def hasBit (b : List.Vector UInt8 k) (i : ℕ) : Bool :=
  (b.toList.getD (i / 8) 0).toNat.testBit (i % 8)

/-- `b[i / 8] |= 1 << (i % 8)`. -/
def setBit (b : List.Vector UInt8 k) (i : ℕ) : List.Vector UInt8 k :=
  ⟨b.toList.modify (i / 8) (· ||| (1 : UInt8) <<< UInt8.ofNat (i % 8)), by
    rw [List.length_modify, b.toList_length]⟩

/-- The empty bitmap. -/
def empty (k : ℕ) : List.Vector UInt8 k := ⟨List.replicate k 0, List.length_replicate⟩

/-- A bitmap filled from a list. -/
def ofIndices (k : ℕ) (l : List ℕ) : List.Vector UInt8 k := l.foldl setBit (empty k)

/-- The numbers of one byte with one more bit. -/
theorem testBit_or_shift (b : UInt8) (i j : ℕ) (hi : i < 8) :
    (b ||| (1 : UInt8) <<< UInt8.ofNat i).toNat.testBit j =
    (b.toNat.testBit j || decide (j = i)) := by
  have hmask : ∀ n < 8, ((1 : UInt8) <<< UInt8.ofNat n).toNat = 2 ^ n := by decide
  rw [UInt8.toNat_or, Nat.testBit_or, hmask i hi, Nat.testBit_two_pow]
  exact congrArg _ (decide_eq_decide.mpr eq_comm)

theorem hasBit_empty (i : ℕ) : hasBit (empty k) i = false := by
  have hzero : (List.replicate k (0 : UInt8)).getD (i / 8) 0 = 0 := by
    rw [List.getD_eq_getElem?_getD, List.getElem?_replicate]
    by_cases h : i / 8 < k
    · rw [if_pos h]
      rfl
    · rw [if_neg h]
      rfl
  show ((List.replicate k (0 : UInt8)).getD (i / 8) 0).toNat.testBit (i % 8) = false
  rw [hzero]
  exact Nat.zero_testBit _

/-- **Setting a bit adds one number**, if the bitmap reaches that far. -/
theorem hasBit_setBit (b : List.Vector UInt8 k) {i : ℕ} (hi : i < 8 * k) (j : ℕ) :
    hasBit (setBit b i) j = (hasBit b j || decide (j = i)) := by
  have hlen : b.toList.length = k := b.toList_length
  show ((b.toList.modify (i / 8) _).getD (j / 8) 0).toNat.testBit (j % 8) = _
  unfold hasBit
  rw [List.getD_eq_getElem?_getD, List.getD_eq_getElem?_getD, List.getElem?_modify]
  by_cases hbyte : i / 8 = j / 8
  · obtain ⟨byte, hsome⟩ : ∃ byte, b.toList[j / 8]? = some byte :=
      ⟨_, List.getElem?_eq_getElem (by omega)⟩
    simp only [hsome, Option.map_eq_map, Option.map_some, if_pos hbyte, Option.getD_some]
    rw [testBit_or_shift _ _ _ (Nat.mod_lt _ (by decide))]
    have hsame : (j % 8 = i % 8) ↔ j = i := by omega
    exact congrArg _ (decide_eq_decide.mpr hsame)
  · have hne : j ≠ i := fun h => hbyte (by rw [h])
    simp only [if_neg hbyte, id_map', decide_eq_false hne, Bool.or_false]

/-- A bitmap that was filled from a list holds the numbers of the list. -/
theorem hasBit_foldl {l : List ℕ} (hl : ∀ i ∈ l, i < 8 * k) (b : List.Vector UInt8 k) (j : ℕ) :
    hasBit (l.foldl setBit b) j = (hasBit b j || decide (j ∈ l)) := by
  induction l generalizing b with
  | nil => simp
  | cons i l ih =>
    rw [List.foldl_cons, ih fun i hi => hl i (List.mem_cons_of_mem _ hi),
      hasBit_setBit b (hl i List.mem_cons_self), Bool.or_assoc]
    simp [List.mem_cons]

theorem hasBit_ofIndices {l : List ℕ} (hl : ∀ i ∈ l, i < 8 * k) (j : ℕ) :
    hasBit (ofIndices k l) j = decide (j ∈ l) := by
  rw [ofIndices, hasBit_foldl hl, hasBit_empty, Bool.false_or]

/-- **A bitmap is determined by its numbers.** -/
theorem ext_hasBit {a b : List.Vector UInt8 k} (h : ∀ i < 8 * k, hasBit a i = hasBit b i) :
    a = b := by
  have hla : a.toList.length = k := a.toList_length
  have hlb : b.toList.length = k := b.toList_length
  refine List.Vector.toList_injective (List.ext_getElem (hla.trans hlb.symm) fun n hn hn' => ?_)
  refine UInt8.toNat_inj.mp (Nat.eq_of_testBit_eq fun j => ?_)
  by_cases hj : j < 8
  · have hbit := h (8 * n + j) (by omega)
    have hdiv : (8 * n + j) / 8 = n := by omega
    have hmod : (8 * n + j) % 8 = j := by omega
    unfold hasBit at hbit
    rwa [hdiv, hmod, List.getD_eq_getElem _ _ hn, List.getD_eq_getElem _ _ hn'] at hbit
  · have hbig : ∀ c : UInt8, c.toNat.testBit j = false := fun c =>
      Nat.testBit_lt_two_pow (lt_of_lt_of_le c.toNat_lt
        (Nat.pow_le_pow_right (by decide) (by omega)))
    rw [hbig, hbig]

end Bitmap
