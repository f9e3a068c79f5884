import Mathlib.Tactic.Ring
import Mathlib.Data.Vector.Basic
import Mathlib.Data.Nat.Basic

/-!
# Big-endian byte strings

The arithmetic of positional notation in base `256`, for byte strings written as lists.  A number
is written on a fixed number of bytes, most significant first, and read back; the two directions
are inverse to each other on the numbers that fit.

The fixed-width machine integers share one interface, `Word`: how many bytes a value takes, and
its numerical value.  Everything a format needs about a field of an integer type is then stated
once, for every `Word`:

* `length_be`: a written word has the width of its type;
* `ofBe_be`, `be_ofBe`: reading undoes writing, and writing undoes reading;
* `be_inj`: two words with the same bytes are the same word.
-/

/-- A byte string.  Slices, vectors and borrowed buffers are all read as their contents. -/
abbrev Bytes := List UInt8

namespace BigEndian

/-! ## Numbers of a given width -/

/-- The `w` low-order bytes of `n`, most significant first. -/
def encode : ℕ → ℕ → Bytes
  | 0, _ => []
  | w + 1, n => UInt8.ofNat (n / 256 ^ w) :: encode w n

/-- The number a byte string writes in base `256`, most significant byte first. -/
def decode : Bytes → ℕ
  | [] => 0
  | b :: bs => b.toNat * 256 ^ bs.length + decode bs

@[simp] theorem length_encode (w n : ℕ) : (encode w n).length = w := by
  induction w with
  | zero => rfl
  | succ w ih => rw [encode, List.length_cons, ih]

theorem decode_lt (bs : Bytes) : decode bs < 256 ^ bs.length := by
  induction bs with
  | nil => simp [decode]
  | cons b bs ih =>
    have hb : b.toNat ≤ 255 := by have := b.toNat_lt; omega
    calc decode (b :: bs) < b.toNat * 256 ^ bs.length + 256 ^ bs.length := by
          rw [decode]; omega
      _ = (b.toNat + 1) * 256 ^ bs.length := by ring
      _ ≤ 256 * 256 ^ bs.length := Nat.mul_le_mul_right _ (by omega)
      _ = 256 ^ (b :: bs).length := by rw [List.length_cons, pow_succ, Nat.mul_comm]

/-- Reading what was written gives the number back, up to the bytes that did not fit. -/
theorem decode_encode (w n : ℕ) : decode (encode w n) = n % 256 ^ w := by
  induction w with
  | zero => simp [encode, decode, Nat.mod_one]
  | succ w ih =>
    have hdigit : (UInt8.ofNat (n / 256 ^ w)).toNat = n / 256 ^ w % 256 := by
      simp
    rw [encode, decode, length_encode, ih, hdigit, Nat.pow_succ, Nat.mod_mul]
    ring

theorem encode_add_mul_pow (w n : ℕ) : ∀ k, encode w (n + k * 256 ^ w) = encode w n := by
  induction w with
  | zero => intro k; rfl
  | succ w ih =>
    intro k
    have hsplit : n + k * 256 ^ (w + 1) = n + k * 256 * 256 ^ w := by ring
    have hpos : 0 < 256 ^ w := Nat.pow_pos (by omega)
    rw [hsplit, encode, ih (k * 256), encode, Nat.add_mul_div_right _ _ hpos]
    congr 1
    apply UInt8.toNat_inj.mp
    simp

/-- Writing what was read gives the bytes back. -/
theorem encode_decode (bs : Bytes) : encode bs.length (decode bs) = bs := by
  induction bs with
  | nil => rfl
  | cons b bs ih =>
    have hpos : 0 < 256 ^ bs.length := Nat.pow_pos (by omega)
    have hhigh : (b.toNat * 256 ^ bs.length + decode bs) / 256 ^ bs.length = b.toNat := by
      rw [Nat.add_comm, Nat.add_mul_div_right _ _ hpos, Nat.div_eq_of_lt (decode_lt bs),
        Nat.zero_add]
    rw [List.length_cons, encode, decode, hhigh, Nat.add_comm, encode_add_mul_pow, ih]
    simp

/-! ## Words -/

/-- An unsigned integer type that takes a fixed number of bytes. -/
class Word (ω : Type) where
  /-- How many bytes a value takes. -/
  width : ℕ
  /-- The value as a number. -/
  val : ω → ℕ
  /-- The word of a number, which is expected to fit. -/
  ofNat : ℕ → ω
  val_lt : ∀ x, val x < 256 ^ width
  ofNat_val : ∀ x, ofNat (val x) = x
  val_ofNat : ∀ n, n < 256 ^ width → val (ofNat n) = n

instance : Word UInt8 where
  width := 1
  val := UInt8.toNat
  ofNat := UInt8.ofNat
  val_lt x := x.toNat_lt
  ofNat_val _ := UInt8.ofNat_toNat
  val_ofNat _ h := UInt8.toNat_ofNat_of_lt' h

instance : Word UInt16 where
  width := 2
  val := UInt16.toNat
  ofNat := UInt16.ofNat
  val_lt x := x.toNat_lt
  ofNat_val _ := UInt16.ofNat_toNat
  val_ofNat _ h := UInt16.toNat_ofNat_of_lt' h

instance : Word UInt32 where
  width := 4
  val := UInt32.toNat
  ofNat := UInt32.ofNat
  val_lt x := x.toNat_lt
  ofNat_val _ := UInt32.ofNat_toNat
  val_ofNat _ h := UInt32.toNat_ofNat_of_lt' h

instance : Word UInt64 where
  width := 8
  val := UInt64.toNat
  ofNat := UInt64.ofNat
  val_lt x := x.toNat_lt
  ofNat_val _ := UInt64.ofNat_toNat
  val_ofNat _ h := UInt64.toNat_ofNat_of_lt' h

@[simp] theorem width_uint8 : Word.width UInt8 = 1 := rfl
@[simp] theorem width_uint16 : Word.width UInt16 = 2 := rfl
@[simp] theorem width_uint32 : Word.width UInt32 = 4 := rfl
@[simp] theorem width_uint64 : Word.width UInt64 = 8 := rfl

section Words

variable {ω : Type} [Word ω]

/-- The bytes of a word (`to_be_bytes`). -/
def be (x : ω) : Bytes := encode (Word.width ω) (Word.val x)

/-- The word some bytes write (`from_be_bytes`). -/
def ofBe (bs : Bytes) : ω := Word.ofNat (decode bs)

@[simp] theorem length_be (x : ω) : (be x).length = Word.width ω := length_encode _ _

@[simp] theorem ofBe_be (x : ω) : (ofBe (be x) : ω) = x := by
  rw [ofBe, be, decode_encode, Nat.mod_eq_of_lt (Word.val_lt x), Word.ofNat_val]

theorem be_ofBe {bs : Bytes} (h : bs.length = Word.width ω) : be (ofBe bs : ω) = bs := by
  have hlt : decode bs < 256 ^ Word.width ω := h ▸ decode_lt bs
  rw [be, ofBe, Word.val_ofNat _ hlt, ← h, encode_decode]

/-- Two words written the same are the same. -/
theorem be_inj {x y : ω} : be x = be y ↔ x = y := by
  refine ⟨fun h => ?_, fun h => h ▸ rfl⟩
  rw [← ofBe_be x, h, ofBe_be]

end Words

/-- One byte writes itself. -/
theorem be_uint8 (x : UInt8) : be x = [x] := by
  change [UInt8.ofNat (x.toNat / 256 ^ 0)] = [x]
  rw [pow_zero, Nat.div_one, UInt8.ofNat_toNat]

end BigEndian
