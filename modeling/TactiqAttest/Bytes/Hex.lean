import TactiqAttest.Bytes.Chars
import TactiqAttest.Programs.Results

/-!
# Hexadecimal

Byte strings written with two hexadecimal digits a byte, as the `hex` crate writes and reads them:
it writes small letters, and reads both.  `decode_encode`: what was written reads back.
-/

namespace Hex

/-- The digit of a number below sixteen. -/
def digit (n : ℕ) : Char := if n < 10 then Char.ofNat (48 + n) else Char.ofNat (87 + n)

/-- `hex::encode`. -/
def encode (bs : Bytes) : String :=
  String.ofList (bs.flatMap fun b => [digit (b.toNat / 16), digit (b.toNat % 16)])

/-- What `{:?}` makes of the character that a byte is in Latin-1. -/
def debugByte (c : UInt8) : String :=
  let n := c.toNat
  let body :=
    if n = 0x00 then "\\0"
    else if n = 0x09 then "\\t"
    else if n = 0x0A then "\\n"
    else if n = 0x0D then "\\r"
    else if n = 0x27 then "\\'"
    else if n = 0x5C then "\\\\"
    else if n < 0x20 ∨ (0x7F ≤ n ∧ n ≤ 0xA0) ∨ n = 0xAD then "\\u\x7b" ++ Text.hex 1 n ++ "\x7d"
    else String.singleton (Char.ofNat n)
  "'" ++ body ++ "'"

/-- `hex::val`: the value of the digit at a position. -/
def val (c : UInt8) (index : ℕ) : Except String ℕ :=
  if 0x30 ≤ c ∧ c ≤ 0x39 then .ok (c.toNat - 0x30)
  else if 0x61 ≤ c ∧ c ≤ 0x66 then .ok (c.toNat - 0x61 + 10)
  else if 0x41 ≤ c ∧ c ≤ 0x46 then .ok (c.toNat - 0x41 + 10)
  else .error s!"Invalid character {debugByte c} at position {index}"

/-- The bytes that pairs of digits write, from a position on. -/
def decodeFrom : ℕ → Bytes → Except String Bytes
  | index, hi :: lo :: tl => do
    let h ← val hi index
    let l ← val lo (index + 1)
    let bs ← decodeFrom (index + 2) tl
    return UInt8.ofNat (16 * h + l) :: bs
  | _, _ => .ok []

/-- `hex::decode`. -/
def decode (text : String) : Except String Bytes :=
  let digits := Chars.utf8 text.toList
  if digits.length % 2 = 1 then .error "Odd number of digits" else decodeFrom 0 digits

/-! ## Reading back -/

/-- The byte of a digit. -/
def digitByte (n : ℕ) : UInt8 := UInt8.ofNat (if n < 10 then 48 + n else 87 + n)

theorem digit_eq {n : ℕ} (h : n < 16) :
    digit n = Char.ofNat (digitByte n).toNat ∧ (digitByte n).toNat < 0x80 := by
  have hall : ∀ k : Fin 16, digit k = Char.ofNat (digitByte k).toNat ∧
      (digitByte k).toNat < 0x80 := by decide
  exact hall ⟨n, h⟩

theorem utf8EncodeChar_digit {n : ℕ} (h : n < 16) :
    String.utf8EncodeChar (digit n) = [digitByte n] := by
  obtain ⟨hdigit, hascii⟩ := digit_eq h
  rw [hdigit, Chars.utf8EncodeChar_ofNat hascii]

/-- A digit reads as its number. -/
theorem val_digitByte {n index : ℕ} (h : n < 16) : val (digitByte n) index = .ok n := by
  have hall : ∀ k : Fin 16,
      (0x30 ≤ digitByte k ∧ digitByte k ≤ 0x39 ∧ (digitByte k).toNat - 0x30 = k) ∨
        (¬ (0x30 ≤ digitByte k ∧ digitByte k ≤ 0x39) ∧ 0x61 ≤ digitByte k ∧ digitByte k ≤ 0x66 ∧
          (digitByte k).toNat - 0x61 + 10 = k) := by decide
  unfold val
  rcases hall ⟨n, h⟩ with ⟨hlo, hhi, heq⟩ | ⟨hnot, hlo, hhi, heq⟩
  · rw [if_pos ⟨hlo, hhi⟩, heq]
  · rw [if_neg hnot, if_pos ⟨hlo, hhi⟩, heq]

/-- The bytes of the text. -/
theorem utf8_encode (bs : Bytes) : Chars.utf8 (encode bs).toList =
    bs.flatMap fun b => [digitByte (b.toNat / 16), digitByte (b.toNat % 16)] := by
  rw [encode, String.toList_ofList]
  induction bs with
  | nil => rfl
  | cons b bs ih =>
    have hb := b.toNat_lt
    have hhi := utf8EncodeChar_digit (n := b.toNat / 16) (by omega)
    have hlo := utf8EncodeChar_digit (n := b.toNat % 16) (by omega)
    rw [List.flatMap_cons, List.flatMap_cons, ← ih, List.cons_append, List.singleton_append]
    simp only [Chars.utf8, List.flatMap_cons, hhi, hlo, List.cons_append, List.nil_append]

theorem decodeFrom_digits (bs : Bytes) (index : ℕ) :
    decodeFrom index (bs.flatMap fun b => [digitByte (b.toNat / 16), digitByte (b.toNat % 16)]) =
      .ok bs := by
  induction bs generalizing index with
  | nil => rfl
  | cons b bs ih =>
    have hb := b.toNat_lt
    have hhi : val (digitByte (b.toNat / 16)) index = .ok (b.toNat / 16) := val_digitByte (by omega)
    have hlo : val (digitByte (b.toNat % 16)) (index + 1) = .ok (b.toNat % 16) :=
      val_digitByte (by omega)
    have hbyte : UInt8.ofNat (16 * (b.toNat / 16) + b.toNat % 16) = b := by
      rw [Nat.div_add_mod, UInt8.ofNat_toNat]
    rw [List.flatMap_cons, List.cons_append, List.singleton_append, decodeFrom, hhi, hlo]
    simp only [Except.bind_eq_ok, Except.pure_eq_ok]
    exact ⟨_, rfl, _, rfl, bs, ih _, by rw [hbyte]⟩

/-- **What was written reads back.** -/
@[simp] theorem decode_encode (bs : Bytes) : decode (encode bs) = .ok bs := by
  have hlen : (Chars.utf8 (encode bs).toList).length = 2 * bs.length := by
    rw [utf8_encode]
    simp [Nat.mul_comm]
  rw [decode, if_neg (by rw [hlen]; omega), utf8_encode, decodeFrom_digits]

example : encode [0xAB, 0x01] = "ab01" := by decide

end Hex
