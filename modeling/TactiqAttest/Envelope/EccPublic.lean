import TactiqAttest.Envelope.Tpm
import TactiqAttest.Programs.Results

/-!
# The public area of a key

The `TPM2B_PUBLIC` of an ECC key, as `attest-envelope` parses it from what `tpm2_readpublic` writes,
and the TPM name of the key, which is a digest of its public area.

* `EccPublic.parseTpm2b_ok`: what is parsed is a size and exactly that many bytes, which are kept;
* `EccPublic.name_ok`: a key has a name exactly if its name algorithm is SHA-256.
-/

open BigEndian

namespace TactiqAttest.Envelope

def tpmAlgEcc : UInt16 := 0x0023
def tpmAlgEcdsa : UInt16 := 0x0018
def tpmAlgNull : UInt16 := 0x0010
def tpmEccNistP256 : UInt16 := 0x0003

/-! ## `TPMA_OBJECT` -/

namespace Attr

def fixedTpm : UInt32 := (1 : UInt32) <<< 1
def fixedParent : UInt32 := (1 : UInt32) <<< 4
def sensitiveDataOrigin : UInt32 := (1 : UInt32) <<< 5
def restricted : UInt32 := (1 : UInt32) <<< 16
def decrypt : UInt32 := (1 : UInt32) <<< 17
def sign : UInt32 := (1 : UInt32) <<< 18

end Attr

/-! ## The public area -/

/-- A parsed ECC `TPMT_PUBLIC`. -/
structure EccPublic where
  /-- The `TPMT_PUBLIC` bytes, the input to the name. -/
  tpmt : Bytes
  nameAlg : UInt16
  attributes : UInt32
  authPolicy : Bytes
  symmetric : UInt16
  scheme : UInt16
  /-- 0 when no scheme is set. -/
  schemeHash : UInt16
  curve : UInt16
  kdf : UInt16
  x : Bytes
  y : Bytes
  deriving DecidableEq

namespace EccPublic

/-- A word that is there only under a condition. -/
def wordIf (c : Prop) [Decidable c] (field : String) : Reader String UInt16 :=
  if c then Rd.word UInt16 "TPMT_PUBLIC" field else pure 0

/-- The reader of the fields. -/
def reader (tpmt : Bytes) : Reader String EccPublic := do
  let type ← Rd.word UInt16 "TPMT_PUBLIC" "type"
  Reader.ensure (type = tpmAlgEcc)
    s!"TPMT_PUBLIC: type 0x{Text.hex 4 type.toNat}, want ECC 0x{Text.hex 4 tpmAlgEcc.toNat}"
  let nameAlg ← Rd.word UInt16 "TPMT_PUBLIC" "nameAlg"
  let attributes ← Rd.word UInt32 "TPMT_PUBLIC" "objectAttributes"
  let authPolicy ← Rd.tpm2b "TPMT_PUBLIC" "authPolicy"
  let symmetric ← Rd.word UInt16 "TPMT_PUBLIC" "symmetric.algorithm"
  let _ ← wordIf (symmetric ≠ tpmAlgNull) "symmetric.keyBits"
  let _ ← wordIf (symmetric ≠ tpmAlgNull) "symmetric.mode"
  let scheme ← Rd.word UInt16 "TPMT_PUBLIC" "scheme.scheme"
  let schemeHash ← wordIf (scheme ≠ tpmAlgNull) "scheme.hashAlg"
  let curve ← Rd.word UInt16 "TPMT_PUBLIC" "curveID"
  let kdf ← Rd.word UInt16 "TPMT_PUBLIC" "kdf.scheme"
  let _ ← wordIf (kdf ≠ tpmAlgNull) "kdf.hashAlg"
  let x ← Rd.tpm2b "TPMT_PUBLIC" "unique.x"
  let y ← Rd.tpm2b "TPMT_PUBLIC" "unique.y"
  Rd.finish "TPMT_PUBLIC"
  return { tpmt, nameAlg, attributes, authPolicy, symmetric, scheme, schemeHash, curve, kdf, x, y }

/-- The outer structure: a size, and exactly that many bytes. -/
def outer : Reader String Bytes := do
  let tpmt ← Rd.tpm2b "TPM2B_PUBLIC" "size"
  Rd.finish "TPM2B_PUBLIC"
  return tpmt

/-- `EccPublic::parse_tpm2b`. -/
def parseTpm2b (bytes : Bytes) : Except String EccPublic := do
  let tpmt ← outer.parse bytes
  (reader tpmt).parse tpmt

variable (C : Crypto) {bytes tpmt : Bytes} {p : EccPublic}

/-- `EccPublic::name`: `nameAlg || H_nameAlg(TPMT_PUBLIC)`. -/
def name (p : EccPublic) : Except String (List.Vector UInt8 34) :=
  if p.nameAlg = tpmAlgSha256 then
    .ok ⟨be tpmAlgSha256 ++ (C.sha256 p.tpmt).toList, by
      rw [List.length_append, length_be, List.Vector.toList_length]
      rfl⟩
  else .error s!"nameAlg 0x{Text.hex 4 p.nameAlg.toNat} not supported (sha256 only)"

/-! ## What is parsed -/

theorem outer_ok : outer.parse bytes = .ok tpmt ↔ tpmt.length < 2 ^ 16 ∧ bytes = tpm2b tpmt := by
  unfold outer Rd.tpm2b Rd.finish
  simp only [Reader.parse_ok, Reader.run_bind_ok, Reader.run_counted_ok, Reader.run_finish_ok,
    Reader.run_pure_ok, width_uint16]
  constructor
  · rintro ⟨_, v, _, ⟨hlen, rfl⟩, _, _, ⟨rfl, rfl⟩, rfl, -⟩
    exact ⟨hlen, List.append_nil _⟩
  · rintro ⟨hlen, rfl⟩
    exact ⟨[], tpmt, [], ⟨hlen, (List.append_nil _).symm⟩, (), [], ⟨rfl, rfl⟩, rfl, rfl⟩

/-- The bytes kept are those the fields were read from. -/
theorem tpmt_of_reader {rest : Bytes} (h : (reader tpmt).run bytes = .ok (p, rest)) :
    p.tpmt = tpmt := by
  unfold reader at h
  simp only [Reader.run_bind_ok, Reader.run_pure_ok] at h
  obtain ⟨_, _, -, _, _, -, _, _, -, _, _, -, _, _, -, _, _, -, _, _, -, _, _, -, _, _, -, _, _, -,
    _, _, -, _, _, -, _, _, -, _, _, -, _, _, -, _, _, -, rfl, -⟩ := h
  rfl

/-- What is parsed is a size and exactly that many bytes, which are kept. -/
theorem parseTpm2b_ok (h : parseTpm2b bytes = .ok p) :
    p.tpmt.length < 2 ^ 16 ∧ bytes = tpm2b p.tpmt := by
  unfold parseTpm2b at h
  obtain ⟨tpmt, houter, hfields⟩ := Except.bind_eq_ok.mp h
  obtain ⟨rest, hrun⟩ := Reader.parse_ok.mp hfields
  rw [tpmt_of_reader hrun]
  exact outer_ok.mp houter

/-- A key has a name exactly if its name algorithm is SHA-256. -/
theorem name_ok {n : List.Vector UInt8 34} : p.name C = .ok n ↔
    p.nameAlg = tpmAlgSha256 ∧ n.toList = be tpmAlgSha256 ++ (C.sha256 p.tpmt).toList := by
  unfold name
  split_ifs with halg
  · constructor
    · intro h
      obtain rfl := Except.ok.inj h
      exact ⟨halg, rfl⟩
    · rintro ⟨-, hn⟩
      exact congrArg _ (List.Vector.toList_injective hn.symm)
  · exact ⟨fun h => (by cases h), fun h => absurd h.1 halg⟩

end EccPublic

end TactiqAttest.Envelope
