import TactiqAttest.Bytes.Reader
import TactiqAttest.Bytes.Text
import TactiqAttest.Envelope.Tpm
import TactiqAttest.Registrar.Certificate

/-!
# The credential blob

`TPM2_MakeCredential` in software: a secret that only a TPM with the private key of the EK gives
back, and only while an object with the given name is loaded in it.  The block cipher, the keyed
hash and the encryption to the EK are those of the crates `aes`, `hmac` and `rsa`, and a parameter
here.

* `parseFile_ok`: a credential file is accepted exactly if it is the serialisation of its parts;
* `parseFile_makeCredential`: what is made here is accepted, if the EK has 2048 bits.
-/

open BigEndian

namespace TactiqAttest.Registrar

/-- What the code calls of `hmac`, `aes` with `cfb_mode`, and `rsa`. -/
structure CredentialCrypto (P : Pki) where
  /-- HMAC-SHA256. -/
  hmac : (key message : Bytes) → List.Vector UInt8 32
  /-- AES-128 in CFB mode, which encrypts a buffer in place. -/
  cfbEncrypt : (key iv plain : Bytes) → Bytes
  length_cfbEncrypt : ∀ key iv plain, (cfbEncrypt key iv plain).length = plain.length
  /-- `RsaPublicKey::encrypt` with OAEP over SHA-256, given what it draws. -/
  oaepEncrypt : P.PublicKey → (label : Bytes) → (random : List.Vector UInt8 32) → (plain : Bytes) →
    Except String Bytes
  /-- The ciphertext has the length of the key. -/
  length_oaepEncrypt : ∀ {key label random plain c},
    oaepEncrypt key label random plain = .ok c → c.length = P.size key

namespace MakeCred

open Envelope (tpm2b length_tpm2b)

def fileMagic : UInt32 := 0xBADCC0DE
def fileVersion : UInt32 := 1
def secretLen : ℕ := 32

/-- `LABEL_IDENTITY`, with its terminating zero. -/
def labelIdentity : Bytes := Text.ascii "IDENTITY" ++ [0]

variable {P : Pki} (X : CredentialCrypto P)

/-! ## Making a blob -/

/-- `kdfa`: the blocks are counted from 1, and as many are made as the output needs. -/
def kdfa (key label contextU contextV : Bytes) (bits : UInt32) : Bytes :=
  let bytes := (bits.toNat + 7) / 8
  let out := (List.range ((bytes + 31) / 32)).flatMap fun i =>
    (X.hmac key
      (be (UInt32.ofNat (i + 1)) ++ label ++ [0] ++ contextU ++ contextV ++ be bits)).toList
  out.take bytes

/-- `protect`: the encrypted identity, and its integrity value. -/
def protect (seed name secret : Bytes) : Bytes × List.Vector UInt8 32 :=
  let symKey := kdfa X seed (Text.ascii "STORAGE") name [] 128
  let encIdentity := X.cfbEncrypt symKey (List.replicate 16 0) (tpm2b secret)
  let hmacKey := kdfa X seed (Text.ascii "INTEGRITY") [] [] 256
  (encIdentity, X.hmac hmacKey (encIdentity ++ name))

/-- `CredentialFile`. -/
structure CredentialFile where
  integrity : Bytes
  encIdentity : Bytes
  encSeed : Bytes
  deriving DecidableEq

/-- The bytes of a credential file. -/
def CredentialFile.bytes (c : CredentialFile) : Bytes :=
  be fileMagic ++ be fileVersion ++ tpm2b (tpm2b c.integrity ++ c.encIdentity) ++ tpm2b c.encSeed

/-- `make_credential_with_seed`; `random` is what OAEP draws. -/
def makeCredentialWithSeed (ek : P.PublicKey) (name secret seed : Bytes)
    (random : List.Vector UInt8 32) : Except String Bytes := do
  let encSeed ← (X.oaepEncrypt ek labelIdentity random seed).mapError fun e => s!"RSA-OAEP: {e}"
  let (encIdentity, integrity) := protect X seed name secret
  return CredentialFile.bytes { integrity := integrity.toList, encIdentity, encSeed }

/-! ## Reading a blob -/

/-- The error of `take` in `parse_file`. -/
def short (what : String) (_left : ℕ) : String := s!"credential file: short {what}"

/-- A size, then that many bytes. -/
def sized (sizeOf what : String) : Reader String Bytes :=
  Reader.counted UInt16 (short sizeOf) fun _ => short what

/-- `parse_file`. -/
def parseFile (b : Bytes) : Except String CredentialFile := do
  let (magic, r) ← (Reader.word UInt32 (short "magic")).run b
  let (version, r) ← (Reader.word UInt32 (short "version")).run r
  Except.ensure (magic = fileMagic ∧ version = fileVersion)
    s!"credential file: magic 0x{Text.hex 8 magic.toNat} version {version.toNat}"
  let (idObject, r) ← (sized "TPM2B_ID_OBJECT size" "TPM2B_ID_OBJECT").run r
  let (integrity, encIdentity) ← (sized "integrityHMAC size" "integrityHMAC").run idObject
  let (encSeed, r) ← (sized "TPM2B_ENCRYPTED_SECRET size" "encryptedSecret").run r
  Except.ensure (r = []) s!"credential file: {r.length} trailing bytes"
  Except.ensure (integrity.length = 32 ∧ encIdentity.length = 2 + secretLen)
    (s!"credential file: integrityHMAC {integrity.length} bytes, " ++
      s!"encIdentity {encIdentity.length} bytes")
  return { integrity, encIdentity, encSeed }

/-! ## Lengths -/

variable {X} {ek : P.PublicKey} {name secret seed b blob : Bytes} {random : List.Vector UInt8 32}
  {c : CredentialFile}

theorem length_protect : (protect X seed name secret).1.length = 2 + secret.length := by
  rw [protect, X.length_cfbEncrypt, length_tpm2b]

/-! ## What is accepted -/

/-- **A credential file is accepted exactly if it is the serialisation of its parts**, with an
integrity value and an identity of the right lengths. -/
theorem parseFile_ok : parseFile b = .ok c ↔ b = c.bytes ∧ c.integrity.length = 32 ∧
    c.encIdentity.length = 2 + secretLen ∧ c.encSeed.length < 2 ^ 16 := by
  unfold parseFile sized
  simp only [Except.bind_eq_ok, Prod.exists, Reader.run_word_ok, Reader.run_counted_ok,
    Except.ensure_eq_ok, Except.pure_eq_ok, width_uint16]
  constructor
  · rintro ⟨magic, _, rfl, version, _, rfl, _, ⟨rfl, rfl⟩, idObject, _, ⟨-, rfl⟩, integrity,
      encIdentity, ⟨-, rfl⟩, encSeed, _, ⟨hseed, rfl⟩, _, rfl, _, ⟨hintegrity, hidentity⟩, rfl⟩
    refine ⟨?_, hintegrity, hidentity, hseed⟩
    simp only [CredentialFile.bytes, tpm2b, List.append_assoc, List.append_nil]
  · rintro ⟨rfl, hintegrity, hidentity, hseed⟩
    have hinner : (tpm2b c.integrity ++ c.encIdentity).length < 256 ^ 2 := by
      rw [List.length_append, length_tpm2b, hintegrity, hidentity]
      decide
    refine ⟨fileMagic, _, ?_, fileVersion, _, rfl, (), ⟨rfl, rfl⟩,
      tpm2b c.integrity ++ c.encIdentity,
      _, ⟨hinner, rfl⟩, c.integrity, c.encIdentity, ⟨?_, rfl⟩, c.encSeed, [], ⟨hseed, rfl⟩, (), rfl,
      (), ⟨hintegrity, hidentity⟩, rfl⟩
    · simp only [CredentialFile.bytes, tpm2b, List.append_assoc, List.append_nil]
    · rw [hintegrity]
      decide

/-- What is made here is accepted. -/
theorem parseFile_makeCredential (hsize : P.size ek = 256) (hsecret : secret.length = secretLen)
    (h : makeCredentialWithSeed X ek name secret seed random = .ok blob) :
    ∃ c, parseFile blob = .ok c := by
  unfold makeCredentialWithSeed at h
  obtain ⟨encSeed, hencSeed, hblob⟩ := Except.bind_eq_ok.mp h
  have hlen := X.length_oaepEncrypt (Except.mapError_eq_ok.mp hencSeed)
  obtain rfl := Except.pure_eq_ok.mp hblob
  refine ⟨_, parseFile_ok.mpr ⟨rfl, List.Vector.toList_length _, ?_, ?_⟩⟩
  · exact length_protect.trans (by rw [hsecret])
  · show encSeed.length < 2 ^ 16
    rw [hlen, hsize]
    decide

end MakeCred

end TactiqAttest.Registrar
