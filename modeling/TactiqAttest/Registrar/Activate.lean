import TactiqAttest.Registrar.Registration

/-!
# What opens a credential

`TPM2_ActivateCredential` in software: the TPM's side of `MakeCred`, with the private key of the EK.
The block cipher and the encryption to the EK have inverses here; the keyed hash has none, and what
is needed of it is that the messages under comparison do not collide.

* `activate_ok`: what opens a file, field by field;
* `parseFile_credentialOf`: what was made is read back as the parts it was built from;
* `activate_credentialOf`: with the key and the name it was made for it gives the secret back;
* `activate_other_name`: with another name it fails at the integrity value.

`secret_bound_to_name` is these together.
-/

open BigEndian

namespace TactiqAttest.Registrar

/-- The other half of what is called of `aes` with `cfb_mode`, and `rsa`. -/
structure ActivationCrypto (P : Pki) extends CredentialCrypto P where
  /-- `RsaPrivateKey`. -/
  PrivateKey : Type
  /-- `to_public_key`. -/
  publicKey : PrivateKey → P.PublicKey
  /-- `RsaPrivateKey::decrypt` with OAEP over SHA-256. -/
  oaepDecrypt : PrivateKey → (label : Bytes) → (cipher : Bytes) → Except String Bytes
  oaepDecrypt_oaepEncrypt : ∀ {key label random plain c},
    oaepEncrypt (publicKey key) label random plain = .ok c → oaepDecrypt key label c = .ok plain
  /-- `rsa` encrypts to no key of more than 4096 bits. -/
  size_le_of_oaepEncrypt : ∀ {key label random plain c},
    oaepEncrypt key label random plain = .ok c → P.size key ≤ 512
  /-- AES-128 in CFB mode, which decrypts a buffer in place. -/
  cfbDecrypt : (key iv cipher : Bytes) → Bytes
  length_cfbDecrypt : ∀ key iv cipher, (cfbDecrypt key iv cipher).length = cipher.length
  cfbDecrypt_cfbEncrypt : ∀ key iv plain, cfbDecrypt key iv (cfbEncrypt key iv plain) = plain

namespace MakeCred

open Envelope (tpm2b length_tpm2b)

variable {P : Pki}

/-- No two different messages among `S` have the same value under `key`. -/
def CollisionFreeOn (X : CredentialCrypto P) (key : Bytes) (S : Set Bytes) : Prop :=
  Set.InjOn (X.hmac key) S

/-- `activate_in_software`. -/
def activateInSoftware (A : ActivationCrypto P) (ekPriv : A.PrivateKey) (name file : Bytes) :
    Except String Bytes := do
  let X := A.toCredentialCrypto
  let c ← parseFile file
  let seed ← (A.oaepDecrypt ekPriv labelIdentity c.encSeed).mapError fun e => s!"OAEP: {e}"
  let hmacKey := kdfa X seed (Text.ascii "INTEGRITY") [] [] 256
  Except.ensure ((X.hmac hmacKey (c.encIdentity ++ name)).toList = c.integrity)
    "integrity HMAC mismatch (wrong name or EK)"
  let symKey := kdfa X seed (Text.ascii "STORAGE") name [] 128
  let id := A.cfbDecrypt symKey (List.replicate 16 0) c.encIdentity
  let n : UInt16 := ofBe (id.take 2)
  Except.ensure (n.toNat = id.length - 2) "identity size mismatch"
  return id.drop 2

/-! ## What was made -/

/-- The key of the integrity value. -/
def integrityKey (X : CredentialCrypto P) (seed : Bytes) : Bytes :=
  kdfa X seed (Text.ascii "INTEGRITY") [] [] 256

/-- The key of the encrypted identity. -/
def storageKey (X : CredentialCrypto P) (seed name : Bytes) : Bytes :=
  kdfa X seed (Text.ascii "STORAGE") name [] 128

/-- The parts a credential file is built from. -/
def credentialOf (X : CredentialCrypto P) (seed name secret encSeed : Bytes) : CredentialFile where
  integrity := (protect X seed name secret).2.toList
  encIdentity := (protect X seed name secret).1
  encSeed

variable {X : CredentialCrypto P} {A : ActivationCrypto P} {ek : P.PublicKey}
  {ekPriv : A.PrivateKey}
  {name name' secret seed encSeed file blob v : Bytes} {random : List.Vector UInt8 32}

/-- A file is made exactly if the seed could be encrypted, from these parts. -/
theorem makeCredential_ok : makeCredentialWithSeed X ek name secret seed random = .ok blob ↔
    ∃ encSeed, X.oaepEncrypt ek labelIdentity random seed = .ok encSeed ∧
      blob = (credentialOf X seed name secret encSeed).bytes := by
  unfold makeCredentialWithSeed
  simp only [Except.bind_eq_ok, Except.mapError_eq_ok, Except.pure_eq_ok]
  constructor
  · rintro ⟨encSeed, hencSeed, rfl⟩
    exact ⟨encSeed, hencSeed, rfl⟩
  · rintro ⟨encSeed, hencSeed, rfl⟩
    exact ⟨encSeed, hencSeed, rfl⟩

/-- The integrity value is over the encrypted identity and the name. -/
theorem protect_snd : (protect X seed name secret).2 =
    X.hmac (integrityKey X seed) ((protect X seed name secret).1 ++ name) := rfl

theorem length_encIdentity :
    (credentialOf X seed name secret encSeed).encIdentity.length = 2 + secret.length :=
  length_protect

/-- **What was made is read back as the parts it was built from.** -/
theorem parseFile_credentialOf (hsecret : secret.length = secretLen)
    (hseed : encSeed.length < 2 ^ 16) :
    parseFile (credentialOf X seed name secret encSeed).bytes =
      .ok (credentialOf X seed name secret encSeed) :=
  parseFile_ok.mpr ⟨rfl, List.Vector.toList_length _,
    length_encIdentity.trans (by rw [hsecret]), hseed⟩

/-! ## What opens it -/

/-- A buffer whose first two bytes are the number of the others is a sized buffer of them. -/
theorem eq_tpm2b_iff {id : Bytes} (hlen : 2 ≤ id.length) (hshort : v.length < 2 ^ 16) :
    (ofBe (id.take 2) : UInt16).toNat = id.length - 2 ∧ id.drop 2 = v ↔ id = tpm2b v := by
  have htake : (id.take 2).length = Word.width UInt16 := by
    rw [List.length_take, width_uint16]
    omega
  constructor
  · rintro ⟨hn, rfl⟩
    have hword : (ofBe (id.take 2) : UInt16) = UInt16.ofNat (id.drop 2).length := by
      rw [List.length_drop, ← hn, UInt16.ofNat_toNat]
    show id = be (UInt16.ofNat (id.drop 2).length) ++ id.drop 2
    rw [← hword, be_ofBe htake, List.take_append_drop]
  · intro hid
    have hwidth : (be (UInt16.ofNat v.length)).length = 2 := length_be _
    have hsplit : id = be (UInt16.ofNat v.length) ++ v := hid
    have hhead : id.take 2 = be (UInt16.ofNat v.length) := by
      rw [hsplit, ← hwidth, List.take_left]
    have htail : id.drop 2 = v := by
      rw [hsplit, ← hwidth, List.drop_left]
    refine ⟨?_, htail⟩
    rw [hhead, ofBe_be, ← List.length_drop, htail]
    exact UInt16.toNat_ofNat_of_lt' hshort

/-- **What opens a file**: its parts, the seed that the private key decrypts, an integrity value
over the identity and the name, and an identity that decrypts to the sized secret. -/
theorem activate_ok : activateInSoftware A ekPriv name file = .ok v ↔
    ∃ c seed, parseFile file = .ok c ∧ A.oaepDecrypt ekPriv labelIdentity c.encSeed = .ok seed ∧
      (A.hmac (integrityKey A.toCredentialCrypto seed) (c.encIdentity ++ name)).toList =
        c.integrity ∧
      v.length = secretLen ∧
      A.cfbDecrypt (storageKey A.toCredentialCrypto seed name) (List.replicate 16 0) c.encIdentity =
        tpm2b v := by
  unfold activateInSoftware
  simp only [Except.bind_eq_ok, Except.mapError_eq_ok, Except.ensure_eq_ok, Except.pure_eq_ok]
  constructor
  · rintro ⟨c, hc, seed, hseed, _, hintegrity, _, hsize, rfl⟩
    have hlen : (A.cfbDecrypt (storageKey A.toCredentialCrypto seed name) (List.replicate 16 0)
        c.encIdentity).length = 2 + secretLen :=
      (A.length_cfbDecrypt _ _ _).trans (parseFile_ok.mp hc).2.2.1
    have hv : ((A.cfbDecrypt (storageKey A.toCredentialCrypto seed name) (List.replicate 16 0)
        c.encIdentity).drop 2).length = secretLen := by
      rw [List.length_drop, hlen, Nat.add_sub_cancel_left]
    refine ⟨c, seed, hc, hseed, hintegrity, hv, ?_⟩
    refine (eq_tpm2b_iff (by omega) ?_).mp ⟨hsize, rfl⟩
    exact hv.trans_lt (by decide)
  · rintro ⟨c, seed, hc, hseed, hintegrity, hv, hid⟩
    have hlen : 2 ≤ (A.cfbDecrypt (storageKey A.toCredentialCrypto seed name)
        (List.replicate 16 0) c.encIdentity).length := by
      rw [hid, length_tpm2b]
      omega
    obtain ⟨hsize, hdrop⟩ := (eq_tpm2b_iff hlen (hv.trans_lt (by decide))).mpr hid
    exact ⟨c, hc, seed, hseed, (), hintegrity, (), hsize, hdrop⟩

/-- **With the key and the name it was made for, a file gives the secret back.** -/
theorem activate_credentialOf (hsecret : secret.length = secretLen)
    (hseed : A.oaepEncrypt (A.publicKey ekPriv) labelIdentity random seed = .ok encSeed)
    (hlen : encSeed.length < 2 ^ 16) :
    activateInSoftware A ekPriv name
      (credentialOf A.toCredentialCrypto seed name secret encSeed).bytes = .ok secret :=
  activate_ok.mpr ⟨_, seed, parseFile_credentialOf hsecret hlen,
    A.oaepDecrypt_oaepEncrypt hseed, rfl, hsecret, A.cfbDecrypt_cfbEncrypt _ _ _⟩

/-- **With another name it fails at the integrity value**, unless the two messages collide. -/
theorem activate_other_name (hsecret : secret.length = secretLen)
    (hseed : A.oaepEncrypt (A.publicKey ekPriv) labelIdentity random seed = .ok encSeed)
    (hlen : encSeed.length < 2 ^ 16) (hname : name' ≠ name)
    (hfree : CollisionFreeOn A.toCredentialCrypto (integrityKey A.toCredentialCrypto seed)
      {(protect A.toCredentialCrypto seed name secret).1 ++ name,
        (protect A.toCredentialCrypto seed name secret).1 ++ name'}) :
    activateInSoftware A ekPriv name'
      (credentialOf A.toCredentialCrypto seed name secret encSeed).bytes =
        .error "integrity HMAC mismatch (wrong name or EK)" := by
  have hmismatch : ¬ (A.hmac (integrityKey A.toCredentialCrypto seed)
      ((protect A.toCredentialCrypto seed name secret).1 ++ name')).toList =
        (protect A.toCredentialCrypto seed name secret).2.toList := by
    intro heq
    have hsame := hfree (Or.inr rfl) (Or.inl rfl) (List.Vector.toList_injective heq)
    exact hname (List.append_cancel_left hsame)
  unfold activateInSoftware
  refine Except.bind_eq_error.mpr (Or.inr ⟨_, parseFile_credentialOf hsecret hlen, ?_⟩)
  have hdecrypted : A.oaepDecrypt ekPriv labelIdentity
      (credentialOf A.toCredentialCrypto seed name secret encSeed).encSeed = .ok seed :=
    A.oaepDecrypt_oaepEncrypt hseed
  refine Except.bind_eq_error.mpr (Or.inr ⟨seed, Except.mapError_eq_ok.mpr hdecrypted, ?_⟩)
  exact Except.bind_eq_error.mpr (Or.inl (Except.ensure_eq_error.mpr ⟨hmismatch, rfl⟩))

/-- **The secret is bound to the EK and to the name.**  A file made for `name` is read back as the
parts it was built from and gives the secret back; with any other name it is refused, if the two
messages do not collide under the key of the integrity value; and whatever file is accepted is the
serialisation of what is read from it, in which no size is cut off. -/
theorem secret_bound_to_name (A : ActivationCrypto P) (ekPriv : A.PrivateKey) (name : Bytes)
    (secret seed random : List.Vector UInt8 32) :
    (∀ blob, makeCredentialWithSeed A.toCredentialCrypto (A.publicKey ekPriv) name secret.toList
        seed.toList random = .ok blob →
      (∃ encSeed,
        A.oaepEncrypt (A.publicKey ekPriv) labelIdentity random seed.toList = .ok encSeed ∧
        parseFile blob =
          .ok (credentialOf A.toCredentialCrypto seed.toList name secret.toList encSeed)) ∧
      activateInSoftware A ekPriv name blob = .ok secret.toList ∧
      ∀ name' ≠ name,
        CollisionFreeOn A.toCredentialCrypto (integrityKey A.toCredentialCrypto seed.toList)
          {(protect A.toCredentialCrypto seed.toList name secret.toList).1 ++ name,
            (protect A.toCredentialCrypto seed.toList name secret.toList).1 ++ name'} →
        activateInSoftware A ekPriv name' blob =
          .error "integrity HMAC mismatch (wrong name or EK)") ∧
    ∀ b c, parseFile b = .ok c → b = c.bytes ∧ c.integrity.length = 32 ∧
      c.encIdentity.length = 2 + secretLen ∧ c.encSeed.length < 2 ^ 16 := by
  refine ⟨fun blob hblob => ?_, fun b c h => parseFile_ok.mp h⟩
  obtain ⟨encSeed, hseed, rfl⟩ := makeCredential_ok.mp hblob
  have hsecret : secret.toList.length = secretLen := secret.toList_length
  have hlen : encSeed.length < 2 ^ 16 := by
    have hsize := A.size_le_of_oaepEncrypt hseed
    rw [← A.length_oaepEncrypt hseed] at hsize
    omega
  refine ⟨⟨encSeed, hseed, parseFile_credentialOf hsecret hlen⟩,
    activate_credentialOf hsecret hseed hlen, fun name' hname hfree => ?_⟩
  exact activate_other_name hsecret hseed hlen hname hfree

/-! ### On the registration of the example -/

/-- The name of `sampleAk`. -/
def sampleAkName : Bytes :=
  ofWords 34 [
    0x000b310a59d96ff0fbf8f9d20a1653d3954ac2f1af698a6122b6408876b03af3,
    0xd0f2]

def sampleSecret : List.Vector UInt8 32 := List.Vector.replicate 32 0x11
def sampleSeedPlain : List.Vector UInt8 32 := List.Vector.replicate 32 0x22

/-- AES on the one buffer that is encrypted with it. -/
def sampleCfb : Equiv.Perm Bytes := Equiv.swap (tpm2b sampleSecret.toList) sampleIdentity

theorem length_sampleCfb (buffer : Bytes) : (sampleCfb buffer).length = buffer.length := by
  have hlen : sampleIdentity.length = (tpm2b sampleSecret.toList).length := by
    decide +kernel
  rw [sampleCfb, Equiv.swap_apply_def]
  split_ifs with hplain hcipher
  · rw [hplain, hlen]
  · rw [hcipher, hlen]
  · rfl

/-- The key pair of `sampleEk`. -/
def sampleActivation : ActivationCrypto samplePki where
  toCredentialCrypto := {
    sampleCredential with
    cfbEncrypt := fun _ _ => sampleCfb
    length_cfbEncrypt := fun _ _ => length_sampleCfb }
  PrivateKey := Unit
  publicKey _ := sampleEkKey
  oaepDecrypt _ label cipher :=
    if label = labelIdentity ∧ cipher = sampleSeed then .ok sampleSeedPlain.toList
    else .error "decryption error"
  oaepDecrypt_oaepEncrypt h := by
    simp only [sampleCredential] at h
    split_ifs at h with hkey
    obtain ⟨-, rfl, -, rfl⟩ := hkey
    obtain rfl := Except.ok.inj h
    exact if_pos ⟨rfl, rfl⟩
  size_le_of_oaepEncrypt h := by
    simp only [sampleCredential] at h
    split_ifs at h with hkey
    obtain ⟨rfl, -⟩ := hkey
    decide +kernel
  cfbDecrypt _ _ := sampleCfb
  length_cfbDecrypt _ _ := length_sampleCfb
  cfbDecrypt_cfbEncrypt _ _ := Equiv.swap_apply_self _ _

def sampleIntegrity : List.Vector UInt8 32 :=
  ⟨ofWords 32 [0x0587c0d348395ee968011f3afc6972fbc398e5a93668caa601ed1bcaa1f40099],
    by decide +kernel⟩

/-- The file made for `sampleAkName`. -/
def sampleBlob : Bytes :=
  CredentialFile.bytes ⟨sampleIntegrity.toList, sampleIdentity, sampleSeed⟩

theorem sampleBlob_protect : protect sampleActivation.toCredentialCrypto sampleSeedPlain.toList
    sampleAkName sampleSecret.toList = (sampleIdentity, sampleIntegrity) := by
  decide +kernel

theorem sampleBlob_made : makeCredentialWithSeed sampleActivation.toCredentialCrypto sampleEkKey
    sampleAkName sampleSecret.toList sampleSeedPlain.toList (List.Vector.replicate 32 0x33) =
      .ok sampleBlob := by
  have hseed : sampleActivation.oaepEncrypt sampleEkKey labelIdentity
      (List.Vector.replicate 32 0x33) sampleSeedPlain.toList = .ok sampleSeed := by
    simp only [sampleActivation, sampleCredential]
    exact if_pos ⟨trivial, trivial, rfl, rfl⟩
  refine makeCredential_ok.mpr ⟨sampleSeed, hseed, ?_⟩
  rw [credentialOf, sampleBlob_protect]
  rfl

/-- The file opens for the AK it was made for, and not for that name and a byte more. -/
theorem secret_bound_to_name_sample :
    activateInSoftware sampleActivation () sampleAkName sampleBlob = .ok sampleSecret.toList ∧
      activateInSoftware sampleActivation () (sampleAkName ++ [0]) sampleBlob =
        .error "integrity HMAC mismatch (wrong name or EK)" := by
  have hbound := (secret_bound_to_name sampleActivation () sampleAkName sampleSecret sampleSeedPlain
    (List.Vector.replicate 32 0x33)).1 sampleBlob sampleBlob_made
  refine ⟨hbound.2.1, hbound.2.2 _ (by decide +kernel) ?_⟩
  apply Set.injOn_pair.mpr
  intro heq
  simp only [sampleBlob_protect] at heq
  have hmade : (protect sampleActivation.toCredentialCrypto sampleSeedPlain.toList sampleAkName
      sampleSecret.toList).2 = _ := protect_snd
  simp only [sampleBlob_protect] at hmade
  have hother : ¬ sampleIntegrity = sampleActivation.hmac
      (integrityKey sampleActivation.toCredentialCrypto sampleSeedPlain.toList)
      (sampleIdentity ++ (sampleAkName ++ [0])) := by
    decide +kernel
  exact absurd (hmade.trans heq) hother

end MakeCred

end TactiqAttest.Registrar
