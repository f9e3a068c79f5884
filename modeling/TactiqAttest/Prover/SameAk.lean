import TactiqAttest.Bytes.Hex
import TactiqAttest.Envelope.EccGrammar
import TactiqAttest.Prover.Provision

/-!
# The same attestation key

Before the prover uses the key at its handle, `same_ak` compares it with the one recorded when the
device was provisioned, by name.  A name is a digest of the public area without the size in front,
and the parser does not keep every word of the area.

`sameAk_iff`: two strings are the same key exactly if they are the same string, and that string is a
public area with a name.
-/

open BigEndian

namespace TactiqAttest.Prover

open Envelope Provision

variable (C : Crypto) (cfg : Config)

/-- The name of a public area: `EccPublic::parse_tpm2b(..).and_then(|p| p.name())`. -/
def nameOf (bytes : Bytes) : Except String (List.Vector UInt8 34) := do
  let p ← EccPublic.parseTpm2b bytes
  p.name C

/-- `same_ak`. -/
def sameAk (recorded atHandle : Bytes) : Except String Unit := do
  let r ← (nameOf C recorded).mapError fun e =>
    s!"recorded AK public area unusable ({e}); it was not written by this agent version, " ++
      "re-provision deliberately"
  let akh := match akHandle cfg with
    | .ok h => h
    | .error _ => defaultAkHandle
  let h ← (nameOf C atHandle).mapError fun e => s!"object at {akh} is not an ECC AK ({e})"
  Except.ensure (r = h)
    (s!"object at {akh} has name {Hex.encode h.toList}, the recorded AK has " ++
      s!"{Hex.encode r.toList}; refusing to use a key that is not the one provisioned " ++
      "(DDR-005 decision 4)")

/-- A public area, exactly framed, whose name algorithm is SHA-256. -/
def IsNamed (bytes : Bytes) : Prop :=
  ∃ (p : EccPublic) (keyBits mode kdfHash : UInt16), p.Sized ∧ p.nameAlg = tpmAlgSha256 ∧
    p.tpmt = p.layout keyBits mode kdfHash ∧ bytes = tpm2b p.tpmt

variable {C cfg} {a b : Bytes} {n : List.Vector UInt8 34}

/-- The bytes behind the size of a framed string. -/
theorem drop_tpm2b (v : Bytes) : (tpm2b v).drop 2 = v := by
  have hwidth : (be (UInt16.ofNat v.length)).length = 2 := length_be _
  show (be (UInt16.ofNat v.length) ++ v).drop 2 = v
  rw [← hwidth, List.drop_left]

/-- What has a name is a public area, and the name is made of its digest. -/
theorem nameOf_ok : nameOf C a = .ok n ↔
    IsNamed a ∧ n.toList = be tpmAlgSha256 ++ (C.sha256 (a.drop 2)).toList := by
  unfold nameOf
  simp only [Except.bind_eq_ok, EccPublic.parseTpm2b_iff, EccPublic.name_ok]
  constructor
  · rintro ⟨p, ⟨hsized, rfl, keyBits, mode, kdfHash, hlayout⟩, halg, hn⟩
    exact ⟨⟨p, keyBits, mode, kdfHash, hsized, halg, hlayout, rfl⟩, by rw [hn, drop_tpm2b]⟩
  · rintro ⟨⟨p, keyBits, mode, kdfHash, hsized, halg, hlayout, rfl⟩, hn⟩
    rw [drop_tpm2b] at hn
    exact ⟨p, ⟨hsized, rfl, keyBits, mode, kdfHash, hlayout⟩, halg, hn⟩

/-- A public area has a name. -/
theorem IsNamed.exists_name (h : IsNamed a) : ∃ n, nameOf C a = .ok n :=
  ⟨⟨be tpmAlgSha256 ++ (C.sha256 (a.drop 2)).toList, by simp⟩, nameOf_ok.mpr ⟨h, rfl⟩⟩

/-- Two framed strings are equal if what they frame is. -/
theorem IsNamed.eq_of_drop (ha : IsNamed a) (hb : IsNamed b) (h : a.drop 2 = b.drop 2) : a = b := by
  obtain ⟨p, _, _, _, -, -, -, rfl⟩ := ha
  obtain ⟨q, _, _, _, -, -, -, rfl⟩ := hb
  rw [drop_tpm2b, drop_tpm2b] at h
  rw [h]

/-- What passes has one name. -/
theorem sameAk_ok : sameAk C cfg a b = .ok () ↔ ∃ n, nameOf C a = .ok n ∧ nameOf C b = .ok n := by
  unfold sameAk
  simp only [Except.bind_eq_ok, Except.mapError_eq_ok, Except.ensure_eq_ok]
  constructor
  · rintro ⟨r, hr, h, hh, rfl⟩
    exact ⟨r, hr, hh⟩
  · rintro ⟨n, hr, hh⟩
    exact ⟨n, hr, n, hh, rfl⟩

/-- **The check of the key is identity of the bytes**, unless the digests of the two areas
collide. -/
theorem sameAk_iff (cfg : Config) (a b : Bytes) (hfree : C.CollisionFreeOn {a.drop 2, b.drop 2}) :
    sameAk C cfg a b = .ok () ↔ a = b ∧ IsNamed a := by
  rw [sameAk_ok]
  constructor
  · rintro ⟨n, ha, hb⟩
    obtain ⟨hnamed, hn⟩ := nameOf_ok.mp ha
    obtain ⟨hnamed', hn'⟩ := nameOf_ok.mp hb
    -- one name, so one digest, so one area
    have hdigest : C.sha256 (a.drop 2) = C.sha256 (b.drop 2) :=
      List.Vector.toList_injective (List.append_cancel_left (hn.symm.trans hn'))
    exact ⟨hnamed.eq_of_drop hnamed' (hfree (Or.inl rfl) (Or.inr rfl) hdigest), hnamed⟩
  · rintro ⟨rfl, hnamed⟩
    obtain ⟨n, hn⟩ := hnamed.exists_name (C := C)
    exact ⟨n, hn, hn⟩

/-! ### Two keys -/

/-- The public area of a key at a small point. -/
def sampleKey (y : UInt8) : EccPublic where
  tpmt := encode 2 0x0023 ++ encode 2 0x000B ++ encode 4 0x00050072 ++ encode 2 0 ++
    encode 2 0x0010 ++ encode 2 0x0018 ++ encode 2 0x000B ++ encode 2 0x0003 ++ encode 2 0x0010 ++
    [0x00, 0x01, 0x07] ++ [0x00, 0x01, y]
  nameAlg := 0x000B
  attributes := 0x00050072
  authPolicy := []
  symmetric := 0x0010
  scheme := 0x0018
  schemeHash := 0x000B
  curve := 0x0003
  kdf := 0x0010
  x := [0x07]
  y := [y]

def sampleConfig : Config := ⟨"keys", "work", none, none, none⟩

/-- A key is itself, and not the key whose last byte is another. -/
theorem sameAk_iff_sample :
    sameAk (.ofTable []) sampleConfig (tpm2b (sampleKey 1).tpmt) (tpm2b (sampleKey 1).tpmt) =
        .ok () ∧
      sameAk (.ofTable []) sampleConfig (tpm2b (sampleKey 1).tpmt) (tpm2b (sampleKey 2).tpmt) ≠
        .ok () := by
  have hnamed : IsNamed (tpm2b (sampleKey 1).tpmt) := by
    refine ⟨sampleKey 1, 0, 0, 0, ⟨?_, ?_, ?_, ?_, ?_⟩, rfl, ?_, rfl⟩
    all_goals decide +kernel
  have hother : (Crypto.ofTable []).CollisionFreeOn
      {(tpm2b (sampleKey 1).tpmt).drop 2, (tpm2b (sampleKey 2).tpmt).drop 2} := by
    apply Set.injOn_pair.mpr
    intro heq
    have hdigests : (Crypto.ofTable []).sha256 ((tpm2b (sampleKey 1).tpmt).drop 2) ≠
        (Crypto.ofTable []).sha256 ((tpm2b (sampleKey 2).tpmt).drop 2) := by
      decide +kernel
    exact absurd heq hdigests
  have hself : (Crypto.ofTable []).CollisionFreeOn
      {(tpm2b (sampleKey 1).tpmt).drop 2, (tpm2b (sampleKey 1).tpmt).drop 2} :=
    Set.injOn_pair.mpr fun _ => rfl
  refine ⟨(sameAk_iff sampleConfig _ _ hself).mpr ⟨rfl, hnamed⟩, fun h => ?_⟩
  obtain ⟨heq, -⟩ := (sameAk_iff sampleConfig _ _ hother).mp h
  have hne : tpm2b (sampleKey 1).tpmt ≠ tpm2b (sampleKey 2).tpmt := by decide +kernel
  exact hne heq

end TactiqAttest.Prover
