import TactiqAttest.Appraise.AkRule
import TactiqAttest.Envelope.EccGrammar

/-!
# The grammar of attestation keys

`AkArea` is what may vary in the public area of an attestation key: its attributes, its policy and
the coordinates of its point.  `ak_grammar` says that `AkKey::from_tpm2b_public` accepts exactly the
framed areas that obey the rule, with the point and the name that go with them, and that on the way
no slice and no copy is out of range.
-/

open BigEndian

namespace TactiqAttest.Appraise

open Envelope

/-! ## Attributes -/

/-- The attributes an attestation key must carry, one by one. -/
def akAttributes : List UInt32 :=
  [Attr.fixedTpm, Attr.fixedParent, Attr.sensitiveDataOrigin, Attr.restricted, Attr.sign]

/-- A word carries two masks together if it carries each. -/
theorem and_or_eq_iff {a b c : UInt32} :
    a &&& (b ||| c) = b ||| c ↔ a &&& b = b ∧ a &&& c = c := by
  simp only [← UInt32.toBitVec_inj, UInt32.toBitVec_and, UInt32.toBitVec_or]
  constructor
  · intro h
    constructor
    · ext i hi
      have hbit := congrArg (fun v => v[i]) h
      simp only [BitVec.getElem_and, BitVec.getElem_or] at hbit ⊢
      grind
    · ext i hi
      have hbit := congrArg (fun v => v[i]) h
      simp only [BitVec.getElem_and, BitVec.getElem_or] at hbit ⊢
      grind
  · rintro ⟨hb, hc⟩
    ext i hi
    have hbitb := congrArg (fun v => v[i]) hb
    have hbitc := congrArg (fun v => v[i]) hc
    simp only [BitVec.getElem_and, BitVec.getElem_or] at hbitb hbitc ⊢
    grind

theorem and_akRequired_iff {a : UInt32} :
    a &&& akRequired = akRequired ↔ ∀ bit ∈ akAttributes, a &&& bit = bit := by
  rw [akRequired, and_or_eq_iff, and_or_eq_iff, and_or_eq_iff, and_or_eq_iff]
  simp [akAttributes, and_assoc]

/-! ## The areas -/

/-- What may vary in the public area of an attestation key. -/
structure AkArea where
  attributes : UInt32
  authPolicy : Bytes
  x : Bytes
  y : Bytes

namespace AkArea

/-- The `TPMT_PUBLIC`: nameAlg SHA-256, no symmetric algorithm, ECDSA with SHA-256 on P-256, no
KDF. -/
def tpmt (a : AkArea) : Bytes :=
  be tpmAlgEcc ++ (be tpmAlgSha256 ++ (be a.attributes ++ (tpm2b a.authPolicy ++ (be tpmAlgNull ++
    (be tpmAlgEcdsa ++ (be tpmAlgSha256 ++ (be tpmEccNistP256 ++ (be tpmAlgNull ++
    (tpm2b a.x ++ tpm2b a.y)))))))))

/-- The rule: the attributes that are required and the one that is not allowed, and coordinates of
at most 32 bytes. -/
structure Legal (a : AkArea) : Prop where
  size : a.tpmt.length < 2 ^ 16
  required : ∀ bit ∈ akAttributes, a.attributes &&& bit = bit
  signOnly : a.attributes &&& Attr.decrypt = 0
  lengthX : a.x.length ≤ 32
  lengthY : a.y.length ≤ 32

/-- The fields of the area. -/
def toPublic (a : AkArea) : EccPublic where
  tpmt := a.tpmt
  nameAlg := tpmAlgSha256
  attributes := a.attributes
  authPolicy := a.authPolicy
  symmetric := tpmAlgNull
  scheme := tpmAlgEcdsa
  schemeHash := tpmAlgSha256
  curve := tpmEccNistP256
  kdf := tpmAlgNull
  x := a.x
  y := a.y

variable {a : AkArea} {keyBits mode kdfHash : UInt16}

/-- Nothing is left out of the area that the parser would skip. -/
theorem layout_toPublic : a.toPublic.layout keyBits mode kdfHash = a.tpmt := by
  have hnull : ∀ v, EccPublic.optional (tpmAlgNull ≠ tpmAlgNull) v = [] := fun v => if_neg (by simp)
  have hecdsa : EccPublic.optional (tpmAlgEcdsa ≠ tpmAlgNull) tpmAlgSha256 = be tpmAlgSha256 :=
    if_pos (by decide)
  unfold EccPublic.layout toPublic tpmt
  simp only [hnull, hecdsa, List.nil_append]

theorem Legal.authPolicy (ha : a.Legal) : a.authPolicy.length < 2 ^ 16 := by
  have hsize := ha.size
  unfold tpmt at hsize
  simp only [List.length_append, length_tpm2b] at hsize
  omega

theorem parse_toPublic (ha : a.Legal) : EccPublic.parseTpm2b (tpm2b a.tpmt) = .ok a.toPublic := by
  have hx : a.x.length < 2 ^ 16 := Nat.lt_of_le_of_lt ha.lengthX (by decide)
  have hy : a.y.length < 2 ^ 16 := Nat.lt_of_le_of_lt ha.lengthY (by decide)
  have hscheme : tpmAlgEcdsa = tpmAlgNull → tpmAlgSha256 = 0 := fun h => absurd h (by decide)
  exact EccPublic.parseTpm2b_iff.mpr ⟨⟨ha.size, ha.authPolicy, hx, hy, hscheme⟩, rfl, 0, 0, 0,
    layout_toPublic.symm⟩

theorem isAk_toPublic (ha : a.Legal) : IsAk a.toPublic :=
  ⟨and_akRequired_iff.mpr ha.required, ha.signOnly, rfl, rfl, rfl, rfl, rfl, ha.lengthX, ha.lengthY⟩

end AkArea

/-- A public area that obeys the rule and has a name is that of an attestation key. -/
theorem IsAk.exists_area {p : EccPublic} (h : IsAk p) (hsized : p.Sized)
    (halg : p.nameAlg = tpmAlgSha256) {keyBits mode kdfHash : UInt16}
    (hlayout : p.tpmt = p.layout keyBits mode kdfHash) :
    ∃ a : AkArea, a.Legal ∧ p = a.toPublic := by
  obtain ⟨tpmt, nameAlg, attributes, authPolicy, symmetric, scheme, schemeHash, curve, kdf, x, y⟩ :=
    p
  obtain rfl : nameAlg = tpmAlgSha256 := halg
  obtain rfl : symmetric = tpmAlgNull := h.noSymmetric
  obtain rfl : scheme = tpmAlgEcdsa := h.scheme
  obtain rfl : schemeHash = tpmAlgSha256 := h.schemeHash
  obtain rfl : curve = tpmEccNistP256 := h.curve
  obtain rfl : kdf = tpmAlgNull := h.noKdf
  -- what is left are the fields of an area
  have htpmt : tpmt = (AkArea.mk attributes authPolicy x y).tpmt :=
    hlayout.trans (AkArea.layout_toPublic (a := ⟨attributes, authPolicy, x, y⟩))
  obtain rfl := htpmt
  exact ⟨⟨attributes, authPolicy, x, y⟩, ⟨hsized.tpmt, and_akRequired_iff.mp h.required, h.signOnly,
    h.lengthX, h.lengthY⟩, rfl⟩

/-! ## The keys -/

variable {C : Crypto} (fromAffine : (x y : Bytes) → Except String C.VerifyingKey)

/-- A step that does not panic. -/
def liftExcept {α : Type} (x : Except String α) : ExceptT String Option α := ExceptT.mk (some x)

/-- `AkKey::from_tpm2b_public`, with slices and copies that may panic. -/
def AkKey.fromIndexed (bytes : Bytes) : ExceptT String Option (AkKey C) := do
  let p ← ExceptT.mk (EccPublic.parseIndexed bytes)
  liftExcept (Except.ensure (p.attributes &&& akRequired = akRequired)
    (s!"not an AK: attributes 0x{Text.hex 8 p.attributes.toNat} lack " ++
      s!"0x{Text.hex 8 (akRequired &&& ~~~p.attributes).toNat} " ++
      "(fixedTPM, fixedParent, sensitiveDataOrigin, restricted, sign)"))
  liftExcept (Except.ensure (p.attributes &&& Attr.decrypt = 0) "not an AK: key also decrypts")
  liftExcept (Except.ensure (p.symmetric = tpmAlgNull ∧ p.kdf = tpmAlgNull)
    "not an AK: symmetric or KDF scheme set on a signing key")
  liftExcept (Except.ensure (p.scheme = tpmAlgEcdsa ∧ p.schemeHash = tpmAlgSha256)
    (s!"not an AK: scheme 0x{Text.hex 4 p.scheme.toNat}/0x{Text.hex 4 p.schemeHash.toNat}, " ++
      "want ECDSA/SHA-256"))
  liftExcept (Except.ensure (p.curve = tpmEccNistP256)
    s!"not an AK: curve 0x{Text.hex 4 p.curve.toNat}, want NIST P-256")
  liftExcept (Except.ensure (p.x.length ≤ 32 ∧ p.y.length ≤ 32)
    "not an AK: point coordinate longer than 32 bytes")
  let x ← ExceptT.lift (Panicking.copyToEnd 32 p.x)
  let y ← ExceptT.lift (Panicking.copyToEnd 32 p.y)
  let vk ← liftExcept ((fromAffine x y).mapError fun e => s!"not an AK: point: {e}")
  let name ← liftExcept (p.name C)
  return { vk, name }

section Steps

variable {α β : Type} {x : Except String α} {f : α → ExceptT String Option β}
  {g : α → Except String β}

/-- A step that does not panic, and then what does not after its success. -/
theorem liftExcept_bind (h : ∀ a, x = .ok a → (f a).run = some (g a)) :
    (liftExcept x >>= f).run = some (x >>= g) := by
  rcases x with e | a
  · rfl
  · exact h a rfl

/-- The copy of a coordinate, once its length was checked. -/
theorem lift_copyToEnd_bind {v : Bytes} {f : Bytes → ExceptT String Option β} (hv : v.length ≤ 32) :
    (ExceptT.lift (Panicking.copyToEnd 32 v) >>= f).run = (f (padCoordinate v)).run := by
  have hcopy : Panicking.copyToEnd 32 v = some (padCoordinate v) := if_pos hv
  rw [hcopy]
  rfl

end Steps

variable {fromAffine} {bytes : Bytes} {key : AkKey C}

/-- **Nothing is out of range** when a public area is judged. -/
theorem fromIndexed_eq (bytes : Bytes) :
    (AkKey.fromIndexed fromAffine bytes).run = some (AkKey.fromTpm2bPublic fromAffine bytes) := by
  unfold AkKey.fromIndexed AkKey.fromTpm2bPublic
  rw [EccPublic.parseIndexed_eq]
  refine liftExcept_bind fun p _ => ?_
  refine liftExcept_bind fun _ _ => liftExcept_bind fun _ _ => liftExcept_bind fun _ _ => ?_
  refine liftExcept_bind fun _ _ => liftExcept_bind fun _ _ => liftExcept_bind fun _ hlen => ?_
  obtain ⟨hx, hy⟩ := Except.ensure_eq_ok.mp hlen
  rw [lift_copyToEnd_bind hx, lift_copyToEnd_bind hy]
  exact liftExcept_bind fun _ _ => liftExcept_bind fun _ _ => rfl

/-- What is accepted is the framed area of an attestation key, and the key is its point with its
name. -/
theorem fromTpm2bPublic_iff : AkKey.fromTpm2bPublic fromAffine bytes = .ok key ↔
    ∃ a : AkArea, a.Legal ∧ bytes = tpm2b a.tpmt ∧
      fromAffine (padCoordinate a.x) (padCoordinate a.y) = .ok key.vk ∧
      key.name.toList = be (0x000B : UInt16) ++ (C.sha256 a.tpmt).toList := by
  rw [fromTpm2bPublic_ok]
  constructor
  · rintro ⟨p, hparse, hak, hpoint, hname⟩
    obtain ⟨halg, hname⟩ := (EccPublic.name_ok C).mp hname
    obtain ⟨hsized, hbytes, keyBits, mode, kdfHash, hlayout⟩ := EccPublic.parseTpm2b_iff.mp hparse
    obtain ⟨a, ha, rfl⟩ := hak.exists_area hsized halg hlayout
    exact ⟨a, ha, hbytes, hpoint, hname⟩
  · rintro ⟨a, ha, rfl, hpoint, hname⟩
    exact ⟨a.toPublic, AkArea.parse_toPublic ha, AkArea.isAk_toPublic ha, hpoint,
      (EccPublic.name_ok C).mpr ⟨rfl, hname⟩⟩

/-- **`AkKey::from_tpm2b_public` accepts exactly the rule**, and no slice or copy on the way is out
of range. -/
theorem ak_grammar (C : Crypto) (fromAffine : (x y : Bytes) → Except String C.VerifyingKey)
    (bytes : Bytes) :
    (∀ key : AkKey C, AkKey.fromTpm2bPublic fromAffine bytes = .ok key ↔
      ∃ a : AkArea, a.Legal ∧ bytes = tpm2b a.tpmt ∧
        fromAffine (padCoordinate a.x) (padCoordinate a.y) = .ok key.vk ∧
        key.name.toList = be (0x000B : UInt16) ++ (C.sha256 a.tpmt).toList) ∧
      (AkKey.fromIndexed fromAffine bytes).run = some (AkKey.fromTpm2bPublic fromAffine bytes) :=
  ⟨fun _ => fromTpm2bPublic_iff, fromIndexed_eq bytes⟩

end TactiqAttest.Appraise
