import TactiqAttest.Envelope.Tpm
import TactiqAttest.Stop.NvCertifyInfo

/-!
# What a TPM attests

The structures a TPM signs with a restricted key.  All of them start with `TPM_GENERATED_VALUE` and
a type, and a TPM signs nothing else that starts so; that is what makes a signature over such bytes
the TPM's own statement.  The two types the checks read are spelled out here, the others are kept as
what follows the type.

The type comes before everything else, so the bytes of an attestation tell which one it is:
`Attestation.quote_of_parse` and `Attestation.nv_of_parse`.
-/

open BigEndian

namespace TactiqAttest.Tpm

open Envelope Stop

/-- A structure a TPM signs, and what it says. -/
inductive Attestation
  /-- The values of selected PCRs. -/
  | quote (q : Quote) (wire : q.Wire)
  /-- The contents of an NV index. -/
  | nv (i : NvCertifyInfo) (firmwareVersion : UInt64) (wire : i.Wire)
  /-- Anything else a TPM attests to. -/
  | other (type : UInt16) (rest : Bytes) (notQuote : type ≠ tpmStAttestQuote)
      (notNv : type ≠ stAttestNv)

namespace Attestation

/-- The two types are two. -/
theorem stAttestNv_ne : stAttestNv ≠ tpmStAttestQuote := by decide

/-- The `type` field. -/
def type : Attestation → UInt16
  | .quote _ _ => tpmStAttestQuote
  | .nv _ _ _ => stAttestNv
  | .other type _ _ _ => type

/-- The bytes that are signed. -/
def bytes : Attestation → Bytes
  | .quote q _ => q.bytes
  | .nv i firmwareVersion _ => i.bytes firmwareVersion
  | .other type rest _ _ => be tpmGeneratedValue ++ (be type ++ rest)

theorem exists_rest (a : Attestation) :
    ∃ rest, a.bytes = be tpmGeneratedValue ++ (be a.type ++ rest) := by
  have hhead : ∀ type signer extra clockInfo firmwareVersion tail, ∃ rest,
      attestHead type signer extra clockInfo firmwareVersion ++ tail =
        be tpmGeneratedValue ++ (be type ++ rest) := by
    intro type signer extra clockInfo firmwareVersion tail
    simp only [attestHead, List.append_assoc]
    exact ⟨_, rfl⟩
  cases a with
  | quote q wire =>
    simp only [bytes, type, Quote.bytes, List.append_assoc]
    exact hhead _ _ _ _ _ _
  | nv i firmwareVersion wire =>
    simp only [bytes, type, NvCertifyInfo.bytes, List.append_assoc]
    exact hhead _ _ _ _ _ _
  | other type rest _ _ => exact ⟨rest, rfl⟩

/-- Attestations with the same bytes are of the same type. -/
theorem type_eq_of_bytes {a b : Attestation} (h : a.bytes = b.bytes) : a.type = b.type := by
  obtain ⟨rest, ha⟩ := a.exists_rest
  obtain ⟨rest', hb⟩ := b.exists_rest
  have hrest : be a.type ++ rest = be b.type ++ rest' :=
    List.append_cancel_left (ha.symm.trans (h.trans hb))
  have hlen : (be a.type).length = (be b.type).length := by rw [length_be, length_be]
  exact be_inj.mp (List.append_inj_left hrest hlen)

/-- An attestation whose bytes parse as a quote is that quote. -/
theorem quote_of_parse {a : Attestation} {q : Quote} (h : Quote.parse a.bytes = .ok q) :
    ∃ wire, a = .quote q wire := by
  obtain ⟨wire, hbytes⟩ := Quote.parse_ok.mp h
  have htype : a.type = tpmStAttestQuote := type_eq_of_bytes (b := .quote q wire) hbytes
  cases a with
  | quote q' wire' =>
    have hq' : Quote.parse q'.bytes = .ok q' := Quote.parse_ok.mpr ⟨wire', rfl⟩
    obtain rfl : q' = q := Except.ok.inj (hq'.symm.trans h)
    exact ⟨wire, rfl⟩
  | nv i firmwareVersion wire' => exact absurd htype stAttestNv_ne
  | other type rest notQuote notNv => exact absurd htype notQuote

/-- An attestation whose bytes parse as a certify is that certify. -/
theorem nv_of_parse {a : Attestation} {i : NvCertifyInfo}
    (h : parseNvCertifyInfo a.bytes = .ok i) :
    ∃ firmwareVersion wire, a = .nv i firmwareVersion wire := by
  obtain ⟨wire, firmwareVersion, hbytes⟩ := parseNvCertifyInfo_ok.mp h
  have htype : a.type = stAttestNv :=
    type_eq_of_bytes (b := .nv i firmwareVersion wire) hbytes
  cases a with
  | quote q' wire' => exact absurd htype.symm stAttestNv_ne
  | nv i' firmwareVersion' wire' =>
    have hi' : parseNvCertifyInfo (i'.bytes firmwareVersion') = .ok i' :=
      parseNvCertifyInfo_ok.mpr ⟨wire', firmwareVersion', rfl⟩
    obtain rfl : i' = i := Except.ok.inj (hi'.symm.trans h)
    exact ⟨firmwareVersion', wire', rfl⟩
  | other type rest notQuote notNv => exact absurd htype notNv

/-- The clock an attestation of one of the two types carries. -/
def clockInfo : Attestation → Option ClockInfo
  | .quote q _ => some q.clockInfo
  | .nv i _ _ => some i.clock
  | .other _ _ _ _ => none

end Attestation

end TactiqAttest.Tpm
