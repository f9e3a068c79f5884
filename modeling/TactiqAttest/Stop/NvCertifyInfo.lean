import TactiqAttest.Envelope.Tpm
import TactiqAttest.Programs.Results

/-!
# The certified counter

`TPMS_ATTEST` of type `TPM_ST_ATTEST_NV`, as `attest-stop` parses it, and the check that a certify
says what a stop record says.  The structure starts as a quote does; what it attests is the name of
an NV index, an offset, and the contents read there.

* `parseNvCertifyInfo_ok`: what the parser accepts is a serialisation of what it returns, for some
  firmware version, which it skips;
* `checkCounterCertify_ok`: the check passes exactly on a certify bound to the qualifying data, of
  the named index, covering the whole counter, at the record's epoch.
-/

open BigEndian

namespace TactiqAttest.Stop

open Envelope (attestHead tpm2b)

/-- `TPM_GENERATED`: every TPM-produced attestation starts with it. -/
def tpmGenerated : UInt32 := 0xFF544347

/-- `TPM_ST_ATTEST_NV`. -/
def stAttestNv : UInt16 := 0x8014

/-- When, by its own clock, the TPM produced a structure.  The crate repeats the four fields of the
envelope's `ClockInfo`. -/
abbrev TpmClock := Envelope.ClockInfo

/-- `TpmClock::same_boot`: no reset and no restart between the two. -/
def sameBoot (a b : TpmClock) : Bool :=
  a.resetCount == b.resetCount && a.restartCount == b.restartCount

theorem sameBoot_iff {a b : TpmClock} :
    sameBoot a b = true ↔ a.resetCount = b.resetCount ∧ a.restartCount = b.restartCount := by
  rw [sameBoot, Bool.and_eq_true, beq_iff_eq, beq_iff_eq]

/-- The fields of the structure that a check of the stop counter needs. -/
structure NvCertifyInfo where
  qualifiedSigner : Bytes
  extraData : Bytes
  clock : TpmClock
  indexName : Bytes
  offset : UInt16
  contents : Bytes

namespace Be

/-- The error of `Be::take`. -/
def needs (n left : ℕ) : String := s!"nv certify: needs {n} bytes, {left} left"

def word (ω : Type) [Word ω] : Reader String ω := Reader.word ω (needs (Word.width ω))

def tpm2b : Reader String Bytes := Reader.counted UInt16 (needs 2) needs

end Be

/-- The reader behind `parse_nv_certify_info`. -/
def nvCertifyInfo : Reader String NvCertifyInfo := do
  let magic ← Be.word UInt32
  Reader.ensure (magic = tpmGenerated) "nv certify: not a TPM-generated structure"
  let type ← Be.word UInt16
  Reader.ensure (type = stAttestNv)
    s!"nv certify: type 0x{Text.hex 4 type.toNat}, expected 0x{Text.hex 4 stAttestNv.toNat}"
  let qualifiedSigner ← Be.tpm2b
  let extraData ← Be.tpm2b
  let clock ← Be.word UInt64
  let resetCount ← Be.word UInt32
  let restartCount ← Be.word UInt32
  let safe ← Reader.flag (Be.needs 1) fun v => s!"nv certify: safe = {v.toNat}, want 0 or 1"
  -- `skip(8)`: the firmware version
  let _ ← Reader.take 8 (Be.needs 8)
  let indexName ← Be.tpm2b
  let offset ← Be.word UInt16
  let contents ← Be.tpm2b
  Reader.finish fun left => s!"nv certify: {left} trailing bytes"
  return { qualifiedSigner, extraData, clock := ⟨clock, resetCount, restartCount, safe⟩,
           indexName, offset, contents }

/-- `parse_nv_certify_info`. -/
def parseNvCertifyInfo (attest : Bytes) : Except String NvCertifyInfo := nvCertifyInfo.parse attest

namespace NvCertifyInfo

/-- The serialisation, with a firmware version. -/
def bytes (i : NvCertifyInfo) (firmwareVersion : UInt64) : Bytes :=
  attestHead stAttestNv i.qualifiedSigner i.extraData i.clock firmwareVersion ++
    tpm2b i.indexName ++ be i.offset ++ tpm2b i.contents

/-- Its parts fit their length fields. -/
structure Wire (i : NvCertifyInfo) : Prop where
  signer : i.qualifiedSigner.length < 65536
  extra : i.extraData.length < 65536
  name : i.indexName.length < 65536
  contents : i.contents.length < 65536

end NvCertifyInfo

/-- **The parser accepts exactly the serialisations.** -/
theorem parseNvCertifyInfo_ok {b : Bytes} {i : NvCertifyInfo} :
    parseNvCertifyInfo b = .ok i ↔ i.Wire ∧ ∃ firmwareVersion, b = i.bytes firmwareVersion := by
  rw [parseNvCertifyInfo, Reader.parse_ok, nvCertifyInfo]
  simp only [Reader.run_bind_ok, Be.word, Be.tpm2b, Reader.run_word_ok, Reader.run_counted_ok,
    Reader.run_ensure_ok, Reader.run_flag_ok, Reader.run_take_ok, Reader.run_finish_ok,
    Reader.run_pure_ok]
  constructor
  · rintro ⟨_, magic, _, h₁, _, _, ⟨h₂, h₃⟩, type, _, h₄, _, _, ⟨h₅, h₆⟩, signer, _,
      ⟨hsigner, h₇⟩, extra, _, ⟨hextra, h₈⟩, clock, _, h₉, reset, _, h₁₀, restart, _, h₁₁,
      safe, _, h₁₂, fw, _, ⟨hfw, h₁₃⟩, name, _, ⟨hname, h₁₄⟩, offset, _, h₁₅, contents, _,
      ⟨hcontents, h₁₆⟩, _, _, ⟨h₁₇, h₁₈⟩, h₁₉, h₂₀⟩
    subst_vars
    refine ⟨⟨hsigner, hextra, hname, hcontents⟩, ofBe fw, ?_⟩
    have hbe : be (ofBe fw : UInt64) = fw := be_ofBe hfw
    simp only [NvCertifyInfo.bytes, attestHead, hbe, Envelope.ClockInfo.bytes, List.append_assoc,
      List.append_nil, List.cons_append, List.nil_append]
    rfl
  · rintro ⟨⟨hsigner, hextra, hname, hcontents⟩, fw, rfl⟩
    refine ⟨[], tpmGenerated, _, ?_, (), _, ⟨rfl, rfl⟩, stAttestNv, _, rfl, (), _, ⟨rfl, rfl⟩,
      i.qualifiedSigner, _, ⟨hsigner, rfl⟩, i.extraData, _, ⟨hextra, rfl⟩, i.clock.clock, _, rfl,
      i.clock.resetCount, _, rfl, i.clock.restartCount, _, rfl, i.clock.safe, _, rfl, be fw, _,
      ⟨length_be fw, rfl⟩, i.indexName, _, ⟨hname, rfl⟩, i.offset, _, rfl, i.contents, [],
      ⟨hcontents, rfl⟩, (), [], ⟨rfl, rfl⟩, rfl, rfl⟩
    simp only [NvCertifyInfo.bytes, attestHead, Envelope.ClockInfo.bytes, List.append_assoc,
      List.append_nil, List.cons_append, List.nil_append]
    rfl

/-- What parses as a certify starts with `TPM_GENERATED_VALUE`. -/
theorem isPrefix_of_parseNvCertifyInfo {b : Bytes} {i : NvCertifyInfo}
    (h : parseNvCertifyInfo b = .ok i) : be tpmGenerated <+: b := by
  obtain ⟨-, fw, rfl⟩ := parseNvCertifyInfo_ok.mp h
  simp only [NvCertifyInfo.bytes, attestHead, List.append_assoc]
  exact List.prefix_append _ _

/-! ## The check -/

/-- `check_counter_certify`. -/
def checkCounterCertify (attest : Bytes) (qualifying : List.Vector UInt8 32) (indexName : Bytes)
    (stopEpoch : UInt64) : Except String Unit := do
  let i ← parseNvCertifyInfo attest
  Except.ensure (i.extraData = qualifying.toList)
    "nv certify: bound to a different record or nonce"
  Except.ensure (i.indexName = indexName) "nv certify: certifies a different NV index"
  Except.ensure (i.offset = 0 ∧ i.contents.length = 8)
    s!"nv certify: covers {i.contents.length} bytes at offset {i.offset.toNat}, expected 8 at 0"
  let v : UInt64 := ofBe i.contents
  Except.ensure (v = stopEpoch)
    s!"nv certify: the TPM read {v.toNat}, the record says {stopEpoch.toNat}"

theorem checkCounterCertify_ok {attest : Bytes} {qualifying : List.Vector UInt8 32}
    {indexName : Bytes} {stopEpoch : UInt64} {u : Unit} :
    checkCounterCertify attest qualifying indexName stopEpoch = .ok u ↔
      ∃ i, parseNvCertifyInfo attest = .ok i ∧ i.extraData = qualifying.toList ∧
        i.indexName = indexName ∧ i.offset = 0 ∧ i.contents = be stopEpoch := by
  unfold checkCounterCertify
  simp only [Except.bind_eq_ok, Except.ensure_eq_ok, exists_const]
  refine exists_congr fun i => and_congr_right fun _ => and_congr_right fun _ =>
    and_congr_right fun _ => ?_
  constructor
  · rintro ⟨⟨hoffset, hlen⟩, rfl⟩
    exact ⟨hoffset, (be_ofBe hlen).symm⟩
  · rintro ⟨hoffset, hcontents⟩
    refine ⟨⟨hoffset, ?_⟩, ?_⟩
    · rw [hcontents, length_be, width_uint64]
    · rw [hcontents, ofBe_be]

/-! ## The name of the stop counter -/

/-- The TPM handle of the stop counter. -/
def stopNvIndex : UInt32 := 0x01500017

/-- Its attribute word once written: counter, authwrite, authread, written. -/
def stopNvAttributesWritten : UInt32 := 0x20040014

/-- `stop_index_name`: the name follows from the definition of the index alone. -/
def stopIndexName (C : Crypto) : List.Vector UInt8 34 :=
  ⟨be (0x000B : UInt16) ++ (C.sha256 (be stopNvIndex ++ be (0x000B : UInt16) ++
    be stopNvAttributesWritten ++ be (0 : UInt16) ++ be (8 : UInt16))).toList, by simp⟩

end TactiqAttest.Stop
