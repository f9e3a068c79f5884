import TactiqAttest.Stop.NvCertifyInfo

/-!
# The grammar of attestation structures

`TPMS_ATTEST` comes in two types here, a quote and the certificate of an NV index.  Each has a
parser of its own, and `attest_grammar` says that the two together accept the serialisations of
their fields, each its own, and nothing else.

A quote keeps its banks as the bytes they were read from, and they are walked again later, without
checks.  Here they are a list, `serialise` writes that list, and the walk gives it back.
-/

open BigEndian

namespace TactiqAttest

open Envelope Stop

/-- The fields of a quote, with its banks as a list. -/
structure QuoteFields where
  qualifiedSigner : Bytes
  extraData : Bytes
  clockInfo : ClockInfo
  firmwareVersion : UInt64
  banks : List Bank
  pcrDigest : Bytes

namespace QuoteFields

/-- The canonical serialisation. -/
def serialise (f : QuoteFields) : Bytes :=
  attestHead tpmStAttestQuote f.qualifiedSigner f.extraData f.clockInfo f.firmwareVersion ++
    be (UInt32.ofNat f.banks.length) ++ f.banks.flatMap bankBytes ++ tpm2b f.pcrDigest

/-- Everything fits the field that counts it, and there are not too many banks. -/
structure Legal (f : QuoteFields) : Prop where
  signer : f.qualifiedSigner.length < 2 ^ 16
  extra : f.extraData.length < 2 ^ 16
  count : f.banks.length ≤ 16
  bitmaps : ∀ bank ∈ f.banks, bank.2.length < 256
  digest : f.pcrDigest.length < 2 ^ 16

/-- The quote that has these fields. -/
def toQuote (f : QuoteFields) (hf : f.Legal) : Quote where
  qualifiedSigner := f.qualifiedSigner
  extraData := f.extraData
  clockInfo := f.clockInfo
  firmwareVersion := f.firmwareVersion
  pcrBanks :=
    { count := UInt32.ofNat f.banks.length
      body := f.banks.flatMap bankBytes
      inRange := by
        have hcount : (UInt32.ofNat f.banks.length).toNat = f.banks.length :=
          UInt32.toNat_ofNat_of_lt' (Nat.lt_of_le_of_lt hf.count (by decide))
        rw [hcount, ← List.append_nil (f.banks.flatMap bankBytes), banksFrom_flatMap hf.bitmaps]
        rfl }
  pcrDigest := f.pcrDigest

/-- The fields of a quote, as those who walk its banks see them. -/
def ofQuote (q : Quote) : QuoteFields :=
  ⟨q.qualifiedSigner, q.extraData, q.clockInfo, q.firmwareVersion, q.pcrBanks.iter, q.pcrDigest⟩

variable {f : QuoteFields} {q : Quote} {b : Bytes} {i : NvCertifyInfo}

theorem toNat_count (hf : f.Legal) :
    (UInt32.ofNat f.banks.length).toNat = f.banks.length :=
  UInt32.toNat_ofNat_of_lt' (Nat.lt_of_le_of_lt hf.count (by decide))

theorem iter_toQuote (hf : f.Legal) : (f.toQuote hf).pcrBanks.iter = f.banks :=
  PcrBanks.iter_ofBanks (toNat_count hf).symm hf.bitmaps rfl

theorem ofQuote_toQuote (hf : f.Legal) : ofQuote (f.toQuote hf) = f := by
  rw [ofQuote, iter_toQuote hf]
  rfl

/-- The serialisation of the fields parses to the quote. -/
theorem parse_serialise (hf : f.Legal) : Quote.parse f.serialise = .ok (f.toQuote hf) := by
  refine Quote.parse_ok.mpr ⟨⟨hf.signer, hf.extra, ?_, ⟨f.banks, (toNat_count hf).symm, hf.bitmaps,
    rfl⟩, hf.digest⟩, rfl⟩
  have hle : (UInt32.ofNat f.banks.length).toNat ≤ 16 := (toNat_count hf).trans_le hf.count
  exact UInt32.le_iff_toNat_le.mpr hle

/-- The walk over the banks of a parsed quote stays in range, yields as many as were announced, and
with them the bytes are those of the fields. -/
theorem of_parse (h : Quote.parse b = .ok q) :
    banksFrom q.pcrBanks.count.toNat q.pcrBanks.body = some q.pcrBanks.iter ∧
      q.pcrBanks.iter.length = q.pcrBanks.count.toNat ∧ (ofQuote q).Legal ∧
      (ofQuote q).serialise = b := by
  obtain ⟨hwire, rfl⟩ := Quote.parse_ok.mp h
  have hlen := hwire.banks.length_iter
  have hcount : q.pcrBanks.count.toNat ≤ 16 := UInt32.le_iff_toNat_le.mp hwire.count
  refine ⟨(Option.some_get _).symm, hlen, ⟨hwire.signer, hwire.extra, hlen.trans_le hcount, ?_,
    hwire.digest⟩, ?_⟩
  · obtain ⟨l, hlength, hall, hbody⟩ := hwire.banks
    show ∀ bank ∈ q.pcrBanks.iter, bank.2.length < 256
    rwa [PcrBanks.iter_ofBanks hlength hall hbody]
  · unfold serialise ofQuote Quote.bytes
    dsimp only
    rw [hlen, UInt32.ofNat_toNat, hwire.banks.body_eq]

/-! ## Two types -/

/-- The type, behind the magic. -/
theorem type_attestHead {type : UInt16} {signer extra rest : Bytes}
    {clock : ClockInfo} {fw : UInt64} :
    ((attestHead type signer extra clock fw ++ rest).drop 4).take 2 = be type := by
  have hmagic : (be tpmGeneratedValue).length = 4 := length_be _
  have htype : (be type).length = 2 := length_be _
  unfold attestHead
  simp only [List.append_assoc]
  rw [← hmagic, List.drop_left, ← htype, List.take_left]

/-- No structure is of both types. -/
theorem not_both (h : Quote.parse b = .ok q) : parseNvCertifyInfo b ≠ .ok i := by
  intro h'
  obtain ⟨-, -, -, hserialise⟩ := of_parse h
  obtain ⟨-, fw, hbytes⟩ := parseNvCertifyInfo_ok.mp h'
  have heq := congrArg (fun l => (l.drop 4).take 2) (hserialise.trans hbytes)
  unfold serialise NvCertifyInfo.bytes at heq
  simp only [List.append_assoc, type_attestHead] at heq
  exact absurd (be_inj.mp heq) (by decide)

/-- **Each parser accepts exactly its grammar, and no structure has both.** -/
theorem attest_grammar :
    (∀ b q, Quote.parse b = .ok q →
      banksFrom q.pcrBanks.count.toNat q.pcrBanks.body = some q.pcrBanks.iter ∧
        q.pcrBanks.iter.length = q.pcrBanks.count.toNat ∧ (ofQuote q).Legal ∧
        (ofQuote q).serialise = b) ∧
    (∀ f : QuoteFields, f.Legal → ∃ q, Quote.parse f.serialise = .ok q ∧ ofQuote q = f) ∧
    (∀ b i, parseNvCertifyInfo b = .ok i ↔
      i.Wire ∧ ∃ firmwareVersion, b = i.bytes firmwareVersion) ∧
    ∀ b q i, ¬ (Quote.parse b = .ok q ∧ parseNvCertifyInfo b = .ok i) :=
  ⟨fun _ _ => of_parse, fun f hf => ⟨f.toQuote hf, parse_serialise hf, ofQuote_toQuote hf⟩,
    fun _ _ => parseNvCertifyInfo_ok, fun _ _ _ h => not_both h.1 h.2⟩

end QuoteFields

end TactiqAttest
