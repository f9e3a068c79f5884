import TactiqAttest.Bytes.Codec
import TactiqAttest.Stop.NvCertifyInfo
import TactiqAttest.Stop.Receipt

/-!
# The three formats of a receipt

A stop record, a certify section and a receipt are each read from the bytes they are written as, and
from no others (`formats_strict`).  The parsers' iffs give most of it; what is left is that no
accepted string is the beginning of another, and that a string of one byte is not accepted.

`certify_names_one` is what that gives for the certify of a record: record and nonce are hashed one
after the other, without lengths, and still no other record and nonce give the same bytes.
-/

open BigEndian

namespace TactiqAttest.Stop

variable {b t : Bytes} {c : UInt8} {n : ℕ}

/-- The beginning of a string of equal bytes. -/
theorem eq_of_mem_of_replicate_eq (h : List.replicate n c = b ++ t) : ∀ d ∈ b, d = c := by
  intro d hd
  have hmem : d ∈ List.replicate n c := by
    rw [h]
    exact List.mem_append_left t hd
  exact List.eq_of_mem_replicate hmem

/-! ## Stop records -/

theorem StopRecord.strict : Strict StopRecord.encode StopRecord.parse := by
  refine .of_codec (.of_legal StopRecord.encode_ok StopRecord.parse_ok) ?_ ?_
  · intro r r' b x h h'
    obtain ⟨-, rfl⟩ := StopRecord.parse_ok.mp h
    obtain ⟨-, heq⟩ := StopRecord.parse_ok.mp h'
    have hlen := congrArg List.length heq
    rw [List.length_append, StopRecord.length_bytes, StopRecord.length_bytes] at hlen
    obtain ⟨kind, state, epoch, policy⟩ := r
    obtain ⟨kind', state', epoch', policy'⟩ := r'
    -- the second byte says how long the record is
    cases kind <;> cases kind'
    case refusal.status =>
      have hkind : kindRefusal = kindStatus := congrArg (fun l => l.getD 1 0) heq
      exact absurd hkind (by decide)
    case status.refusal =>
      have hkind : kindStatus = kindRefusal := congrArg (fun l => l.getD 1 0) heq
      exact absurd hkind (by decide)
    all_goals
      simp only at hlen
      exact List.length_eq_zero_iff.mp (by omega)
  · intro c n r hc h
    have hversion := eq_of_mem_of_replicate_eq (StopRecord.parse_ok.mp h).2 _ List.mem_cons_self
    rcases hc with rfl | rfl <;> exact absurd hversion (by decide)

/-! ## Certify sections -/

/-- Two bounded parts with what follows them. -/
theorem part_append_inj {ω : Type} [Word ω] {max : ℕ} (hmax : max < 256 ^ Word.width ω)
    {v v' t t' : Bytes} (hv : v ≠ [] ∧ v.length ≤ max) (hv' : v' ≠ [] ∧ v'.length ≤ max)
    (h : Reader.countedBytes ω v ++ t = Reader.countedBytes ω v' ++ t') : v = v' ∧ t = t' :=
  Reader.countedBytes_append_inj (Nat.lt_of_le_of_lt hv.2 hmax) (Nat.lt_of_le_of_lt hv'.2 hmax) h

theorem NvCertify.strict : Strict NvCertify.encode NvCertify.parse := by
  have hattest : attestMax < 256 ^ Word.width UInt16 := by decide
  have hsig : sigMax < 256 ^ Word.width UInt16 := by decide
  refine .of_codec (.of_legal NvCertify.encode_ok NvCertify.parse_ok) ?_ ?_
  · intro r r' b x h h'
    obtain ⟨hlegal, rfl⟩ := NvCertify.parse_ok.mp h
    obtain ⟨hlegal', heq⟩ := NvCertify.parse_ok.mp h'
    unfold NvCertify.bytes at heq
    rw [List.append_assoc, ← List.append_nil (Reader.countedBytes UInt16 r'.sig)] at heq
    obtain ⟨-, hrest⟩ := part_append_inj hattest hlegal.attest hlegal'.attest heq
    exact (part_append_inj hsig hlegal.sig hlegal'.sig hrest).2
  · intro c n r hc h
    obtain ⟨hlegal, heq⟩ := NvCertify.parse_ok.mp h
    obtain ⟨hne, hle⟩ := hlegal.attest
    unfold NvCertify.bytes Reader.countedBytes at heq
    rw [List.append_assoc] at heq
    -- a length of zero, or one beyond the bound
    have hbe : be (Word.ofNat r.attest.length : UInt16) = [c, c] :=
      List.eq_replicate_iff.mpr ⟨length_be _, eq_of_mem_of_replicate_eq heq⟩
    have hlen : Word.val (Word.ofNat r.attest.length : UInt16) = r.attest.length :=
      Word.val_ofNat _ (Nat.lt_of_le_of_lt hle hattest)
    rw [← ofBe_be (Word.ofNat r.attest.length : UInt16), hbe] at hlen
    rcases hc with rfl | rfl
    · exact hne (List.length_eq_zero_iff.mp hlen.symm)
    · have hval : Word.val (ofBe [0xFF, 0xFF] : UInt16) = 65535 := by decide
      have hle : r.attest.length ≤ 2048 := hle
      omega

/-! ## Receipts -/

theorem Receipt.strict : Strict Receipt.encode Receipt.parse := by
  have hmsg : receiptMsgLen < 256 ^ Word.width UInt32 := by decide
  have hattest : attestMax < 256 ^ Word.width UInt32 := by decide
  have hsig : sigMax < 256 ^ Word.width UInt32 := by decide
  have hbundle : bundleMax < 256 ^ Word.width UInt32 := by decide
  refine .of_codec (.of_legal Receipt.encode_ok Receipt.parse_ok) ?_ ?_
  · intro r r' b x h h'
    obtain ⟨hlegal, rfl⟩ := Receipt.parse_ok.mp h
    obtain ⟨hlegal', heq⟩ := Receipt.parse_ok.mp h'
    unfold Receipt.bytes at heq
    rw [← List.append_nil (Reader.countedBytes UInt32 r'.bundle)] at heq
    simp only [List.append_assoc, List.cons_append] at heq
    have hparts := (List.cons.inj (List.append_cancel_left heq)).2
    obtain ⟨-, hparts⟩ := Reader.countedBytes_append_inj (by rw [hlegal.msg]; exact hmsg)
      (by rw [hlegal'.msg]; exact hmsg) hparts
    obtain ⟨-, hparts⟩ := part_append_inj hattest hlegal.quoteAttest hlegal'.quoteAttest hparts
    obtain ⟨-, hparts⟩ := part_append_inj hsig hlegal.quoteSig hlegal'.quoteSig hparts
    exact (part_append_inj hbundle hlegal.bundle hlegal'.bundle hparts).2
  · intro c n r hc h
    have hmagic := eq_of_mem_of_replicate_eq (Receipt.parse_ok.mp h).2 0x54 (by decide)
    rcases hc with rfl | rfl <;> exact absurd hmagic (by decide)

/-- **The three formats decode exactly what they encode.** -/
theorem formats_strict : Strict StopRecord.encode StopRecord.parse ∧
    Strict NvCertify.encode NvCertify.parse ∧ Strict Receipt.encode Receipt.parse :=
  ⟨StopRecord.strict, NvCertify.strict, Receipt.strict⟩

/-! ## What a certify is made for -/

section Certify

variable {r r' nonce nonce' attest name name' : Bytes} {v v' : StopRecord} {epoch epoch' : UInt64}

/-- Two records with something after each: the record ends where it says. -/
theorem StopRecord.append_inj (h : StopRecord.parse r = .ok v) (h' : StopRecord.parse r' = .ok v')
    (heq : r ++ nonce = r' ++ nonce') : r = r' ∧ nonce = nonce' := by
  rcases List.append_eq_append_iff.mp heq with ⟨x, rfl, rfl⟩ | ⟨x, rfl, rfl⟩
  · obtain rfl := StopRecord.strict.whole h h'
    simp
  · obtain rfl := StopRecord.strict.whole h' h
    simp

/-- The bytes that are hashed for a certify determine the record and the nonce. -/
theorem certifyPreimage_inj (h : StopRecord.parse r = .ok v) (h' : StopRecord.parse r' = .ok v')
    (heq : certifyPreimage r nonce = certifyPreimage r' nonce') : r = r' ∧ nonce = nonce' := by
  have hparts : r ++ nonce = r' ++ nonce' := (List.cons.inj (List.append_cancel_left heq)).2
  exact StopRecord.append_inj h h' hparts

/-- Two digests in one certify are one. -/
theorem qualifying_unique {q q' : List.Vector UInt8 32}
    (h : checkCounterCertify attest q name epoch = .ok ())
    (h' : checkCounterCertify attest q' name' epoch' = .ok ()) : q = q' := by
  obtain ⟨i, hi, hextra, -⟩ := checkCounterCertify_ok.mp h
  obtain ⟨i', hi', hextra', -⟩ := checkCounterCertify_ok.mp h'
  obtain rfl := Except.ok.inj (hi.symm.trans hi')
  exact List.Vector.toList_injective (hextra.symm.trans hextra')

/-- **A certify is made for one record and one nonce.**  The bytes that are hashed determine both,
whatever the nonces are; so a certify that passes for both pairs, with no collision between their
bytes, passes for one pair. -/
theorem certify_names_one (nonce nonce' : Bytes) (h : StopRecord.parse r = .ok v)
    (h' : StopRecord.parse r' = .ok v') :
    (certifyPreimage r nonce = certifyPreimage r' nonce' → r = r' ∧ nonce = nonce') ∧
      ∀ C : Crypto, C.CollisionFreeOn {certifyPreimage r nonce, certifyPreimage r' nonce'} →
        (certifyQualifying C r nonce = certifyQualifying C r' nonce' → r = r' ∧ nonce = nonce') ∧
        ∀ attest name name' epoch epoch',
          checkCounterCertify attest (certifyQualifying C r nonce) name epoch = .ok () →
          checkCounterCertify attest (certifyQualifying C r' nonce') name' epoch' = .ok () →
          r = r' ∧ nonce = nonce' := by
  refine ⟨certifyPreimage_inj h h', fun C hfree => ?_⟩
  have hdigest : certifyQualifying C r nonce = certifyQualifying C r' nonce' →
      r = r' ∧ nonce = nonce' :=
    fun heq => certifyPreimage_inj h h' (hfree (Or.inl rfl) (Or.inr rfl) heq)
  exact ⟨hdigest, fun _ _ _ _ _ hpass hpass' => hdigest (qualifying_unique hpass hpass')⟩

/-- A status, whose 44 bytes with a nonce of 32 are as many as those of a refusal. -/
def sampleStatus : StopRecord := ⟨.status, .stopped, 5, .replicate 32 0xAA⟩

def sampleRefusal : StopRecord := ⟨.refusal (.replicate 32 0xBB), .stopped, 5, .replicate 32 0xAA⟩

/-- The two are not hashed alike. -/
theorem certify_names_one_status :
    certifyPreimage sampleStatus.bytes (List.replicate 32 0xBB) ≠
        certifyPreimage sampleRefusal.bytes [] ∧
      certifyQualifying (.ofTable []) sampleStatus.bytes (List.replicate 32 0xBB) ≠
        certifyQualifying (.ofTable []) sampleRefusal.bytes [] := by
  have hstatus : StopRecord.parse sampleStatus.bytes = .ok sampleStatus :=
    StopRecord.parse_ok.mpr ⟨trivial, rfl⟩
  have hrefusal : StopRecord.parse sampleRefusal.bytes = .ok sampleRefusal :=
    StopRecord.parse_ok.mpr ⟨rfl, rfl⟩
  have hne : sampleStatus.bytes ≠ sampleRefusal.bytes := by decide
  have hfree : (Crypto.ofTable []).CollisionFreeOn
      {certifyPreimage sampleStatus.bytes (List.replicate 32 0xBB),
        certifyPreimage sampleRefusal.bytes []} := by
    apply Set.injOn_pair.mpr
    intro heq
    have hdigests : (Crypto.ofTable []).sha256 (certifyPreimage sampleStatus.bytes
        (List.replicate 32 0xBB)) ≠ (Crypto.ofTable []).sha256
          (certifyPreimage sampleRefusal.bytes []) := by
      decide +kernel
    exact absurd heq hdigests
  obtain ⟨hbytes, hpass⟩ := certify_names_one (List.replicate 32 0xBB) [] hstatus hrefusal
  exact ⟨fun heq => hne (hbytes heq).1, fun heq => hne ((hpass _ hfree).1 heq).1⟩

end Certify

end TactiqAttest.Stop
