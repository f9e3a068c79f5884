import TactiqAttest.Bytes.Reader
import TactiqAttest.Bytes.Text
import TactiqAttest.Envelope.Message

/-!
# The quote structure

`TPMS_ATTEST` of type `TPM_ST_ATTEST_QUOTE`, as `attest-envelope` parses it from the bytes the AK
signed.  Every length is checked against the bytes left before it is read, and nothing may follow.

A quote lists PCR banks.  `PcrBanks` keeps them as the raw bytes the parser validated, and iterating
them indexes into those bytes; that no index is out of range is the field `inRange` of the
structure, established once, where the parser builds one.

* `Quote.parse_ok`: the parser accepts exactly the serialisations of quotes, and returns the quote;
* `PcrBanks.iter_ofBanks`: iterating what a list of banks serialises to gives that list.
-/

open BigEndian

namespace TactiqAttest.Envelope

/-- `TPM_GENERATED_VALUE`: every structure the TPM signs itself starts with it. -/
def tpmGeneratedValue : UInt32 := 0xff544347

/-- `TPM_ST_ATTEST_QUOTE`. -/
def tpmStAttestQuote : UInt16 := 0x8018

def tpmAlgSha256 : UInt16 := 0x000B

/-- `qualifying_data`: what the quote over a canonical message commits to. -/
def qualifyingData (C : Crypto) (msg : Bytes) : Except String (List.Vector UInt8 32) :=
  if msg.length = msgLen then .ok (C.sha256 msg)
  else .error s!"bad message length: {msg.length} (want {msgLen})"

/-! ## Fields -/

namespace Rd

/-- The error of `Rd::take`, which names the structure and the field. -/
def truncated (what field : String) (need left : ℕ) : String :=
  s!"{what}: truncated at {field} (need {need}, have {left})"

def take (what field : String) (n : ℕ) : Reader String Bytes :=
  Reader.take n (truncated what field n)

def word (ω : Type) [Word ω] (what field : String) : Reader String ω :=
  Reader.word ω (truncated what field (Word.width ω))

/-- A TPM2B: a `u16` size, then that many bytes. -/
def tpm2b (what field : String) : Reader String Bytes :=
  Reader.counted UInt16 (truncated what field 2) (truncated what field)

def finish (what : String) : Reader String Unit :=
  Reader.finish fun left => s!"{what}: {left} trailing byte(s)"

end Rd

/-- The bytes of a TPM2B. -/
abbrev tpm2b (v : Bytes) : Bytes := Reader.countedBytes UInt16 v

theorem length_tpm2b {v : Bytes} : (tpm2b v).length = 2 + v.length := by
  rw [tpm2b, Reader.countedBytes, List.length_append, length_be]
  rfl

/-- `TPMS_CLOCK_INFO`. -/
structure ClockInfo where
  clock : UInt64
  resetCount : UInt32
  restartCount : UInt32
  safe : Bool
  deriving DecidableEq

def ClockInfo.bytes (i : ClockInfo) : Bytes :=
  be i.clock ++ be i.resetCount ++ be i.restartCount ++ [Reader.flagByte i.safe]

/-- What every `TPMS_ATTEST` starts with, whatever it attests. -/
def attestHead (type : UInt16) (qualifiedSigner extraData : Bytes) (clockInfo : ClockInfo)
    (firmwareVersion : UInt64) : Bytes :=
  be tpmGeneratedValue ++ be type ++ tpm2b qualifiedSigner ++ tpm2b extraData ++
    clockInfo.bytes ++ be firmwareVersion

/-! ## PCR banks -/

/-- One bank of a PCR selection: the hash algorithm and the bitmap. -/
abbrev Bank := UInt16 × Bytes

/-- The bytes of a bank. -/
def bankBytes (bank : Bank) : Bytes := be bank.1 ++ Reader.countedBytes UInt8 bank.2

/-- The body of `PcrBanks::iter`'s closure: one bank from the front of the bytes, and the bytes
after it.  `none` is an index out of range. -/
def bankAt : Bytes → Option (Bank × Bytes)
  | b₀ :: b₁ :: n :: b =>
    if n.toNat ≤ b.length then some ((ofBe [b₀, b₁], b.take n.toNat), b.drop n.toNat) else none
  | _ => none

/-- `PcrBanks::iter`, over `count` banks. -/
def banksFrom : ℕ → Bytes → Option (List Bank)
  | 0, _ => some []
  | count + 1, b =>
    match bankAt b with
    | none => none
    | some (bank, b') => (bank :: ·) <$> banksFrom count b'

theorem bankAt_bankBytes {bank : Bank} (h : bank.2.length < 256) (rest : Bytes) :
    bankAt (bankBytes bank ++ rest) = some (bank, rest) := by
  obtain ⟨alg, bits⟩ := bank
  obtain ⟨b₀, b₁, halg⟩ : ∃ b₀ b₁, be alg = [b₀, b₁] := by
    have hlen : (be alg).length = 2 := length_be alg
    rcases hbe : be alg with _ | ⟨b₀, _ | ⟨b₁, _ | ⟨b₂, tl⟩⟩⟩
    · rw [hbe] at hlen; cases hlen
    · rw [hbe] at hlen; cases hlen
    · exact ⟨b₀, b₁, rfl⟩
    · rw [hbe] at hlen; simp at hlen
  have hn : (UInt8.ofNat bits.length).toNat = bits.length := UInt8.toNat_ofNat_of_lt' h
  have hsplit : bankBytes (alg, bits) ++ rest =
      b₀ :: b₁ :: UInt8.ofNat bits.length :: (bits ++ rest) := by
    change be alg ++ (be (UInt8.ofNat bits.length) ++ bits) ++ rest = _
    rw [halg, be_uint8]
    rfl
  rw [hsplit, bankAt, hn, if_pos (by rw [List.length_append]; omega), List.take_left,
    List.drop_left, ← halg, ofBe_be]

/-- Iterating what a list of banks serialises to gives that list, whatever follows. -/
theorem banksFrom_flatMap {banks : List Bank} (h : ∀ b ∈ banks, b.2.length < 256) (rest : Bytes) :
    banksFrom banks.length (banks.flatMap bankBytes ++ rest) = some banks := by
  induction banks with
  | nil => rfl
  | cons bank banks ih =>
    rw [List.length_cons, banksFrom, List.flatMap_cons, List.append_assoc,
      bankAt_bankBytes (h bank List.mem_cons_self)]
    simp only [ih fun b hb => h b (List.mem_cons_of_mem _ hb)]
    rfl

/-- `TPML_PCR_SELECTION`, kept as the raw bytes; iterating them stays in range. -/
structure PcrBanks where
  count : UInt32
  body : Bytes
  inRange : (banksFrom count.toNat body).isSome

namespace PcrBanks

/-- `PcrBanks::iter`. -/
def iter (banks : PcrBanks) : List Bank :=
  (banksFrom banks.count.toNat banks.body).get banks.inRange

/-- The loop of `Quote::parse` that checks the banks are there. -/
def skip : ℕ → Reader String Unit
  | 0 => pure ()
  | count + 1 => do
    let _ ← Rd.word UInt16 "TPMS_ATTEST" "pcrSelect.hash"
    let n ← Rd.word UInt8 "TPMS_ATTEST" "pcrSelect.sizeofSelect"
    let _ ← Rd.take "TPMS_ATTEST" "pcrSelect.pcrSelect" n.toNat
    skip count

theorem skip_ok {count : ℕ} {b rest : Bytes} {u : Unit} :
    (skip count).run b = .ok (u, rest) ↔
      ∃ banks : List Bank, banks.length = count ∧ (∀ k ∈ banks, k.2.length < 256) ∧
        b = banks.flatMap bankBytes ++ rest := by
  induction count generalizing b with
  | zero =>
    rw [skip, Reader.run_pure_ok]
    constructor
    · rintro ⟨-, rfl⟩
      exact ⟨[], rfl, by simp, rfl⟩
    · rintro ⟨banks, hlen, -, rfl⟩
      rw [List.length_eq_zero_iff.mp hlen]
      exact ⟨rfl, rfl⟩
  | succ count ih =>
    rw [skip]
    simp only [Reader.run_bind_ok, Rd.word, Rd.take, Reader.run_word_ok, Reader.run_take_ok, ih]
    constructor
    · rintro ⟨alg, _, rfl, n, _, rfl, bits, _, ⟨hlen, rfl⟩, banks, rfl, hall, rfl⟩
      refine ⟨(alg, bits) :: banks, rfl, ?_, ?_⟩
      · intro k hk
        rcases List.mem_cons.mp hk with rfl | hk
        · rw [hlen]; exact n.toNat_lt
        · exact hall k hk
      · have hcount : Reader.countedBytes UInt8 bits = be n ++ bits := by
          rw [Reader.countedBytes, hlen]
          exact congrArg (be · ++ bits) (Word.ofNat_val n)
        rw [List.flatMap_cons, bankBytes, hcount]
        simp only [List.append_assoc]
    · rintro ⟨banks, hlen, hall, rfl⟩
      rcases banks with _ | ⟨⟨alg, bits⟩, banks⟩
      · cases hlen
      · have hbits : bits.length < 256 := hall (alg, bits) List.mem_cons_self
        refine ⟨alg, _, ?_, UInt8.ofNat bits.length, _, rfl, bits, _, ⟨?_, rfl⟩, banks, ?_, ?_,
          rfl⟩
        · rw [List.flatMap_cons, bankBytes, Reader.countedBytes]
          simp only [List.append_assoc]
          rfl
        · exact (UInt8.toNat_ofNat_of_lt' hbits).symm
        · simpa using hlen
        · exact fun k hk => hall k (List.mem_cons_of_mem _ hk)

/-- The bytes the check consumed, up to where the next field starts. -/
def consumed (b rest : Bytes) : Bytes := b.take (b.length - rest.length)

theorem consumed_append (body rest : Bytes) : consumed (body ++ rest) rest = body := by
  rw [consumed, List.length_append, Nat.add_sub_cancel, List.take_left]

/-- What the check of `Quote::parse` consumed can be iterated. -/
theorem inRange_of_skip {count : UInt32} {b rest : Bytes} {u : Unit}
    (h : (skip count.toNat).run b = .ok (u, rest)) :
    (banksFrom count.toNat (consumed b rest)).isSome := by
  obtain ⟨banks, hlen, hall, rfl⟩ := skip_ok.mp h
  rw [consumed_append, ← hlen, ← List.append_nil (banks.flatMap bankBytes),
    banksFrom_flatMap hall]
  rfl

/-- The banks of a quote: check them, and keep the bytes that were checked. -/
def read (count : UInt32) : Reader String PcrBanks := fun b =>
  match h : (skip count.toNat).run b with
  | .error e => .error e
  | .ok ((), rest) => .ok (⟨count, consumed b rest, inRange_of_skip h⟩, rest)

/-- The body is what some list of that many banks serialises to. -/
def Wire (banks : PcrBanks) : Prop :=
  ∃ l : List Bank, l.length = banks.count.toNat ∧ (∀ k ∈ l, k.2.length < 256) ∧
    banks.body = l.flatMap bankBytes

theorem read_ok {count : UInt32} {b rest : Bytes} {banks : PcrBanks} :
    (read count).run b = .ok (banks, rest) ↔
      banks.count = count ∧ banks.Wire ∧ b = banks.body ++ rest := by
  change read count b = _ ↔ _
  unfold read
  constructor
  · intro h
    split at h
    case h_1 => cases h
    case h_2 rest' hskip =>
      cases h
      obtain ⟨l, hlen, hall, rfl⟩ := skip_ok.mp hskip
      exact ⟨rfl, ⟨l, hlen, hall, consumed_append _ _⟩,
        (congrArg (· ++ rest) (consumed_append _ _)).symm⟩
  · rintro ⟨rfl, ⟨l, hlen, hall, hbody⟩, rfl⟩
    have hskip : (skip banks.count.toNat).run (banks.body ++ rest) = .ok ((), rest) :=
      skip_ok.mpr ⟨l, hlen, hall, by rw [hbody]⟩
    split
    case h_1 e he =>
      rw [hskip] at he
      cases he
    case h_2 rest' hrest =>
      rw [hskip] at hrest
      cases hrest
      simp only [consumed_append]

/-- The iteration gives the banks the bytes were made from. -/
theorem iter_ofBanks {banks : PcrBanks} {l : List Bank} (hlen : l.length = banks.count.toNat)
    (hall : ∀ k ∈ l, k.2.length < 256) (hbody : banks.body = l.flatMap bankBytes) :
    banks.iter = l := by
  have hsome : banksFrom banks.count.toNat banks.body = some l := by
    rw [hbody, ← hlen, ← List.append_nil (l.flatMap bankBytes), banksFrom_flatMap hall]
  simp only [iter, hsome, Option.get_some]

/-- The iteration yields as many banks as were announced. -/
theorem Wire.length_iter {banks : PcrBanks} (h : banks.Wire) :
    banks.iter.length = banks.count.toNat := by
  obtain ⟨l, hlen, hall, hbody⟩ := h
  rw [iter_ofBanks hlen hall hbody, hlen]

/-- The bytes are those of the banks iterated. -/
theorem Wire.body_eq {banks : PcrBanks} (h : banks.Wire) :
    banks.body = banks.iter.flatMap bankBytes := by
  obtain ⟨l, hlen, hall, hbody⟩ := h
  rw [iter_ofBanks hlen hall hbody, hbody]

/-- The one bank there is; `refuse` is the error when there is another number of them. -/
def sole {ε : Type} (refuse : ℕ → ε) (banks : PcrBanks) : Except ε Bank :=
  match banks.iter with
  | bank :: _ =>
    if banks.count = 1 then .ok bank else .error (refuse banks.count.toNat)
  | [] => .error (refuse banks.count.toNat)

theorem sole_ok {ε : Type} {refuse : ℕ → ε} {banks : PcrBanks} {bank : Bank}
    (hwire : banks.Wire) : banks.sole refuse = .ok bank ↔ banks.iter = [bank] := by
  have hlen := hwire.length_iter
  unfold sole
  rcases hiter : banks.iter with _ | ⟨b, tl⟩
  · simp
  · rw [hiter, List.length_cons] at hlen
    by_cases hcount : banks.count = 1
    · have htl : tl = [] := List.length_eq_zero_iff.mp (by
        rw [hcount] at hlen
        exact Nat.succ.inj hlen)
      simp [hcount, htl]
    · have htl : tl ≠ [] := fun h => by
        rw [h, List.length_nil] at hlen
        exact hcount (UInt32.toNat_inj.mp hlen.symm)
      simp [hcount, htl]

theorem sole_error {ε : Type} {refuse : ℕ → ε} {banks : PcrBanks} {err : ε}
    (hwire : banks.Wire) (h : banks.sole refuse = .error err) :
    (¬ ∃ bank, banks.iter = [bank]) ∧ ∃ n, err = refuse n := by
  refine ⟨fun ⟨bank, hbank⟩ => ?_, ?_⟩
  · rw [(sole_ok hwire).mpr hbank] at h
    cases h
  · unfold sole at h
    split at h
    · split_ifs at h
      exact ⟨_, (Except.error.inj h).symm⟩
    · exact ⟨_, (Except.error.inj h).symm⟩

end PcrBanks

/-! ## Quotes -/

/-- A parsed `TPMS_ATTEST` of type quote. -/
structure Quote where
  qualifiedSigner : Bytes
  /-- The caller's qualifying data, as echoed by the TPM. -/
  extraData : Bytes
  clockInfo : ClockInfo
  firmwareVersion : UInt64
  pcrBanks : PcrBanks
  /-- The digest of the selected PCR values, computed by the TPM. -/
  pcrDigest : Bytes

namespace Quote

/-- Upper bound on banks in one selection. -/
def maxBanks : UInt32 := 16

/-- The reader behind `Quote::parse`. -/
def reader : Reader String Quote := do
  let magic ← Rd.word UInt32 "TPMS_ATTEST" "magic"
  Reader.ensure (magic = tpmGeneratedValue)
    s!"TPMS_ATTEST: magic 0x{Text.hex 8 magic.toNat}, want 0x{Text.hex 8 tpmGeneratedValue.toNat}"
  let type ← Rd.word UInt16 "TPMS_ATTEST" "type"
  Reader.ensure (type = tpmStAttestQuote)
    (s!"TPMS_ATTEST: type 0x{Text.hex 4 type.toNat}, " ++
      s!"want 0x{Text.hex 4 tpmStAttestQuote.toNat} (quote)")
  let qualifiedSigner ← Rd.tpm2b "TPMS_ATTEST" "qualifiedSigner"
  let extraData ← Rd.tpm2b "TPMS_ATTEST" "extraData"
  let clock ← Rd.word UInt64 "TPMS_ATTEST" "clock"
  let resetCount ← Rd.word UInt32 "TPMS_ATTEST" "resetCount"
  let restartCount ← Rd.word UInt32 "TPMS_ATTEST" "restartCount"
  let safe ← Reader.flag (Rd.truncated "TPMS_ATTEST" "safe" 1)
    fun v => s!"TPMS_ATTEST: safe = {v.toNat}, want 0 or 1"
  let firmwareVersion ← Rd.word UInt64 "TPMS_ATTEST" "firmwareVersion"
  let count ← Rd.word UInt32 "TPMS_ATTEST" "pcrSelect.count"
  Reader.ensure (count ≤ maxBanks)
    s!"TPMS_ATTEST: {count.toNat} PCR banks, limit {maxBanks.toNat}"
  let pcrBanks ← PcrBanks.read count
  let pcrDigest ← Rd.tpm2b "TPMS_ATTEST" "pcrDigest"
  Rd.finish "TPMS_ATTEST"
  return { qualifiedSigner, extraData, clockInfo := ⟨clock, resetCount, restartCount, safe⟩,
           firmwareVersion, pcrBanks, pcrDigest }

/-- `Quote::parse`. -/
def parse (bytes : Bytes) : Except String Quote := reader.parse bytes

/-- The serialisation of a quote. -/
def bytes (q : Quote) : Bytes :=
  attestHead tpmStAttestQuote q.qualifiedSigner q.extraData q.clockInfo q.firmwareVersion ++
    be q.pcrBanks.count ++ q.pcrBanks.body ++ tpm2b q.pcrDigest

/-- The quote can be serialised: its parts fit their length fields, and its banks are banks. -/
structure Wire (q : Quote) : Prop where
  signer : q.qualifiedSigner.length < 65536
  extra : q.extraData.length < 65536
  count : q.pcrBanks.count ≤ maxBanks
  banks : q.pcrBanks.Wire
  digest : q.pcrDigest.length < 65536

/-- **The parser accepts exactly the serialisations of quotes.** -/
theorem parse_ok {b : Bytes} {q : Quote} : parse b = .ok q ↔ q.Wire ∧ b = q.bytes := by
  rw [parse, Reader.parse_ok, reader]
  simp only [Reader.run_bind_ok, Rd.word, Rd.tpm2b, Rd.finish, Reader.run_word_ok,
    Reader.run_counted_ok, Reader.run_ensure_ok, Reader.run_flag_ok, Reader.run_finish_ok,
    PcrBanks.read_ok, Reader.run_pure_ok]
  constructor
  · rintro ⟨_, magic, _, h₁, _, _, ⟨h₂, h₃⟩, type, _, h₄, _, _, ⟨h₅, h₆⟩, signer, _,
      ⟨hsigner, h₇⟩, extra, _, ⟨hextra, h₈⟩, clock, _, h₉, reset, _, h₁₀, restart, _, h₁₁,
      safe, _, h₁₂, fw, _, h₁₃, count, _, h₁₄, _, _, ⟨hcount, h₁₅⟩, banks, _,
      ⟨h₁₆, hbanks, h₁₇⟩, digest, _, ⟨hdigest, h₁₈⟩, _, _, ⟨h₁₉, h₂₀⟩, h₂₁, h₂₂⟩
    subst_vars
    refine ⟨⟨hsigner, hextra, hcount, hbanks, hdigest⟩, ?_⟩
    simp only [bytes, attestHead, ClockInfo.bytes, List.append_assoc, List.append_nil,
      List.cons_append, List.nil_append]
  · rintro ⟨⟨hsigner, hextra, hcount, hbanks, hdigest⟩, rfl⟩
    refine ⟨[], tpmGeneratedValue, _, ?_, (), _, ⟨rfl, rfl⟩, tpmStAttestQuote, _, rfl, (), _,
      ⟨rfl, rfl⟩, q.qualifiedSigner, _, ⟨hsigner, rfl⟩, q.extraData, _, ⟨hextra, rfl⟩,
      q.clockInfo.clock, _, rfl, q.clockInfo.resetCount, _, rfl, q.clockInfo.restartCount, _, rfl,
      q.clockInfo.safe, _, rfl, q.firmwareVersion, _, rfl, q.pcrBanks.count, _, rfl, (), _,
      ⟨hcount, rfl⟩, q.pcrBanks, _, ⟨rfl, hbanks, rfl⟩, q.pcrDigest, [], ⟨hdigest, rfl⟩, (), [],
      ⟨rfl, rfl⟩, rfl, rfl⟩
    simp only [bytes, attestHead, ClockInfo.bytes, List.append_assoc, List.append_nil,
      List.cons_append, List.nil_append]

/-- What parses as a quote starts with `TPM_GENERATED_VALUE`. -/
theorem isPrefix_of_parse {b : Bytes} {q : Quote} (h : parse b = .ok q) :
    be tpmGeneratedValue <+: b := by
  obtain ⟨-, rfl⟩ := parse_ok.mp h
  simp only [bytes, attestHead, List.append_assoc]
  exact List.prefix_append _ _

end Quote

end TactiqAttest.Envelope
