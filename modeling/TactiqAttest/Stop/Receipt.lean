import TactiqAttest.Stop.Record

/-!
# Receipts and certify sections

The two containers of `attest-stop` that carry other parties' bytes with their lengths in front:

* the body of a certify section: `len_be16 || attest || len_be16 || sig`;
* the receipt: `"TQSR" || 0x01 ||` message, quote, signature and bundle, each after its `len_be32`.

Every part has a bound and may not be empty, on both sides.  As with the record, the parser accepts
exactly what the encoder writes (`NvCertify.parse_ok`, `Receipt.parse_ok`).
-/

open BigEndian

namespace TactiqAttest.Stop

abbrev attestMax : ℕ := 2048
abbrev sigMax : ℕ := 512
abbrev bundleMax : ℕ := 65536

/-! ## Bounded parts -/

/-- `Reader::take16` and `Reader::take32`: a length, checked against the bound and against the bytes
left, then that many bytes. -/
def part (ω : Type) [Word ω] (max : ℕ) (what : String) : Reader String Bytes := do
  let n ← Reader.word ω fun _ => s!"{what}: truncated length"
  Reader.ensure (Word.val n ≠ 0 ∧ Word.val n ≤ max)
    s!"{what}: length {Word.val n} outside 1..={max}"
  Reader.take (Word.val n) fun left => s!"{what}: length {Word.val n} exceeds the {left} bytes left"

def take16 : ℕ → String → Reader String Bytes := part UInt16
def take32 : ℕ → String → Reader String Bytes := part UInt32

/-- `Reader::finish`. -/
def finish (what : String) : Reader String Unit :=
  Reader.finish fun left => s!"{what}: {left} trailing bytes"

theorem run_part_ok {ω : Type} [Word ω] {max : ℕ} (hmax : max < 256 ^ Word.width ω) {what : String}
    {b v rest : Bytes} :
    (part ω max what).run b = .ok (v, rest) ↔
      (v ≠ [] ∧ v.length ≤ max) ∧ b = Reader.countedBytes ω v ++ rest := by
  unfold part Reader.countedBytes
  simp only [Reader.run_bind_ok, Reader.run_word_ok, Reader.run_ensure_ok, Reader.run_take_ok]
  constructor
  · rintro ⟨n, _, rfl, _, _, ⟨⟨hne, hle⟩, rfl⟩, hlen, rfl⟩
    refine ⟨⟨?_, hlen ▸ hle⟩, ?_⟩
    · rintro rfl
      exact hne (by rw [← hlen, List.length_nil])
    · rw [hlen, Word.ofNat_val, List.append_assoc]
  · rintro ⟨⟨hne, hle⟩, rfl⟩
    have hval : Word.val (Word.ofNat v.length : ω) = v.length :=
      Word.val_ofNat _ (Nat.lt_of_le_of_lt hle hmax)
    refine ⟨Word.ofNat v.length, v ++ rest, by rw [List.append_assoc], (), v ++ rest,
      ⟨⟨?_, hval.le.trans hle⟩, rfl⟩, hval.symm, rfl⟩
    rw [hval]
    exact fun h => hne (List.length_eq_zero_iff.mp h)

/-- The encoders' check of one part. -/
def checkPart (v : Bytes) (max : ℕ) (e : String) : Except String Unit :=
  Except.ensure (v ≠ [] ∧ v.length ≤ max) e

theorem checkPart_ok {v : Bytes} {max : ℕ} {e : String} {u : Unit} :
    checkPart v max e = .ok u ↔ v ≠ [] ∧ v.length ≤ max := Except.ensure_eq_ok

/-! ## Certify sections -/

/-- The body of a certify section: the TPM's structure and the AK signature over it. -/
structure NvCertify where
  attest : Bytes
  sig : Bytes
  deriving DecidableEq

namespace NvCertify

/-- Both parts are there and within their bounds. -/
structure Legal (c : NvCertify) : Prop where
  attest : c.attest ≠ [] ∧ c.attest.length ≤ attestMax
  sig : c.sig ≠ [] ∧ c.sig.length ≤ sigMax

def bytes (c : NvCertify) : Bytes :=
  Reader.countedBytes UInt16 c.attest ++ Reader.countedBytes UInt16 c.sig

/-- `NvCertify::encode`. -/
def encode (c : NvCertify) : Except String Bytes := do
  checkPart c.attest attestMax s!"nv certify: attest is {c.attest.length} bytes"
  checkPart c.sig sigMax s!"nv certify: signature is {c.sig.length} bytes"
  return c.bytes

/-- `NvCertify::parse`. -/
def parse (body : Bytes) : Except String NvCertify :=
  Reader.parse (do
    let attest ← take16 attestMax "nv certify attest"
    let sig ← take16 sigMax "nv certify signature"
    finish "nv certify"
    return { attest, sig }) body

theorem encode_ok {c : NvCertify} {b : Bytes} : c.encode = .ok b ↔ c.Legal ∧ b = c.bytes := by
  unfold encode
  simp only [Except.bind_eq_ok, checkPart_ok, Except.pure_eq_ok]
  constructor
  · rintro ⟨-, ha, -, hs, rfl⟩
    exact ⟨⟨ha, hs⟩, rfl⟩
  · rintro ⟨⟨ha, hs⟩, rfl⟩
    exact ⟨(), ha, (), hs, rfl⟩

/-- **A certify section parses to `c` exactly when it is what `c` encodes to.** -/
theorem parse_ok {b : Bytes} {c : NvCertify} : parse b = .ok c ↔ c.Legal ∧ b = c.bytes := by
  have ha : attestMax < 256 ^ Word.width UInt16 := by decide
  have hs : sigMax < 256 ^ Word.width UInt16 := by decide
  unfold parse bytes
  rw [Reader.parse_ok]
  simp only [Reader.run_bind_ok, take16, finish, run_part_ok ha, run_part_ok hs,
    Reader.run_finish_ok, Reader.run_pure_ok]
  constructor
  · rintro ⟨_, attest, _, ⟨hattest, rfl⟩, sig, _, ⟨hsig, rfl⟩, _, _, ⟨rfl, rfl⟩, rfl, rfl⟩
    exact ⟨⟨hattest, hsig⟩, by rw [List.append_nil]⟩
  · rintro ⟨⟨hattest, hsig⟩, rfl⟩
    exact ⟨[], c.attest, _, ⟨hattest, rfl⟩, c.sig, [], ⟨hsig, by rw [List.append_nil]⟩, (), [],
      ⟨rfl, rfl⟩, rfl, rfl⟩

end NvCertify

/-! ## Receipts -/

/-- The width of the canonical message. -/
abbrev receiptMsgLen : ℕ := 93

def receiptMagic : Bytes := Text.ascii "TQSR"
def receiptVersion : UInt8 := 0x01

/-- A signed answer from the stop service. -/
structure Receipt where
  msg : Bytes
  quoteAttest : Bytes
  quoteSig : Bytes
  bundle : Bytes
  deriving DecidableEq

namespace Receipt

/-- The message has its length, and the other parts are there and within their bounds. -/
structure Legal (r : Receipt) : Prop where
  msg : r.msg.length = receiptMsgLen
  quoteAttest : r.quoteAttest ≠ [] ∧ r.quoteAttest.length ≤ attestMax
  quoteSig : r.quoteSig ≠ [] ∧ r.quoteSig.length ≤ sigMax
  bundle : r.bundle ≠ [] ∧ r.bundle.length ≤ bundleMax

def bytes (r : Receipt) : Bytes :=
  receiptMagic ++ receiptVersion :: (Reader.countedBytes UInt32 r.msg ++
    (Reader.countedBytes UInt32 r.quoteAttest ++ (Reader.countedBytes UInt32 r.quoteSig ++
      Reader.countedBytes UInt32 r.bundle)))

/-- `Receipt::encode`. -/
def encode (r : Receipt) : Except String Bytes := do
  Except.ensure (r.msg.length = receiptMsgLen)
    s!"receipt: message is {r.msg.length} bytes, expected {receiptMsgLen}"
  checkPart r.quoteAttest attestMax s!"receipt: quote attest is {r.quoteAttest.length} bytes"
  checkPart r.quoteSig sigMax s!"receipt: quote signature is {r.quoteSig.length} bytes"
  checkPart r.bundle bundleMax s!"receipt: bundle is {r.bundle.length} bytes"
  return r.bytes

/-- The reader behind `Receipt::parse`, after the magic and the version. -/
def reader : Reader String Receipt := do
  let msg ← take32 receiptMsgLen "receipt message"
  Reader.ensure (msg.length = receiptMsgLen)
    s!"receipt: message is {msg.length} bytes, expected {receiptMsgLen}"
  let quoteAttest ← take32 attestMax "receipt quote attest"
  let quoteSig ← take32 sigMax "receipt quote signature"
  let bundle ← take32 bundleMax "receipt bundle"
  finish "receipt"
  return { msg, quoteAttest, quoteSig, bundle }

/-- `Receipt::parse`. -/
def parse (bytes : Bytes) : Except String Receipt := do
  Except.ensure (5 ≤ bytes.length ∧ bytes.take 4 = receiptMagic) "receipt: missing TQSR magic"
  Except.ensure (bytes.getD 4 0 = receiptVersion)
    s!"receipt: unknown version 0x{Text.hex 2 (bytes.getD 4 0).toNat}"
  reader.parse (bytes.drop 5)

theorem encode_ok {r : Receipt} {b : Bytes} : r.encode = .ok b ↔ r.Legal ∧ b = r.bytes := by
  unfold encode
  simp only [Except.bind_eq_ok, Except.ensure_eq_ok, checkPart_ok, Except.pure_eq_ok]
  constructor
  · rintro ⟨-, hm, -, ha, -, hs, -, hb, rfl⟩
    exact ⟨⟨hm, ha, hs, hb⟩, rfl⟩
  · rintro ⟨⟨hm, ha, hs, hb⟩, rfl⟩
    exact ⟨(), hm, (), ha, (), hs, (), hb, rfl⟩

theorem reader_ok {b : Bytes} {r : Receipt} :
    reader.parse b = .ok r ↔ r.Legal ∧ b = Reader.countedBytes UInt32 r.msg ++
      (Reader.countedBytes UInt32 r.quoteAttest ++ (Reader.countedBytes UInt32 r.quoteSig ++
        Reader.countedBytes UInt32 r.bundle)) := by
  have hm : receiptMsgLen < 256 ^ Word.width UInt32 := by decide
  have ha : attestMax < 256 ^ Word.width UInt32 := by decide
  have hs : sigMax < 256 ^ Word.width UInt32 := by decide
  have hb : bundleMax < 256 ^ Word.width UInt32 := by decide
  unfold reader
  rw [Reader.parse_ok]
  simp only [Reader.run_bind_ok, take32, finish, run_part_ok hm, run_part_ok ha, run_part_ok hs,
    run_part_ok hb, Reader.run_ensure_ok, Reader.run_finish_ok, Reader.run_pure_ok]
  constructor
  · rintro ⟨_, msg, _, ⟨-, rfl⟩, _, _, ⟨hmsg, rfl⟩, attest, _, ⟨hattest, rfl⟩, sig, _,
      ⟨hsig, rfl⟩, bundle, _, ⟨hbundle, rfl⟩, _, _, ⟨rfl, rfl⟩, rfl, rfl⟩
    exact ⟨⟨hmsg, hattest, hsig, hbundle⟩, by rw [List.append_nil]⟩
  · rintro ⟨⟨hmsg, hattest, hsig, hbundle⟩, rfl⟩
    have hne : r.msg ≠ [] := fun h => by rw [h] at hmsg; exact absurd hmsg (by decide)
    exact ⟨[], r.msg, _, ⟨⟨hne, hmsg.le⟩, rfl⟩, (), _, ⟨hmsg, rfl⟩, r.quoteAttest, _,
      ⟨hattest, rfl⟩, r.quoteSig, _, ⟨hsig, rfl⟩, r.bundle, [], ⟨hbundle, by rw [List.append_nil]⟩,
      (), [], ⟨rfl, rfl⟩, rfl, rfl⟩

/-- The magic and the version, taken off the front. -/
theorem head_ok {b : Bytes} :
    ((5 ≤ b.length ∧ b.take 4 = receiptMagic) ∧ b.getD 4 0 = receiptVersion) ↔
      b = receiptMagic ++ receiptVersion :: b.drop 5 := by
  have hmagic : receiptMagic = [0x54, 0x51, 0x53, 0x52] := by decide
  rw [hmagic]
  rcases b with _ | ⟨b₀, _ | ⟨b₁, _ | ⟨b₂, _ | ⟨b₃, _ | ⟨b₄, tl⟩⟩⟩⟩⟩
  all_goals simp [and_assoc]

/-- **A receipt parses to `r` exactly when it is what `r` encodes to.** -/
theorem parse_ok {b : Bytes} {r : Receipt} : parse b = .ok r ↔ r.Legal ∧ b = r.bytes := by
  unfold parse
  simp only [Except.bind_eq_ok, Except.ensure_eq_ok, reader_ok]
  constructor
  · rintro ⟨-, hmagic, -, hversion, hlegal, hrest⟩
    refine ⟨hlegal, ?_⟩
    rw [bytes, ← hrest]
    exact head_ok.mp ⟨hmagic, hversion⟩
  · rintro ⟨hlegal, rfl⟩
    have hlen : receiptMagic.length = 4 := by decide
    have hdrop : r.bytes.drop 5 = Reader.countedBytes UInt32 r.msg ++
        (Reader.countedBytes UInt32 r.quoteAttest ++ (Reader.countedBytes UInt32 r.quoteSig ++
          Reader.countedBytes UInt32 r.bundle)) := by
      rw [show 5 = 4 + 1 from rfl, ← List.drop_drop, bytes, ← hlen, List.drop_left]
      rfl
    obtain ⟨hmagic, hversion⟩ := (head_ok (b := r.bytes)).mpr (by rw [hdrop]; rfl)
    exact ⟨(), hmagic, (), hversion, hlegal, hdrop⟩

theorem parse_of_encode {r : Receipt} {b : Bytes} (h : r.encode = .ok b) : parse b = .ok r :=
  parse_ok.mpr (encode_ok.mp h)

end Receipt

end TactiqAttest.Stop
