import TactiqAttest.Bytes.Reader
import TactiqAttest.Bytes.Text
import TactiqAttest.Envelope.Crypto

/-!
# The canonical message

The 93 bytes a device commits to, from `attest-envelope`:

    device_id(16) || counter_be(8) || pcr_selection(5) || pcr_hash(32) || evidence_hash(32)

The layout is fixed, so the parser is a length check and five slices.  `parse_ok` says what that
makes it: `parse b` gives `m` exactly when `b` is the layout of `m`.  The prover's side is
`buildCanonical`, which takes the digests itself; `parse_buildCanonical` puts the two together.
-/

open BigEndian

namespace TactiqAttest.Envelope

/-! ## The layout -/

abbrev deviceIdLen : ℕ := 16
abbrev counterLen : ℕ := 8
abbrev pcrSelectionLen : ℕ := 5
abbrev pcrHashLen : ℕ := 32
abbrev evidenceHashLen : ℕ := 32

/-- The length of the canonical message. -/
abbrev msgLen : ℕ := deviceIdLen + counterLen + pcrSelectionLen + pcrHashLen + evidenceHashLen

/-- A parsed canonical message. -/
structure AttestationMessage where
  deviceId : List.Vector UInt8 deviceIdLen
  counter : UInt64
  pcrSelection : List.Vector UInt8 pcrSelectionLen
  pcrHash : List.Vector UInt8 pcrHashLen
  /-- SHA-256 of the evidence bundle carried alongside the envelope. -/
  evidenceHash : List.Vector UInt8 evidenceHashLen
  deriving DecidableEq

open Bytes (slice slice_append_drop)

namespace AttestationMessage

/-- `AttestationMessage::parse`.  The length check is exact, not a minimum. -/
def parse (bytes : Bytes) : Except String AttestationMessage :=
  if h : bytes.length = msgLen then
    .ok
      { deviceId := slice bytes 0 deviceIdLen (by rw [h]; decide)
        counter := ofBe (slice bytes deviceIdLen counterLen (by rw [h]; decide)).toList
        pcrSelection := slice bytes (deviceIdLen + counterLen) pcrSelectionLen (by rw [h]; decide)
        pcrHash :=
          slice bytes (deviceIdLen + counterLen + pcrSelectionLen) pcrHashLen (by rw [h]; decide)
        evidenceHash :=
          slice bytes (deviceIdLen + counterLen + pcrSelectionLen + pcrHashLen) evidenceHashLen
            (by rw [h]) }
  else
    .error s!"bad message length: {bytes.length} (want {msgLen})"

/-- The layout of a message. -/
def bytes (m : AttestationMessage) : Bytes :=
  m.deviceId.toList ++ be m.counter ++ m.pcrSelection.toList ++ m.pcrHash.toList ++
    m.evidenceHash.toList

@[simp] theorem length_bytes (m : AttestationMessage) : m.bytes.length = msgLen := by
  simp only [bytes, List.length_append, List.Vector.toList_length, length_be]
  rfl

/-- Messages laid out the same are the same. -/
theorem bytes_injective : Function.Injective bytes := by
  rintro ⟨d, c, s, p, e⟩ ⟨d', c', s', p', e'⟩ h
  obtain ⟨h, he⟩ := List.append_inj' h (by simp)
  obtain ⟨h, hp⟩ := List.append_inj' h (by simp)
  obtain ⟨h, hs⟩ := List.append_inj' h (by simp)
  obtain ⟨hd, hc⟩ := List.append_inj' h (by simp)
  simp only at hd hc hs hp he
  rw [List.Vector.toList_injective hd, be_inj.mp hc, List.Vector.toList_injective hs,
    List.Vector.toList_injective hp, List.Vector.toList_injective he]

/-- What the parser returns is laid out as its input. -/
theorem bytes_of_parse {b : Bytes} {m : AttestationMessage} (h : parse b = .ok m) :
    m.bytes = b := by
  unfold parse at h
  split at h
  case isTrue hlen =>
    cases h
    have hlen : b.length = 93 := hlen
    have htail : (slice b 61 32 (by omega)).toList = b.drop 61 := by
      have h := slice_append_drop b 61 32 (by omega)
      rwa [List.drop_of_length_le (by omega), List.append_nil] at h
    have hctr : (slice b 16 8 (by omega)).toList.length = Word.width UInt64 := by simp
    change (slice b 0 16 (by omega)).toList ++
      be (ofBe (slice b 16 8 (by omega)).toList : UInt64) ++
      (slice b 24 5 (by omega)).toList ++ (slice b 29 32 (by omega)).toList ++
      (slice b 61 32 (by omega)).toList = b
    rw [be_ofBe hctr, htail, List.append_assoc, List.append_assoc, List.append_assoc,
      slice_append_drop b 29 32, slice_append_drop b 24 5, slice_append_drop b 16 8,
      slice_append_drop b 0 16, List.drop_zero]
  case isFalse => cases h

/-- **The parser accepts exactly the layouts.** -/
theorem parse_ok {b : Bytes} {m : AttestationMessage} : parse b = .ok m ↔ b = m.bytes := by
  refine ⟨fun h => (bytes_of_parse h).symm, ?_⟩
  rintro rfl
  have hok : ∃ m', parse m.bytes = .ok m' := by
    unfold parse
    rw [dif_pos (length_bytes m)]
    exact ⟨_, rfl⟩
  obtain ⟨m', hm'⟩ := hok
  rw [hm', bytes_injective (bytes_of_parse hm')]

theorem exists_parse_ok {b : Bytes} (h : b.length = msgLen) : ∃ m, parse b = .ok m := by
  rw [parse, dif_pos h]
  exact ⟨_, rfl⟩

end AttestationMessage

/-- `device_id_display`: a device id as text, without the padding. -/
def deviceIdDisplay (id : List.Vector UInt8 deviceIdLen) : String :=
  String.ofList
    (Text.trimEnd Text.isWhitespace (Text.trimEnd (·.toNat == 0) (Text.lossy id.toList)))

/-! ## The prover's side -/

variable (C : Crypto)

/-- `evidence_digest`: the digest of an evidence bundle, taken by both sides. -/
def evidenceDigest (bundle : Bytes) : List.Vector UInt8 evidenceHashLen := C.sha256 bundle

/-- A device id as the fixed field: truncated, or padded with zeros. -/
def padDeviceId (deviceId : Bytes) : List.Vector UInt8 deviceIdLen :=
  ⟨deviceId.take deviceIdLen ++ List.replicate (deviceIdLen - deviceId.length) 0, by
    rw [List.length_append, List.length_take, List.length_replicate]; omega⟩

/-- `encode_pcr_selection`: a TPM algorithm id and the three bytes of a PCR bitmap. -/
def encodePcrSelection (algId : UInt16) (bitmap : List.Vector UInt8 3) :
    List.Vector UInt8 pcrSelectionLen :=
  ⟨be algId ++ bitmap.toList, by simp⟩

/-- `build_canonical`: the message of a device, from the raw PCR contents and the raw bundle. -/
def buildCanonical (deviceId : Bytes) (counter : UInt64)
    (pcrSelection : List.Vector UInt8 pcrSelectionLen) (pcrState evidence : Bytes) : Bytes :=
  (padDeviceId deviceId).toList ++ be counter ++ pcrSelection.toList ++
    (C.sha256 pcrState).toList ++ (evidenceDigest C evidence).toList

/-- What the prover builds, the verifier parses. -/
theorem parse_buildCanonical (deviceId : Bytes) (counter : UInt64)
    (pcrSelection : List.Vector UInt8 pcrSelectionLen) (pcrState evidence : Bytes) :
    AttestationMessage.parse (buildCanonical C deviceId counter pcrSelection pcrState evidence) =
      .ok ⟨padDeviceId deviceId, counter, pcrSelection, C.sha256 pcrState,
        evidenceDigest C evidence⟩ :=
  AttestationMessage.parse_ok.mpr rfl

end TactiqAttest.Envelope
