import TactiqAttest.Envelope.DeviceId
import TactiqAttest.Prover.ProvisionStops
import TactiqAttest.Registrar.Record
import TactiqAttest.Service.ReleaseGrammar

/-!
# One rule for ids

Five programs check device ids, each with code of its own: the prover when an id is assigned and
when it is read, the stop service when it reads the same file, the parser of releases, the
registrar, and `stop-verify`, which makes the id into the field that messages carry.  `one_identity`
says that they have one rule, `ValidId`, and that what satisfies it comes through the canonical
message unchanged.
-/

namespace TactiqAttest

open Envelope

/-- `read_device_id` of the stop service: the file of the prover. -/
def Service.readDeviceId (path : String) (file : Except String Bytes) : Except String String := do
  let raw ← file.mapError fun e => s!"read {path}: {e}"
  Except.ensure (Text.utf8Valid raw = true) s!"read {path}: stream did not contain valid UTF-8"
  let id := Chars.trim (Text.lossy raw)
  let bytes := Chars.utf8 id
  Except.ensure (bytes ≠ [] ∧ bytes.length ≤ deviceIdLen ∧ bytes.all Text.isGraphic = true)
    s!"{path}: not a valid device id"
  return String.ofList id

/-- `device_id` of `stop-verify`: the id of the command line, as the field. -/
def StopVerify.deviceId (s : String) : Except String (List.Vector UInt8 deviceIdLen) :=
  let bytes := Chars.utf8 s.toList
  if h : bytes ≠ [] ∧ bytes.length ≤ deviceIdLen ∧ bytes.all Text.isGraphic = true then
    .ok ⟨bytes ++ List.replicate (deviceIdLen - bytes.length) 0, by
      rw [List.length_append, List.length_replicate]
      exact Nat.add_sub_cancel' h.2.1⟩
  else
    .error s!"--device {Chars.debug s.toList}: 1..={deviceIdLen} printable ASCII characters"

/-- The bytes of an id. -/
abbrev idBytes (id : String) : Bytes := Chars.utf8 id.toList

variable {id id' path : String}

/-- An id is the text of its bytes. -/
theorem ofAscii_idBytes (h : ValidId (idBytes id)) :
    String.ofList (Chars.ofAscii (idBytes id)) = id := by
  rw [Chars.ofAscii_utf8 h.ascii, String.ofList_toList]

/-! ## The checks -/

theorem Prover.Provision.validateId_iff : validateId id = .ok () ↔ ValidId (idBytes id) :=
  validateId_ok.trans ⟨fun h => ⟨h.1, h.2.1, h.2.2⟩, fun h => ⟨h.nonempty, h.short, h.graphic⟩⟩

theorem Registrar.validateId_iff : validateId id = .ok () ↔ ValidId (idBytes id) := by
  rw [validId_iff, validateId, Except.ensure_eq_ok]

/-- The stop service reads a file as the prover does. -/
theorem Service.readDeviceId_iff {raw : Bytes} :
    readDeviceId path (.ok raw) = .ok id ↔ Prover.Provision.idOfFile path raw = .ok id := by
  unfold readDeviceId Prover.Provision.idOfFile
  simp only [Except.bind_eq_ok, Except.ensure_eq_ok, Except.pure_eq_ok, exists_const,
    Except.mapError_eq_ok, Except.ok.injEq, exists_eq_left']
  refine and_congr_right fun _ => ?_
  have hcheck : Prover.Provision.validateId (String.ofList (Chars.trim (Text.lossy raw))) = .ok () ↔
      _ :=
    Prover.Provision.validateId_iff
  rw [validId_iff, idBytes, String.toList_ofList] at hcheck
  rw [← hcheck]
  constructor
  · intro h
    exact ⟨(), h⟩
  · rintro ⟨_, h⟩
    exact h

/-- What it can read from a file is an id. -/
theorem Service.exists_readDeviceId_iff :
    (∃ raw, readDeviceId path (.ok raw) = .ok id) ↔ ValidId (idBytes id) := by
  constructor
  · rintro ⟨raw, h⟩
    rw [readDeviceId_iff, Prover.Provision.idOfFile] at h
    simp only [Except.bind_eq_ok, Except.ensure_eq_ok, Except.pure_eq_ok] at h
    obtain ⟨_, -, _, hvalid, rfl⟩ := h
    exact Prover.Provision.validateId_iff.mp hvalid
  · intro h
    refine ⟨idBytes id ++ [], readDeviceId_iff.mpr ?_⟩
    exact Prover.Provision.idOfFile_id (Prover.Provision.validateId_iff.mpr h) (by simp)

/-- The ids that a release can name. -/
theorem Service.exists_release_iff {bytes : Bytes} :
    (∃ record epoch, Release.parse record = .ok ⟨bytes, epoch⟩) ↔ ValidId bytes := by
  constructor
  · rintro ⟨record, epoch, h⟩
    obtain ⟨hlegal, -⟩ := Release.parse_eq_ok.mp h
    exact validId_iff.mpr ⟨hlegal.named, hlegal.short, hlegal.graphic⟩
  · intro h
    obtain ⟨hne, hshort, hgraphic⟩ := validId_iff.mp h
    exact ⟨_, 0, Release.parse_spelling ⟨hne, hshort, hgraphic, rfl⟩⟩

/-- `stop-verify` takes an id for the field that messages carry. -/
theorem StopVerify.deviceId_ok {d : List.Vector UInt8 deviceIdLen} :
    deviceId id = .ok d ↔ ValidId (idBytes id) ∧ padDeviceId (idBytes id) = d := by
  rw [validId_iff]
  unfold deviceId
  dsimp only
  constructor
  · intro h
    split_ifs at h with hvalid
    refine ⟨hvalid, List.Vector.toList_injective ?_⟩
    rw [toList_padDeviceId (validId_iff.mpr hvalid), ← Except.ok.inj h]
    rfl
  · rintro ⟨hvalid, rfl⟩
    rw [dif_pos hvalid]
    exact congrArg Except.ok (List.Vector.toList_injective
      (toList_padDeviceId (validId_iff.mpr hvalid)).symm)

/-! ## The message -/

/-- **An id and the other fields come through the canonical message**: it parses to them, and the id
field is the one `stop-verify` compares with and displays as the id. -/
theorem message_carries (C : Crypto) (h : ValidId (idBytes id)) (counter : UInt64)
    (pcrSelection : List.Vector UInt8 pcrSelectionLen) (pcrState evidence : Bytes) :
    ∃ d, StopVerify.deviceId id = .ok d ∧ deviceIdDisplay d = id ∧
      (buildCanonical C (idBytes id) counter pcrSelection pcrState evidence).length = 93 ∧
      AttestationMessage.parse (buildCanonical C
        (idBytes id) counter pcrSelection pcrState evidence) =
        .ok ⟨d, counter, pcrSelection, C.sha256 pcrState, C.sha256 evidence⟩ := by
  have hparse := parse_buildCanonical C (idBytes id) counter pcrSelection pcrState evidence
  refine ⟨_, StopVerify.deviceId_ok.mpr ⟨h, rfl⟩, ?_, ?_, hparse⟩
  · rw [display_padDeviceId h, ofAscii_idBytes h]
  · rw [← AttestationMessage.bytes_of_parse hparse, AttestationMessage.length_bytes]
    rfl

/-- **The five checks are one rule, and what satisfies it comes through the message**; the field of
the message belongs to one id, and no message has bytes besides its fields. -/
theorem one_identity (C : Crypto) :
    (∀ id path,
      (Prover.Provision.validateId id = .ok () ↔ ValidId (idBytes id)) ∧
      ((∃ raw, Service.readDeviceId path (.ok raw) = .ok id) ↔ ValidId (idBytes id)) ∧
      ((∃ record epoch, Service.Release.parse record = .ok ⟨idBytes id, epoch⟩) ↔
        ValidId (idBytes id)) ∧
      (Registrar.validateId id = .ok () ↔ ValidId (idBytes id)) ∧
      ((∃ d, StopVerify.deviceId id = .ok d) ↔ ValidId (idBytes id))) ∧
    (∀ path raw id, Service.readDeviceId path (.ok raw) = .ok id ↔
      Prover.Provision.idOfFile path raw = .ok id) ∧
    (∀ id, ValidId (idBytes id) → ∀ counter pcrSelection pcrState evidence,
      ∃ d, StopVerify.deviceId id = .ok d ∧ deviceIdDisplay d = id ∧
        (buildCanonical C (idBytes id) counter pcrSelection pcrState evidence).length = 93 ∧
        AttestationMessage.parse
          (buildCanonical C (idBytes id) counter pcrSelection pcrState evidence) =
            .ok ⟨d, counter, pcrSelection, C.sha256 pcrState, C.sha256 evidence⟩) ∧
    (∀ id id' d, StopVerify.deviceId id = .ok d → StopVerify.deviceId id' = .ok d → id = id') ∧
    (∀ b : Bytes, b.length = 93 → ∃ m, AttestationMessage.parse b = .ok m ∧
      m.deviceId.toList ++ BigEndian.be m.counter ++ m.pcrSelection.toList ++ m.pcrHash.toList ++
        m.evidenceHash.toList = b) := by
  refine ⟨fun id path => ⟨Prover.Provision.validateId_iff, Service.exists_readDeviceId_iff,
    Service.exists_release_iff, Registrar.validateId_iff, ?_⟩,
    fun _ _ _ => Service.readDeviceId_iff,
    fun _ h => message_carries C h, fun id id' d h h' => ?_, fun b hb => ?_⟩
  · exact ⟨fun ⟨d, hd⟩ => (StopVerify.deviceId_ok.mp hd).1,
      fun h => ⟨_, StopVerify.deviceId_ok.mpr ⟨h, rfl⟩⟩⟩
  · obtain ⟨hid, rfl⟩ := StopVerify.deviceId_ok.mp h
    obtain ⟨hid', heq⟩ := StopVerify.deviceId_ok.mp h'
    rw [← ofAscii_idBytes hid, ← ofAscii_idBytes hid', padDeviceId_injOn hid' hid heq]
  · obtain ⟨m, hm⟩ := AttestationMessage.exists_parse_ok hb
    exact ⟨m, hm, AttestationMessage.bytes_of_parse hm⟩

end TactiqAttest
