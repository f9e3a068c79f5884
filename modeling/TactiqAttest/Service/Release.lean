import TactiqAttest.Bytes.Text
import TactiqAttest.Envelope.Message
import TactiqAttest.Programs.Results
import TactiqAttest.Service.Port

/-!
# The operator's release

A stop is lifted only by a release: two lines naming a device and an epoch, signed by the operator.
The record is read strictly, so that the signed bytes have one reading, and the signature is checked
first, over the exact bytes.
-/

namespace TactiqAttest.Service

open Prog

abbrev maxRecord : ℕ := 256
abbrev maxSig : ℕ := 80

/-- A release, after parsing. -/
structure Release where
  deviceId : Bytes
  epoch : UInt64
  deriving DecidableEq

namespace Release

/-- The two lines of a record. -/
def twoLines : List Bytes → Except String (Bytes × Bytes)
  | [dev, ep] => .ok (dev, ep)
  | lines => .error s!"release: {lines.length} lines, expected 2 (device, epoch)"

/-- `release::parse`. -/
def parse (record : Bytes) : Except String Release := do
  Except.ensure (record.length ≤ maxRecord)
    s!"release: {record.length} bytes, more than {maxRecord}"
  Except.ensure (Text.utf8Valid record) "release: not ASCII"
  Except.ensure (record.all (· < 0x80) ∧ 0x0D ∉ record)
    "release: not plain ASCII with LF line ends"
  let body ← Except.ofOption "release: must end with a newline" (Text.stripLast 0x0A record)
  let (dev, ep) ← twoLines (Text.split 0x0A body)
  let deviceId ← Except.ofOption "release: first line must be `device <id>`"
    (Text.stripPrefix (Text.ascii "device ") dev)
  Except.ensure (deviceId ≠ [] ∧ deviceId.length ≤ Envelope.deviceIdLen ∧
    deviceId.all Text.isGraphic) "release: not a valid device id"
  let n ← Except.ofOption "release: second line must be `epoch <n>`"
    (Text.stripPrefix (Text.ascii "epoch ") ep)
  let epoch ← Except.ofOption s!"release: epoch {Text.debug n} is not a number"
    (Text.parseUnsigned (2 ^ 64) n)
  Except.ensure (Text.decimal epoch = n)
    s!"release: epoch {Text.debug n} is not written canonically"
  Except.ensure (epoch % 2 = 0)
    s!"release: epoch {epoch} is odd, a stopped state; a release names a running one"
  return { deviceId, epoch := UInt64.ofNat epoch }

variable (C : Crypto)

/-- `release::check`: the signature first, then the content. -/
def check (key : C.VerifyingKey) (record sigDer deviceId : Bytes) (epoch : UInt64) :
    Except String Unit := do
  Except.ensure (sigDer.length ≤ maxSig)
    s!"release: signature of {sigDer.length} bytes, more than {maxSig}"
  let sig ← (C.fromDer sigDer).mapError fun _ => "release: signature is not DER ECDSA"
  Except.ensure (C.verify key record sig)
    "release: signature does not verify against the operator key"
  let r ← parse record
  Except.ensure (r.deviceId = deviceId)
    s!"release names device {Text.display r.deviceId}, this device is {Text.display deviceId}"
  Except.ensure (r.epoch = epoch)
    s!"release names epoch {r.epoch}, the epoch needed is {epoch}"

variable {C}

/-- A release passes exactly if it is signed and reads as this device and this epoch. -/
theorem check_ok {key : C.VerifyingKey} {record sigDer deviceId : Bytes} {epoch : UInt64}
    {u : Unit} :
    check C key record sigDer deviceId epoch = .ok u ↔
      sigDer.length ≤ maxSig ∧ (∃ sig, C.fromDer sigDer = .ok sig ∧ C.verify key record sig) ∧
        parse record = .ok ⟨deviceId, epoch⟩ := by
  unfold check
  simp only [Except.bind_eq_ok, Except.ensure_eq_ok, Except.mapError_eq_ok, exists_const]
  refine and_congr_right fun _ => ⟨fun h => ?_, fun h => ?_⟩
  · obtain ⟨sig, hsig, hverify, ⟨d, e⟩, hparse, rfl, rfl⟩ := h
    exact ⟨⟨sig, hsig, hverify⟩, hparse⟩
  · obtain ⟨⟨sig, hsig, hverify⟩, hparse⟩ := h
    exact ⟨sig, hsig, hverify, _, hparse, rfl, rfl⟩

/-- A record passes for one epoch only. -/
theorem check_unique {key key' : C.VerifyingKey} {record sigDer sigDer' deviceId deviceId' : Bytes}
    {epoch epoch' : UInt64} {u u' : Unit} (h : check C key record sigDer deviceId epoch = .ok u)
    (h' : check C key' record sigDer' deviceId' epoch' = .ok u') : epoch = epoch' := by
  have hparse := (check_ok.mp h).2.2
  rw [(check_ok.mp h').2.2] at hparse
  exact ((Release.mk.inj (Except.ok.inj hparse)).2).symm

/-- A release names a running epoch. -/
theorem even_of_parse {record : Bytes} {r : Release} (h : parse record = .ok r) :
    r.epoch.toNat % 2 = 0 := by
  unfold parse at h
  simp only [Except.bind_eq_ok, Except.ensure_eq_ok, Except.pure_eq_ok] at h
  obtain ⟨-, -, -, -, -, -, -, -, ⟨-, -⟩, -, -, -, -, -, n, -, epoch, -, -, -, -, heven, rfl⟩ := h
  show (UInt64.ofNat epoch).toNat % 2 = 0
  rw [UInt64.toNat_ofNat']
  omega

end Release

/-- `ReleaseFiles`: where the record and its signature are kept. -/
structure ReleaseFiles where
  record : String
  sig : String

/-- `ReleaseFiles::read`.  A record without its signature is no release. -/
def ReleaseFiles.read (files : ReleaseFiles) : ReleaseStore := do
  match ← readBounded files.record maxRecord with
  | none => return none
  | some record =>
    let sig ← readBounded files.sig maxSig
    return sig.map (record, ·)

/-- A release was read: both files were there, and neither was too long. -/
theorem ReleaseFiles.yields_read_some {files : ReleaseFiles} {cs : List (Exchange Op Reply)}
    {record sig : Bytes} :
    files.read.run.Yields cs (.ok (some (record, sig))) ↔
      record.length ≤ maxRecord ∧ sig.length ≤ maxSig ∧
        cs = [⟨.readFile files.record (maxRecord + 1), .ok record⟩,
          ⟨.readFile files.sig (maxSig + 1), .ok sig⟩] := by
  rw [ReleaseFiles.read, yields_tryBind_ok]
  refine ⟨fun ⟨cs₁, cs₂, first, hcs, hfirst, hrest⟩ => ?_, fun ⟨hrecord, hsig, hcs⟩ => ?_⟩
  · obtain ⟨r₁, rfl, hr₁⟩ := yields_readBounded.mp hfirst
    rcases first with _ | record'
    · obtain ⟨-, hnone⟩ := yields_tryPure.mp hrest
      cases hnone
    · obtain ⟨cs₃, cs₄, second, hcs₂, hsecond, hret⟩ := yields_tryBind_ok.mp hrest
      obtain ⟨rfl, hout⟩ := yields_tryPure.mp hret
      obtain ⟨r₂, rfl, hr₂⟩ := yields_readBounded.mp hsecond
      rcases second with _ | sig'
      · cases hout
      · cases hout
        obtain ⟨rfl, hrecord⟩ := boundedFile_some.mp hr₁
        obtain ⟨rfl, hsig⟩ := boundedFile_some.mp hr₂
        exact ⟨hrecord, hsig, by rw [hcs, hcs₂]; rfl⟩
  · refine ⟨[_], [_], some record, hcs, yields_readBounded.mpr
      ⟨_, rfl, boundedFile_some.mpr ⟨rfl, hrecord⟩⟩, ?_⟩
    exact yields_tryBind_ok.mpr ⟨[_], [], some sig, rfl, yields_readBounded.mpr
      ⟨_, rfl, boundedFile_some.mpr ⟨rfl, hsig⟩⟩, yields_tryPure.mpr ⟨rfl, rfl⟩⟩

end TactiqAttest.Service
