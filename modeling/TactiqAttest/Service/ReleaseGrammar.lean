import TactiqAttest.Bytes.Cutting
import TactiqAttest.Service.Release

/-!
# One spelling for every release

The operator signs bytes, and what is acted on is a device and an epoch.  The two are the same
thing: `Release.parse` accepts one string for every device and even epoch (`parse_eq_ok`), and no
other.

The checks of the parser are about different aspects of the string --- that it is ASCII, where it
has line ends, how the number is written.  They meet in `bytes_spelling`, which says what bytes the
two lines consist of.
-/

namespace TactiqAttest.Service

namespace Release

/-- The two lines. -/
def spelling (r : Release) : Bytes :=
  Text.ascii "device " ++ r.deviceId ++
    0x0A :: (Text.ascii "epoch " ++ Text.decimal r.epoch.toNat) ++
    [0x0A]

/-- What a release can name: a device id of 1 to 16 printable characters, and a running epoch. -/
structure Legal (r : Release) : Prop where
  named : r.deviceId ≠ []
  short : r.deviceId.length ≤ Envelope.deviceIdLen
  graphic : r.deviceId.all Text.isGraphic
  running : r.epoch.toNat % 2 = 0

variable {r : Release} {record : Bytes} {b : UInt8}

theorem twoLines_eq_ok {lines : List Bytes} {dev ep : Bytes} :
    twoLines lines = .ok (dev, ep) ↔ lines = [dev, ep] := by
  unfold twoLines
  split
  case h_1 => simp
  case h_2 hne => exact ⟨fun h => (by cases h), fun h => absurd h (hne dev ep)⟩

/-! ## Its bytes -/

/-- The bytes of a line: printable characters, and the blank after its first word. -/
theorem bytes_first (hr : r.Legal) (h : b ∈ Text.ascii "device " ++ r.deviceId) :
    0x20 ≤ b.toNat ∧ b.toNat ≤ 0x7E := by
  rcases List.mem_append.mp h with h | h
  · have hword : ∀ c ∈ Text.ascii "device ", 0x20 ≤ c.toNat ∧ c.toNat ≤ 0x7E := by
      decide +kernel
    exact hword b h
  · have hbounds := Text.isGraphic_iff.mp (List.all_eq_true.mp hr.graphic b h)
    omega

theorem bytes_second {n : ℕ} (h : b ∈ Text.ascii "epoch " ++ Text.decimal n) :
    0x20 ≤ b.toNat ∧ b.toNat ≤ 0x7E := by
  rcases List.mem_append.mp h with h | h
  · have hword : ∀ c ∈ Text.ascii "epoch ", 0x20 ≤ c.toNat ∧ c.toNat ≤ 0x7E := by
      decide +kernel
    exact hword b h
  · have hbounds := Text.isDigit_iff.mp (Text.isDigit_of_mem_decimal h)
    omega

/-- Besides those there are the two line ends. -/
theorem bytes_spelling (hr : r.Legal) (h : b ∈ r.spelling) :
    b = 0x0A ∨ 0x20 ≤ b.toNat ∧ b.toNat ≤ 0x7E := by
  rw [spelling, List.mem_append, List.mem_append, List.mem_cons, List.mem_singleton] at h
  rcases h with (h | h | h) | h
  · exact .inr (bytes_first hr h)
  · exact .inl h
  · exact .inr (bytes_second h)
  · exact .inl h

theorem length_spelling (hr : r.Legal) : r.spelling.length ≤ maxRecord := by
  have hdigits : (Text.decimal r.epoch.toNat).length ≤ 20 :=
    Text.length_decimal_le (by decide) (Nat.lt_of_lt_of_le r.epoch.toNat_lt (by decide))
  have hid : r.deviceId.length ≤ 16 := hr.short
  have hdevice : (Text.ascii "device ").length = 7 := by decide
  have hepoch : (Text.ascii "epoch ").length = 6 := by decide
  simp only [spelling, List.length_append, List.length_cons, List.length_nil, hdevice, hepoch]
  show _ ≤ 256
  omega

/-! ## The parser -/

/-- The spelling of a legal release parses to it. -/
theorem parse_spelling (hr : r.Legal) : parse r.spelling = .ok r := by
  have hascii : ∀ b ∈ r.spelling, b.toNat < 0x80 := fun b hb => by
    rcases bytes_spelling hr hb with rfl | hbounds
    · decide
    · omega
  have hcr : (0x0D : UInt8) ∉ r.spelling := fun h => by
    rcases bytes_spelling hr h with h | hbounds
    · exact absurd h (by decide)
    · exact absurd hbounds.1 (by decide)
  have hsmall : r.spelling.all (· < 0x80) = true :=
    List.all_eq_true.mpr fun b hb => decide_eq_true (UInt8.lt_iff_toNat_lt.mpr (hascii b hb))
  have hlines : Text.split 0x0A (Text.ascii "device " ++ r.deviceId ++
      0x0A :: (Text.ascii "epoch " ++ Text.decimal r.epoch.toNat)) =
        [Text.ascii "device " ++ r.deviceId,
          Text.ascii "epoch " ++ Text.decimal r.epoch.toNat] := by
    refine Text.split_eq_iff.mpr ⟨List.cons_ne_nil _ _, ?_, by simp⟩
    rw [List.forall_mem_cons, List.forall_mem_singleton]
    exact ⟨fun h => absurd (bytes_first hr h).1 (by decide),
      fun h => absurd (bytes_second h).1 (by decide)⟩
  unfold parse
  simp only [Except.bind_eq_ok, Except.ensure_eq_ok, Except.ofOption_eq_ok, Except.pure_eq_ok,
    exists_const]
  refine ⟨length_spelling hr, Chars.utf8Valid_of_ascii hascii, ⟨hsmall, hcr⟩, _,
    Text.stripLast_eq_some.mpr rfl, ⟨_, _⟩, twoLines_eq_ok.mpr hlines, r.deviceId,
    Text.stripPrefix_eq_some.mpr rfl, ⟨hr.named, hr.short, hr.graphic⟩, _,
    Text.stripPrefix_eq_some.mpr rfl, r.epoch.toNat, ?_, rfl, hr.running, ?_⟩
  · rw [Text.parseUnsigned_decimal, if_pos r.epoch.toNat_lt]
  · rw [UInt64.ofNat_toNat]

/-- **A release has one spelling**: what parses to it is the two lines that name it. -/
theorem parse_eq_ok : parse record = .ok r ↔ r.Legal ∧ record = r.spelling := by
  constructor
  · intro h
    have hrunning := even_of_parse h
    unfold parse at h
    simp only [Except.bind_eq_ok, Except.ensure_eq_ok, Except.ofOption_eq_ok,
      Except.pure_eq_ok] at h
    obtain ⟨-, -, -, -, -, -, body, hbody, ⟨dev, ep⟩, hlines, d, hd, -, hid, n, hn, epoch, hepoch,
      -, hcanonical, -, -, rfl⟩ := h
    obtain ⟨-, -, rfl⟩ := Text.split_eq_iff.mp (twoLines_eq_ok.mp hlines)
    have hlt := Text.parseUnsigned_lt hepoch
    have hback : (UInt64.ofNat epoch).toNat = epoch := UInt64.toNat_ofNat_of_lt' hlt
    refine ⟨⟨hid.1, hid.2.1, hid.2.2, hrunning⟩, ?_⟩
    rw [Text.stripLast_eq_some.mp hbody, spelling, ← Text.stripPrefix_eq_some.mp hd,
      hback, hcanonical, ← Text.stripPrefix_eq_some.mp hn]
    simp
  · rintro ⟨hr, rfl⟩
    exact parse_spelling hr

/-- **The record read is the only one that could have been**: the parser accepts the spellings of
the releases there can be, different ones for different releases, and what `check` lets through is a
signature on the spelling of this device and epoch. -/
theorem one_spelling (C : Crypto) :
    (∀ record r, parse record = .ok r ↔ r.Legal ∧ record = r.spelling) ∧
    (∀ record record' r, parse record = .ok r → parse record' = .ok r → record = record') ∧
    (∀ r : Release, r.Legal → parse r.spelling = .ok r) ∧
    ∀ (key : C.VerifyingKey) (record sigDer deviceId : Bytes) (epoch : UInt64),
      check C key record sigDer deviceId epoch = .ok () →
        (∃ sig, C.fromDer sigDer = .ok sig ∧ C.verify key record sig) ∧
          Legal ⟨deviceId, epoch⟩ ∧ record = spelling ⟨deviceId, epoch⟩ := by
  refine ⟨fun _ _ => parse_eq_ok, fun record record' r h h' => ?_, fun _ => parse_spelling,
    fun key record sigDer deviceId epoch h => ?_⟩
  · rw [(parse_eq_ok.mp h).2, (parse_eq_ok.mp h').2]
  · obtain ⟨-, hsig, hparse⟩ := check_ok.mp h
    exact ⟨hsig, parse_eq_ok.mp hparse⟩

end Release

end TactiqAttest.Service
