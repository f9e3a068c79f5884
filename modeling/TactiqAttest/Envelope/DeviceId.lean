import TactiqAttest.Bytes.Chars
import TactiqAttest.Envelope.Message

/-!
# Device ids

A device id is 1 to 16 printable ASCII bytes.  In the canonical message it is a field of 16 bytes,
which `padDeviceId` fills by cutting off what is too long and adding zeros.  On ids nothing is cut
off, and since they have no zero bytes the field says where they end: `display_padDeviceId` reads
the id back, and so `padDeviceId_injOn`.
-/

namespace TactiqAttest.Envelope

/-- What can be the id of a device. -/
structure ValidId (id : Bytes) : Prop where
  nonempty : id ≠ []
  short : id.length ≤ deviceIdLen
  graphic : ∀ b ∈ id, Text.isGraphic b = true

variable {id id' : Bytes}

/-- The checks as they are written. -/
theorem validId_iff :
    ValidId id ↔ id ≠ [] ∧ id.length ≤ deviceIdLen ∧ id.all Text.isGraphic = true := by
  rw [List.all_eq_true]
  exact ⟨fun h => ⟨h.nonempty, h.short, h.graphic⟩, fun h => ⟨h.1, h.2.1, h.2.2⟩⟩

namespace ValidId

theorem ascii (h : ValidId id) : ∀ b ∈ id, b.toNat < 0x80 :=
  fun b hb => Text.lt_of_isGraphic (h.graphic b hb)

/-- The characters of an id are neither zeros nor blanks. -/
theorem char (h : ValidId id) {c : Char} (hc : c ∈ Chars.ofAscii id) :
    (c.toNat == 0) = false ∧ Text.isWhitespace c = false := by
  obtain ⟨b, hb, rfl⟩ := List.mem_map.mp hc
  have hlow := (Text.isGraphic_iff.mp (h.graphic b hb)).1
  refine ⟨?_, Chars.isWhitespace_of_isGraphic (h.graphic b hb)⟩
  rw [Chars.toNat_ofNat_toNat, beq_eq_false_iff_ne]
  omega

end ValidId

/-! ## The field -/

/-- Nothing of an id is cut off. -/
theorem toList_padDeviceId (h : ValidId id) :
    (padDeviceId id).toList = id ++ List.replicate (deviceIdLen - id.length) 0 := by
  show id.take deviceIdLen ++ _ = _
  rw [List.take_of_length_le h.short]

/-- **The field of an id displays as the id.** -/
theorem display_padDeviceId (h : ValidId id) :
    deviceIdDisplay (padDeviceId id) = String.ofList (Chars.ofAscii id) := by
  have hascii : ∀ b ∈ id ++ List.replicate (deviceIdLen - id.length) 0, b.toNat < 0x80 := by
    intro b hb
    rcases List.mem_append.mp hb with hb | hb
    · exact h.ascii b hb
    · rw [List.eq_of_mem_replicate hb]
      decide
  have hzeros : ∀ c ∈ Chars.ofAscii (List.replicate (deviceIdLen - id.length) 0),
      (c.toNat == 0) = true := by
    intro c hc
    obtain ⟨b, hb, rfl⟩ := List.mem_map.mp hc
    rw [List.eq_of_mem_replicate hb]
    rfl
  have hblanks : Text.trimEnd Text.isWhitespace (Chars.ofAscii id ++ []) = Chars.ofAscii id :=
    Chars.trimEnd_append (fun c hc => (h.char hc).2) (by simp)
  rw [List.append_nil] at hblanks
  rw [deviceIdDisplay, toList_padDeviceId h, Chars.lossy_of_ascii hascii, Chars.ofAscii_append,
    Chars.trimEnd_append (fun c hc => (h.char hc).1) hzeros, hblanks]

/-- **Different ids have different fields.** -/
theorem padDeviceId_injOn (h : ValidId id) (h' : ValidId id')
    (heq : padDeviceId id = padDeviceId id') : id = id' := by
  have hdisplay := congrArg deviceIdDisplay heq
  rw [display_padDeviceId h, display_padDeviceId h'] at hdisplay
  rw [← Chars.utf8_ofAscii h.ascii, ← Chars.utf8_ofAscii h'.ascii, String.ofList_injective hdisplay]

end TactiqAttest.Envelope
