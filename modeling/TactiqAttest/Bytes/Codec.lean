import TactiqAttest.Bytes.BigEndian

/-!
# Formats

A format is an encoder, which may refuse a value, with a parser, which may refuse a string.

* `Codec`: the parser accepts what the encoder writes, as what it was written from, and nothing
  else;
* `Strict`: moreover no accepted string goes on from another, and memory that was never written is
  not accepted.
-/

variable {α ε ε' : Type} {encode : α → Except ε Bytes} {parse : Bytes → Except ε' α} {v v' : α}
  {b b' : Bytes}

/-- The parser accepts what the encoder writes, and nothing else. -/
structure Codec (encode : α → Except ε Bytes) (parse : Bytes → Except ε' α) : Prop where
  parse_of_encode : ∀ {v b}, encode v = .ok b → parse b = .ok v
  encode_of_parse : ∀ {v b}, parse b = .ok v → encode v = .ok b

namespace Codec

/-- Both sides are about the same bytes of the same values. -/
theorem of_legal {Legal : α → Prop} {bytes : α → Bytes}
    (hencode : ∀ {v b}, encode v = .ok b ↔ Legal v ∧ b = bytes v)
    (hparse : ∀ {v b}, parse b = .ok v ↔ Legal v ∧ b = bytes v) : Codec encode parse :=
  ⟨fun h => hparse.mpr (hencode.mp h), fun h => hencode.mpr (hparse.mp h)⟩

variable (C : Codec encode parse)
include C

theorem encode_iff : encode v = .ok b ↔ parse b = .ok v :=
  ⟨C.parse_of_encode, C.encode_of_parse⟩

/-- The values that can be written are those that can be read. -/
theorem encodes_iff : (∃ b, encode v = .ok b) ↔ ∃ b, parse b = .ok v :=
  exists_congr fun _ => C.encode_iff

/-- The strings that can be read are those that can be written. -/
theorem accepts_iff : (∃ v, parse b = .ok v) ↔ ∃ v, encode v = .ok b :=
  exists_congr fun _ => C.encode_iff.symm

/-- A value has one spelling. -/
theorem unique (h : parse b = .ok v) (h' : parse b' = .ok v) : b = b' :=
  Except.ok.inj ((C.encode_of_parse h).symm.trans (C.encode_of_parse h'))

end Codec

/-- A format whose strings stand on their own. -/
structure Strict (encode : α → Except ε Bytes) (parse : Bytes → Except ε' α) : Prop
    extends Codec encode parse where
  encodes_iff : ∀ v, (∃ b, encode v = .ok b) ↔ ∃ b, parse b = .ok v
  unique : ∀ {v b b'}, parse b = .ok v → parse b' = .ok v → b = b'
  /-- Neither cut short nor continued. -/
  whole : ∀ {v v' b x}, parse b = .ok v → parse (b ++ x) = .ok v' → x = []
  /-- Zeroed memory is refused. -/
  notZeroed : ∀ n v, parse (List.replicate n 0x00) ≠ .ok v
  /-- Erased flash is refused. -/
  notErased : ∀ n v, parse (List.replicate n 0xFF) ≠ .ok v

/-- The parts of it that are not general. -/
theorem Strict.of_codec (C : Codec encode parse)
    (whole : ∀ {v v' b x}, parse b = .ok v → parse (b ++ x) = .ok v' → x = [])
    (filled : ∀ {c : UInt8} {n v}, c = 0x00 ∨ c = 0xFF → parse (List.replicate n c) ≠ .ok v) :
    Strict encode parse where
  toCodec := C
  encodes_iff _ := C.encodes_iff
  unique := C.unique
  whole := whole
  notZeroed _ _ := filled (.inl rfl)
  notErased _ _ := filled (.inr rfl)
