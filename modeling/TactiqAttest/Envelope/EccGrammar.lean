import TactiqAttest.Bytes.Panicking
import TactiqAttest.Envelope.EccPublic

/-!
# The grammar of a public area

`EccPublic::parse_tpm2b` reads words that are there only under a condition on an earlier one, and
does not keep all of them.  `layout` writes them all, and `parseTpm2b_iff` says that the parser
accepts exactly what `layout` writes, framed by its size.

The parser splits slices and indexes them.  `indexed` is its text with operations that may panic,
and `parseIndexed_eq` says that none does.
-/

open BigEndian

namespace TactiqAttest.Envelope.EccPublic

/-! ## The layout -/

/-- A word that is there only under a condition. -/
def optional (c : Prop) [Decidable c] (v : UInt16) : Bytes := if c then be v else []

/-- The `TPMT_PUBLIC` of the fields, with the words that are not kept. -/
def layout (p : EccPublic) (keyBits mode kdfHash : UInt16) : Bytes :=
  be tpmAlgEcc ++ (be p.nameAlg ++ (be p.attributes ++ (tpm2b p.authPolicy ++ (be p.symmetric ++
    (optional (p.symmetric ≠ tpmAlgNull) keyBits ++ (optional (p.symmetric ≠ tpmAlgNull) mode ++
    (be p.scheme ++ (optional (p.scheme ≠ tpmAlgNull) p.schemeHash ++ (be p.curve ++ (be p.kdf ++
    (optional (p.kdf ≠ tpmAlgNull) kdfHash ++ (tpm2b p.x ++ tpm2b p.y))))))))))))

/-- The sizes fit, and there is a scheme hash only with a scheme. -/
structure Sized (p : EccPublic) : Prop where
  tpmt : p.tpmt.length < 2 ^ 16
  authPolicy : p.authPolicy.length < 2 ^ 16
  x : p.x.length < 2 ^ 16
  y : p.y.length < 2 ^ 16
  noHash : p.scheme = tpmAlgNull → p.schemeHash = 0

variable {bytes rest tpmt : Bytes} {p : EccPublic} {v : UInt16} {c : Prop} [Decidable c]
  {field : String}

theorem run_wordIf_ok : (wordIf c field).run bytes = .ok (v, rest) ↔
    (¬ c → v = 0) ∧ bytes = optional c v ++ rest := by
  unfold wordIf optional Rd.word
  split_ifs with hc
  · rw [Reader.run_word_ok]
    exact ⟨fun h => ⟨fun hno => absurd hc hno, h⟩, And.right⟩
  · rw [Reader.run_pure_ok, List.nil_append]
    exact ⟨fun h => ⟨fun _ => h.1.symm, h.2⟩, fun h => ⟨(h.1 hc).symm, h.2⟩⟩

/-- A word that is not there may be taken to be 0. -/
theorem optional_append (c : Prop) [Decidable c] (v : UInt16) (rest : Bytes) :
    optional c v ++ rest = optional c (if c then v else 0) ++ rest := by
  unfold optional
  split_ifs <;> rfl

/-- The fields are read from what `layout` writes, and from nothing else. -/
theorem reader_ok : (reader tpmt).parse bytes = .ok p ↔ p.tpmt = tpmt ∧
    p.authPolicy.length < 2 ^ 16 ∧ p.x.length < 2 ^ 16 ∧ p.y.length < 2 ^ 16 ∧
    (p.scheme = tpmAlgNull → p.schemeHash = 0) ∧
    ∃ keyBits mode kdfHash, bytes = p.layout keyBits mode kdfHash := by
  rw [Reader.parse_ok, reader]
  simp only [Reader.run_bind_ok, Rd.word, Rd.tpm2b, Rd.finish, Reader.run_word_ok,
    Reader.run_counted_ok, Reader.run_ensure_ok, run_wordIf_ok, Reader.run_finish_ok,
    Reader.run_pure_ok]
  constructor
  · rintro ⟨_, type, _, h₁, _, _, ⟨h₂, h₃⟩, nameAlg, _, h₄, attributes, _, h₅, authPolicy, _,
      ⟨hpolicy, h₆⟩, symmetric, _, h₇, keyBits, _, ⟨-, h₈⟩, mode, _, ⟨-, h₉⟩, scheme, _, h₁₀,
      schemeHash, _, ⟨hhash, h₁₁⟩, curve, _, h₁₂, kdf, _, h₁₃, kdfHash, _, ⟨-, h₁₄⟩, x, _,
      ⟨hx, h₁₅⟩, y, _, ⟨hy, h₁₆⟩, _, _, ⟨h₁₇, h₁₈⟩, h₁₉, -⟩
    subst_vars
    refine ⟨rfl, hpolicy, hx, hy, fun hnull => hhash (not_not.mpr hnull), keyBits,
      mode, kdfHash, ?_⟩
    rw [List.append_nil]
    rfl
  · rintro ⟨rfl, hpolicy, hx, hy, hhash, keyBits, mode, kdfHash, rfl⟩
    refine ⟨[], tpmAlgEcc, _, rfl, (), _, ⟨rfl, rfl⟩, p.nameAlg, _, rfl, p.attributes, _, rfl,
      p.authPolicy, _, ⟨hpolicy, rfl⟩, p.symmetric, _, rfl,
      if p.symmetric ≠ tpmAlgNull then keyBits else 0, _,
        ⟨fun hc => if_neg hc, optional_append _ _ _⟩,
      if p.symmetric ≠ tpmAlgNull then mode else 0, _, ⟨fun hc => if_neg hc, optional_append _ _ _⟩,
      p.scheme, _, rfl, p.schemeHash, _, ⟨fun hc => hhash (not_not.mp hc), rfl⟩, p.curve, _,
      rfl, p.kdf, _, rfl,
      if p.kdf ≠ tpmAlgNull then kdfHash else 0, _, ⟨fun hc => if_neg hc, optional_append _ _ _⟩,
      p.x, _, ⟨hx, rfl⟩, p.y, [], ⟨hy, (List.append_nil _).symm⟩, (), [], ⟨rfl, rfl⟩, rfl, rfl⟩

/-- **What is parsed as a public area is a size and a layout of that size.** -/
theorem parseTpm2b_iff : parseTpm2b bytes = .ok p ↔
    p.Sized ∧ bytes = tpm2b p.tpmt ∧
      ∃ keyBits mode kdfHash, p.tpmt = p.layout keyBits mode kdfHash := by
  unfold parseTpm2b
  simp only [Except.bind_eq_ok, outer_ok, reader_ok]
  constructor
  · rintro ⟨tpmt, ⟨hlen, rfl⟩, rfl, hpolicy, hx, hy, hhash, hlayout⟩
    exact ⟨⟨hlen, hpolicy, hx, hy, hhash⟩, rfl, hlayout⟩
  · rintro ⟨hsized, rfl, hlayout⟩
    exact ⟨p.tpmt, ⟨hsized.tpmt, rfl⟩, rfl, hsized.authPolicy, hsized.x, hsized.y, hsized.noHash,
      hlayout⟩

/-! ## The slices -/

section Indexed

open Panicking

/-- `Rd::u16` and `Rd::u32`, with slices that may panic. -/
def wordIndexed (ω : Type) [Word ω] (what field : String) : Panicking String ω :=
  Panicking.word ω (Rd.truncated what field (Word.width ω))

/-- `Rd::tpm2b`. -/
def tpm2bIndexed (what field : String) : Panicking String Bytes :=
  Panicking.counted UInt16 (Rd.truncated what field 2) (Rd.truncated what field)

/-- `Rd::end`. -/
def finishIndexed (what : String) : Panicking String Unit :=
  Panicking.finish fun left => s!"{what}: {left} trailing byte(s)"

def wordIfIndexed (c : Prop) [Decidable c] (field : String) : Panicking String UInt16 :=
  if c then wordIndexed UInt16 "TPMT_PUBLIC" field else pure 0

/-- The reader of the fields, with slices that may panic. -/
def indexed (tpmt : Bytes) : Panicking String EccPublic := do
  let type ← wordIndexed UInt16 "TPMT_PUBLIC" "type"
  Panicking.ensure (type = tpmAlgEcc)
    s!"TPMT_PUBLIC: type 0x{Text.hex 4 type.toNat}, want ECC 0x{Text.hex 4 tpmAlgEcc.toNat}"
  let nameAlg ← wordIndexed UInt16 "TPMT_PUBLIC" "nameAlg"
  let attributes ← wordIndexed UInt32 "TPMT_PUBLIC" "objectAttributes"
  let authPolicy ← tpm2bIndexed "TPMT_PUBLIC" "authPolicy"
  let symmetric ← wordIndexed UInt16 "TPMT_PUBLIC" "symmetric.algorithm"
  let _ ← wordIfIndexed (symmetric ≠ tpmAlgNull) "symmetric.keyBits"
  let _ ← wordIfIndexed (symmetric ≠ tpmAlgNull) "symmetric.mode"
  let scheme ← wordIndexed UInt16 "TPMT_PUBLIC" "scheme.scheme"
  let schemeHash ← wordIfIndexed (scheme ≠ tpmAlgNull) "scheme.hashAlg"
  let curve ← wordIndexed UInt16 "TPMT_PUBLIC" "curveID"
  let kdf ← wordIndexed UInt16 "TPMT_PUBLIC" "kdf.scheme"
  let _ ← wordIfIndexed (kdf ≠ tpmAlgNull) "kdf.hashAlg"
  let x ← tpm2bIndexed "TPMT_PUBLIC" "unique.x"
  let y ← tpm2bIndexed "TPMT_PUBLIC" "unique.y"
  finishIndexed "TPMT_PUBLIC"
  return { tpmt, nameAlg, attributes, authPolicy, symmetric, scheme, schemeHash, curve, kdf, x, y }

/-- The outer structure, with slices that may panic. -/
def outerIndexed : Panicking String Bytes := do
  let tpmt ← tpm2bIndexed "TPM2B_PUBLIC" "size"
  finishIndexed "TPM2B_PUBLIC"
  return tpmt

/-- `EccPublic::parse_tpm2b`, with slices that may panic. -/
def parseIndexed (bytes : Bytes) : Option (Except String EccPublic) := do
  match ← outerIndexed.parse bytes with
  | .ok tpmt => (indexed tpmt).parse tpmt
  | .error e => return .error e

theorem reads_word {ω : Type} [Word ω] {what : String} :
    Reads (wordIndexed ω what field) (Rd.word ω what field) := Reads.word

theorem reads_tpm2b {what : String} : Reads (tpm2bIndexed what field) (Rd.tpm2b what field) :=
  Reads.counted

theorem reads_finish {what : String} : Reads (finishIndexed what) (Rd.finish what) := Reads.finish

theorem reads_wordIf : Reads (wordIfIndexed c field) (wordIf c field) := by
  unfold wordIfIndexed wordIf
  split_ifs
  · exact reads_word
  · exact .pure 0

theorem reads_indexed (tpmt : Bytes) : Reads (indexed tpmt) (reader tpmt) :=
  reads_word.bind fun _ => Reads.ensure.bind fun _ => reads_word.bind fun _ =>
    reads_word.bind fun _ => reads_tpm2b.bind fun _ => reads_word.bind fun _ =>
    reads_wordIf.bind fun _ => reads_wordIf.bind fun _ => reads_word.bind fun _ =>
    reads_wordIf.bind fun _ => reads_word.bind fun _ => reads_word.bind fun _ =>
    reads_wordIf.bind fun _ => reads_tpm2b.bind fun _ => reads_tpm2b.bind fun _ =>
    reads_finish.bind fun _ => .pure _

/-- **No slice of the parser is out of range.** -/
theorem parseIndexed_eq (bytes : Bytes) : parseIndexed bytes = some (parseTpm2b bytes) := by
  have houter : Reads outerIndexed outer :=
    reads_tpm2b.bind fun _ => reads_finish.bind fun _ => .pure _
  unfold parseIndexed parseTpm2b
  rw [houter.parse_eq]
  rcases outer.parse bytes with e | tpmt
  · rfl
  · exact (reads_indexed tpmt).parse_eq tpmt

end Indexed

end TactiqAttest.Envelope.EccPublic
