import TactiqAttest.Bytes.Text
import TactiqAttest.Envelope.Crypto

/-!
# The evidence bundle container

A bundle is a concatenation of sections `tag(2) || len(4) || body(len)`, from `attest-envelope`.
The parser is an iterator over the bytes that stops for good at the first malformation;
`parse_bundle` drains it and refuses the whole bundle if it ever erred.

The two sides meet in `frame`, the bytes of one section:

* `parseBundle_ok`: a bundle parses to `ss` exactly when it is the frames of `ss`, all of them
  legal;
* `buildBundle_ok`: building `ss` succeeds exactly when all of them are legal, with their frames.

The iterator never reads past what is left, and each section consumes at least its header, so
draining it for as many steps as there are bytes drains it completely; `parseBundle_ok` is also the
proof of that.
-/

open BigEndian

namespace TactiqAttest.Envelope

/-! ## Tags -/

/-- The width of a section header: tag(2) and length(4). -/
abbrev sectionHeaderLen : ℕ := 6

def tagTpmQuote : UInt16 := 0x0001
def tagGpuAttest : UInt16 := 0x0002
def tagCpuTee : UInt16 := 0x0003
/-- The stop service's record. -/
def tagStopState : UInt16 := 0x0004
/-- A challenge chosen by the party checking the device. -/
def tagVerifierNonce : UInt16 := 0x0005
/-- A `TPM2_NV_Certify` result. -/
def tagTpmNvCertify : UInt16 := 0x0006

/-- `tag_forbidden`: zeroed memory and erased flash must not parse. -/
def tagForbidden (tag : UInt16) : Bool := tag == 0x0000 || tag == 0xFFFF

/-- One section of a bundle. -/
@[ext] structure Section where
  tag : UInt16
  body : Bytes
  deriving DecidableEq

namespace Section

/-- The section can be framed: its tag may be used and its length fits. -/
structure Legal (s : Section) : Prop where
  tag : tagForbidden s.tag = false
  body : s.body.length < 2 ^ 32

instance (s : Section) : Decidable s.Legal :=
  decidable_of_iff (tagForbidden s.tag = false ∧ s.body.length < 2 ^ 32)
    ⟨fun h => ⟨h.1, h.2⟩, fun h => ⟨h.1, h.2⟩⟩

/-- The bytes of a section. -/
def frame (s : Section) : Bytes := be s.tag ++ be (UInt32.ofNat s.body.length) ++ s.body

theorem length_frame (s : Section) : s.frame.length = 6 + s.body.length := by
  simp only [frame, List.length_append, length_be, width_uint16, width_uint32]

end Section

/-! ## The parser -/

/-- The iterator `Sections`: the bytes left, where they start in the bundle, and whether it has
erred, after which it yields nothing. -/
structure Sections where
  rest : Bytes
  offset : ℕ
  failed : Bool

/-- `sections`: the iterator over a bundle. -/
def sections (bundle : Bytes) : Sections := ⟨bundle, 0, false⟩

namespace Sections

/-- `Sections::next`: what the iterator yields, and the iterator afterwards. -/
def next (it : Sections) : Option (Except String Section) × Sections :=
  if it.failed || it.rest.isEmpty then (none, it)
  else if it.rest.length < sectionHeaderLen then
    (some (.error (s!"truncated section header at offset {it.offset}: {it.rest.length} byte(s) " ++
      s!"left, want {sectionHeaderLen}")), { it with failed := true })
  else
    let tag : UInt16 := ofBe (it.rest.take 2)
    if tagForbidden tag then
      (some (.error s!"forbidden tag 0x{Text.hexUpper 4 tag.toNat} at offset {it.offset}"),
        { it with failed := true })
    else
      let len := (ofBe ((it.rest.drop 2).take 4) : UInt32).toNat
      let afterHeader := it.rest.drop sectionHeaderLen
      if len > afterHeader.length then
        (some (.error (s!"section 0x{Text.hexUpper 4 tag.toNat} at offset {it.offset} claims " ++
          s!"{len} byte(s), {afterHeader.length} remain")), { it with failed := true })
      else
        (some (.ok ⟨tag, afterHeader.take len⟩),
          { it with rest := afterHeader.drop len, offset := it.offset + (sectionHeaderLen + len) })

/-- The loop of `parse_bundle`: all sections, or the first error and nothing. -/
def collect : ℕ → Sections → Except String (List Section)
  | 0, _ => .ok []
  | fuel + 1, it =>
    match it.next with
    | (none, _) => .ok []
    | (some (.error e), _) => .error e
    | (some (.ok s), it') => (s :: ·) <$> collect fuel it'

variable {it it' : Sections} {s : Section}

/-- The iterator ends only when it has erred or nothing is left. -/
theorem failed_or_nil_of_next (h : it.next.1 = none) : it.failed = true ∨ it.rest = [] := by
  unfold next at h
  dsimp only at h
  split at h
  case isTrue hdone =>
    rwa [Bool.or_eq_true, List.isEmpty_iff] at hdone
  case isFalse =>
    -- every other branch yields something
    split_ifs at h

/-- A legal frame in front is what the iterator yields next. -/
theorem next_frame (hs : s.Legal) (rest : Bytes) (off : ℕ) :
    next ⟨s.frame ++ rest, off, false⟩ =
      (some (.ok s), ⟨rest, off + (6 + s.body.length), false⟩) := by
  have hlen : (be (UInt32.ofNat s.body.length)).length = 4 := length_be _
  have htag : (be s.tag).length = 2 := length_be _
  have hbody : (UInt32.ofNat s.body.length).toNat = s.body.length :=
    UInt32.toNat_ofNat_of_lt' hs.body
  have h₁ : ((s.frame ++ rest).take 2) = be s.tag := by
    rw [Section.frame, List.append_assoc, List.append_assoc, ← htag, List.take_left]
  have h₂ : ((s.frame ++ rest).drop 2) = be (UInt32.ofNat s.body.length) ++ (s.body ++ rest) := by
    rw [Section.frame, List.append_assoc, List.append_assoc, ← htag, List.drop_left]
  have h₃ : ((s.frame ++ rest).drop 6) = s.body ++ rest := by
    rw [show 6 = 2 + 4 from rfl, ← List.drop_drop, h₂, ← hlen, List.drop_left]
  have hshort : ¬ (s.frame ++ rest).length < 6 := by
    rw [List.length_append, Section.length_frame]
    omega
  have hne : (s.frame ++ rest).isEmpty = false := by
    rw [List.isEmpty_eq_false_iff]
    intro h
    rw [h] at hshort
    exact hshort (by decide)
  unfold next sectionHeaderLen
  simp only [Bool.false_or, hne, Bool.false_eq_true, if_false, hshort, h₁, h₂, h₃, ofBe_be, hs.tag]
  rw [← hlen, List.take_left, ofBe_be, hbody, if_neg (by rw [List.length_append]; omega),
    List.take_left, List.drop_left]

/-- What the iterator yields as a section was in front, framed and legal. -/
theorem next_ok (h : it.next = (some (.ok s), it')) :
    it.failed = false ∧ s.Legal ∧ it.rest = s.frame ++ it'.rest ∧ it'.failed = false := by
  unfold next at h
  dsimp only at h
  split at h
  case isTrue => cases h
  case isFalse hopen =>
    split at h
    case isTrue => cases h
    case isFalse hlen =>
      split at h
      case isTrue => cases h
      case isFalse htag =>
        split at h
        case isTrue => cases h
        case isFalse hbody =>
          cases h
          have hfailed : it.failed = false := by
            rw [Bool.not_eq_true, Bool.or_eq_false_iff] at hopen
            exact hopen.1
          have hrest : 6 ≤ it.rest.length := by simpa using hlen
          set len : UInt32 := ofBe ((it.rest.drop 2).take 4) with hlendef
          have hfits : len.toNat ≤ (it.rest.drop 6).length := Nat.le_of_not_lt hbody
          have htake : ((it.rest.drop 6).take len.toNat).length = len.toNat := by
            rw [List.length_take]
            omega
          refine ⟨hfailed, ⟨by simpa using htag, ?_⟩, ?_, hfailed⟩
          · rw [htake]
            exact len.toNat_lt
          · have h₂ : (it.rest.take 2).length = Word.width UInt16 := by
              rw [List.length_take, width_uint16]; omega
            have h₄ : ((it.rest.drop 2).take 4).length = Word.width UInt32 := by
              rw [List.length_take, List.length_drop, width_uint32]; omega
            rw [Section.frame]
            simp only [htake, UInt32.ofNat_toNat]
            have hdrop : it.rest.drop 6 = (it.rest.drop 2).drop 4 := by rw [List.drop_drop]
            rw [be_ofBe h₂, hlendef, be_ofBe h₄, List.append_assoc, List.append_assoc,
              List.take_append_drop, hdrop, List.take_append_drop, List.take_append_drop]

/-- Draining the iterator with enough steps gives `ss` exactly when what is left is the frames of
`ss`. -/
theorem collect_ok {fuel : ℕ} {ss : List Section} (hopen : it.failed = false)
    (hfuel : it.rest.length < fuel) :
    it.collect fuel = .ok ss ↔ (∀ s ∈ ss, s.Legal) ∧ it.rest = ss.flatMap Section.frame := by
  induction fuel generalizing it ss with
  | zero => omega
  | succ fuel ih =>
    obtain ⟨rest, off, failed⟩ := it
    simp only at hopen hfuel
    subst hopen
    rw [collect]
    constructor
    · intro h
      split at h
      case h_1 hnext =>
        have hnil := failed_or_nil_of_next (congrArg Prod.fst hnext)
        cases h
        refine ⟨by simp, ?_⟩
        rcases hnil with hf | hr
        · cases hf
        · exact hr
      case h_2 => cases h
      case h_3 s it' hnext =>
        obtain ⟨-, hlegal, hrest, hopen'⟩ := next_ok hnext
        simp only at hrest
        subst hrest
        have hlt : it'.rest.length < fuel := by
          rw [List.length_append, Section.length_frame] at hfuel
          omega
        rcases htail : it'.collect fuel with e | tl
        · rw [htail] at h; cases h
        · rw [htail] at h
          cases h
          obtain ⟨hall, heq⟩ := (ih hopen' hlt).mp htail
          refine ⟨?_, by rw [List.flatMap_cons, ← heq]⟩
          intro s' hs'
          rcases List.mem_cons.mp hs' with rfl | hs'
          · exact hlegal
          · exact hall s' hs'
    · rintro ⟨hall, hrest⟩
      simp only at hrest
      subst hrest
      cases ss with
      | nil => rfl
      | cons s tl =>
        have hs : s.Legal := hall s List.mem_cons_self
        rw [List.flatMap_cons] at hfuel ⊢
        have hlt : (tl.flatMap Section.frame).length < fuel := by
          rw [List.length_append, Section.length_frame] at hfuel
          omega
        have htail : collect fuel ⟨tl.flatMap Section.frame,
            off + (6 + s.body.length), false⟩ = .ok tl :=
          (ih rfl hlt).mpr ⟨fun s' hs' => hall s' (List.mem_cons_of_mem _ hs'), rfl⟩
        rw [next_frame hs]
        simp only [htail]
        rfl

end Sections

/-- `parse_bundle`: all the sections, or the first error and nothing. -/
def parseBundle (bundle : Bytes) : Except String (List Section) :=
  (sections bundle).collect (bundle.length + 1)

/-- **A bundle parses exactly when it is the frames of legal sections**, and then to those. -/
theorem parseBundle_ok {b : Bytes} {ss : List Section} :
    parseBundle b = .ok ss ↔ (∀ s ∈ ss, s.Legal) ∧ b = ss.flatMap Section.frame :=
  Sections.collect_ok rfl (Nat.lt_succ_self _)

/-! ## The builder -/

/-- `build_bundle`: refuses what the parser would. -/
def buildBundle : List Section → Except String Bytes
  | [] => .ok []
  | s :: ss =>
    if tagForbidden s.tag then
      .error s!"forbidden tag 0x{Text.hexUpper 4 s.tag.toNat}"
    else if s.body.length > 0xFFFFFFFF then
      .error (s!"section 0x{Text.hexUpper 4 s.tag.toNat} body of {s.body.length} bytes exceeds " ++
        "u32 length field")
    else
      (s.frame ++ ·) <$> buildBundle ss

/-- **Building succeeds exactly on legal sections**, and writes their frames. -/
theorem buildBundle_ok {ss : List Section} {b : Bytes} :
    buildBundle ss = .ok b ↔ (∀ s ∈ ss, s.Legal) ∧ b = ss.flatMap Section.frame := by
  induction ss generalizing b with
  | nil => simp [buildBundle, eq_comm]
  | cons s ss ih =>
    have hlegal : s.Legal ↔ ¬ tagForbidden s.tag = true ∧ ¬ s.body.length > 0xFFFFFFFF := by
      constructor
      · rintro ⟨ht, hb⟩
        exact ⟨by simp [ht], by omega⟩
      · rintro ⟨ht, hb⟩
        exact ⟨by simpa using ht, by omega⟩
    rw [buildBundle, List.forall_mem_cons, hlegal, List.flatMap_cons]
    by_cases ht : tagForbidden s.tag = true
    · simp [ht]
    by_cases hb : s.body.length > 0xFFFFFFFF
    · simp [ht, hb]
    rw [if_neg ht, if_neg hb]
    rcases htail : buildBundle ss with e | tl
    · have hno : ¬ ∀ s ∈ ss, s.Legal := fun hall => by
        have := ih.mpr ⟨hall, rfl⟩
        rw [htail] at this
        cases this
      simp [hno, Functor.map, Except.map]
    · obtain ⟨hall, rfl⟩ := ih.mp htail
      simp only [Functor.map, Except.map, Except.ok.injEq]
      exact ⟨fun h => ⟨⟨⟨ht, hb⟩, hall⟩, h.symm⟩, fun h => h.2.symm⟩

/-- A built bundle parses back to its sections. -/
theorem parseBundle_of_buildBundle {ss : List Section} {b : Bytes} (h : buildBundle ss = .ok b) :
    parseBundle b = .ok ss :=
  parseBundle_ok.mpr (buildBundle_ok.mp h)

end TactiqAttest.Envelope
