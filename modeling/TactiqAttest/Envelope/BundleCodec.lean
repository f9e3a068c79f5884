import TactiqAttest.Bytes.Codec
import TactiqAttest.Envelope.Bundle
import TactiqAttest.Lists.Iterator

/-!
# Bundles as a format

Every list of sections that may be framed has one bundle, every bundle that parses is the bundle of
one list, and bundles can be put one after the other (`bundle_codec`).

`nextIndexed` is the iterator with each index and each split checked.  `nextIndexed_eq`: none is
ever out of range, whatever length a header claims.  `Drained` is what a whole pass over a bundle
looks like.
-/

open BigEndian

namespace TactiqAttest.Envelope

variable {b b' : Bytes} {s : Section} {ss ss' : List Section} {it it' : Sections}
  {items : List (Except String Section)} {e : String}

/-! ## The format -/

theorem codec_bundle : Codec buildBundle parseBundle := .of_legal buildBundle_ok parseBundle_ok

/-- Bundles can be put one after the other. -/
theorem parseBundle_append (h : parseBundle b = .ok ss) (h' : parseBundle b' = .ok ss') :
    parseBundle (b ++ b') = .ok (ss ++ ss') := by
  obtain ⟨hlegal, rfl⟩ := parseBundle_ok.mp h
  obtain ⟨hlegal', rfl⟩ := parseBundle_ok.mp h'
  refine parseBundle_ok.mpr ⟨fun s hs => ?_, List.flatMap_append.symm⟩
  rcases List.mem_append.mp hs with hs | hs
  · exact hlegal s hs
  · exact hlegal' s hs

/-! ## Indices -/

namespace Sections

/-- `&bytes[from..]`. -/
def sliceFrom (bytes : Bytes) (start : ℕ) : Option Bytes :=
  if start ≤ bytes.length then some (bytes.drop start) else none

/-- `split_at`. -/
def splitAt (bytes : Bytes) (mid : ℕ) : Option (Bytes × Bytes) :=
  if mid ≤ bytes.length then some (bytes.take mid, bytes.drop mid) else none

/-- `Sections::next` with its panics: `none` where an index or a split is out of range. -/
def nextIndexed (it : Sections) : Option (Option (Except String Section) × Sections) :=
  if it.failed || it.rest.isEmpty then some (none, it)
  else if it.rest.length < sectionHeaderLen then
    some (some
      (.error (s!"truncated section header at offset {it.offset}: {it.rest.length} byte(s) " ++
      s!"left, want {sectionHeaderLen}")), { it with failed := true })
  else do
    let tag : UInt16 := ofBe [← it.rest[0]?, ← it.rest[1]?]
    if tagForbidden tag then
      return (some (.error s!"forbidden tag 0x{Text.hexUpper 4 tag.toNat} at offset {it.offset}"),
        { it with failed := true })
    let len := (ofBe [← it.rest[2]?, ← it.rest[3]?, ← it.rest[4]?, ← it.rest[5]?] : UInt32).toNat
    let afterHeader ← sliceFrom it.rest sectionHeaderLen
    if len > afterHeader.length then
      return (some
        (.error (s!"section 0x{Text.hexUpper 4 tag.toNat} at offset {it.offset} claims " ++
        s!"{len} byte(s), {afterHeader.length} remain")), { it with failed := true })
    let (body, rest) ← splitAt afterHeader len
    return (some (.ok ⟨tag, body⟩),
      { it with rest := rest, offset := it.offset + (sectionHeaderLen + len) })

/-- A string that holds a header. -/
theorem exists_header {rest : Bytes} (h : 6 ≤ rest.length) : ∃ b₀ b₁ b₂ b₃ b₄ b₅ tl,
    rest = b₀ :: b₁ :: b₂ :: b₃ :: b₄ :: b₅ :: tl := by
  rcases rest with _ | ⟨b₀, _ | ⟨b₁, _ | ⟨b₂, _ | ⟨b₃, _ | ⟨b₄, _ | ⟨b₅, tl⟩⟩⟩⟩⟩⟩
  case cons.cons.cons.cons.cons.cons => exact ⟨b₀, b₁, b₂, b₃, b₄, b₅, tl, rfl⟩
  all_goals
    simp only [List.length_cons, List.length_nil] at h
    omega

/-- **No index is out of range.** -/
theorem nextIndexed_eq (it : Sections) : it.nextIndexed = some it.next := by
  unfold nextIndexed next
  by_cases hdone : (it.failed || it.rest.isEmpty) = true
  · rw [if_pos hdone, if_pos hdone]
  rw [if_neg hdone, if_neg hdone]
  by_cases hshort : it.rest.length < sectionHeaderLen
  · rw [if_pos hshort, if_pos hshort]
  rw [if_neg hshort, if_neg hshort]
  -- the header is there, and the body is looked for in what is left
  obtain ⟨rest, offset, failed⟩ := it
  obtain ⟨b₀, b₁, b₂, b₃, b₄, b₅, tl, rfl⟩ := exists_header (Nat.le_of_not_lt hshort)
  have hslice : sliceFrom (b₀ :: b₁ :: b₂ :: b₃ :: b₄ :: b₅ :: tl) sectionHeaderLen = some tl :=
    if_pos (Nat.le_of_not_lt hshort)
  have htake : (b₀ :: b₁ :: b₂ :: b₃ :: b₄ :: b₅ :: tl).take 2 = [b₀, b₁] := rfl
  have htake' : ((b₀ :: b₁ :: b₂ :: b₃ :: b₄ :: b₅ :: tl).drop 2).take 4 = [b₂, b₃, b₄, b₅] := rfl
  have hdrop : (b₀ :: b₁ :: b₂ :: b₃ :: b₄ :: b₅ :: tl).drop sectionHeaderLen = tl := rfl
  rw [htake, htake', hdrop]
  simp -implicitDefEqProofs only [hslice, List.getElem?_cons_zero, List.getElem?_cons_succ,
    Option.bind_eq_bind, Option.bind_some]
  by_cases htag : tagForbidden (ofBe [b₀, b₁]) = true
  · rw [if_pos htag, if_pos htag, Option.pure_def]
  rw [if_neg htag, if_neg htag]
  by_cases hlen : (ofBe [b₂, b₃, b₄, b₅] : UInt32).toNat > tl.length
  · rw [if_pos hlen, if_pos hlen, Option.pure_def]
  rw [if_neg hlen, if_neg hlen, splitAt, if_pos (Nat.le_of_not_lt hlen),
    Option.bind_some, Option.pure_def]

/-! ## A whole pass -/

/-- The section that is yielded was in front, and the offset moves past it. -/
theorem next_section (h : it.next = (some (.ok s), it')) : it.failed = false ∧ s.Legal ∧
    it.rest = s.frame ++ it'.rest ∧ it' = ⟨it'.rest, it.offset + (6 + s.body.length), false⟩ := by
  obtain ⟨hopen, hlegal, hrest, -⟩ := next_ok h
  refine ⟨hopen, hlegal, hrest, ?_⟩
  obtain ⟨rest, offset, failed⟩ := it
  obtain rfl : failed = false := hopen
  obtain rfl : rest = s.frame ++ it'.rest := hrest
  rw [next_frame hlegal] at h
  exact (congrArg Prod.snd h).symm

/-- An error leaves everything as it is, but for the flag. -/
theorem next_error (h : it.next = (some (.error e), it')) :
    it.failed = false ∧ it' = { it with failed := true } := by
  unfold next at h
  dsimp only at h
  have hopen : ∀ {p}, ¬ (it.failed || p) = true → it.failed = false := by
    intro p hp
    rw [Bool.or_eq_true, not_or, Bool.not_eq_true] at hp
    exact hp.1
  split_ifs at h with hdone hshort htag hlen
  all_goals cases h
  all_goals exact ⟨hopen hdone, rfl⟩

theorem next_none (h : it.next = (none, it')) : it' = it := by
  unfold next at h
  dsimp only at h
  split_ifs at h
  all_goals cases h
  rfl

/-- An iterator that has erred is exhausted. -/
theorem exhausted_of_failed (h : it.failed = true) : Iterator.Exhausted next it := by
  unfold Iterator.Exhausted next
  rw [if_pos (by rw [h, Bool.true_or])]

/-- How many items an iterator may still yield. -/
def fuel (it : Sections) : ℕ := if it.failed then 0 else it.rest.length + 1

theorem fuel_lt {item : Except String Section} (h : it.next = (some item, it')) :
    it'.fuel < it.fuel := by
  rcases item with e | s
  · obtain ⟨hopen, rfl⟩ := next_error h
    rw [fuel, fuel, hopen]
    exact Nat.succ_pos _
  · obtain ⟨hopen, -, hrest, heq⟩ := next_section h
    rw [heq, fuel, fuel, hopen, hrest, List.length_append, Section.length_frame]
    simp only [Bool.false_eq_true, if_false]
    omega

/-- What has been yielded: sections, and at most one error, after which nothing comes. -/
def Shape (items : List (Except String Section)) (it : Sections) : Prop :=
  ∃ ss : List Section, items = ss.map .ok ∨
    ∃ e, items = ss.map .ok ++ [.error e] ∧ Iterator.Exhausted next it

theorem shape_of_yields (h : Iterator.Yields next it items it') : Shape items it' := by
  induction h with
  | nil it => exact ⟨[], .inl rfl⟩
  | @cons it it₁ it' item items hnext hyields ih =>
    rcases item with e | s
    · obtain ⟨-, rfl⟩ := next_error hnext
      have hdone : Iterator.Exhausted next { it with failed := true } := exhausted_of_failed rfl
      obtain rfl := hyields.eq_nil hdone
      cases hyields
      exact ⟨[], .inr ⟨e, rfl, hdone⟩⟩
    · obtain ⟨ss, rfl | ⟨e, rfl, hdone⟩⟩ := ih
      · exact ⟨s :: ss, .inl rfl⟩
      · exact ⟨s :: ss, .inr ⟨e, rfl, hdone⟩⟩

/-- Collecting is one pass, and the first error is the result of the whole. -/
theorem collect_of_yields {n : ℕ} (h : Iterator.Yields next it items it')
    (hdone : Iterator.Exhausted next it') (hn : items.length ≤ n) :
    it.collect n = items.mapM id := by
  induction h generalizing n with
  | nil it =>
    cases n with
    | zero => rfl
    | succ n =>
      rw [collect, hdone]
      rfl
  | @cons it it₁ it' item items hnext _ ih =>
    cases n with
    | zero => exact absurd hn (by rw [List.length_cons]; omega)
    | succ n =>
      rw [collect, hnext]
      rcases item with e | s
      · rfl
      · rw [List.mapM_cons]
        dsimp only
        rw [ih hdone (Nat.le_of_succ_le_succ hn), map_eq_pure_bind]
        rfl

/-- The iterator is at a place in the bundle. -/
structure Inside (b : Bytes) (it : Sections) : Prop where
  offset : it.offset ≤ b.length
  rest : it.rest = b.drop it.offset

theorem inside_of_next {item : Except String Section} (h : Inside b it)
    (hnext : it.next = (some item, it')) : Inside b it' := by
  rcases item with e | s
  · obtain ⟨-, rfl⟩ := next_error hnext
    exact ⟨h.offset, h.rest⟩
  · obtain ⟨-, -, hrest, heq⟩ := next_section hnext
    have hsplit := h.rest.symm.trans hrest
    have hlen := congrArg List.length hsplit
    rw [List.length_drop, List.length_append, Section.length_frame] at hlen
    have hoffset := h.offset
    rw [heq]
    refine ⟨by dsimp only; omega, ?_⟩
    dsimp only
    rw [← List.drop_drop, hsplit, ← Section.length_frame, List.drop_left]

/-- The body that is yielded is the part of the bundle from behind its header to where the iterator
goes on. -/
theorem body_of_next (h : Inside b it) (hnext : it.next = (some (.ok s), it')) :
    s.body = (b.drop (it.offset + 6)).take s.body.length ∧
      it'.offset = it.offset + 6 + s.body.length ∧ it'.offset ≤ b.length := by
  have hinside := inside_of_next h hnext
  obtain ⟨-, -, hrest, heq⟩ := next_section hnext
  have hoffset : it'.offset = it.offset + 6 + s.body.length := by
    rw [heq]
    exact (Nat.add_assoc _ _ _).symm
  refine ⟨?_, hoffset, hinside.offset⟩
  have hheader : (be s.tag ++ be (UInt32.ofNat s.body.length)).length = 6 := by
    rw [List.length_append, length_be, length_be]
    rfl
  rw [← List.drop_drop, ← h.rest, hrest, Section.frame, List.append_assoc,
    ← hheader, List.drop_left, List.take_left]

/-- What holds of any pass over a bundle: after any items, the next step is in range, and the
section it yields is a part of the bundle. -/
structure Steady (b : Bytes) (items : List (Except String Section)) (it : Sections) : Prop where
  shape : Shape items it
  length : items.length ≤ b.length + 1
  indexed : it.nextIndexed = some it.next
  inside : Inside b it
  body : ∀ {s it'}, it.next = (some (.ok s), it') →
    s.body = (b.drop (it.offset + 6)).take s.body.length ∧
      it'.offset = it.offset + 6 + s.body.length ∧ it'.offset ≤ b.length

theorem steady_of_yields (h : Iterator.Yields next (sections b) items it) : Steady b items it := by
  have hinside : Inside b it := h.invariant inside_of_next ⟨Nat.zero_le _, rfl⟩
  have hlength : items.length ≤ (sections b).fuel := h.length_le fuel_lt
  exact ⟨shape_of_yields h, hlength, nextIndexed_eq it, hinside, body_of_next hinside⟩

/-- Every pass comes to an end. -/
theorem exists_exhausted (b : Bytes) :
    ∃ items it, Iterator.Yields next (sections b) items it ∧ Iterator.Exhausted next it :=
  Iterator.exists_exhausted fuel_lt next_none (sections b)

end Sections

/-- All sections, or the first error and nothing. -/
theorem parseBundle_of_yields (h : Iterator.Yields Sections.next (sections b) items it)
    (hdone : Iterator.Exhausted Sections.next it) : parseBundle b = items.mapM id :=
  Sections.collect_of_yields h hdone (Sections.steady_of_yields h).length

/-! ## The whole -/

/-- **The bundle format is a bijection, refuses all or nothing, and its iterator ends in range.** -/
theorem bundle_codec :
    (∀ ss : List Section, (∀ s ∈ ss, tagForbidden s.tag = false ∧ s.body.length < 2 ^ 32) →
      ∃ b, buildBundle ss = .ok b ∧ parseBundle b = .ok ss) ∧
    (∀ b ss, parseBundle b = .ok ss → buildBundle ss = .ok b) ∧
    (∀ b, (∃ ss, parseBundle b = .ok ss) ↔ ∃ ss, buildBundle ss = .ok b) ∧
    (∀ b b' ss ss', parseBundle b = .ok ss → parseBundle b' = .ok ss' →
      parseBundle (b ++ b') = .ok (ss ++ ss')) ∧
    ∀ b, (∃ items it, Iterator.Yields Sections.next (sections b) items it ∧
        Iterator.Exhausted Sections.next it) ∧
      ∀ items it, Iterator.Yields Sections.next (sections b) items it →
        Sections.Steady b items it ∧
          (Iterator.Exhausted Sections.next it → parseBundle b = items.mapM id) := by
  refine ⟨fun ss hlegal => ?_, fun _ _ => codec_bundle.encode_of_parse, fun _ =>
    codec_bundle.accepts_iff, fun _ _ _ _ => parseBundle_append, fun b =>
    ⟨Sections.exists_exhausted b, fun _ _ h => ⟨Sections.steady_of_yields h,
      parseBundle_of_yields h⟩⟩⟩
  have hbuild : buildBundle ss = .ok (ss.flatMap Section.frame) :=
    buildBundle_ok.mpr ⟨fun s hs => ⟨(hlegal s hs).1, (hlegal s hs).2⟩, rfl⟩
  exact ⟨_, hbuild, codec_bundle.parse_of_encode hbuild⟩

end TactiqAttest.Envelope
