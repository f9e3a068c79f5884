import Mathlib.Data.List.Sort
import TactiqAttest.Prover.PcrSpec

/-!
# The spellings of a selection

`parse_pcr_spec` takes a set of PCRs in ascending order only, so that one set has one canonical
spelling.  But it trims blanks off the algorithm and off every index, and an index may have leading
zeros: `sha256:7`, `sha256: 7` and `sha256:07` are three spellings of one selection.

* `Spells`: what an accepted string is made of, and `spells_of_parse`.
* `paddings`: the blanks and zeros of a string, in the order they stand.
* `eq_iff_paddings`: two spellings of a selection differ in their padding, and in nothing else.
-/

namespace TactiqAttest.Prover

/-! ## Padding -/

/-- What an index may be padded with. -/
structure Padding where
  /-- The blanks before. -/
  before : List Char
  /-- The leading zeros. -/
  zeros : ℕ
  /-- The blanks after. -/
  after : List Char
  deriving DecidableEq

/-- No padding. -/
def Padding.none : Padding := ⟨[], 0, []⟩

/-- The padding of a token. -/
def padding (tok : List Char) : Padding where
  before := tok.takeWhile Text.isWhitespace
  zeros := Chars.leadingZeros (Chars.trim tok)
  after := ((tok.dropWhile Text.isWhitespace).reverse.takeWhile Text.isWhitespace).reverse

/-- The padding of the algorithm and of every index. -/
def paddings (spec : String) : List Padding :=
  match spec.toList.span (· != ':') with
  | (alg, list) => padding alg :: (list.tail.splitOn ',').map padding

variable {spec : String} {tok tok' alg list : List Char} {last : Option ℕ} {n : ℕ} {algId : UInt16}
  {bitmap bitmap' : List.Vector UInt8 3}

/-- A token is its padding and what is left of it. -/
theorem eq_of_padding (h : padding tok = padding tok') (htrim : Chars.trim tok = Chars.trim tok') :
    tok = tok' := by
  obtain ⟨hbefore, -, hafter⟩ := Padding.mk.inj h
  rw [← Chars.blanks_trim tok, ← Chars.blanks_trim tok', hbefore, htrim, hafter]

/-- A number without a sign is its leading zeros and its value. -/
theorem eq_of_parseUnsigned {bound : ℕ} {ds ds' : List Char} (hsign : '+' ∉ ds) (hsign' : '+' ∉ ds')
    (h : Chars.parseUnsigned bound ds = some n) (h' : Chars.parseUnsigned bound ds' = some n)
    (hzeros : Chars.leadingZeros ds = Chars.leadingZeros ds') : ds = ds' := by
  obtain ⟨hne, hdigits, hvalue, -⟩ := (Chars.parseUnsigned_eq_some hsign).mp h
  obtain ⟨hne', hdigits', hvalue', -⟩ := (Chars.parseUnsigned_eq_some hsign').mp h'
  rw [Chars.eq_zeros_toDigits hdigits hne, Chars.eq_zeros_toDigits hdigits' hne', hvalue, hvalue',
    hzeros]

/-! ## What an accepted string is made of -/

/-- The tokens are these indices. -/
abbrev Indices (toks : List (List Char)) (indices : List ℕ) : Prop :=
  List.Forall₂ (fun tok n => Chars.parseUnsigned 256 (Chars.trim tok) = some n) toks indices

/-- A string is an algorithm and the ascending indices of a bitmap. -/
structure Spells (spec : String) (algId : UInt16) (bitmap : List.Vector UInt8 3)
    (alg list : List Char) (indices : List ℕ) : Prop where
  plus : '+' ∉ spec.toList
  colon : ':' ∉ alg
  text : spec.toList = alg ++ ':' :: list
  name : pcrAlgId (String.ofList (Chars.trim alg)) = some algId
  tokens : Indices (list.splitOn ',') indices
  ascending : indices.Pairwise (· < ·)
  small : ∀ i ∈ indices, i ≤ 23
  bits : bitmap = Bitmap.ofIndices 3 indices

theorem parsePcrIndex_ok (h : parsePcrIndex spec last tok = .ok n) :
    Chars.parseUnsigned 256 (Chars.trim tok) = some n ∧ n ≤ 23 ∧ ∀ p, last = some p → p < n := by
  simp only [parsePcrIndex, Except.bind_eq_ok, Except.ensure_eq_ok, Except.ofOption_eq_ok] at h
  obtain ⟨-, -, n', hparse, -, hle, h⟩ := h
  cases last with
  | none =>
    obtain rfl := Except.pure_eq_ok.mp h
    exact ⟨hparse, hle, by simp⟩
  | some p =>
    obtain ⟨_, hlt, h⟩ := Except.bind_eq_ok.mp h
    obtain rfl := Except.pure_eq_ok.mp h
    refine ⟨hparse, hle, fun q hq => ?_⟩
    rw [← Option.some_inj.mp hq]
    exact Except.ensure_eq_ok.mp hlt

/-- The loop: the tokens are ascending indices above the last one, and set their bits. -/
theorem parsePcrIndices_ok {toks : List (List Char)} {r : List.Vector UInt8 3 × Option ℕ}
    (h : parsePcrIndices spec toks bitmap last = .ok r) :
    ∃ indices, Indices toks indices ∧ indices.Pairwise (· < ·) ∧ (∀ i ∈ indices, i ≤ 23) ∧
      (∀ p, last = some p → ∀ i ∈ indices, p < i) ∧ r.1 = indices.foldl Bitmap.setBit bitmap := by
  induction toks generalizing bitmap last with
  | nil =>
    cases h
    exact ⟨[], .nil, .nil, by simp, by simp, rfl⟩
  | cons tok toks ih =>
    obtain ⟨n, hn, h⟩ := Except.bind_eq_ok.mp h
    obtain ⟨hparse, hle, hlast⟩ := parsePcrIndex_ok hn
    obtain ⟨indices, htoks, hasc, hsmall, habove, hbits⟩ := ih h
    refine ⟨n :: indices, .cons hparse htoks, ?_, List.forall_mem_cons.mpr ⟨hle, hsmall⟩, ?_, hbits⟩
    · exact List.pairwise_cons.mpr ⟨habove n rfl, hasc⟩
    · intro p hp
      refine List.forall_mem_cons.mpr ⟨hlast p hp, fun i hi => ?_⟩
      exact (hlast p hp).trans (habove n rfl i hi)

theorem spells_of_parse (h : parsePcrSpec spec = .ok (algId, bitmap)) :
    ∃ alg list indices, Spells spec algId bitmap alg list indices := by
  unfold parsePcrSpec at h
  obtain ⟨_, hplus, h⟩ := Except.bind_eq_ok.mp h
  by_cases hcolon : ':' ∈ spec.toList
  · obtain ⟨alg, list, htext, halg⟩ := List.eq_append_cons_of_mem hcolon
    simp only [htext, Chars.span_ne_eq halg] at h
    obtain ⟨algId', hname, h⟩ := Except.bind_eq_ok.mp h
    obtain ⟨⟨bitmap', last⟩, hloop, h⟩ := Except.bind_eq_ok.mp h
    obtain ⟨_, _, h⟩ := Except.bind_eq_ok.mp h
    obtain ⟨rfl, rfl⟩ := Prod.mk.inj (Except.pure_eq_ok.mp h)
    obtain ⟨indices, htoks, hasc, hsmall, -, hbits⟩ := parsePcrIndices_ok hloop
    exact ⟨alg, list, indices, Except.ensure_eq_ok.mp hplus, halg, htext,
      Except.ofOption_eq_ok.mp hname, htoks, hasc, hsmall, hbits⟩
  · simp only [Chars.span_ne_of_notMem hcolon] at h
    cases h

theorem Spells.paddings_eq {indices : List ℕ} (h : Spells spec algId bitmap alg list indices) :
    paddings spec = padding alg :: (list.splitOn ',').map padding := by
  rw [paddings, h.text, Chars.span_ne_eq h.colon]
  rfl

/-! ## Spellings of one selection -/

theorem pcrAlgId_injective {name name' : String} (h : pcrAlgId name = some algId)
    (h' : pcrAlgId name' = some algId) : name = name' := by
  unfold pcrAlgId at h h'
  split at h <;> split at h' <;> cases h <;> first | rfl | exact absurd h' (by decide)

/-- The indices are determined by the bitmap. -/
theorem Spells.indices_eq {alg' list' : List Char} {spec' : String} {indices indices' : List ℕ}
    (h : Spells spec algId bitmap alg list indices)
    (h' : Spells spec' algId bitmap alg' list' indices') : indices = indices' := by
  refine List.Pairwise.eq_of_mem_iff h.ascending h'.ascending fun i => ?_
  have hsmall : ∀ i ∈ indices, i < 8 * 3 :=
    fun i hi => Nat.lt_of_le_of_lt (h.small i hi) (by decide)
  have hsmall' : ∀ i ∈ indices', i < 8 * 3 := fun i hi =>
    Nat.lt_of_le_of_lt (h'.small i hi) (by decide)
  have hbit := congrArg (Bitmap.hasBit · i) (h.bits.symm.trans h'.bits)
  simp only [Bitmap.hasBit_ofIndices hsmall, Bitmap.hasBit_ofIndices hsmall',
    decide_eq_decide] at hbit
  exact hbit

/-- Tokens of the same indices, without signs, with the same padding. -/
theorem Indices.eq_of_padding {toks toks' : List (List Char)} {indices : List ℕ}
    (h : Indices toks indices) (h' : Indices toks' indices) (hsign : ∀ tok ∈ toks, '+' ∉ tok)
    (hsign' : ∀ tok ∈ toks', '+' ∉ tok) (hpad : toks.map padding = toks'.map padding) :
    toks = toks' := by
  induction h generalizing toks' with
  | nil =>
    cases h'
    rfl
  | @cons tok n toks indices hn _ ih =>
    obtain ⟨tok', toks', hn', hrest', rfl⟩ := List.forall₂_cons_right_iff.mp h'
    obtain ⟨hhead, hpad⟩ := List.cons.inj hpad
    obtain ⟨htok, hsign⟩ := List.forall_mem_cons.mp hsign
    obtain ⟨htok', hsign'⟩ := List.forall_mem_cons.mp hsign'
    have htrim : Chars.trim tok = Chars.trim tok' :=
      eq_of_parseUnsigned (fun hmem => htok (Chars.mem_of_mem_trim hmem))
        (fun hmem => htok' (Chars.mem_of_mem_trim hmem)) hn hn' (congrArg Padding.zeros hhead)
    rw [Prover.eq_of_padding hhead htrim, ih hrest' hsign hsign' hpad]

/-- The tokens of an accepted string have no signs. -/
theorem Spells.sign {indices : List ℕ} (h : Spells spec algId bitmap alg list indices) :
    ∀ tok ∈ list.splitOn ',', '+' ∉ tok := by
  intro tok htok hmem
  have hlist : '+' ∈ [','].intercalate (list.splitOn ',') :=
    Chars.mem_intercalate htok hmem
  rw [List.intercalate_splitOn] at hlist
  exact h.plus (by rw [h.text]; simp [hlist])

/-- **Two spellings of a selection differ in their padding**, and in nothing else; so there is one
spelling without padding. -/
theorem eq_iff_paddings (s₁ s₂ : String) (algId : UInt16) (bitmap : List.Vector UInt8 3)
    (h₁ : parsePcrSpec s₁ = .ok (algId, bitmap)) (h₂ : parsePcrSpec s₂ = .ok (algId, bitmap)) :
    (s₁ = s₂ ↔ paddings s₁ = paddings s₂) ∧
      ((∀ p ∈ paddings s₁, p = .none) → (∀ p ∈ paddings s₂, p = .none) → s₁ = s₂) := by
  obtain ⟨alg, list, indices, h₁⟩ := spells_of_parse h₁
  obtain ⟨alg', list', indices', h₂⟩ := spells_of_parse h₂
  obtain rfl := h₁.indices_eq h₂
  have heq (h : paddings s₁ = paddings s₂) : s₁ = s₂ := by
    rw [h₁.paddings_eq, h₂.paddings_eq] at h
    obtain ⟨halg, hlist⟩ := List.cons.inj h
    have hname := String.ofList_injective (pcrAlgId_injective h₁.name h₂.name)
    have htokens := h₁.tokens.eq_of_padding h₂.tokens h₁.sign h₂.sign hlist
    refine String.toList_inj.mp ?_
    have hjoin (l : List Char) : [','].intercalate (l.splitOn ',') = l :=
      List.intercalate_splitOn ','
    rw [h₁.text, h₂.text, eq_of_padding halg hname, ← hjoin list, ← hjoin list', htokens]
  refine ⟨⟨congrArg paddings, heq⟩, fun hnone₁ hnone₂ => heq ?_⟩
  -- as many paddings as indices, all of them nothing
  have hlen : (paddings s₁).length = (paddings s₂).length := by
    rw [h₁.paddings_eq, h₂.paddings_eq]
    simp only [List.length_cons, List.length_map]
    rw [h₁.tokens.length_eq, h₂.tokens.length_eq]
  rw [List.eq_replicate_of_mem hnone₁, List.eq_replicate_of_mem hnone₂, hlen]

/-- PCR 7, with a leading zero and without. -/
theorem parsePcrSpec_seven :
    parsePcrSpec "sha256:7" = .ok (0x000B, Bitmap.ofIndices 3 [7]) ∧
      parsePcrSpec "sha256:07" = .ok (0x000B, Bitmap.ofIndices 3 [7]) := by
  decide +kernel

theorem seven_two_spellings :
    ∃ s₁ s₂ r, parsePcrSpec s₁ = .ok r ∧ parsePcrSpec s₂ = .ok r ∧ s₁ ≠ s₂ :=
  ⟨_, _, _, parsePcrSpec_seven.1, parsePcrSpec_seven.2, by decide⟩

theorem eq_iff_paddings_seven : paddings "sha256:7" ≠ paddings "sha256:07" := fun h =>
  absurd ((eq_iff_paddings _ _ _ _ parsePcrSpec_seven.1 parsePcrSpec_seven.2).1.mpr h) (by decide)

end TactiqAttest.Prover
