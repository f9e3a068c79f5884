import Mathlib.Data.List.Infix
import Mathlib.Data.List.TakeWhile
import TactiqAttest.Bytes.Chars

/-!
# Taking text apart

What the operations of `Text` that take a byte string apart say about it: each result is stated as
the concatenation that the string is, with what the pieces do not contain.  A parser's answer is
read off these, without running it.

`find` is used on strings that are still growing, so it also has a rule for what more bytes change,
`find_append`, which is nothing.
-/

namespace Text

variable {c sep : UInt8} {i bound n : ℕ} {b b' pat piece rest : Bytes} {pieces : List Bytes}

/-! ## Prefixes and suffixes -/

theorem stripPrefix_eq_some : stripPrefix pat b = some rest ↔ b = pat ++ rest := by
  unfold stripPrefix
  split_ifs with h
  · obtain ⟨t, rfl⟩ := List.isPrefixOf_iff_prefix.mp h
    rw [List.drop_left, Option.some_inj, List.append_cancel_left_eq]
  · refine ⟨fun h' => (by cases h'), ?_⟩
    rintro rfl
    exact absurd (List.isPrefixOf_iff_prefix.mpr (List.prefix_append pat rest)) h

theorem stripLast_eq_some : stripLast c b = some rest ↔ b = rest ++ [c] := by
  unfold stripLast
  constructor
  · intro h
    split_ifs at h with hlast
    obtain rfl := Option.some_inj.mp h
    exact (List.dropLast_append_getLast? c hlast).symm
  · rintro rfl
    rw [if_pos List.getLast?_concat, List.dropLast_concat]

/-! ## Splitting -/

theorem split_eq_splitOn (sep : UInt8) (b : Bytes) : split sep b = b.splitOn sep := by
  induction b with
  | nil => rfl
  | cons c tl ih =>
    rw [split, List.splitOn_cons_eq_if_modifyHead, ih]
    by_cases hc : c = sep
    · rw [if_pos hc, if_pos (beq_iff_eq.mpr hc)]
    · rw [if_neg hc, if_neg (by simpa using hc)]
      rcases hs : tl.splitOn sep with _ | ⟨p, ps⟩
      · exact absurd hs (List.splitOn_ne_nil sep tl)
      · rfl

theorem sep_notMem_of_mem_split (h : piece ∈ split sep b) : sep ∉ piece := by
  induction b generalizing piece with
  | nil =>
    obtain rfl : piece = [] := by simpa [split] using h
    exact List.not_mem_nil
  | cons c tl ih =>
    rw [split] at h
    split_ifs at h with hc
    · rcases List.mem_cons.mp h with rfl | h
      · exact List.not_mem_nil
      · exact ih h
    · rcases hs : split sep tl with _ | ⟨p, ps⟩
      · rw [hs] at h
        obtain rfl : piece = [c] := by simpa [consPiece] using h
        simpa using Ne.symm hc
      · rw [hs] at h ih
        rcases List.mem_cons.mp h with rfl | h
        · exact List.not_mem_cons_of_ne_of_not_mem (Ne.symm hc) (ih List.mem_cons_self)
        · exact ih (List.mem_cons_of_mem _ h)

/-- The pieces are the strings without the separator that the text joins with it. -/
theorem split_eq_iff :
    split sep b = pieces ↔
      pieces ≠ [] ∧ (∀ piece ∈ pieces, sep ∉ piece) ∧ b = [sep].intercalate pieces := by
  constructor
  · rintro rfl
    refine ⟨?_, fun _ => sep_notMem_of_mem_split, ?_⟩
    · rw [split_eq_splitOn]
      exact List.splitOn_ne_nil sep b
    · rw [split_eq_splitOn, List.intercalate_splitOn]
  · rintro ⟨hne, hnot, rfl⟩
    rw [split_eq_splitOn, List.splitOn_intercalate sep hnot hne]

/-- The string is cut at the first separator. -/
theorem splitOnce_eq_some :
    splitOnce sep b = some (piece, rest) ↔ sep ∉ piece ∧ b = piece ++ sep :: rest := by
  induction b generalizing piece with
  | nil => simp [splitOnce]
  | cons c tl ih =>
    rw [splitOnce]
    by_cases hc : c = sep
    · rw [if_pos hc, Option.some_inj, Prod.mk.injEq]
      constructor
      · rintro ⟨rfl, rfl⟩
        exact ⟨List.not_mem_nil, by rw [hc]; rfl⟩
      · rintro ⟨hnot, heq⟩
        rcases piece with _ | ⟨x, piece⟩
        · exact ⟨rfl, (List.cons.inj heq).2⟩
        · exact absurd (hc.symm.trans (List.cons.inj heq).1 ▸ List.mem_cons_self) hnot
    · rw [if_neg hc, Option.map_eq_some_iff]
      constructor
      · rintro ⟨⟨p, r⟩, hsome, heq⟩
        obtain ⟨rfl, rfl⟩ := Prod.mk.inj heq
        obtain ⟨hnot, rfl⟩ := ih.mp hsome
        exact ⟨List.not_mem_cons_of_ne_of_not_mem (Ne.symm hc) hnot, rfl⟩
      · rintro ⟨hnot, heq⟩
        rcases piece with _ | ⟨x, piece⟩
        · exact absurd (List.cons.inj heq).1 hc
        · obtain ⟨rfl, rfl⟩ := List.cons.inj heq
          exact ⟨(piece, rest), ih.mpr ⟨fun h => hnot (List.mem_cons_of_mem _ h), rfl⟩, rfl⟩

/-- What is trimmed off is of the class. -/
theorem exists_trim (p : UInt8 → Bool) (b : Bytes) :
    ∃ l r, b = l ++ trim p b ++ r ∧ (∀ c ∈ l, p c = true) ∧ ∀ c ∈ r, p c = true := by
  have hfront := List.takeWhile_append_dropWhile (p := p) (l := b)
  have hback := List.takeWhile_append_dropWhile (p := p) (l := (b.dropWhile p).reverse)
  refine ⟨b.takeWhile p, ((b.dropWhile p).reverse.takeWhile p).reverse, ?_, ?_, ?_⟩
  · have hmid := congrArg List.reverse hback
    rw [List.reverse_append, List.reverse_reverse] at hmid
    rw [trim, List.append_assoc, hmid, hfront]
  · exact fun c hc => List.mem_takeWhile_imp hc
  · exact fun c hc => List.mem_takeWhile_imp (List.mem_reverse.mp hc)

/-! ## Lines -/

/-- The end of a line. -/
abbrev crlf : Bytes := [0x0D, 0x0A]

theorem intercalate_consPiece (s : Bytes) (c : UInt8) (pieces : List Bytes) :
    s.intercalate (consPiece c pieces) = c :: s.intercalate pieces := by
  cases pieces with
  | nil => rfl
  | cons piece pieces => exact List.intercalate_cons_cons_left

theorem splitCrlf_ne_nil (b : Bytes) : splitCrlf b ≠ [] := by
  induction b using splitCrlf.induct with
  | case1 tl _ => rw [splitCrlf]; exact List.cons_ne_nil _ _
  | case2 => exact List.cons_ne_nil _ _
  | case3 c tl hnot _ =>
    rw [splitCrlf]
    · cases splitCrlf tl <;> exact List.cons_ne_nil _ _
    · exact hnot

/-- The lines joined again are the text. -/
theorem intercalate_splitCrlf (b : Bytes) : crlf.intercalate (splitCrlf b) = b := by
  induction b using splitCrlf.induct with
  | case1 tl ih =>
    rw [splitCrlf, List.intercalate_cons_of_ne_nil (splitCrlf_ne_nil tl), ih]
    rfl
  | case2 => rfl
  | case3 c tl hnot ih =>
    rw [splitCrlf, intercalate_consPiece, ih]
    exact hnot

/-- No line has a line end inside. -/
theorem crlf_not_infix_of_mem_splitCrlf {line : Bytes} (h : line ∈ splitCrlf b) :
    ¬ crlf <:+: line := by
  induction b using splitCrlf.induct generalizing line with
  | case1 tl ih =>
    rw [splitCrlf] at h
    rcases List.mem_cons.mp h with rfl | h
    · decide
    · exact ih h
  | case2 =>
    obtain rfl : line = [] := by simpa [splitCrlf] using h
    decide
  | case3 c tl hnot ih =>
    rw [splitCrlf] at h
    · have hjoin := intercalate_splitCrlf tl
      rcases hs : splitCrlf tl with _ | ⟨p, ps⟩
      · exact absurd hs (splitCrlf_ne_nil tl)
      · rw [hs] at h ih hjoin
        rcases List.mem_cons.mp h with rfl | h
        · rw [List.infix_cons_iff]
          rintro (⟨t, ht⟩ | hinfix)
          · -- a line end that starts at `c` would have been split off
            obtain ⟨rfl, hp⟩ := List.cons.inj ht
            rw [← hp, List.append_eq, List.cons_append, List.intercalate_cons_cons_left] at hjoin
            exact hnot _ rfl hjoin.symm
          · exact ih List.mem_cons_self hinfix
        · exact ih (List.mem_cons_of_mem _ h)
    · exact hnot

theorem splitCrlf_append {line : Bytes} (h : ¬ crlf <:+: line) (rest : Bytes) :
    splitCrlf (line ++ crlf ++ rest) = line :: splitCrlf rest := by
  induction line with
  | nil => rfl
  | cons c line ih =>
    rw [List.infix_cons_iff, not_or] at h
    have hstart : ∀ tl, c = 0x0D → line ++ crlf ++ rest = 0x0A :: tl → False := by
      rintro tl rfl heq
      rcases line with _ | ⟨d, line⟩
      · cases heq
      · rw [(List.cons.inj heq).1] at h
        exact h.1 ⟨line, rfl⟩
    rw [List.cons_append, List.cons_append, splitCrlf, ih h.2]
    · rfl
    · exact hstart

theorem splitCrlf_eq_singleton {line : Bytes} (h : ¬ crlf <:+: line) : splitCrlf line = [line] := by
  have hjoin := intercalate_splitCrlf line
  rcases hs : splitCrlf line with _ | ⟨p, ps⟩
  · exact absurd hs (splitCrlf_ne_nil line)
  · rw [hs] at hjoin
    rcases ps with _ | ⟨q, ps⟩
    · rw [← hjoin, List.intercalate_singleton]
    · rw [List.intercalate_cons_cons] at hjoin
      exact absurd ⟨p, _, hjoin⟩ h

/-- Lines without line ends inside are what joining them is split into. -/
theorem splitCrlf_intercalate {lines : List Bytes} (h : ∀ line ∈ lines, ¬ crlf <:+: line)
    (hne : lines ≠ []) : splitCrlf (crlf.intercalate lines) = lines := by
  induction lines with
  | nil => exact absurd rfl hne
  | cons line lines ih =>
    rw [List.forall_mem_cons] at h
    rcases lines with _ | ⟨next, lines⟩
    · rw [List.intercalate_singleton, splitCrlf_eq_singleton h.1]
    · rw [List.intercalate_cons_cons, splitCrlf_append h.1, ih h.2 (List.cons_ne_nil _ _)]

/-! ## Searching -/

/-- The first position of the pattern. -/
theorem find_eq_some : find pat b = some i ↔
    i ≤ b.length ∧ pat <+: b.drop i ∧ ∀ j < i, ¬ pat <+: b.drop j := by
  induction b generalizing i with
  | nil =>
    cases pat with
    | nil =>
      constructor
      · intro h
        obtain rfl : 0 = i := by simpa [find] using h
        simp
      · rintro ⟨hle, -, -⟩
        obtain rfl : i = 0 := by simpa using hle
        rfl
    | cons x pat => simp [find]
  | cons c tl ih =>
    rw [find]
    by_cases hpre : pat.isPrefixOf (c :: tl)
    · rw [if_pos hpre, Option.some_inj]
      have hpre := List.isPrefixOf_iff_prefix.mp hpre
      constructor
      · rintro rfl
        exact ⟨Nat.zero_le _, hpre, fun j hj => absurd hj (Nat.not_lt_zero j)⟩
      · rintro ⟨-, -, hfirst⟩
        by_contra hne
        exact hfirst 0 (Nat.pos_of_ne_zero (Ne.symm hne)) hpre
    · rw [if_neg hpre, Option.map_eq_some_iff]
      have hpre : ¬ pat <+: c :: tl := fun h => hpre (List.isPrefixOf_iff_prefix.mpr h)
      constructor
      · rintro ⟨k, hk, rfl⟩
        obtain ⟨hle, hat, hfirst⟩ := ih.mp hk
        refine ⟨Nat.succ_le_succ hle, hat, fun j hj => ?_⟩
        cases j with
        | zero => exact hpre
        | succ j => exact hfirst j (Nat.lt_of_succ_lt_succ hj)
      · rintro ⟨hle, hat, hfirst⟩
        cases i with
        | zero => exact absurd hat hpre
        | succ k =>
          exact ⟨k, ih.mpr ⟨Nat.le_of_succ_le_succ hle, hat,
            fun j hj => hfirst (j + 1) (Nat.succ_lt_succ hj)⟩, rfl⟩

/-- What is found lies inside. -/
theorem find_le (h : find pat b = some i) : i + pat.length ≤ b.length := by
  rw [find_eq_some] at h
  obtain ⟨hle, hat, -⟩ := h
  have hlen := hat.length_le
  rw [List.length_drop] at hlen
  omega

/-- The string around what is found. -/
theorem eq_of_find (h : find pat b = some i) :
    b = b.take i ++ pat ++ b.drop (i + pat.length) := by
  rw [find_eq_some] at h
  obtain ⟨-, ⟨t, ht⟩, -⟩ := h
  have hdrop : t = b.drop (i + pat.length) := by
    rw [← List.drop_drop, ← ht, List.drop_left]
  rw [← hdrop, List.append_assoc, ht, List.take_append_drop]

/-- Nothing is found later that is not there. -/
theorem le_of_find (h : find pat b = some i) (heq : b = piece ++ pat ++ rest) :
    i ≤ piece.length := by
  rw [find_eq_some] at h
  obtain ⟨-, -, hfirst⟩ := h
  by_contra hlt
  refine hfirst piece.length (by omega) ?_
  rw [heq, List.append_assoc, List.drop_left]
  exact List.prefix_append pat rest

/-- More bytes do not change what is found. -/
theorem find_append (h : find pat b = some i) (x : Bytes) : find pat (b ++ x) = some i := by
  have hin := find_le h
  rw [find_eq_some] at h ⊢
  obtain ⟨hle, hat, hfirst⟩ := h
  refine ⟨?_, ?_, fun j hj hat' => hfirst j hj ?_⟩
  · rw [List.length_append]
    omega
  · rw [List.drop_append_of_le_length hle]
    exact List.prefix_append_of_prefix hat
  · -- an earlier place would have had room for the pattern in `b` already
    rw [List.drop_append_of_le_length (by omega)] at hat'
    refine List.prefix_of_prefix_length_le hat' (List.prefix_append _ _) ?_
    rw [List.length_drop]
    omega

/-- What is found is found once it has arrived. -/
theorem find_of_append {x : Bytes} (h : find pat (b ++ x) = some i)
    (hin : i + pat.length ≤ b.length) : find pat b = some i := by
  rw [find_eq_some] at h ⊢
  obtain ⟨-, hat, hfirst⟩ := h
  refine ⟨by omega, ?_, fun j hj hat' => hfirst j hj ?_⟩
  · rw [List.drop_append_of_le_length (by omega)] at hat
    refine List.prefix_of_prefix_length_le hat (List.prefix_append _ _) ?_
    rw [List.length_drop]
    omega
  · rw [List.drop_append_of_le_length (by omega)]
    exact List.prefix_append_of_prefix hat'

/-- The search skips what does not have the first byte of the pattern. -/
theorem find_append_left (h : c ∉ piece) (hrest : find (c :: pat) rest = some i) :
    find (c :: pat) (piece ++ rest) = some (piece.length + i) := by
  induction piece with
  | nil => rwa [List.nil_append, List.length_nil, Nat.zero_add]
  | cons d piece ih =>
    have hne : (c :: pat).isPrefixOf (d :: (piece ++ rest)) = false := by
      simp [List.isPrefixOf, List.ne_of_not_mem_cons h]
    rw [List.cons_append, find, hne, if_neg Bool.false_ne_true, ih (List.not_mem_of_not_mem_cons h),
      Option.map_some, List.length_cons]
    congr 1
    omega

/-! ## Numbers -/

/-- The byte of a digit. -/
theorem toNat_ofNat_of_isDigit {d : Char} (h : d.isDigit = true) :
    (UInt8.ofNat d.toNat).toNat = d.toNat ∧ isDigit (UInt8.ofNat d.toNat) = true := by
  obtain ⟨hlo, hhi⟩ := Chars.isDigit_iff.mp h
  have hnat : (UInt8.ofNat d.toNat).toNat = d.toNat := by
    rw [UInt8.toNat_ofNat']
    omega
  refine ⟨hnat, isDigit_iff.mpr ?_⟩
  rw [hnat]
  exact ⟨hlo, hhi⟩

theorem isDigit_of_mem_decimal (h : c ∈ decimal n) : isDigit c = true := by
  obtain ⟨d, hd, rfl⟩ := List.mem_map.mp h
  exact (toNat_ofNat_of_isDigit (Chars.isDigit_of_mem_toDigits hd)).2

theorem decimal_ne_nil (n : ℕ) : decimal n ≠ [] := by
  rw [decimal, Ne, List.map_eq_nil_iff]
  exact Nat.toDigits_ne_nil

theorem digitsValue_decimal (n : ℕ) : digitsValue (decimal n) = n := by
  have hfold : ∀ (cs : List Char) (acc : ℕ), (∀ d ∈ cs, d.isDigit = true) →
      (cs.map fun d => UInt8.ofNat d.toNat).foldl (fun n b => n * 10 + (b.toNat - 0x30)) acc =
        Nat.ofDigitChars 10 cs acc := by
    intro cs
    induction cs with
    | nil => exact fun _ _ => rfl
    | cons d cs ih =>
      intro acc h
      rw [List.forall_mem_cons] at h
      rw [List.map_cons, List.foldl_cons, ih _ h.2, Nat.ofDigitChars_cons,
        (toNat_ofNat_of_isDigit h.1).1, Nat.mul_comm]
      rfl
  rw [digitsValue, decimal, hfold _ _ fun _ => Chars.isDigit_of_mem_toDigits]
  exact Nat.ofDigitChars_ten_toDigits

/-- **A number written in decimal reads back**, if it is below the bound, and only then. -/
theorem parseUnsigned_decimal :
    parseUnsigned bound (decimal n) = if n < bound then some n else none := by
  have hall : (decimal n).all isDigit = true :=
    List.all_eq_true.mpr fun _ => isDigit_of_mem_decimal
  unfold parseUnsigned
  extract_lets digits
  have hdigits : digits = decimal n := by
    simp only [digits]
    split
    case h_1 tl heq =>
      -- a digit is no sign
      have hdigit : isDigit 0x2B = true := isDigit_of_mem_decimal (heq ▸ List.mem_cons_self)
      exact absurd hdigit (by decide)
    case h_2 => rfl
  simp only [hdigits, decimal_ne_nil, hall, digitsValue_decimal, not_true_eq_false,
    or_self, if_false]

/-- What reads as a number is below the bound. -/
theorem parseUnsigned_lt (h : parseUnsigned bound b = some n) : n < bound := by
  unfold parseUnsigned at h
  dsimp only at h
  split_ifs at h with _ hlt
  obtain rfl := Option.some_inj.mp h
  exact hlt

/-- A number below a power of ten has no more digits than that. -/
theorem length_decimal_le {k : ℕ} (hk : 0 < k) (h : n < 10 ^ k) : (decimal n).length ≤ k := by
  rw [decimal, List.length_map]
  exact (Nat.length_toDigits_le_iff (by decide) hk).mpr h

end Text
