import Mathlib.Data.List.Basic
import Mathlib.Data.List.Induction
import Mathlib.Data.List.TakeWhile
import Mathlib.Tactic.IntervalCases
import TactiqAttest.Bytes.Text

/-!
# Text as characters

The string operations of parsers that look at characters rather than bytes: blanks and suffixes
taken off, and numbers in decimal and in hexadecimal.

* `parseUnsigned_toDigits`: the direction a writer needs, a number written in decimal reads back;
* `eq_zeros_toDigits`: the direction a reader needs, digits are zeros and then a number as it is
  written;
* `blanks_trim`: what `trim` takes off, and what it leaves.
-/

namespace Chars

/-- `str::trim`. -/
def trim (cs : List Char) : List Char :=
  Text.trimEnd Text.isWhitespace (cs.dropWhile Text.isWhitespace)

/-- `rsplit_once`: what is before the last occurrence of a character, and what is after. -/
def rsplitOnce (sep : Char) (cs : List Char) : Option (List Char × List Char) :=
  match cs.reverse.span (· != sep) with
  | (_, []) => none
  | (last, _ :: init) => some (init.reverse, last.reverse)

/-- `split_once`: what is before the first occurrence of a character, and what is after. -/
def splitOnce (sep : Char) (cs : List Char) : Option (List Char × List Char) :=
  match cs.span (· != sep) with
  | (_, []) => none
  | (init, _ :: rest) => some (init, rest)

/-- `trim_matches`, for a class of characters. -/
def trimMatches (p : Char → Bool) (cs : List Char) : List Char := Text.trimEnd p (cs.dropWhile p)

/-- `strip_suffix`. -/
def stripSuffix (suffix cs : List Char) : Option (List Char) :=
  if suffix.isSuffixOf cs then some (cs.take (cs.length - suffix.length)) else none

/-- `strip_prefix`. -/
def stripPrefix (pat cs : List Char) : Option (List Char) :=
  if pat.isPrefixOf cs then some (cs.drop pat.length) else none

/-- `str::lines`: the last line need not end, and a carriage return before a line end belongs to
it. -/
def lines (cs : List Char) : List (List Char) :=
  let parts := cs.splitOn '\n'
  parts.dropLast.map (fun line => (stripSuffix ['\r'] line).getD line) ++
    (parts.getLast?.filter (· ≠ [])).toList

/-- `str::contains`. -/
def contains (pat cs : List Char) : Bool := cs.tails.any pat.isPrefixOf

/-- `eq_ignore_ascii_case`. -/
def eqIgnoreCase (cs cs' : List Char) : Bool := cs.map Char.toLower == cs'.map Char.toLower

/-- The bytes of a text. -/
def utf8 (cs : List Char) : Bytes := cs.flatMap String.utf8EncodeChar

/-- What `{:?}` makes of a text: quoted, with quotes, backslashes and ASCII control characters
escaped.  Other characters that are not printable are not escaped here. -/
def debug (cs : List Char) : String :=
  let char (c : Char) : String :=
    if c.toNat = 0x00 then "\\0"
    else if c.toNat = 0x09 then "\\t"
    else if c.toNat = 0x0A then "\\n"
    else if c.toNat = 0x0D then "\\r"
    else if c.toNat = 0x22 then "\\\""
    else if c.toNat = 0x5C then "\\\\"
    else if c.toNat < 0x20 ∨ c.toNat = 0x7F then "\\u\x7b" ++ Text.hex 1 c.toNat ++ "\x7d"
    else String.singleton c
  "\"" ++ String.join (cs.map char) ++ "\""

/-- `str::parse` for an unsigned integer below `bound`: digits, after at most one plus sign, writing
a number that fits. -/
def parseUnsigned (bound : ℕ) (cs : List Char) : Option ℕ :=
  let digits := match cs with
    | '+' :: tl => tl
    | _ => cs
  if digits = [] ∨ ¬ digits.all Char.isDigit then none
  else if Nat.ofDigitChars 10 digits 0 < bound then some (Nat.ofDigitChars 10 digits 0)
  else none

/-- How many zeros are written before a number begins. -/
def leadingZeros (cs : List Char) : ℕ := (cs.dropLast.takeWhile (· == '0')).length

/-- `char::to_digit(16)`. -/
def hexValue (c : Char) : Option ℕ :=
  if c.isDigit then some (c.toNat - '0'.toNat)
  else if 'a' ≤ c ∧ c ≤ 'f' then some (c.toNat - 'a'.toNat + 10)
  else if 'A' ≤ c ∧ c ≤ 'F' then some (c.toNat - 'A'.toNat + 10)
  else none

/-- `is_ascii_hexdigit`. -/
def isHexDigit (c : Char) : Bool := (hexValue c).isSome

/-- The bytes that pairs of hexadecimal digits write. -/
def hexBytes : List Char → Option Bytes
  | [] => some []
  | [_] => none
  | hi :: lo :: tl => do
    let h ← hexValue hi
    let l ← hexValue lo
    return UInt8.ofNat (16 * h + l) :: (← hexBytes tl)

/-- Exactly `n` bytes in hexadecimal. -/
def hexVector (n : ℕ) (cs : List Char) : Option (List.Vector UInt8 n) :=
  match hexBytes cs with
  | some b => if h : b.length = n then some ⟨b, h⟩ else none
  | none => none

variable {bound n : ℕ} {c : Char} {cs : List Char}

/-! ## Cutting -/

/-- What is cut at a separator is the two sides of it. -/
theorem append_of_rsplitOnce {sep : Char} {init last : List Char}
    (h : rsplitOnce sep cs = some (init, last)) : init ++ sep :: last = cs := by
  unfold rsplitOnce at h
  rw [List.span_eq_takeWhile_dropWhile] at h
  have hcs := List.takeWhile_append_dropWhile (p := (· != sep)) (l := cs.reverse)
  rcases hdrop : cs.reverse.dropWhile (· != sep) with _ | ⟨c, rest⟩
  · rw [hdrop] at h
    cases h
  · rw [hdrop] at h hcs
    obtain ⟨rfl, rfl⟩ := Prod.mk.inj (Option.some_inj.mp h)
    -- the first character that is not before the separator is the separator
    have hc : c = sep := by
      have hnot := List.head_dropWhile_not (· != sep) (l := cs.reverse) (by simp [hdrop])
      simpa [hdrop] using hnot
    have hrev := congrArg List.reverse hcs
    rw [hc, List.reverse_append, List.reverse_cons, List.reverse_reverse, List.append_assoc] at hrev
    exact hrev

/-- Cutting at the first separator, where there is one and where there is none. -/
theorem span_ne_eq {sep : Char} {init rest : List Char} (h : sep ∉ init) :
    (init ++ sep :: rest).span (· != sep) = (init, sep :: rest) := by
  have hinit : ∀ c ∈ init, (c != sep) = true := fun c hc => by
    rw [bne_iff_ne]
    rintro rfl
    exact h hc
  rw [List.span_eq_takeWhile_dropWhile, List.takeWhile_append_of_pos hinit,
    List.dropWhile_append_of_pos hinit]
  simp

theorem span_ne_of_notMem {sep : Char} (h : sep ∉ cs) : cs.span (· != sep) = (cs, []) := by
  have hall : ∀ c ∈ cs, (c != sep) = true := fun c hc => by
    rw [bne_iff_ne]
    rintro rfl
    exact h hc
  rw [List.span_eq_takeWhile_dropWhile, List.takeWhile_eq_self_iff.mpr hall,
    List.dropWhile_eq_nil_iff.mpr hall]

/-- Cutting at the last separator. -/
theorem rsplitOnce_append {sep : Char} {init last : List Char} (h : sep ∉ last) :
    rsplitOnce sep (init ++ sep :: last) = some (init, last) := by
  have hrev : (init ++ sep :: last).reverse = last.reverse ++ sep :: init.reverse := by simp
  rw [rsplitOnce, hrev, span_ne_eq (by simpa using h)]
  simp

theorem append_of_stripSuffix {suffix init : List Char} (h : stripSuffix suffix cs = some init) :
    init ++ suffix = cs := by
  unfold stripSuffix at h
  split_ifs at h with hsuffix
  obtain ⟨init', rfl⟩ := List.isSuffixOf_iff_suffix.mp hsuffix
  rw [← Option.some_inj.mp h]
  simp

theorem stripSuffix_append {suffix init : List Char} :
    stripSuffix suffix (init ++ suffix) = some init := by
  rw [stripSuffix, if_pos (List.isSuffixOf_iff_suffix.mpr (List.suffix_append init suffix))]
  simp

theorem stripSuffix_eq_none {suffix : List Char} :
    stripSuffix suffix cs = none ↔ ¬ suffix <:+ cs := by
  rw [stripSuffix, ← List.isSuffixOf_iff_suffix]
  split_ifs with h <;> simp [h]

/-- What stands in a part stands in the whole. -/
theorem mem_intercalate {sep part : List Char} {parts : List (List Char)} (hpart : part ∈ parts)
    (hc : c ∈ part) : c ∈ sep.intercalate parts := by
  induction parts with
  | nil => cases hpart
  | cons first parts ih =>
    rcases parts with _ | ⟨second, parts⟩
    · rw [List.mem_singleton.mp hpart] at hc
      rwa [List.intercalate_singleton]
    · rw [List.intercalate_cons_cons]
      rcases List.mem_cons.mp hpart with rfl | hpart
      · exact List.mem_append_left _ (List.mem_append_left _ hc)
      · exact List.mem_append_right _ (ih hpart)

/-- What stands in the whole stands in a part, or separates two. -/
theorem mem_parts_or_sep {sep : List Char} {parts : List (List Char)}
    (h : c ∈ sep.intercalate parts) : (∃ part ∈ parts, c ∈ part) ∨ c ∈ sep := by
  induction parts with
  | nil => simp at h
  | cons first parts ih =>
    rcases parts with _ | ⟨second, parts⟩
    · rw [List.intercalate_singleton] at h
      exact .inl ⟨first, List.mem_cons_self, h⟩
    · rw [List.intercalate_cons_cons] at h
      rcases List.mem_append.mp h with h | h
      · rcases List.mem_append.mp h with h | h
        · exact .inl ⟨first, List.mem_cons_self, h⟩
        · exact .inr h
      · exact (ih h).imp_left fun ⟨part, hpart, hc⟩ => ⟨part, List.mem_cons_of_mem _ hpart, hc⟩

theorem splitOnce_of_notMem {sep : Char} {init rest : List Char} (h : sep ∉ init) :
    splitOnce sep (init ++ sep :: rest) = some (init, rest) := by
  rw [splitOnce, span_ne_eq h]

/-- Cut at the first separator, a text is what is before it, the separator, and what is after. -/
theorem append_of_splitOnce {sep : Char} {init rest : List Char}
    (h : splitOnce sep cs = some (init, rest)) : sep ∉ init ∧ cs = init ++ sep :: rest := by
  by_cases hsep : sep ∈ cs
  · obtain ⟨init', rest', rfl, hinit⟩ := List.eq_append_cons_of_mem hsep
    rw [splitOnce_of_notMem hinit] at h
    obtain ⟨rfl, rfl⟩ := Prod.mk.inj (Option.some_inj.mp h)
    exact ⟨hinit, rfl⟩
  · rw [splitOnce, span_ne_of_notMem hsep] at h
    cases h

/-! ## Blanks -/

/-- Dropping stops at a character that is not of the class. -/
theorem dropWhile_append_cons {p : Char → Bool} {init rest : List Char} (hc : p c = false) :
    (init ++ c :: rest).dropWhile p = init.dropWhile p ++ c :: rest := by
  induction init with
  | nil => rw [List.nil_append, List.dropWhile_cons, hc, if_neg Bool.false_ne_true]; rfl
  | cons d init ih =>
    rw [List.cons_append, List.dropWhile_cons, List.dropWhile_cons, ih]
    split_ifs <;> rfl

/-- Trimming stops there from both sides. -/
theorem trim_append_cons {init rest : List Char} (hc : Text.isWhitespace c = false) :
    trim (init ++ c :: rest) =
      init.dropWhile Text.isWhitespace ++ c :: Text.trimEnd Text.isWhitespace rest := by
  have hrev (l : List Char) : (l ++ c :: rest).reverse = rest.reverse ++ c :: l.reverse := by simp
  rw [trim, dropWhile_append_cons hc, Text.trimEnd, hrev, dropWhile_append_cons hc, Text.trimEnd]
  simp

theorem mem_trim (h : c ∈ cs) (hc : Text.isWhitespace c = false) : c ∈ trim cs := by
  obtain ⟨init, rest, rfl⟩ := List.append_of_mem h
  rw [trim_append_cons hc]
  simp

/-- Blanks at the end do not matter. -/
theorem trim_append_of_blanks {blanks : List Char}
    (h : ∀ c ∈ blanks, Text.isWhitespace c = true) : trim (cs ++ blanks) = trim cs := by
  have hend (l : List Char) : Text.trimEnd Text.isWhitespace (l ++ blanks) =
      Text.trimEnd Text.isWhitespace l := by
    rw [Text.trimEnd, List.reverse_append,
      List.dropWhile_append_of_pos fun c hc => h c (List.mem_reverse.mp hc), Text.trimEnd]
  rw [trim, List.dropWhile_append]
  split_ifs with hnil
  · have hblanks : blanks.dropWhile Text.isWhitespace = [] := List.dropWhile_eq_nil_iff.mpr h
    rw [List.isEmpty_iff] at hnil
    rw [trim, hnil, hblanks]
  · rw [hend, trim]

/-- What is trimmed off the end is the characters of the class that are there. -/
theorem trimEnd_append {p : Char → Bool} {l : List Char} (h : ∀ c ∈ cs, p c = false)
    (hl : ∀ c ∈ l, p c = true) : Text.trimEnd p (cs ++ l) = cs := by
  rw [Text.trimEnd, List.reverse_append,
    List.dropWhile_append_of_pos fun c hc => hl c (List.mem_reverse.mp hc)]
  rcases hrev : cs.reverse with _ | ⟨c, tl⟩
  · simpa using hrev.symm
  · have hc : p c = false := h c (List.mem_reverse.mp (hrev ▸ List.mem_cons_self))
    rw [List.dropWhile_cons, hc, if_neg Bool.false_ne_true, ← hrev, List.reverse_reverse]

/-- What is trimmed off, and what is left. -/
theorem blanks_trim (cs : List Char) :
    cs.takeWhile Text.isWhitespace ++ trim cs ++
      ((cs.dropWhile Text.isWhitespace).reverse.takeWhile Text.isWhitespace).reverse = cs := by
  have hend : trim cs ++
      ((cs.dropWhile Text.isWhitespace).reverse.takeWhile Text.isWhitespace).reverse =
        cs.dropWhile Text.isWhitespace := by
    rw [trim, Text.trimEnd, ← List.reverse_append, List.takeWhile_append_dropWhile,
      List.reverse_reverse]
  rw [List.append_assoc, hend, List.takeWhile_append_dropWhile]

theorem mem_of_mem_trim (h : c ∈ trim cs) : c ∈ cs := by
  rw [← blanks_trim cs]
  simp [h]

/-- Nothing is trimmed off a text without blanks. -/
theorem trim_eq_self (h : ∀ c ∈ cs, Text.isWhitespace c = false) : trim cs = cs := by
  have hend : Text.trimEnd Text.isWhitespace (cs ++ []) = cs :=
    trimEnd_append h (List.forall_mem_nil _)
  cases cs with
  | nil => rfl
  | cons c cs =>
    rw [trim, List.dropWhile_cons, h c List.mem_cons_self, if_neg Bool.false_ne_true]
    rwa [List.append_nil] at hend

/-- Blanks at the end are trimmed off, and nothing else if there are no others. -/
theorem trim_append_blanks {blanks : List Char} (h : ∀ c ∈ cs, Text.isWhitespace c = false)
    (hblanks : ∀ c ∈ blanks, Text.isWhitespace c = true) : trim (cs ++ blanks) = cs := by
  rw [trim_append_of_blanks hblanks, trim_eq_self h]

/-! ## ASCII -/

/-- The text that ASCII bytes are. -/
def ofAscii (bs : Bytes) : List Char := bs.map fun b => Char.ofNat b.toNat

variable {b : UInt8} {bs : Bytes}

theorem toNat_ofNat_toNat (b : UInt8) : (Char.ofNat b.toNat).toNat = b.toNat := by
  have hlt := b.toNat_lt
  have hvalid : b.toNat.isValidChar := .inl (by omega)
  rw [Char.ofNat, dif_pos hvalid]
  rfl

theorem ofAscii_append (bs bs' : Bytes) : ofAscii (bs ++ bs') = ofAscii bs ++ ofAscii bs' :=
  List.map_append

/-- A printable byte is no blank. -/
theorem isWhitespace_of_isGraphic (h : Text.isGraphic b = true) :
    Text.isWhitespace (Char.ofNat b.toNat) = false := by
  obtain ⟨hlow, hhigh⟩ := Text.isGraphic_iff.mp h
  simp only [Text.isWhitespace, toNat_ofNat_toNat]
  simp
  omega

theorem utf8EncodeChar_ofNat (hb : b.toNat < 0x80) :
    String.utf8EncodeChar (Char.ofNat b.toNat) = [b] := by
  have hval : (Char.ofNat b.toNat).val.toNat = b.toNat := toNat_ofNat_toNat b
  simp only [String.utf8EncodeChar, hval]
  rw [if_pos (by omega), UInt8.ofNat_toNat]

/-- The bytes of a text determine it. -/
theorem utf8_injective : Function.Injective utf8 := by
  intro cs cs' h
  have hencode : cs.utf8Encode = cs'.utf8Encode := congrArg List.toByteArray h
  rw [← String.toByteArray_ofList, ← String.toByteArray_ofList, String.toByteArray_inj] at hencode
  exact String.ofList_injective hencode

theorem utf8_ofAscii (h : ∀ b ∈ bs, b.toNat < 0x80) : utf8 (ofAscii bs) = bs := by
  induction bs with
  | nil => rfl
  | cons b bs ih =>
    rw [List.forall_mem_cons] at h
    show String.utf8EncodeChar (Char.ofNat b.toNat) ++ utf8 (ofAscii bs) = b :: bs
    rw [utf8EncodeChar_ofNat h.1, ih h.2]
    rfl

/-- The bytes of a character that is not ASCII are not ASCII. -/
theorem exists_mem_utf8EncodeChar (hc : 0x80 ≤ c.toNat) :
    ∃ b ∈ String.utf8EncodeChar c, 0x80 ≤ b.toNat := by
  have hc : 0x80 ≤ c.val.toNat := hc
  simp only [String.utf8EncodeChar]
  split_ifs <;> first | omega | exact ⟨_, List.mem_cons_self, by simp [UInt8.toNat_ofNat]; omega⟩

/-- A text whose bytes are ASCII is the text that they are. -/
theorem ofAscii_utf8 (h : ∀ b ∈ utf8 cs, b.toNat < 0x80) : ofAscii (utf8 cs) = cs := by
  induction cs with
  | nil => rfl
  | cons c cs ih =>
    have hcons : utf8 (c :: cs) = String.utf8EncodeChar c ++ utf8 cs := rfl
    rw [hcons] at h ⊢
    have hc : c.toNat < 0x80 := by
      by_contra hge
      obtain ⟨b, hb, hlarge⟩ := exists_mem_utf8EncodeChar (c := c) (by omega)
      have hsmall := h b (List.mem_append_left _ hb)
      omega
    have hone : String.utf8EncodeChar c = [UInt8.ofNat c.val.toNat] := by
      have hc : c.val.toNat < 0x80 := hc
      simp only [String.utf8EncodeChar]
      rw [if_pos (by omega)]
    have hback : Char.ofNat (UInt8.ofNat c.val.toNat).toNat = c := by
      refine Char.ext (UInt32.toNat_inj.mp ((toNat_ofNat_toNat _).trans ?_))
      rw [UInt8.toNat_ofNat']
      exact Nat.mod_eq_of_lt (Nat.lt_of_lt_of_le hc (by decide))
    rw [hone]
    show Char.ofNat (UInt8.ofNat c.val.toNat).toNat :: ofAscii (utf8 cs) = c :: cs
    rw [hback, ih fun b hb => h b (List.mem_append_right _ hb)]

theorem utf8Valid_of_ascii (h : ∀ b ∈ bs, b.toNat < 0x80) : Text.utf8Valid bs = true := by
  induction bs with
  | nil => rfl
  | cons b bs ih =>
    rw [List.forall_mem_cons] at h
    have hb : b < 0x80 := UInt8.lt_iff_toNat_lt.mpr h.1
    unfold Text.utf8Valid
    rw [if_pos hb]
    exact ih h.2

/-- ASCII bytes that are no blanks, then a newline or none, are trimmed to the text that they
are. -/
theorem trim_ofAscii {newline : Bytes} (h : ∀ b ∈ bs, Text.isGraphic b = true)
    (hnewline : ∀ b ∈ newline, b = 0x0A) : trim (ofAscii (bs ++ newline)) = ofAscii bs := by
  rw [ofAscii_append]
  refine trim_append_blanks (List.forall_mem_map.mpr fun b hb => isWhitespace_of_isGraphic (h b hb))
    (List.forall_mem_map.mpr fun b hb => ?_)
  rw [hnewline b hb]
  decide

theorem lossy_of_ascii (h : ∀ b ∈ bs, b.toNat < 0x80) : Text.lossy bs = ofAscii bs := by
  induction bs with
  | nil => rfl
  | cons b bs ih =>
    rw [List.forall_mem_cons] at h
    have hb : b < 0x80 := UInt8.lt_iff_toNat_lt.mpr h.1
    have hwidth : Text.charWidth b = 1 := by rw [Text.charWidth, if_pos hb]
    show Text.lossyFrom [] (b :: bs) = _
    rw [Text.lossyFrom]
    simp only [hwidth]
    show Char.ofNat b.toNat :: Text.lossy bs = _
    rw [ih h.2]
    rfl

/-! ## Numbers in decimal -/

theorem isDigit_of_mem_toDigits (h : c ∈ Nat.toDigits 10 n) : c.isDigit = true :=
  Nat.isDigit_of_mem_toDigits (by decide) (by decide) h

/-- The code points of the digits. -/
theorem isDigit_iff : c.isDigit = true ↔ 48 ≤ c.toNat ∧ c.toNat ≤ 57 := by
  rw [Char.isDigit, Bool.and_eq_true, decide_eq_true_iff, decide_eq_true_iff, ge_iff_le,
    UInt32.le_iff_toNat_le, UInt32.le_iff_toNat_le]
  rfl

theorem isWhitespace_of_isDigit (h : c.isDigit = true) : Text.isWhitespace c = false := by
  obtain ⟨hlo, hhi⟩ := isDigit_iff.mp h
  unfold Text.isWhitespace
  simp only [Bool.or_eq_false_iff, Bool.and_eq_false_iff, decide_eq_false_iff_not,
    beq_eq_false_iff_ne]
  omega

theorem trim_toDigits : trim (Nat.toDigits 10 n) = Nat.toDigits 10 n :=
  trim_eq_self fun _ hc => isWhitespace_of_isDigit (isDigit_of_mem_toDigits hc)

/-- What reads as a number is below the bound. -/
theorem parseUnsigned_lt (h : parseUnsigned bound cs = some n) : n < bound := by
  unfold parseUnsigned at h
  dsimp only at h
  split_ifs at h with _ hlt
  obtain rfl := Option.some_inj.mp h
  exact hlt

/-- **A number written in decimal reads back**, if it is below the bound, and only then. -/
theorem parseUnsigned_toDigits :
    parseUnsigned bound (Nat.toDigits 10 n) = if n < bound then some n else none := by
  have hne : Nat.toDigits 10 n ≠ [] := Nat.toDigits_ne_nil
  have hall : (Nat.toDigits 10 n).all Char.isDigit = true :=
    List.all_eq_true.mpr fun c hc => isDigit_of_mem_toDigits hc
  have hplus : (match Nat.toDigits 10 n with
      | '+' :: tl => tl
      | _ => Nat.toDigits 10 n) = Nat.toDigits 10 n := by
    split
    case h_1 tl heq =>
      have hdigit : '+'.isDigit = true :=
        isDigit_of_mem_toDigits (heq ▸ List.mem_cons_self)
      exact absurd hdigit (by decide)
    case h_2 => rfl
  unfold parseUnsigned
  simp only [hplus, hne, hall, Nat.ofDigitChars_ten_toDigits, not_true_eq_false, or_self, if_false]

/-- A digit is the digit of its value. -/
theorem digitChar_toNat_sub (h : c.isDigit = true) : Nat.digitChar (c.toNat - '0'.toNat) = c := by
  obtain ⟨hlo, hhi⟩ := isDigit_iff.mp h
  have hback : Char.ofNat c.toNat = c := Char.ofNat_toNat c
  rw [← hback]
  generalize c.toNat = m at hlo hhi
  interval_cases m <;> rfl

/-- Digits that do not begin with a zero are how their number is written. -/
theorem toDigits_ofDigitChars (hdigits : ∀ c ∈ cs, c.isDigit = true) (hne : cs ≠ [])
    (hhead : cs.head? ≠ some '0') :
    0 < Nat.ofDigitChars 10 cs 0 ∧ Nat.toDigits 10 (Nat.ofDigitChars 10 cs 0) = cs := by
  induction cs using List.reverseRecOn with
  | nil => exact absurd rfl hne
  | append_singleton init c ih =>
    have hc : c.isDigit = true := hdigits c (by simp)
    obtain ⟨hlo, hhi⟩ := isDigit_iff.mp hc
    have hvalue : c.toNat - '0'.toNat < 10 := by
      show c.toNat - 48 < 10
      omega
    have hlast : Nat.toDigits 10 (c.toNat - '0'.toNat) = [c] := by
      rw [Nat.toDigits_of_lt_base hvalue, digitChar_toNat_sub hc]
    rw [Nat.ofDigitChars_append, Nat.ofDigitChars_cons, Nat.ofDigitChars_nil]
    rcases init with _ | ⟨d, init⟩
    · refine ⟨?_, by simpa using hlast⟩
      have hc0 : c ≠ '0' := by simpa using hhead
      rw [Nat.ofDigitChars_nil, Nat.mul_zero, Nat.zero_add]
      refine Nat.pos_of_ne_zero fun hval => ?_
      rw [← digitChar_toNat_sub hc, hval] at hc0
      exact hc0 rfl
    · obtain ⟨hpos, hinit⟩ := ih (fun e he => hdigits e (List.mem_append_left _ he))
        (List.cons_ne_nil _ _) (by simpa using hhead)
      refine ⟨by omega, ?_⟩
      rw [← Nat.toDigits_append_toDigits (by decide) hpos hvalue, hinit, hlast]

/-- **Digits are the leading zeros, then their number as it is written.** -/
theorem eq_zeros_toDigits (hdigits : ∀ c ∈ cs, c.isDigit = true) (hne : cs ≠ []) :
    cs = List.replicate (leadingZeros cs) '0' ++ Nat.toDigits 10 (Nat.ofDigitChars 10 cs 0) := by
  induction cs with
  | nil => exact absurd rfl hne
  | cons c cs ih =>
    rcases cs with _ | ⟨d, cs⟩
    · have hc : c.isDigit = true := hdigits c List.mem_cons_self
      obtain ⟨hlo, hhi⟩ := isDigit_iff.mp hc
      have hvalue : c.toNat - '0'.toNat < 10 := by
        show c.toNat - 48 < 10
        omega
      show [c] = Nat.toDigits 10 (10 * 0 + (c.toNat - '0'.toNat))
      rw [Nat.mul_zero, Nat.zero_add, Nat.toDigits_of_lt_base hvalue, digitChar_toNat_sub hc]
    · by_cases hzero : c = '0'
      · subst hzero
        have hvalue : Nat.ofDigitChars 10 ('0' :: d :: cs) 0 = Nat.ofDigitChars 10 (d :: cs) 0 :=
          rfl
        have hzeros : leadingZeros ('0' :: d :: cs) = leadingZeros (d :: cs) + 1 := rfl
        rw [hvalue, hzeros, List.replicate_succ, List.cons_append,
          ← ih (fun e he => hdigits e (List.mem_cons_of_mem _ he)) (List.cons_ne_nil _ _)]
      · have hzeros : leadingZeros (c :: d :: cs) = 0 := by
          rw [leadingZeros, List.dropLast_cons_cons,
            List.takeWhile_cons_of_neg (by simpa using hzero)]
          rfl
        rw [hzeros, (toDigits_ofDigitChars hdigits (List.cons_ne_nil _ _)
          (by simpa using hzero)).2]
        rfl

/-- What reads as a number without a sign: digits of that number. -/
theorem parseUnsigned_eq_some (hsign : '+' ∉ cs) :
    parseUnsigned bound cs = some n ↔ cs ≠ [] ∧ (∀ c ∈ cs, c.isDigit = true) ∧
      Nat.ofDigitChars 10 cs 0 = n ∧ n < bound := by
  unfold parseUnsigned
  extract_lets digits
  have hcs : digits = cs := by
    simp only [digits]
    split
    · exact absurd List.mem_cons_self hsign
    · rfl
  simp only [hcs]
  split_ifs with hbad hlt
  · simp only [false_iff, not_and]
    intro hne hall
    exact absurd (hbad.resolve_left hne) (not_not.mpr (List.all_eq_true.mpr hall))
  · obtain ⟨hne, hall⟩ := not_or.mp hbad
    have hall := List.all_eq_true.mp (not_not.mp hall)
    rw [Option.some_inj]
    exact ⟨fun h => ⟨hne, hall, h, h ▸ hlt⟩, fun h => h.2.2.1⟩
  · simp only [false_iff, not_and]
    rintro - - rfl
    exact hlt

end Chars
