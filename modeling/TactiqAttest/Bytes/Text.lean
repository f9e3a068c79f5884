import TactiqAttest.Bytes.BigEndian

/-!
# Text in byte strings

Text fields of binary formats and of line protocols are handled as the bytes they are.  This file
has the string operations such parsers are written with, on byte strings.  All of them look only at
ASCII bytes, and in valid UTF-8 those never occur inside another character, so they agree with the
operations on text of the same names.

Everything here recurses on the bytes themselves, so that a parser can be run on a given input.
-/

namespace Text

/-- The bytes of an ASCII literal. -/
def ascii (s : String) : Bytes := s.toList.map fun c => UInt8.ofNat c.toNat

/-- The text of ASCII bytes. -/
def display (bs : Bytes) : String := String.ofList (bs.map fun b => Char.ofNat b.toNat)

/-! ## Numbers -/

/-- `n` in lower-case hexadecimal, padded with zeros to `width` digits. -/
def hex (width n : ℕ) : String :=
  let digits := Nat.toDigits 16 n
  String.ofList (List.replicate (width - digits.length) '0' ++ digits)

/-- `n` in upper-case hexadecimal, padded with zeros to `width` digits. -/
def hexUpper (width n : ℕ) : String := (hex width n).toUpper

/-- What `{:?}` makes of ASCII bytes: quoted, with control characters, quotes and backslashes
escaped. -/
def debug (bs : Bytes) : String :=
  let char (b : UInt8) : String :=
    if b = 0x00 then "\\0"
    else if b = 0x09 then "\\t"
    else if b = 0x0A then "\\n"
    else if b = 0x0D then "\\r"
    else if b = 0x22 then "\\\""
    else if b = 0x5C then "\\\\"
    else if b < 0x20 ∨ b = 0x7F then "\\u\x7b" ++ hex 1 b.toNat ++ "\x7d"
    else display [b]
  "\"" ++ String.join (bs.map char) ++ "\""

/-- `n` in decimal, without leading zeros. -/
def decimal (n : ℕ) : Bytes := (Nat.toDigits 10 n).map fun c => UInt8.ofNat c.toNat

/-- `0` to `9`. -/
def isDigit (b : UInt8) : Bool := 0x30 ≤ b && b ≤ 0x39

/-- The number a string of digits writes. -/
def digitsValue (bs : Bytes) : ℕ := bs.foldl (fun n b => n * 10 + (b.toNat - 0x30)) 0

/-- Rust's `str::parse` for an unsigned integer below `bound`: digits, after at most one plus sign,
writing a number that fits. -/
def parseUnsigned (bound : ℕ) (bs : Bytes) : Option ℕ :=
  let digits := match bs with
    | 0x2B :: tl => tl
    | _ => bs
  if digits = [] ∨ ¬ digits.all isDigit then none
  else if digitsValue digits < bound then some (digitsValue digits)
  else none

/-! ## Classes of bytes -/

/-- `!` to `~`. -/
def isGraphic (b : UInt8) : Bool := 0x21 ≤ b && b ≤ 0x7E

/-- `A` to `Z`. -/
def isUpper (b : UInt8) : Bool := 0x41 ≤ b && b ≤ 0x5A

theorem isDigit_iff {b : UInt8} : isDigit b = true ↔ 0x30 ≤ b.toNat ∧ b.toNat ≤ 0x39 := by
  simp [isDigit, UInt8.le_iff_toNat_le]

theorem isGraphic_iff {b : UInt8} : isGraphic b = true ↔ 0x21 ≤ b.toNat ∧ b.toNat ≤ 0x7E := by
  simp [isGraphic, UInt8.le_iff_toNat_le]

theorem lt_of_isGraphic {b : UInt8} (h : isGraphic b = true) : b.toNat < 0x80 :=
  Nat.lt_of_le_of_lt (isGraphic_iff.mp h).2 (by decide)

/-- `eq_ignore_ascii_case`. -/
def eqIgnoreCase (a b : Bytes) : Bool :=
  let lower (c : UInt8) : UInt8 := if isUpper c then c + 0x20 else c
  a.map lower == b.map lower

/-- A continuation byte of UTF-8. -/
def isContinuation (b : UInt8) : Bool := 0x80 ≤ b && b ≤ 0xBF

/-- Valid UTF-8: no overlong forms, no surrogates, nothing past U+10FFFF. -/
def utf8Valid : Bytes → Bool
  | [] => true
  | b :: tl =>
    if b < 0x80 then utf8Valid tl
    else match tl with
      | [] => false
      | c :: tl =>
        if 0xC2 ≤ b && b ≤ 0xDF then isContinuation c && utf8Valid tl
        else match tl with
          | [] => false
          | d :: tl =>
            if 0xE0 ≤ b && b ≤ 0xEF then
              isContinuation c && isContinuation d && (b != 0xE0 || 0xA0 ≤ c) &&
                (b != 0xED || c ≤ 0x9F) && utf8Valid tl
            else match tl with
              | [] => false
              | e :: tl =>
                0xF0 ≤ b && b ≤ 0xF4 && isContinuation c && isContinuation d &&
                  isContinuation e && (b != 0xF0 || 0x90 ≤ c) && (b != 0xF4 || c ≤ 0x8F) &&
                  utf8Valid tl

/-- Whether `c` may follow the lead byte `b` of a character of two bytes or more. -/
def follows (b c : UInt8) : Bool :=
  isContinuation c && (b != 0xE0 || 0xA0 ≤ c) && (b != 0xED || c ≤ 0x9F) &&
    (b != 0xF0 || 0x90 ≤ c) && (b != 0xF4 || c ≤ 0x8F)

/-- How many bytes a character takes that starts with `b`; 0 if none does. -/
def charWidth (b : UInt8) : ℕ :=
  if b < 0x80 then 1
  else if 0xC2 ≤ b && b ≤ 0xDF then 2
  else if 0xE0 ≤ b && b ≤ 0xEF then 3
  else if 0xF0 ≤ b && b ≤ 0xF4 then 4
  else 0

/-- The character that well-formed bytes encode: what the lead byte of a character of `bs.length`
bytes carries, then six bits of each byte after it. -/
def decodeChar : Bytes → Char
  | [] => Char.ofNat 0
  | [b] => Char.ofNat b.toNat
  | b :: tl =>
    Char.ofNat (tl.foldl (fun n c => n * 64 + c.toNat % 64) (b.toNat % 2 ^ (6 - tl.length)))

/-- U+FFFD, which stands for bytes that are not text. -/
def replacement : Char := Char.ofNat 0xFFFD

/-- `String::from_utf8_lossy`: the text, with a replacement character for every maximal piece of a
character that is cut short.  `seen` is such a piece, so far. -/
def lossyFrom (seen : Bytes) : Bytes → List Char
  | [] => if seen.isEmpty then [] else [replacement]
  | c :: tl =>
    let first : List Char × Bytes :=
      match charWidth c with
      | 0 => ([replacement], [])
      | 1 => ([decodeChar [c]], [])
      | _ => ([], [c])
    match seen with
    | [] => first.1 ++ lossyFrom first.2 tl
    | b :: more =>
      if (if more.isEmpty then follows b c else isContinuation c) then
        if seen.length + 1 = charWidth b then decodeChar (seen ++ [c]) :: lossyFrom [] tl
        else lossyFrom (seen ++ [c]) tl
      else replacement :: (first.1 ++ lossyFrom first.2 tl)

def lossy (bs : Bytes) : List Char := lossyFrom [] bs

/-- `char::is_whitespace`. -/
def isWhitespace (c : Char) : Bool :=
  let n := c.toNat
  (0x09 ≤ n && n ≤ 0x0D) || n == 0x20 || n == 0x85 || n == 0xA0 || n == 0x1680 ||
    (0x2000 ≤ n && n ≤ 0x200A) || n == 0x2028 || n == 0x2029 || n == 0x202F || n == 0x205F ||
    n == 0x3000

/-- `trim_end_matches`: the characters of a class taken off the end. -/
def trimEnd (p : Char → Bool) (cs : List Char) : List Char := (cs.reverse.dropWhile p).reverse

/-! ## Taking apart -/

/-- The first position of `pat` in `b`. -/
def find (pat : Bytes) : Bytes → Option ℕ
  | [] => if pat.isEmpty then some 0 else none
  | c :: tl => if pat.isPrefixOf (c :: tl) then some 0 else (find pat tl).map (· + 1)

/-- Put a byte in front of the first piece. -/
def consPiece (c : UInt8) : List Bytes → List Bytes
  | [] => [[c]]
  | piece :: pieces => (c :: piece) :: pieces

/-- `split` on one byte. -/
def split (sep : UInt8) : Bytes → List Bytes
  | [] => [[]]
  | c :: tl => if c = sep then [] :: split sep tl else consPiece c (split sep tl)

/-- `split` on a carriage return and a line feed. -/
def splitCrlf : Bytes → List Bytes
  | 0x0D :: 0x0A :: tl => [] :: splitCrlf tl
  | [] => [[]]
  | c :: tl => consPiece c (splitCrlf tl)

/-- `split_once` on one byte: what is before its first occurrence, and what is after. -/
def splitOnce (sep : UInt8) : Bytes → Option (Bytes × Bytes)
  | [] => none
  | c :: tl =>
    if c = sep then some ([], tl) else (splitOnce sep tl).map fun p => (c :: p.1, p.2)

/-- `trim_matches`: the bytes of a class taken off both ends. -/
def trim (p : UInt8 → Bool) (b : Bytes) : Bytes := ((b.dropWhile p).reverse.dropWhile p).reverse

/-- `strip_prefix`. -/
def stripPrefix (pat b : Bytes) : Option Bytes :=
  if pat.isPrefixOf b then some (b.drop pat.length) else none

/-- `strip_suffix` of one byte. -/
def stripLast (c : UInt8) (b : Bytes) : Option Bytes :=
  if b.getLast? = some c then some b.dropLast else none

end Text
