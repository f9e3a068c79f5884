import TactiqAttest.Bytes.Hex

/-!
# JSON text

Objects of texts, numbers and flags, as `serde_json` writes them over several lines: one entry a
line, characters of texts escaped only where they have to be.

Texts are delimited by their quotes, numbers by what follows them, and objects by their last brace,
so that the writing can be told apart from whatever comes after it.

* `escape_append_inj`, `quote_append_inj`: one character, and one text;
* `object_append_inj`: an object.
-/

namespace JsonText

/-- A value. -/
inductive Value where
  | text (s : String)
  | number (n : ℕ)
  | flag (b : Bool)
  deriving DecidableEq

/-- A key with its value. -/
abbrev Entry := String × Value

/-! ## Writing -/

/-- The characters that are escaped by a letter, and the letter. -/
def letters : List (Char × Char) :=
  [('"', '"'), ('\\', '\\'), ('\x08', 'b'), ('\t', 't'), ('\n', 'n'), ('\x0c', 'f'), ('\r', 'r')]

/-- A character of a text. -/
def escape (c : Char) : List Char :=
  match letters.lookup c with
  | some letter => ['\\', letter]
  | none =>
    if c.toNat < 0x20 then
      ['\\', 'u', '0', '0', Hex.digit (c.toNat / 16), Hex.digit (c.toNat % 16)]
    else [c]

/-- A text in quotes. -/
def quote (s : String) : List Char := '"' :: (s.toList.flatMap escape ++ ['"'])

/-- A value. -/
def Value.chars : Value → List Char
  | .text s => quote s
  | .number n => Nat.toDigits 10 n
  | .flag true => ['t', 'r', 'u', 'e']
  | .flag false => ['f', 'a', 'l', 's', 'e']

/-- The line of an entry. -/
def line (e : Entry) : List Char := '\n' :: ' ' :: ' ' :: (quote e.1 ++ ':' :: ' ' :: e.2.chars)

/-- What follows the first entries of an object. -/
def closing : List Entry → List Char
  | [] => ['\n', '}']
  | e :: es => ',' :: (line e ++ closing es)

/-- An object. -/
def object : List Entry → List Char
  | [] => ['{', '}']
  | e :: es => '{' :: (line e ++ closing es)

/-! ## Texts -/

variable {c c' d d' : Char} {s s' : String} {v v' : Value} {e e' : Entry} {es es' : List Entry}
  {t t' : List Char}

/-- A character is escaped by a letter, or by its number if it is a control character, or not. -/
theorem escape_cases (c : Char) :
    (∃ letter, (c, letter) ∈ letters ∧ escape c = ['\\', letter]) ∨
    (c.toNat < 0x20 ∧
      escape c = ['\\', 'u', '0', '0', Hex.digit (c.toNat / 16), Hex.digit (c.toNat % 16)]) ∨
    (c ≠ '\\' ∧ c ≠ '"' ∧ escape c = [c]) := by
  unfold escape
  split
  · rename_i letter hlookup
    obtain ⟨before, after, hletters, -⟩ := List.lookup_eq_some_iff.mp hlookup
    exact .inl ⟨letter, by rw [hletters]; simp, rfl⟩
  · rename_i hlookup
    split
    · exact .inr (.inl ⟨‹_›, rfl⟩)
    · refine .inr (.inr ⟨?_, ?_, rfl⟩)
      · rintro rfl
        cases hlookup
      · rintro rfl
        cases hlookup

/-- The letters are different, and none of them announces a number. -/
theorem letters_inj : (∀ p ∈ letters, p.2 ≠ 'u') ∧
    ∀ p ∈ letters, ∀ q ∈ letters, p.2 = q.2 → p.1 = q.1 := by
  decide

theorem digit_inj {m n : ℕ} (hm : m < 16) (hn : n < 16) (h : Hex.digit m = Hex.digit n) :
    m = n := by
  have hall : ∀ i j : Fin 16, Hex.digit i = Hex.digit j → i = j := by decide
  exact congrArg Fin.val (hall ⟨m, hm⟩ ⟨n, hn⟩ h)

theorem escape_append_inj (h : escape c ++ t = escape c' ++ t') : c = c' ∧ t = t' := by
  rcases escape_cases c with ⟨l, hl, heq⟩ | ⟨hc, heq⟩ | ⟨hslash, -, heq⟩ <;>
    rcases escape_cases c' with ⟨l', hl', heq'⟩ | ⟨hc', heq'⟩ | ⟨hslash', -, heq'⟩ <;>
    rw [heq, heq'] at h <;>
    simp only [List.cons_append, List.nil_append, List.cons.injEq] at h
  · exact ⟨letters_inj.2 _ hl _ hl' h.2.1, h.2.2⟩
  · exact absurd h.2.1 (letters_inj.1 _ hl)
  · exact absurd h.1.symm hslash'
  · exact absurd h.2.1.symm (letters_inj.1 _ hl')
  · obtain ⟨-, -, -, -, hhi, hlo, ht⟩ := h
    have hquot := digit_inj (by omega) (by omega) hhi
    have hrem := digit_inj (by omega) (by omega) hlo
    exact ⟨Char.toNat_inj.mp (by omega), ht⟩
  · exact absurd h.1.symm hslash'
  · exact absurd h.1 hslash
  · exact absurd h.1 hslash
  · exact h

/-- No character is written as a quote. -/
theorem escape_append_ne (c : Char) : '"' :: t ≠ escape c ++ t' := by
  intro h
  rcases escape_cases c with ⟨l, -, heq⟩ | ⟨-, heq⟩ | ⟨-, hquote, heq⟩ <;>
    rw [heq] at h <;> simp only [List.cons_append, List.cons.injEq] at h
  · exact absurd h.1 (by decide)
  · exact absurd h.1 (by decide)
  · exact absurd h.1.symm hquote

theorem escapes_append_inj {cs cs' : List Char}
    (h : cs.flatMap escape ++ '"' :: t = cs'.flatMap escape ++ '"' :: t') : cs = cs' ∧ t = t' := by
  induction cs generalizing cs' with
  | nil =>
    cases cs' with
    | nil => exact ⟨rfl, (List.cons.inj h).2⟩
    | cons c' cs' =>
      rw [List.flatMap_cons, List.append_assoc] at h
      exact absurd h (escape_append_ne c')
  | cons c cs ih =>
    cases cs' with
    | nil =>
      rw [List.flatMap_cons, List.append_assoc] at h
      exact absurd h.symm (escape_append_ne c)
    | cons c' cs' =>
      rw [List.flatMap_cons, List.flatMap_cons, List.append_assoc, List.append_assoc] at h
      obtain ⟨rfl, hrest⟩ := escape_append_inj h
      obtain ⟨rfl, ht⟩ := ih hrest
      exact ⟨rfl, ht⟩

/-- A text ends at its second quote. -/
theorem quote_append_inj (h : quote s ++ t = quote s' ++ t') : s = s' ∧ t = t' := by
  unfold quote at h
  simp only [List.cons_append, List.append_assoc, List.nil_append, List.cons.injEq, true_and] at h
  obtain ⟨hs, ht⟩ := escapes_append_inj h
  exact ⟨String.toList_injective hs, ht⟩

/-! ## Objects -/

/-- What may follow a value. -/
def Follows (t : List Char) : Prop := ∃ c rest, t = c :: rest ∧ (c = ',' ∨ c = '\n')

theorem follows_closing : Follows (closing es ++ t) := by
  cases es with
  | nil => exact ⟨_, _, rfl, .inr rfl⟩
  | cons e es => exact ⟨_, _, rfl, .inl rfl⟩

/-- A number ends where its digits do. -/
theorem toDigits_append_inj {m n : ℕ} (ht : Follows t) (ht' : Follows t')
    (h : Nat.toDigits 10 m ++ t = Nat.toDigits 10 n ++ t') : m = n ∧ t = t' := by
  have htake : ∀ (k : ℕ) (r : List Char), Follows r →
      (Nat.toDigits 10 k ++ r).takeWhile Char.isDigit = Nat.toDigits 10 k := by
    rintro k r ⟨c, rest, rfl, hc⟩
    have hnot : c.isDigit = false := by
      rcases hc with rfl | rfl <;> rfl
    rw [List.takeWhile_append_of_pos fun _ hd => Chars.isDigit_of_mem_toDigits hd,
      List.takeWhile_cons_of_neg (by rw [hnot]; exact Bool.false_ne_true), List.append_nil]
  have hdigits : Nat.toDigits 10 m = Nat.toDigits 10 n := by
    rw [← htake m t ht, h, htake n t' ht']
  rw [hdigits] at h
  refine ⟨?_, List.append_cancel_left h⟩
  rw [← Nat.ofDigitChars_ten_toDigits (n := m), hdigits, Nat.ofDigitChars_ten_toDigits]

/-- A number begins with a digit. -/
theorem toDigits_append_ne {n : ℕ} (hc : c.isDigit = false) : c :: t ≠ Nat.toDigits 10 n ++ t' := by
  intro h
  have hne : Nat.toDigits 10 n ≠ [] := Nat.toDigits_ne_nil
  obtain ⟨d, ds, hds⟩ := List.exists_cons_of_ne_nil hne
  have hd : d.isDigit = true :=
    Chars.isDigit_of_mem_toDigits (n := n) (by rw [hds]; exact List.mem_cons_self)
  rw [hds, List.cons_append] at h
  obtain rfl := (List.cons.inj h).1
  rw [hc] at hd
  cases hd

theorem Value.chars_append_inj (ht : Follows t) (ht' : Follows t')
    (h : v.chars ++ t = v'.chars ++ t') : v = v' ∧ t = t' := by
  -- a quote, a digit or a letter comes first
  cases v with
  | text s =>
    cases v' with
    | text s' =>
      obtain ⟨rfl, rfl⟩ := quote_append_inj h
      exact ⟨rfl, rfl⟩
    | number n => exact absurd h (toDigits_append_ne rfl)
    | flag b => cases b <;> cases h
  | number n =>
    cases v' with
    | text s' => exact absurd h.symm (toDigits_append_ne rfl)
    | number n' =>
      obtain ⟨rfl, rfl⟩ := toDigits_append_inj ht ht' h
      exact ⟨rfl, rfl⟩
    | flag b => cases b <;> exact absurd h.symm (toDigits_append_ne rfl)
  | flag b =>
    cases v' with
    | text s' => cases b <;> cases h
    | number n => cases b <;> exact absurd h (toDigits_append_ne rfl)
    | flag b' =>
      cases b <;> cases b' <;> cases h <;> exact ⟨rfl, rfl⟩

theorem line_append_inj (ht : Follows t) (ht' : Follows t') (h : line e ++ t = line e' ++ t') :
    e = e' ∧ t = t' := by
  unfold line at h
  simp only [List.cons_append, List.append_assoc, List.cons.injEq, true_and] at h
  obtain ⟨hkey, hrest⟩ := quote_append_inj h
  simp only [List.cons.injEq, true_and] at hrest
  obtain ⟨hvalue, rfl⟩ := Value.chars_append_inj ht ht' hrest
  exact ⟨Prod.ext hkey hvalue, rfl⟩

theorem closing_append_inj (h : closing es ++ t = closing es' ++ t') : es = es' ∧ t = t' := by
  induction es generalizing es' with
  | nil =>
    cases es' with
    | nil => exact ⟨rfl, List.append_cancel_left h⟩
    | cons e' es' => exact absurd (List.cons.inj h).1 (by decide)
  | cons e es ih =>
    cases es' with
    | nil => exact absurd (List.cons.inj h).1 (by decide)
    | cons e' es' =>
      simp only [closing, List.cons_append, List.append_assoc, List.cons.injEq, true_and] at h
      obtain ⟨rfl, hrest⟩ := line_append_inj follows_closing follows_closing h
      obtain ⟨rfl, rfl⟩ := ih hrest
      exact ⟨rfl, rfl⟩

/-- **An object ends at its last brace.** -/
theorem object_append_inj (h : object es ++ t = object es' ++ t') : es = es' ∧ t = t' := by
  cases es with
  | nil =>
    cases es' with
    | nil => exact ⟨rfl, List.append_cancel_left h⟩
    | cons e' es' => exact absurd (List.cons.inj (List.cons.inj h).2).1 (by decide)
  | cons e es =>
    cases es' with
    | nil => exact absurd (List.cons.inj (List.cons.inj h).2).1 (by decide)
    | cons e' es' =>
      simp only [object, List.cons_append, List.append_assoc, List.cons.injEq, true_and] at h
      obtain ⟨rfl, hrest⟩ := line_append_inj follows_closing follows_closing h
      obtain ⟨rfl, rfl⟩ := closing_append_inj hrest
      exact ⟨rfl, rfl⟩

/-! ## Bytes -/

/-- The bytes of an object. -/
def objectBytes (es : List Entry) : Bytes := Chars.utf8 (object es)

/-- Where ASCII follows. -/
theorem objectBytes_append_inj {b b' : Bytes} (hb : ∀ x ∈ b, x.toNat < 0x80)
    (hb' : ∀ x ∈ b', x.toNat < 0x80) (h : objectBytes es ++ b = objectBytes es' ++ b') :
    es = es' := by
  unfold objectBytes at h
  rw [← Chars.utf8_ofAscii hb, ← Chars.utf8_ofAscii hb', Chars.utf8, Chars.utf8, Chars.utf8,
    Chars.utf8, ← List.flatMap_append, ← List.flatMap_append] at h
  exact (object_append_inj (Chars.utf8_injective h)).1

example : String.ofList (object [("a", .text "x\"y"), ("b", .number 7)]) =
    "\x7b\n  \"a\": \"x\\\"y\",\n  \"b\": 7\n\x7d" := by decide +kernel

end JsonText
