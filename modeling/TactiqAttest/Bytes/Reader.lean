import Mathlib.Data.Vector.Basic
import TactiqAttest.Bytes.BigEndian

/-!
# Reading a byte string from the front

A reader consumes bytes from the front of a string and may fail.  This file has the few readers
every binary format is built from --- some bytes, a fixed number of bytes, a word, a condition, the
end of the input --- and one rule for each of them and for sequencing, all of the same shape:

  the reader succeeds on `b` with value `v` and remainder `rest` *if and only if* `b` is the
  encoding of `v` followed by `rest`.

A parser written with these readers is then inverted by rewriting, in both directions at once: the
rules that say a parser accepts what an encoder wrote are the rules that say it accepts nothing
else.

The error of a reader that ran short is computed from how many bytes were left, since that is what
diagnostics report.
-/

open BigEndian

/-! ## Slices -/

namespace Bytes

/-- The `n` bytes of `b` from `off` on. -/
def slice (b : Bytes) (off n : ℕ) (h : off + n ≤ b.length) : List.Vector UInt8 n :=
  ⟨(b.drop off).take n, by rw [List.length_take, List.length_drop]; omega⟩

theorem slice_append_drop (b : Bytes) (off n : ℕ) (h : off + n ≤ b.length) :
    (slice b off n h).toList ++ b.drop (off + n) = b.drop off := by
  change (b.drop off).take n ++ b.drop (off + n) = b.drop off
  rw [← List.drop_drop, List.take_append_drop]

/-- A slice that takes exactly one of the parts a string was put together from. -/
theorem slice_eq {b l r : Bytes} {n off : ℕ} {h : off + n ≤ b.length} {v : List.Vector UInt8 n}
    (hb : b = l ++ (v.toList ++ r)) (hl : l.length = off) : slice b off n h = v := by
  subst hb hl
  apply List.Vector.toList_injective
  show ((l ++ (v.toList ++ r)).drop l.length).take n = v.toList
  rw [List.drop_left]
  nth_rewrite 1 [← v.toList_length]
  rw [List.take_left]

end Bytes

/-! ## Readers -/

/-- A reader of byte strings with errors in `ε`. -/
abbrev Reader (ε α : Type) := StateT Bytes (Except ε) α

namespace Reader

variable {ε α β : Type}

/-! ## The readers -/

/-- Exactly `n` bytes, or an error computed from how many are left. -/
def take (n : ℕ) (short : ℕ → ε) : Reader ε Bytes := fun b =>
  if b.length < n then .error (short b.length) else .ok (b.take n, b.drop n)

/-- Exactly `n` bytes, as an array of that size. -/
def array (n : ℕ) (short : ℕ → ε) : Reader ε (List.Vector UInt8 n) := fun b =>
  if h : b.length < n then .error (short b.length)
  else .ok (⟨b.take n, by rw [List.length_take]; omega⟩, b.drop n)

/-- One big-endian word. -/
def word (ω : Type) [Word ω] (short : ℕ → ε) : Reader ε ω :=
  ofBe <$> take (Word.width ω) short

/-- A length, then that many bytes. -/
def counted (ω : Type) [Word ω] (shortLength : ℕ → ε) (short : ℕ → ℕ → ε) : Reader ε Bytes := do
  let n ← word ω shortLength
  take (Word.val n) (short (Word.val n))

/-- Go on only under a condition. -/
def ensure (c : Prop) [Decidable c] (e : ε) : Reader ε Unit := fun b =>
  if c then .ok ((), b) else .error e

/-- One byte that is `0` or `1`. -/
def flag (short : ℕ → ε) (bad : UInt8 → ε) : Reader ε Bool := do
  let v ← word UInt8 short
  if v = 0 then pure false else if v = 1 then pure true else throw (bad v)

/-- Nothing may be left; the error is computed from how much there is. -/
def finish (trailing : ℕ → ε) : Reader ε Unit := fun b =>
  if b.length = 0 then .ok ((), b) else .error (trailing b.length)

/-- Run a reader and forget what it left. -/
def parse (p : Reader ε α) (b : Bytes) : Except ε α := Prod.fst <$> p.run b

/-! ## What they accept -/

theorem run_bind_ok {p : Reader ε α} {f : α → Reader ε β} {b rest : Bytes} {v : β} :
    (p >>= f).run b = .ok (v, rest) ↔
      ∃ a mid, p.run b = .ok (a, mid) ∧ (f a).run mid = .ok (v, rest) := by
  rw [StateT.run_bind]
  rcases p.run b with e | ⟨a, mid⟩
  · constructor
    · intro h; cases h
    · rintro ⟨a, mid, h, -⟩; cases h
  · constructor
    · intro h; exact ⟨a, mid, rfl, h⟩
    · rintro ⟨a', mid', h, h'⟩; cases h; exact h'

theorem run_pure_ok {a v : α} {b rest : Bytes} :
    (pure a : Reader ε α).run b = .ok (v, rest) ↔ a = v ∧ b = rest := by
  change (Except.ok (a, b) : Except ε (α × Bytes)) = .ok (v, rest) ↔ _
  rw [Except.ok.injEq, Prod.mk.injEq]

theorem run_throw_ok {e : ε} {v : α} {b rest : Bytes} :
    ¬ (throw e : Reader ε α).run b = .ok (v, rest) := by
  intro h
  cases h

theorem run_take_ok {n : ℕ} {short : ℕ → ε} {b v rest : Bytes} :
    (take n short).run b = .ok (v, rest) ↔ v.length = n ∧ b = v ++ rest := by
  show (if b.length < n then _ else _) = _ ↔ _
  split
  case isTrue h =>
    constructor
    · intro h'; cases h'
    · rintro ⟨rfl, rfl⟩
      rw [List.length_append] at h
      omega
  case isFalse h =>
    constructor
    · intro h'
      cases h'
      exact ⟨by rw [List.length_take]; omega, (List.take_append_drop n b).symm⟩
    · rintro ⟨rfl, rfl⟩
      rw [List.take_left, List.drop_left]

theorem run_word_ok {ω : Type} [Word ω] {short : ℕ → ε} {b rest : Bytes} {x : ω} :
    (word ω short).run b = .ok (x, rest) ↔ b = be x ++ rest := by
  rw [word, map_eq_pure_bind]
  simp only [run_bind_ok, run_take_ok, run_pure_ok]
  constructor
  · rintro ⟨v, mid, ⟨hlen, rfl⟩, rfl, rfl⟩
    rw [be_ofBe hlen]
  · rintro rfl
    exact ⟨be x, rest, ⟨length_be x, rfl⟩, ofBe_be x, rfl⟩

/-- The bytes of a string with its length in front. -/
def countedBytes (ω : Type) [Word ω] (v : Bytes) : Bytes := be (Word.ofNat v.length : ω) ++ v

theorem run_counted_ok {ω : Type} [Word ω] {shortLength : ℕ → ε} {short : ℕ → ℕ → ε}
    {b v rest : Bytes} :
    (counted ω shortLength short).run b = .ok (v, rest) ↔
      v.length < 256 ^ Word.width ω ∧ b = countedBytes ω v ++ rest := by
  unfold counted countedBytes
  simp only [run_bind_ok, run_word_ok, run_take_ok]
  constructor
  · rintro ⟨n, mid, rfl, hlen, rfl⟩
    refine ⟨hlen ▸ Word.val_lt n, ?_⟩
    rw [hlen, Word.ofNat_val, List.append_assoc]
  · rintro ⟨hlen, rfl⟩
    refine ⟨Word.ofNat v.length, v ++ rest, by rw [List.append_assoc], ?_, rfl⟩
    rw [Word.val_ofNat _ hlen]

/-- A counted string ends where its length says. -/
theorem countedBytes_append_inj {ω : Type} [Word ω] {v v' t t' : Bytes}
    (hv : v.length < 256 ^ Word.width ω) (hv' : v'.length < 256 ^ Word.width ω)
    (h : countedBytes ω v ++ t = countedBytes ω v' ++ t') : v = v' ∧ t = t' := by
  have hrun : (counted ω (fun _ => ()) fun _ _ => ()).run (countedBytes ω v ++ t) = .ok (v, t) :=
    run_counted_ok.mpr ⟨hv, rfl⟩
  rw [h, run_counted_ok.mpr ⟨hv', rfl⟩, Except.ok.injEq, Prod.mk.injEq] at hrun
  exact ⟨hrun.1.symm, hrun.2.symm⟩

/-- The byte of a truth value. -/
def flagByte (v : Bool) : UInt8 := if v then 1 else 0

theorem run_flag_ok {short : ℕ → ε} {bad : UInt8 → ε} {b rest : Bytes} {v : Bool} :
    (flag short bad).run b = .ok (v, rest) ↔ b = flagByte v :: rest := by
  unfold flag
  simp only [run_bind_ok, run_word_ok, be_uint8]
  constructor
  · rintro ⟨x, mid, rfl, h⟩
    split_ifs at h with h₀ h₁
    · obtain ⟨rfl, rfl⟩ := run_pure_ok.mp h
      rw [h₀]
      rfl
    · obtain ⟨rfl, rfl⟩ := run_pure_ok.mp h
      rw [h₁]
      rfl
    · exact absurd h run_throw_ok
  · rintro rfl
    refine ⟨flagByte v, rest, rfl, ?_⟩
    cases v <;> exact run_pure_ok.mpr ⟨rfl, rfl⟩

theorem run_ensure_ok {c : Prop} [Decidable c] {e : ε} {b rest : Bytes} {u : Unit} :
    (ensure c e).run b = .ok (u, rest) ↔ c ∧ b = rest := by
  change (if c then _ else _) = _ ↔ _
  split
  case isTrue h =>
    rw [Except.ok.injEq, Prod.mk.injEq]
    exact ⟨fun h' => ⟨h, h'.2⟩, fun h' => ⟨rfl, h'.2⟩⟩
  case isFalse h =>
    constructor
    · intro h'; cases h'
    · rintro ⟨hc, -⟩; exact absurd hc h

theorem run_finish_ok {trailing : ℕ → ε} {b rest : Bytes} {u : Unit} :
    (finish trailing).run b = .ok (u, rest) ↔ b = [] ∧ rest = [] := by
  change (if b.length = 0 then _ else _) = _ ↔ _
  split
  case isTrue h =>
    obtain rfl := List.length_eq_zero_iff.mp h
    rw [Except.ok.injEq, Prod.mk.injEq]
    exact ⟨fun h' => ⟨rfl, h'.2.symm⟩, fun h' => ⟨rfl, h'.2.symm⟩⟩
  case isFalse h =>
    constructor
    · intro h'; cases h'
    · rintro ⟨rfl, -⟩; exact absurd List.length_nil h

theorem parse_ok {p : Reader ε α} {b : Bytes} {v : α} :
    p.parse b = .ok v ↔ ∃ rest, p.run b = .ok (v, rest) := by
  rw [parse]
  rcases p.run b with e | ⟨a, rest⟩
  · constructor
    · intro h; cases h
    · rintro ⟨_, h⟩; cases h
  · constructor
    · intro h; cases h; exact ⟨rest, rfl⟩
    · rintro ⟨_, h⟩; cases h; rfl

end Reader
