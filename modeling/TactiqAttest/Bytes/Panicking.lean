import TactiqAttest.Bytes.Reader

/-!
# Readers whose slices may panic

A `Reader` reads from the front of a string by `take` and `drop`, which are total.  The code it
stands for splits slices and indexes them, and each of these operations panics when it is out of
range.  Here they are partial: `none` is the panic.

`Reads q p` says that `q` never panics and does what `p` does.  Every reader of `Reader` has a
version here, written with the partial operations, and a rule that it reads as that reader; a parser
written with these versions is then shown free of panics by following its text.
-/

open BigEndian

/-- A reader that may also panic. -/
abbrev Panicking (ε α : Type) := StateT Bytes (ExceptT ε Option) α

namespace Panicking

variable {ε α β : Type}

/-! ## The partial operations -/

/-- `split_at`. -/
def splitAt (n : ℕ) : Panicking ε Bytes := fun b =>
  if n ≤ b.length then some (.ok (b.take n, b.drop n)) else none

/-- `v[i]`. -/
def index (v : Bytes) (i : ℕ) : Panicking ε UInt8 := fun b => v[i]?.map fun x => .ok (x, b)

/-- `v[0], v[1], ..`, from `i` on. -/
def indices (v : Bytes) (i : ℕ) : ℕ → Panicking ε Bytes
  | 0 => pure []
  | n + 1 => do
    let x ← index v i
    let xs ← indices v (i + 1) n
    return x :: xs

/-- `dst[dst.len() - v.len()..].copy_from_slice(v)`, for `n` zeros. -/
def copyToEnd (n : ℕ) (v : Bytes) : Option Bytes :=
  if v.length ≤ n then some (List.replicate (n - v.length) 0 ++ v) else none

/-! ## The readers -/

/-- Fail. -/
def fail (e : ε) : Panicking ε α := fun _ => some (.error e)

/-- Exactly `n` bytes, or an error computed from how many are left. -/
def take (n : ℕ) (short : ℕ → ε) : Panicking ε Bytes := fun b =>
  if b.length < n then some (.error (short b.length)) else splitAt n b

/-- One big-endian word, put together from the bytes at its indices. -/
def word (ω : Type) [Word ω] (short : ℕ → ε) : Panicking ε ω := do
  let v ← take (Word.width ω) short
  return ofBe (← indices v 0 (Word.width ω))

/-- A length, then that many bytes. -/
def counted (ω : Type) [Word ω] (shortLength : ℕ → ε) (short : ℕ → ℕ → ε) : Panicking ε Bytes := do
  let n ← word ω shortLength
  take (Word.val n) (short (Word.val n))

/-- Go on only under a condition. -/
def ensure (c : Prop) [Decidable c] (e : ε) : Panicking ε Unit := if c then pure () else fail e

/-- Nothing may be left. -/
def finish (trailing : ℕ → ε) : Panicking ε Unit := fun b =>
  if b.length = 0 then some (.ok ((), b)) else some (.error (trailing b.length))

/-- Run a reader and forget what it left. -/
def parse (q : Panicking ε α) (b : Bytes) : Option (Except ε α) :=
  (q.run b).run.map (Prod.fst <$> ·)

/-! ## What reads as what -/

/-- No panic, and what the total reader does. -/
def Reads (q : Panicking ε α) (p : Reader ε α) : Prop := ∀ b, q.run b = some (p.run b)

variable {q : Panicking ε α} {p : Reader ε α} {n : ℕ} {v : Bytes}

namespace Reads

theorem pure (a : α) : Reads (Pure.pure a : Panicking ε α) (Pure.pure a) := fun _ => rfl

theorem bind {f : α → Panicking ε β} {g : α → Reader ε β} (h : Reads q p)
    (hf : ∀ a, Reads (f a) (g a)) : Reads (q >>= f) (p >>= g) := by
  intro b
  show (q.run b >>= fun r => (f r.1).run r.2 : ExceptT ε Option (β × Bytes)) =
    some (p.run b >>= fun r => (g r.1).run r.2)
  rw [h b]
  rcases p.run b with e | ⟨a, rest⟩
  · rfl
  · exact hf a rest

theorem take {short : ℕ → ε} : Reads (Panicking.take n short) (Reader.take n short) := by
  intro b
  show (if b.length < n then _ else Panicking.splitAt n b : Option _) =
    some (if b.length < n then _ else _)
  split_ifs with hshort
  · rfl
  · exact if_pos (Nat.le_of_not_lt hshort)

/-- The bytes at the indices of a slice, while they are in it. -/
theorem run_indices {i : ℕ} (h : i + n ≤ v.length) (b : Bytes) :
    (indices v i n : Panicking ε Bytes).run b = some (.ok ((v.drop i).take n, b)) := by
  induction n generalizing i with
  | zero => rfl
  | succ n ih =>
    have hi : i < v.length := by omega
    have hindex : (index v i : Panicking ε UInt8).run b = some (.ok (v[i], b)) := by
      show v[i]?.map _ = _
      rw [List.getElem?_eq_getElem hi]
      rfl
    have hrest : (indices v (i + 1) n : Panicking ε Bytes).run b =
        some (.ok ((v.drop (i + 1)).take n, b)) := ih (by omega)
    rw [List.drop_eq_getElem_cons hi, List.take_succ_cons]
    show ((index v i : Panicking ε UInt8).run b >>= fun r =>
      (indices v (i + 1) n >>= fun xs => Pure.pure (r.1 :: xs) : Panicking ε Bytes).run r.2 :
        ExceptT ε Option (Bytes × Bytes)) = _
    rw [hindex]
    show ((indices v (i + 1) n : Panicking ε Bytes).run b >>= fun r =>
      (Pure.pure (v[i] :: r.1) : Panicking ε Bytes).run r.2 : ExceptT ε Option (Bytes × Bytes)) = _
    rw [hrest]
    rfl

theorem word {ω : Type} [Word ω] {short : ℕ → ε} :
    Reads (Panicking.word ω short) (Reader.word ω short) := by
  intro b
  show ((Panicking.take (Word.width ω) short).run b >>= fun r =>
    (indices r.1 0 (Word.width ω) >>= fun xs => Pure.pure (ofBe xs) : Panicking ε ω).run r.2 :
      ExceptT ε Option (ω × Bytes)) = _
  rw [take b]
  rcases hrun : (Reader.take (Word.width ω) short).run b with e | ⟨v, rest⟩
  · show _ = some ((Reader.take (Word.width ω) short).run b >>= _)
    rw [hrun]
    rfl
  · obtain ⟨hlen, -⟩ := Reader.run_take_ok.mp hrun
    have hall : (v.drop 0).take (Word.width ω) = v := by
      rw [List.drop_zero, ← hlen, List.take_length]
    show ((indices v 0 (Word.width ω) : Panicking ε Bytes).run rest >>= fun r =>
      (Pure.pure (ofBe r.1) : Panicking ε ω).run r.2 : ExceptT ε Option (ω × Bytes)) =
        some ((Reader.take (Word.width ω) short).run b >>= _)
    rw [run_indices (by omega), hall, hrun]
    rfl

theorem counted {ω : Type} [Word ω] {shortLength : ℕ → ε} {short : ℕ → ℕ → ε} :
    Reads (Panicking.counted ω shortLength short) (Reader.counted ω shortLength short) :=
  word.bind fun _ => take

theorem ensure {c : Prop} [Decidable c] {e : ε} :
    Reads (Panicking.ensure c e) (Reader.ensure c e) := by
  intro b
  show (if c then Pure.pure () else fail e : Panicking ε Unit).run b = some (if c then _ else _)
  split_ifs <;> rfl

theorem finish {trailing : ℕ → ε} :
    Reads (Panicking.finish trailing) (Reader.finish trailing) := by
  intro b
  show (if b.length = 0 then _ else _ : Option _) = some (if b.length = 0 then _ else _)
  split_ifs <;> rfl

/-- A reader that reads as another parses as it. -/
theorem parse_eq (h : Reads q p) (b : Bytes) : q.parse b = some (p.parse b) := by
  rw [Panicking.parse, h b]
  rfl

end Reads

end Panicking
