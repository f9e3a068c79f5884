import Mathlib.Data.Int.Basic
import Mathlib.Tactic.Common

/-!
# Time

The registrar reads the clock as a duration since 1970 with a part below a second, judges
certificates at that instant, and records the whole seconds and their rendering in UTC.

`Duration.lt_of_secs_lt` and `Duration.not_lt_of_not_lt`: if an instant is in a window between whole
seconds, then its whole seconds are.
-/

namespace TactiqAttest.Registrar

/-! ## Durations -/

/-- `std::time::Duration`. -/
structure Duration where
  secs : UInt64
  nanos : ℕ
  nanos_lt : nanos < 1000000000
  deriving DecidableEq

namespace Duration

/-- `Duration::from_secs`. -/
def fromSecs (secs : UInt64) : Duration := ⟨secs, 0, by decide⟩

/-- Durations are compared by seconds first. -/
instance : LT Duration where
  lt a b := a.secs < b.secs ∨ a.secs = b.secs ∧ a.nanos < b.nanos

instance (a b : Duration) : Decidable (a < b) :=
  inferInstanceAs (Decidable (a.secs < b.secs ∨ a.secs = b.secs ∧ a.nanos < b.nanos))

variable {a : Duration} {s : UInt64}

@[simp] theorem secs_fromSecs : (fromSecs s).secs = s := rfl

/-- Before a whole second. -/
theorem lt_fromSecs_iff : a < fromSecs s ↔ a.secs < s := by
  constructor
  · rintro (h | ⟨-, h⟩)
    · exact h
    · exact absurd h (Nat.not_lt_zero _)
  · exact Or.inl

/-- What the whole seconds are before, the instant is. -/
theorem lt_of_secs_lt (h : fromSecs a.secs < fromSecs s) : a < fromSecs s := by
  rw [lt_fromSecs_iff, secs_fromSecs] at h
  exact lt_fromSecs_iff.mpr h

/-- Not after a whole second, and so not with the part below a second cut off. -/
theorem not_lt_of_not_lt (h : ¬ fromSecs s < a) : ¬ fromSecs s < fromSecs a.secs := by
  intro hlt
  have hsecs : s < a.secs := lt_fromSecs_iff.mp hlt
  exact h (.inl hsecs)

end Duration

/-! ## UTC -/

/-- `{n:0width$}` of a number. -/
def padded (width : ℕ) (n : ℤ) : String :=
  let digits := Nat.toDigits 10 n.natAbs
  if n < 0 then "-" ++ String.ofList (List.replicate (width - 1 - digits.length) '0' ++ digits)
  else String.ofList (List.replicate (width - digits.length) '0' ++ digits)

/-- The date of a day since 1970, as `utc` computes it: `/` truncates, but for the era. -/
def civil (days : ℤ) : ℤ × ℤ × ℤ :=
  let z := days + 719468
  let era := z / 146097
  let doe := z - era * 146097
  let yoe := (doe - doe.tdiv 1460 + doe.tdiv 36524 - doe.tdiv 146096).tdiv 365
  let doy := doe - (365 * yoe + yoe.tdiv 4 - yoe.tdiv 100)
  let mp := (5 * doy + 2).tdiv 153
  let d := doy - (153 * mp + 2).tdiv 5 + 1
  let m := if mp < 10 then mp + 3 else mp - 9
  let y := yoe + era * 400 + if m ≤ 2 then 1 else 0
  (y, m, d)

/-- `utc`: RFC 3339 from Unix seconds. -/
def utc (secs : UInt64) : String :=
  let days := secs / 86400
  let rem := (secs % 86400).toNat
  let (y, m, d) := civil days.toNat
  s!"{padded 4 y}-{padded 2 m}-{padded 2 d}T" ++
    s!"{padded 2 (rem / 3600 : ℕ)}:{padded 2 (rem % 3600 / 60 : ℕ)}:{padded 2 (rem % 60 : ℕ)}Z"

example : utc 951782400 = "2000-02-29T00:00:00Z" := by decide +kernel

example : utc 1790294400 = "2026-09-25T00:00:00Z" := by decide +kernel

end TactiqAttest.Registrar
