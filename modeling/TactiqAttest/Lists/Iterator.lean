import Mathlib.Data.List.Basic

/-!
# Iterators

An iterator is a state with a function `next`, which yields an item or nothing and a new state.

* `Yields.invariant`: what no item breaks holds throughout;
* `Yields.length_le`, `exists_exhausted`: if a measure goes down with each item, no more items come
  than the measure says, and at some point nothing comes.
-/

namespace Iterator

variable {σ α : Type}

/-- The iterator yields these items, one after the other. -/
inductive Yields (next : σ → Option α × σ) : σ → List α → σ → Prop
  | nil (s : σ) : Yields next s [] s
  | cons {s s' t : σ} {a : α} {as : List α} :
      next s = (some a, s') → Yields next s' as t → Yields next s (a :: as) t

/-- The iterator has nothing to yield, and stays as it is. -/
def Exhausted (next : σ → Option α × σ) (s : σ) : Prop := next s = (none, s)

variable {next : σ → Option α × σ} {s t u : σ} {as bs : List α} {μ : σ → ℕ}

theorem Yields.trans (h : Yields next s as t) (h' : Yields next t bs u) :
    Yields next s (as ++ bs) u := by
  induction h with
  | nil s => exact h'
  | cons hnext _ ih => exact .cons hnext (ih h')

/-- What no item breaks holds after any number of them. -/
theorem Yields.invariant {I : σ → Prop} (hI : ∀ {s s' a}, I s → next s = (some a, s') → I s')
    (h : Yields next s as t) (hs : I s) : I t := by
  induction h with
  | nil s => exact hs
  | cons hnext _ ih => exact ih (hI hs hnext)

/-- What an exhausted iterator yields. -/
theorem Yields.eq_nil (h : Yields next s as t) (hs : Exhausted next s) : as = [] := by
  cases h with
  | nil s => rfl
  | cons hnext _ =>
    rw [hs] at hnext
    cases hnext

/-- Each item takes something off the measure. -/
theorem Yields.length_le (hμ : ∀ {s s' a}, next s = (some a, s') → μ s' < μ s)
    (h : Yields next s as t) : as.length ≤ μ s := by
  induction h with
  | nil s => exact Nat.zero_le _
  | cons hnext _ ih =>
    have hlt := hμ hnext
    rw [List.length_cons]
    omega

/-- An iterator with a measure ends, if it ends for good. -/
theorem exists_exhausted (hμ : ∀ {s s' a}, next s = (some a, s') → μ s' < μ s)
    (hfused : ∀ {s s'}, next s = (none, s') → s' = s) (s : σ) :
    ∃ as t, Yields next s as t ∧ Exhausted next t := by
  induction hn : μ s using Nat.strongRecOn generalizing s with
  | _ n ih =>
    rcases hnext : next s with ⟨_ | a, s'⟩
    · obtain rfl := hfused hnext
      exact ⟨[], s', .nil s', hnext⟩
    · have hlt := hμ hnext
      obtain ⟨as, t, hyields, hexhausted⟩ := ih (μ s') (hn ▸ hlt) s' rfl
      exact ⟨a :: as, t, .cons hnext hyields, hexhausted⟩

end Iterator
