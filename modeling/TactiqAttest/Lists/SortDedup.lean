import Mathlib.Data.List.Destutter
import Mathlib.Data.List.Sort

/-!
# Sorting a list and removing duplicates

`sort` followed by `dedup` on a vector: sort by an order, then drop every element that equals the
one before it.  The result has the elements of the list, each once, in strictly ascending order, and
is the only such list.
-/

namespace List

variable {α : Type} {r : α → α → Prop}

section Destutter

variable [DecidableEq α] {a b : α} {l : List α}

theorem mem_destutter'_ne : a ∈ l.destutter' (· ≠ ·) b ↔ a = b ∨ a ∈ l := by
  induction l generalizing b with
  | nil => simp
  | cons c l ih =>
    by_cases hbc : b = c
    · rw [destutter'_cons_neg _ (not_not.mpr hbc), ih, mem_cons, hbc]
      tauto
    · rw [destutter'_cons_pos _ hbc, mem_cons, ih, mem_cons]

/-- Only repeated elements are dropped. -/
theorem mem_destutter_ne : a ∈ l.destutter (· ≠ ·) ↔ a ∈ l := by
  cases l with
  | nil => rfl
  | cons b l => rw [destutter_cons', mem_destutter'_ne, mem_cons]

end Destutter

/-- The strict part of an order is transitive. -/
theorem strict_trans [Std.Antisymm r] [IsTrans α r] {a b c : α} (h : r a b ∧ a ≠ b)
    (h' : r b c ∧ b ≠ c) : r a c ∧ a ≠ c := by
  refine ⟨IsTrans.trans _ _ _ h.1 h'.1, ?_⟩
  rintro rfl
  exact h.2 (antisymm h.1 h'.1)

variable [DecidableRel r] [DecidableEq α]

variable (r) in
/-- Sort, then drop repetitions. -/
def sortDedup (l : List α) : List α := (l.insertionSort r).destutter (· ≠ ·)

variable {a : α} {l l' : List α}

@[simp] theorem mem_sortDedup : a ∈ l.sortDedup r ↔ a ∈ l := by
  rw [sortDedup, mem_destutter_ne, mem_insertionSort]

variable [Std.Antisymm r] [Std.Total r] [IsTrans α r]

variable (r l) in
/-- The result is strictly ascending. -/
theorem pairwise_sortDedup : (l.sortDedup r).Pairwise fun a b => r a b ∧ a ≠ b := by
  have hle : (l.sortDedup r).Pairwise r :=
    (pairwise_insertionSort r l).sublist (destutter_sublist _ _)
  have hne : (l.sortDedup r).IsChain (· ≠ ·) := isChain_destutter _ _
  have hchain : (l.sortDedup r).IsChain fun a b => r a b ∧ a ≠ b := by
    refine isChain_iff_getElem.mpr fun i hi => ⟨?_, isChain_iff_getElem.mp hne i hi⟩
    exact pairwise_iff_getElem.mp hle _ _ _ _ (Nat.lt_succ_self i)
  have : IsTrans α fun a b => r a b ∧ a ≠ b := ⟨fun _ _ _ => strict_trans⟩
  exact hchain.pairwise

/-- **The only strictly ascending list with these elements.** -/
theorem eq_sortDedup (hl : l'.Pairwise fun a b => r a b ∧ a ≠ b) (hmem : ∀ a, a ∈ l' ↔ a ∈ l) :
    l' = l.sortDedup r := by
  have : Std.Antisymm fun a b => r a b ∧ a ≠ b := ⟨fun _ _ h h' => antisymm h.1 h'.1⟩
  have : Std.Irrefl fun a b => r a b ∧ a ≠ b := ⟨fun _ h => h.2 rfl⟩
  exact Pairwise.eq_of_mem_iff hl (pairwise_sortDedup r l)
    fun a => (hmem a).trans mem_sortDedup.symm

end List
