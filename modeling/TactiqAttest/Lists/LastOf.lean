import Mathlib.Data.List.Induction
import TactiqAttest.Programs.Results

/-!
# Loops that keep the last of a kind

A loop over a list that may fail, and that stores what it makes of an element in the place for that
kind of element: a later one takes the place of an earlier one.

* `foldlM_invariant`: what holds at the start, and is kept by each turn that does not fail, holds at
  the end, of the list that was gone through;
* `Keeps`: a place holds what was made of the last element of its kind;
* `forall_iff_agree`: if the last of each kind is good, all are good exactly if those of one kind
  agree.
-/

namespace List

variable {α β ε κ σ : Type}

/-- The invariant of a loop that may fail, over the elements it has been through. -/
theorem foldlM_invariant {step : σ → α → Except ε σ} {I : List α → σ → Prop} {s₀ s : σ} {l : List α}
    (h₀ : I [] s₀)
    (hstep : ∀ {seen s x s'}, I seen s → step s x = .ok s' → I (seen ++ [x]) s')
    (h : l.foldlM step s₀ = .ok s) : I l s := by
  induction l using List.reverseRecOn generalizing s with
  | nil =>
    rw [foldlM_nil] at h
    obtain rfl := Except.pure_eq_ok.mp h
    exact h₀
  | append_singleton seen x ih =>
    rw [foldlM_append] at h
    obtain ⟨t, ht, hx⟩ := Except.bind_eq_ok.mp h
    rw [foldlM_cons] at hx
    obtain ⟨u, hu, hs⟩ := Except.bind_eq_ok.mp hx
    rw [foldlM_nil] at hs
    obtain rfl := Except.pure_eq_ok.mp hs
    exact hstep (ih ht) hu

section Last

variable {p : α → Prop} [DecidablePred p] {l : List α} {x y : α}

variable (p l) in
/-- The last element with `p`. -/
def lastOf : Option α := l.reverse.find? p

@[simp] theorem lastOf_nil : lastOf p ([] : List α) = none := rfl

theorem lastOf_concat_pos (hx : p x) : lastOf p (l ++ [x]) = some x := by
  rw [lastOf, reverse_append, reverse_singleton, singleton_append,
    find?_cons_of_pos (by simpa using hx)]

theorem lastOf_concat_neg (hx : ¬ p x) : lastOf p (l ++ [x]) = lastOf p l := by
  rw [lastOf, reverse_append, reverse_singleton, singleton_append,
    find?_cons_of_neg (by simpa using hx), lastOf]

theorem lastOf_eq_some (h : lastOf p l = some x) : x ∈ l ∧ p x :=
  ⟨mem_reverse.mp (mem_of_find?_eq_some h), by simpa using find?_some h⟩

/-- If there is one, there is a last one. -/
theorem exists_lastOf (hmem : x ∈ l) (hx : p x) : ∃ y, lastOf p l = some y := by
  have hsome : (lastOf p l).isSome = true := by
    rw [lastOf, find?_isSome]
    exact ⟨x, mem_reverse.mpr hmem, decide_eq_true hx⟩
  exact Option.isSome_iff_exists.mp hsome

/-! ## What a place holds -/

variable (p) in
/-- If there was an element with `p`, then `kept` is what `f` makes of the last of them. -/
def Keeps (f : α → Except ε β) (seen : List α) (kept : Option β) : Prop :=
  ∀ y, lastOf p seen = some y → ∃ b, f y = .ok b ∧ kept = some b

variable {f : α → Except ε β} {seen : List α} {kept : Option β} {b : β}

theorem Keeps.nil : Keeps p f [] kept := by
  intro y hy
  rw [lastOf_nil] at hy
  exact absurd hy (by simp)

/-- An element of another kind changes nothing. -/
theorem Keeps.other (h : Keeps p f seen kept) (hx : ¬ p x) : Keeps p f (seen ++ [x]) kept := by
  intro y hy
  rw [lastOf_concat_neg hx] at hy
  exact h y hy

/-- An element of the kind takes the place. -/
theorem Keeps.found (hx : p x) (hb : f x = .ok b) : Keeps p f (seen ++ [x]) (some b) := by
  intro y hy
  rw [lastOf_concat_pos hx] at hy
  obtain rfl := Option.some.inj hy
  exact ⟨b, hb, rfl⟩

end Last

/-! ## The last of a kind, and the others -/

/-- **If the last of each kind is good, all are good exactly if those of one kind agree.** -/
theorem forall_iff_agree [DecidableEq κ] {key : α → κ} {l : List α} {Q : α → Prop}
    (hlast : ∀ k y, lastOf (fun x => key x = k) l = some y → Q y) :
    (∀ x ∈ l, Q x) ↔ ∀ x ∈ l, ∀ y ∈ l, key x = key y → (Q x ↔ Q y) := by
  constructor
  · intro hall x hx y hy _
    exact iff_of_true (hall x hx) (hall y hy)
  · intro hagree x hx
    obtain ⟨y, hy⟩ := exists_lastOf (p := fun z => key z = key x) hx rfl
    obtain ⟨hmem, hkey⟩ := lastOf_eq_some hy
    exact (hagree x hx y hmem hkey.symm).mpr (hlast _ y hy)

end List
