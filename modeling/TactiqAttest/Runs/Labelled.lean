import Mathlib.Order.Basic
import Mathlib.Data.List.Basic

/-!
# Runs of a labelled transition system

A system is a relation `step s a s'`: in state `s` the action `a` may lead to `s'`.  A run is kept
with everything that happened in it --- the list of its transitions, each with the state before,
the action and the state after --- so that a statement about *what occurred and when* is a
statement about that list.

* `Run.around`: a run through a given transition is a run up to it, the transition, and a run from
  it.
* `Run.invariant`: what every step preserves holds throughout; `Run.invariant_mem` asks this of the
  transitions of the run only.
* `Run.mono`, `Run.squeeze`, `Run.exists_lt`: a quantity no step decreases does not decrease over a
  run; if it is the same at both ends, it was the same at every point between, and if it is not,
  some step increased it.
* `Before`: one transition of a run comes strictly before another, `statesFrom`: the states it is in
  between the two, and `before_or_before`: of two different transitions, one comes first.
-/

namespace Labelled

variable {σ A : Type}

/-- One transition of a run: the state before, the action, the state after. -/
structure Event (σ A : Type) where
  /-- The state before. -/
  pre : σ
  /-- What happened. -/
  label : A
  /-- The state after. -/
  post : σ

/-- A run from one state to another, with the transitions it took, in order. -/
inductive Run (step : σ → A → σ → Prop) : σ → List (Event σ A) → σ → Prop
  | nil (s : σ) : Run step s [] s
  | cons {s s' t : σ} {a : A} {es : List (Event σ A)} :
      step s a s' → Run step s' es t → Run step s (⟨s, a, s'⟩ :: es) t

variable {step : σ → A → σ → Prop} {s t u : σ} {es es' : List (Event σ A)} {e : Event σ A}

namespace Run

theorem nil_iff : Run step s [] t ↔ s = t := by
  constructor
  · rintro ⟨⟩; rfl
  · rintro rfl; exact .nil s

theorem cons_iff :
    Run step s (e :: es) t ↔ s = e.pre ∧ step e.pre e.label e.post ∧ Run step e.post es t := by
  constructor
  · intro h
    cases h with
    | cons hstep hrun => exact ⟨rfl, hstep, hrun⟩
  · rintro ⟨rfl, hstep, hrun⟩
    exact .cons hstep hrun

/-- Runs compose, and a run splits wherever its list of transitions does. -/
theorem append_iff : Run step s (es ++ es') t ↔ ∃ m, Run step s es m ∧ Run step m es' t := by
  induction es generalizing s with
  | nil => simp [nil_iff]
  | cons e es ih =>
    rw [List.cons_append, cons_iff, ih]
    constructor
    · rintro ⟨hs, hstep, m, h, h'⟩
      exact ⟨m, cons_iff.mpr ⟨hs, hstep, h⟩, h'⟩
    · rintro ⟨m, h, h'⟩
      obtain ⟨hs, hstep, h⟩ := cons_iff.mp h
      exact ⟨hs, hstep, m, h, h'⟩

/-- A run through a transition: up to it, the transition itself, and on from it. -/
theorem around {l r : List (Event σ A)} (h : Run step s (l ++ e :: r) t) :
    Run step s l e.pre ∧ step e.pre e.label e.post ∧ Run step e.post r t := by
  obtain ⟨m, hl, hr⟩ := append_iff.mp h
  obtain ⟨rfl, hstep, hr⟩ := cons_iff.mp hr
  exact ⟨hl, hstep, hr⟩

theorem step_of_mem (h : Run step s es t) (he : e ∈ es) : step e.pre e.label e.post := by
  obtain ⟨l, r, rfl⟩ := List.append_of_mem he
  exact h.around.2.1

/-- Where no transition moves, the run ends where it started. -/
theorem eq_of_still (h : Run step s es t) (hstill : ∀ e ∈ es, e.pre = e.post) : s = t := by
  induction h with
  | nil s => rfl
  | @cons s s' t a es _ _ ih =>
    have hfirst : s = s' := hstill _ List.mem_cons_self
    exact hfirst.trans (ih fun e he => hstill e (List.mem_cons_of_mem _ he))

/-- What every transition of a run preserves is true at the end, and on both sides of every
transition. -/
theorem invariant_mem {I : σ → Prop} (h : Run step s es t)
    (hI : ∀ e ∈ es, step e.pre e.label e.post → I e.pre → I e.post) (hs : I s) :
    I t ∧ ∀ e ∈ es, I e.pre ∧ I e.post := by
  induction h with
  | nil s => exact ⟨hs, by simp⟩
  | cons hstep _ ih =>
    have hs' := hI _ List.mem_cons_self hstep hs
    obtain ⟨ht, hall⟩ := ih (fun e he => hI e (List.mem_cons_of_mem _ he)) hs'
    refine ⟨ht, ?_⟩
    rintro e (_ | ⟨_, he⟩)
    · exact ⟨hs, hs'⟩
    · exact hall e he

/-- What every step preserves is true at the end, and on both sides of every transition. -/
theorem invariant {I : σ → Prop} (hI : ∀ s a s', step s a s' → I s → I s')
    (h : Run step s es t) (hs : I s) : I t ∧ ∀ e ∈ es, I e.pre ∧ I e.post :=
  h.invariant_mem (fun _ _ => hI _ _ _) hs

/-! ## Quantities that do not decrease -/

section Order

variable {α : Type*}

theorem mono [Preorder α] {f : σ → α} (hf : ∀ s a s', step s a s' → f s ≤ f s')
    (h : Run step s es t) : f s ≤ f t := by
  induction h with
  | nil s => exact le_rfl
  | cons hstep _ ih => exact le_trans (hf _ _ _ hstep) ih

theorem mono_mem [Preorder α] {f : σ → α} (hf : ∀ s a s', step s a s' → f s ≤ f s')
    (h : Run step s es t) (he : e ∈ es) :
    f s ≤ f e.pre ∧ f e.pre ≤ f e.post ∧ f e.post ≤ f t := by
  obtain ⟨l, r, rfl⟩ := List.append_of_mem he
  obtain ⟨hl, hstep, hr⟩ := h.around
  exact ⟨hl.mono hf, hf _ _ _ hstep, hr.mono hf⟩

/-- A quantity that does not decrease, and is back where it was at the end, was there
throughout. -/
theorem squeeze [PartialOrder α] {f : σ → α} (hf : ∀ s a s', step s a s' → f s ≤ f s')
    (h : Run step s es t) (hst : f t ≤ f s) (he : e ∈ es) : f e.pre = f s ∧ f e.post = f s := by
  obtain ⟨h₁, h₂, h₃⟩ := h.mono_mem hf he
  exact ⟨le_antisymm (h₂.trans (h₃.trans hst)) h₁, le_antisymm (h₃.trans hst) (h₁.trans h₂)⟩

/-- A quantity that does not decrease, and is larger at the end, was increased by a step. -/
theorem exists_lt [PartialOrder α] {f : σ → α} (hf : ∀ s a s', step s a s' → f s ≤ f s')
    (h : Run step s es t) (hst : f s < f t) : ∃ e ∈ es, f e.pre < f e.post := by
  induction h with
  | nil s => exact absurd hst (lt_irrefl _)
  | @cons s s' t a es hstep hrun ih =>
    rcases (hf _ _ _ hstep).lt_or_eq with hlt | heq
    · exact ⟨⟨s, a, s'⟩, List.mem_cons_self, hlt⟩
    · obtain ⟨e, he, hlt⟩ := ih (heq ▸ hst)
      exact ⟨e, List.mem_cons_of_mem _ he, hlt⟩

end Order

end Run

/-! ## The order of two transitions -/

/-- `e` happens strictly before `e'`, with `between` the transitions in between. -/
def Before (es : List (Event σ A)) (e : Event σ A) (between : List (Event σ A))
    (e' : Event σ A) : Prop :=
  ∃ l r, es = l ++ e :: (between ++ e' :: r)

/-- The states a run is in after `e`, up to the end of the transitions `between`. -/
def statesFrom (e : Event σ A) (between : List (Event σ A)) : List σ :=
  e.post :: between.map Event.post

theorem Before.mem_left {e e' : Event σ A} {m : List (Event σ A)} (h : Before es e m e') :
    e ∈ es := by
  obtain ⟨l, r, rfl⟩ := h
  exact List.mem_append_right _ List.mem_cons_self

theorem Before.mem_right {e e' : Event σ A} {m : List (Event σ A)} (h : Before es e m e') :
    e' ∈ es := by
  obtain ⟨l, r, rfl⟩ := h
  exact List.mem_append_right _ (List.mem_cons_of_mem _
    (List.mem_append_right _ List.mem_cons_self))

/-- Of two transitions of one run, one comes first, unless they are the same. -/
theorem before_or_before {e e' : Event σ A} (he : e ∈ es) (he' : e' ∈ es) :
    e = e' ∨ (∃ m, Before es e m e') ∨ ∃ m, Before es e' m e := by
  obtain ⟨l, r, rfl⟩ := List.append_of_mem he
  rw [List.mem_append, List.mem_cons] at he'
  rcases he' with hl | rfl | hr
  · obtain ⟨l₁, l₂, rfl⟩ := List.append_of_mem hl
    exact .inr (.inr ⟨l₂, l₁, r, by simp⟩)
  · exact .inl rfl
  · obtain ⟨r₁, r₂, rfl⟩ := List.append_of_mem hr
    exact .inr (.inl ⟨r₁, l, r₂, rfl⟩)

/-- What lies between two transitions of a run is itself a run, from the state after the first to
the state before the second. -/
theorem Run.between {e e' : Event σ A} {m : List (Event σ A)} (h : Run step s es t)
    (hb : Before es e m e') : Run step e.post m e'.pre := by
  obtain ⟨l, r, rfl⟩ := hb
  exact h.around.2.2.around.1

end Labelled
