import Mathlib.Data.List.Forall2
import Mathlib.Logic.Basic
import Mathlib.Tactic.SplitIfs

/-!
# Results

Inversion rules for `Except`: what it takes for a sequence, a map, a change of error or a guard to
have come out as it did.  A chain of checks is taken apart with these from either end --- by the
success of all of them, or by the first that failed.
-/

namespace Except

variable {ε ε' α β : Type}

theorem bind_eq_ok {x : Except ε α} {f : α → Except ε β} {b : β} :
    (x >>= f) = .ok b ↔ ∃ a, x = .ok a ∧ f a = .ok b := by
  rcases x with e | a
  · refine ⟨fun h => (by cases h), ?_⟩
    rintro ⟨a, h, -⟩
    cases h
  · refine ⟨fun h => ⟨a, rfl, h⟩, ?_⟩
    rintro ⟨a', h, h'⟩
    cases h
    exact h'

theorem bind_eq_error {x : Except ε α} {f : α → Except ε β} {e : ε} :
    (x >>= f) = .error e ↔ x = .error e ∨ ∃ a, x = .ok a ∧ f a = .error e := by
  rcases x with e' | a
  · refine ⟨fun h => .inl (by cases h; rfl), ?_⟩
    rintro (h | ⟨a, h, -⟩)
    · cases h
      rfl
    · cases h
  · refine ⟨fun h => .inr ⟨a, rfl, h⟩, ?_⟩
    rintro (h | ⟨a', h, h'⟩)
    · cases h
    · cases h
      exact h'

theorem map_eq_ok {x : Except ε α} {f : α → β} {b : β} :
    f <$> x = .ok b ↔ ∃ a, x = .ok a ∧ f a = b := by
  rcases x with e | a
  · refine ⟨fun h => (by cases h), ?_⟩
    rintro ⟨a, h, -⟩
    cases h
  · refine ⟨fun h => ⟨a, rfl, by cases h; rfl⟩, ?_⟩
    rintro ⟨a', h, rfl⟩
    cases h
    rfl

theorem map_eq_error {x : Except ε α} {f : α → β} {e : ε} :
    f <$> x = .error e ↔ x = .error e := by
  rcases x with e' | a
  · exact ⟨fun h => (by cases h; rfl), fun h => (by cases h; rfl)⟩
  · exact ⟨fun h => (by cases h), fun h => (by cases h)⟩

theorem mapError_eq_ok {x : Except ε α} {f : ε → ε'} {a : α} :
    x.mapError f = .ok a ↔ x = .ok a := by
  rcases x with e | a'
  · exact ⟨fun h => (by cases h), fun h => (by cases h)⟩
  · exact ⟨fun h => (by cases h; rfl), fun h => (by cases h; rfl)⟩

theorem mapError_eq_error {x : Except ε α} {f : ε → ε'} {e : ε'} :
    x.mapError f = .error e ↔ ∃ e₀, x = .error e₀ ∧ f e₀ = e := by
  rcases x with e₀ | a
  · refine ⟨fun h => ⟨e₀, rfl, by cases h; rfl⟩, ?_⟩
    rintro ⟨e₁, h, rfl⟩
    cases h
    rfl
  · refine ⟨fun h => (by cases h), ?_⟩
    rintro ⟨e₀, h, -⟩
    cases h

/-- The value of an option, or an error for its absence (`ok_or`). -/
def ofOption (e : ε) : Option α → Except ε α
  | some a => .ok a
  | none => .error e

theorem ofOption_eq_ok {o : Option α} {e : ε} {a : α} : ofOption e o = .ok a ↔ o = some a := by
  cases o with
  | none => exact ⟨fun h => (by cases h), fun h => (by cases h)⟩
  | some a' => exact ⟨fun h => (by cases h; rfl), fun h => (by cases h; rfl)⟩

theorem ofOption_eq_error {o : Option α} {e e' : ε} :
    ofOption e o = .error e' ↔ o = none ∧ e = e' := by
  cases o with
  | none => exact ⟨fun h => ⟨rfl, by cases h; rfl⟩, fun h => by rw [ofOption, h.2]⟩
  | some a => exact ⟨fun h => (by cases h), fun h => (by cases h.1)⟩

/-- Go on only under a condition. -/
def ensure (c : Prop) [Decidable c] (e : ε) : Except ε Unit := if c then .ok () else .error e

theorem ensure_eq_ok {c : Prop} [Decidable c] {e : ε} {u : Unit} : ensure c e = .ok u ↔ c := by
  unfold ensure
  split_ifs with h
  · exact ⟨fun _ => h, fun _ => rfl⟩
  · exact ⟨fun h' => (by cases h'), fun h' => absurd h' h⟩

theorem ensure_eq_error {c : Prop} [Decidable c] {e e' : ε} :
    ensure c e = .error e' ↔ ¬ c ∧ e = e' := by
  unfold ensure
  split_ifs with h
  · exact ⟨fun h' => (by cases h'), fun h' => absurd h h'.1⟩
  · exact ⟨fun h' => ⟨h, by cases h'; rfl⟩, fun h' => by rw [h'.2]⟩

theorem pure_eq_ok {a b : α} : (pure a : Except ε α) = .ok b ↔ a = b := by
  exact ⟨fun h => (by cases h; rfl), fun h => h ▸ rfl⟩

/-- A check made on every element of a list: it succeeds on each, with that element's result. -/
theorem mapM_eq_ok {l : List α} {f : α → Except ε β} {bs : List β} :
    l.mapM f = .ok bs ↔ List.Forall₂ (fun a b => f a = .ok b) l bs := by
  induction l generalizing bs with
  | nil => rw [List.mapM_nil, pure_eq_ok, List.forall₂_nil_left_iff, eq_comm]
  | cons a l ih =>
    simp only [List.mapM_cons, bind_eq_ok, pure_eq_ok, ih]
    constructor
    · rintro ⟨b, hb, bs, hbs, rfl⟩
      exact .cons hb hbs
    · rintro (_ | ⟨hb, hbs⟩)
      exact ⟨_, hb, _, hbs, rfl⟩

/-- A check made on every element of a list, for its own sake. -/
theorem forM_eq_ok {l : List α} {f : α → Except ε PUnit} {u : PUnit} :
    forM l f = .ok u ↔ ∀ a ∈ l, f a = .ok () := by
  induction l with
  | nil => simp [pure_eq_ok]
  | cons a l ih =>
    simp only [List.forM_cons, bind_eq_ok, ih, List.forall_mem_cons]
    exact ⟨fun ⟨_, ha, hl⟩ => ⟨ha, hl⟩, fun ⟨ha, hl⟩ => ⟨(), ha, hl⟩⟩

theorem isOk_eq_true {x : Except ε α} : x.isOk = true ↔ ∃ a, x = .ok a := by
  cases x with
  | error e => exact ⟨fun h => (by cases h), fun ⟨_, h⟩ => (by cases h)⟩
  | ok a => exact ⟨fun _ => ⟨a, rfl⟩, fun _ => rfl⟩

/-- A result is one or the other. -/
theorem isOk_or (x : Except ε α) : (∃ a, x = .ok a) ∨ ∃ e, x = .error e := by
  rcases x with e | a
  · exact .inr ⟨e, rfl⟩
  · exact .inl ⟨a, rfl⟩

end Except
