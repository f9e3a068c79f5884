import TactiqAttest.Programs.Interaction

/-!
# What a program ensures among others

The histories of a program say what it did.  This file is the other view, for a program about to
run: which states it may leave, and which results, if before and after each of its calls the others
that use the shared state may move it, as far as `rely` lets them.

`Ensures sem rely p Q s` is the weakest precondition of `Q` for `p` started at `s`.  It is kept
through everything that can happen to a program that is running --- the others move
(`Ensures.interfere`), it makes its next call (`Ensures.call`), it returns (`Ensures.ret`) --- and
it is established from the parts of the program (`ensures_bind`, `ensures_tryBind`).
-/

namespace Prog

variable {σ Op : Type} {Reply : Op → Type} {α β ε : Type}

/-- Started at `s`, with others moving the state along `rely` in between, the program can only
return results that satisfy `Q` in the state they are returned in. -/
def Ensures (sem : σ → Exchange Op Reply → σ → Prop) (rely : σ → σ → Prop) :
    Prog Op Reply α → (σ → α → Prop) → σ → Prop
  | .ret a, Q, s => ∀ s', rely s s' → Q s' a
  | .call op next, Q, s =>
    ∀ s', rely s s' → ∀ r s'', sem s' ⟨op, r⟩ s'' → Ensures sem rely (next r) Q s''

variable {sem : σ → Exchange Op Reply → σ → Prop} {rely : σ → σ → Prop} {s s' : σ}
  {p : Prog Op Reply α} {Q Q' : σ → α → Prop}

/-! ## Keeping it -/

/-- The others may move. -/
theorem Ensures.interfere (htrans : ∀ {s s' s''}, rely s s' → rely s' s'' → rely s s'')
    (h : Ensures sem rely p Q s) (hs : rely s s') : Ensures sem rely p Q s' := by
  cases p with
  | ret a =>
    intro s'' hs'
    exact h s'' (htrans hs hs')
  | call op next =>
    intro s'' hs'
    exact h s'' (htrans hs hs')

/-- The program may make its next call. -/
theorem Ensures.call (hrefl : ∀ s, rely s s) {op : Op} {next : Reply op → Prog Op Reply α}
    {r : Reply op} (h : Ensures sem rely (.call op next) Q s) (hsem : sem s ⟨op, r⟩ s') :
    Ensures sem rely (next r) Q s' :=
  h s (hrefl s) r s' hsem

/-- The program may return. -/
theorem Ensures.ret (hrefl : ∀ s, rely s s) {a : α} (h : Ensures sem rely (.ret a) Q s) : Q s a :=
  h s (hrefl s)

theorem Ensures.mono (h : Ensures sem rely p Q s) (hQ : ∀ s a, Q s a → Q' s a) :
    Ensures sem rely p Q' s := by
  induction p generalizing s with
  | ret a =>
    intro s' hs
    exact hQ _ _ (h s' hs)
  | call op next ih =>
    intro s' hs r s'' hsem
    exact ih r (h s' hs r s'' hsem)

/-! ## Establishing it -/

/-- A sequence ensures what its second part ensures from where the first may leave. -/
theorem ensures_bind (hrefl : ∀ s, rely s s) {f : α → Prog Op Reply β} {Q : σ → β → Prop}
    (h : Ensures sem rely p (fun s a => Ensures sem rely (f a) Q s) s) :
    Ensures sem rely (p >>= f) Q s := by
  induction p generalizing s with
  | ret a => exact h.ret hrefl
  | call op next ih =>
    intro s' hs r s'' hsem
    exact ih r (h s' hs r s'' hsem)

/-- The same for fallible programs: the first failure is the result of the whole. -/
theorem ensures_tryBind (hrefl : ∀ s, rely s s) {x : Fallible Op Reply ε α}
    {f : α → Fallible Op Reply ε β} {Q : σ → Except ε β → Prop}
    (h : Ensures sem rely x.run
      (fun s out => match out with
        | .ok a => Ensures sem rely (f a).run Q s
        | .error e => ∀ s', rely s s' → Q s' (.error e)) s) :
    Ensures sem rely (x >>= f).run Q s := by
  rw [ExceptT.run_bind]
  refine ensures_bind hrefl (h.mono ?_)
  rintro s (e | a) hout
  · exact hout
  · exact hout

/-- Where calls move the state no further than the others may, a program leaves it within `rely`. -/
theorem ensures_within (htrans : ∀ {s s' s''}, rely s s' → rely s' s'' → rely s s'')
    (hsem : ∀ {s c s'}, sem s c s' → rely s s') (hs : rely s s') :
    Ensures sem rely p (fun t _ => rely s t) s' := by
  induction p generalizing s' with
  | ret a =>
    intro t ht
    exact htrans hs ht
  | call op next ih =>
    intro t ht r t' hcall
    exact ih r (htrans (htrans hs ht) (hsem hcall))

end Prog
