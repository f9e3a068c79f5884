import TactiqAttest.Programs.Obligations

/-!
# Programs with the state to themselves

`Performs sem s cs t` says that the calls `cs`, made one after the other with nobody else at the
shared state, can be answered as they were and take it from `s` to `t`.  The semantics is a
relation, so a call may fail, and may have taken effect all the same.  Here such a list of calls is
taken apart.

`Obeys.exists_allowed` looks at one call of such a list, in the state it was made in.
`Yields.unique_append` is for reasoning about a program that calls another one: which of its calls
the inner program made, and what that returned, is determined by the history.
-/

namespace Prog

variable {σ Op : Type} {Reply : Op → Type} {α : Type}

variable {sem : σ → Exchange Op Reply → σ → Prop} {s t : σ} {c : Exchange Op Reply}
  {cs cs' l l' : List (Exchange Op Reply)} {p : Prog Op Reply α} {a b : α}

namespace Performs

@[simp] theorem nil_iff : Performs sem s [] t ↔ s = t := by
  constructor
  · intro h
    cases h
    rfl
  · rintro rfl
    exact .nil s

@[simp] theorem cons_iff : Performs sem s (c :: cs) t ↔ ∃ m, sem s c m ∧ Performs sem m cs t := by
  constructor
  · intro h
    cases h with
    | cons hc hcs => exact ⟨_, hc, hcs⟩
  · rintro ⟨m, hc, hcs⟩
    exact .cons hc hcs

theorem append_iff : Performs sem s (cs ++ cs') t ↔
    ∃ m, Performs sem s cs m ∧ Performs sem m cs' t := by
  induction cs generalizing s with
  | nil => simp
  | cons c cs ih =>
    simp only [List.cons_append, cons_iff, ih]
    constructor
    · rintro ⟨n, hc, m, hcs, hrest⟩
      exact ⟨m, ⟨n, hc, hcs⟩, hrest⟩
    · rintro ⟨m, ⟨n, hc, hcs⟩, hrest⟩
      exact ⟨n, hc, m, hcs, hrest⟩

/-- Calls that leave the state alone leave it where it was. -/
theorem eq_of_still (h : Performs sem s cs t) (hstill : ∀ c ∈ cs, ∀ m m', sem m c m' → m = m') :
    s = t := by
  induction h with
  | nil s => rfl
  | cons hc _ ih =>
    rw [List.forall_mem_cons] at hstill
    exact (hstill.1 _ _ hc).trans (ih hstill.2)

end Performs

/-- Of a program that keeps to its obligations, every call is allowed where it is made, after the
calls before it. -/
theorem Obeys.exists_allowed {past : List (Exchange Op Reply)} {q : Prog Op Reply α}
    {P : σ × List (Exchange Op Reply) → Op → Prop} {Q : σ × List (Exchange Op Reply) → α → Prop}
    (h : Obeys (Prog.withHistory sem) P p Q (s, past)) (hafter : After p (cs ++ c :: cs') q)
    (hperf : Performs sem s (cs ++ c :: cs') t) : ∃ m, P (m, past ++ cs) c.1 := by
  obtain ⟨p', hp, hq⟩ := after_append.mp hafter
  obtain ⟨m, hcs, -⟩ := Performs.append_iff.mp hperf
  have hthere := h.after hp (hcs.withHistory past)
  cases hq with
  | call _ => exact ⟨m, hthere.1⟩

/-- A program that runs to its end inside a history does so in one way. -/
theorem Yields.unique_append (h : p.Yields cs a) (h' : p.Yields cs' b) (heq : cs ++ l = cs' ++ l') :
    cs = cs' ∧ a = b := by
  induction p generalizing cs cs' with
  | ret x =>
    obtain ⟨rfl, rfl⟩ := yields_ret.mp h
    obtain ⟨rfl, rfl⟩ := yields_ret.mp h'
    exact ⟨rfl, rfl⟩
  | call op next ih =>
    obtain ⟨r, tl, rfl, hrest⟩ := yields_call.mp h
    obtain ⟨r', tl', rfl, hrest'⟩ := yields_call.mp h'
    obtain ⟨hc, htl⟩ := List.cons.inj heq
    cases hc
    obtain ⟨rfl, hab⟩ := ih r hrest hrest' htl
    exact ⟨rfl, hab⟩

end Prog
