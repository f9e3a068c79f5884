import TactiqAttest.Programs.Interaction

/-!
# What a program does by itself, call by call

A program that works on a state by itself can be stopped between any two of its calls, and what it
leaves behind is then the state it was in.  So what matters, besides what holds when it returns, is
in which states it makes which calls.

`Obeys sem P p Q s`: started at `s`, every call the program makes is one that `P` allows in the
state it is made in, and what it returns satisfies `Q`.  It is established from the parts of the
program (`obeys_bind`, `obeys_tryBind`, `obeys_perform`), and it is kept while the program runs
(`Obeys.after`).  A property of states that no allowed call breaks then holds at every point
(`Obeys.invariant`).

`Returns sem p s a t`: the program, started at `s`, may return `a` and leave `t`.  Where every call
it makes has some reply, it does return (`Obeys.exists_returns`).
-/

namespace Prog

variable {σ Op : Type} {Reply : Op → Type} {α β ε : Type}

/-- The calls, made one after the other, take one state to another. -/
inductive Performs (sem : σ → Exchange Op Reply → σ → Prop) :
    σ → List (Exchange Op Reply) → σ → Prop
  | nil (s : σ) : Performs sem s [] s
  | cons {s s' t : σ} {c : Exchange Op Reply} {cs : List (Exchange Op Reply)} :
      sem s c s' → Performs sem s' cs t → Performs sem s (c :: cs) t

/-- Every call is allowed, and `Q` holds at the end. -/
def Obeys (sem : σ → Exchange Op Reply → σ → Prop) (P : σ → Op → Prop) :
    Prog Op Reply α → (σ → α → Prop) → σ → Prop
  | .ret a, Q, s => Q s a
  | .call op next, Q, s => P s op ∧ ∀ r s', sem s ⟨op, r⟩ s' → Obeys sem P (next r) Q s'

variable {sem : σ → Exchange Op Reply → σ → Prop} {P : σ → Op → Prop} {I : σ → Prop} {s s' : σ}
  {p q : Prog Op Reply α} {Q Q' : σ → α → Prop} {cs : List (Exchange Op Reply)}

/-! ## Keeping it -/

/-- The next call. -/
theorem Obeys.call {op : Op} {next : Reply op → Prog Op Reply α} {r : Reply op}
    (h : Obeys sem P (.call op next) Q s) (hsem : sem s ⟨op, r⟩ s') : Obeys sem P (next r) Q s' :=
  h.2 r s' hsem

/-- Any number of calls. -/
theorem Obeys.after (h : Obeys sem P p Q s) (hafter : After p cs q) (hperf : Performs sem s cs s') :
    Obeys sem P q Q s' := by
  induction hafter generalizing s with
  | here p =>
    cases hperf
    exact h
  | call _ ih =>
    rcases hperf with _ | ⟨hsem, hperf⟩
    exact ih (h.call hsem) hperf

/-- What no allowed call breaks holds at every point. -/
theorem Obeys.invariant (hI : ∀ s op r s', I s → P s op → sem s ⟨op, r⟩ s' → I s')
    (h : Obeys sem P p Q s) (hs : I s) (hafter : After p cs q) (hperf : Performs sem s cs s') :
    I s' := by
  induction hafter generalizing s with
  | here p =>
    cases hperf
    exact hs
  | call _ ih =>
    rcases hperf with _ | ⟨hsem, hperf⟩
    exact ih (h.call hsem) (hI _ _ _ _ hs h.1 hsem) hperf

theorem Obeys.mono {P' : σ → Op → Prop} (h : Obeys sem P p Q s) (hP : ∀ s op, P s op → P' s op)
    (hQ : ∀ s a, Q s a → Q' s a) : Obeys sem P' p Q' s := by
  induction p generalizing s with
  | ret a => exact hQ s a h
  | call op next ih => exact ⟨hP s op h.1, fun r s' hsem => ih r (h.2 r s' hsem)⟩

/-- With fewer answers to its calls, a program still obeys. -/
theorem Obeys.restrict {sem' : σ → Exchange Op Reply → σ → Prop} (h : Obeys sem P p Q s)
    (hsem : ∀ s c s', sem' s c s' → sem s c s') : Obeys sem' P p Q s := by
  induction p generalizing s with
  | ret a => exact h
  | call op next ih => exact ⟨h.1, fun r s' hcall => ih r (h.2 r s' (hsem _ _ _ hcall))⟩

/-! ## Establishing it -/

theorem obeys_pure {a : α} (h : Q s a) : Obeys sem P (pure a : Prog Op Reply α) Q s := h

/-- One call. -/
theorem obeys_perform {op : Op} {Q : σ → Reply op → Prop} (hP : P s op)
    (h : ∀ r s', sem s ⟨op, r⟩ s' → Q s' r) : Obeys sem P (perform op) Q s :=
  ⟨hP, h⟩

/-- A sequence, from where its first part may leave. -/
theorem obeys_bind {f : α → Prog Op Reply β} {Q : σ → β → Prop}
    (h : Obeys sem P p (fun s a => Obeys sem P (f a) Q s) s) : Obeys sem P (p >>= f) Q s := by
  induction p generalizing s with
  | ret a => exact h
  | call op next ih => exact ⟨h.1, fun r s' hsem => ih r (h.2 r s' hsem)⟩

/-- What is asked of a sequence is asked of its first part, and then of the second. -/
theorem Obeys.of_bind {f : α → Prog Op Reply β} {Q : σ → β → Prop} (h : Obeys sem P (p >>= f) Q s) :
    Obeys sem P p (fun s a => Obeys sem P (f a) Q s) s := by
  induction p generalizing s with
  | ret a => exact h
  | call op next ih => exact ⟨h.1, fun r s' hsem => ih r (h.2 r s' hsem)⟩

/-- The same for fallible programs: the first failure is the result of the whole. -/
theorem obeys_tryBind {x : Fallible Op Reply ε α} {f : α → Fallible Op Reply ε β}
    {Q : σ → Except ε β → Prop}
    (h : Obeys sem P x.run
      (fun s out => match out with
        | .ok a => Obeys sem P (f a).run Q s
        | .error e => Q s (.error e)) s) :
    Obeys sem P (x >>= f).run Q s := by
  rw [ExceptT.run_bind]
  refine obeys_bind (h.mono (fun _ _ h => h) ?_)
  rintro s (e | a) hout
  · exact hout
  · exact hout

theorem obeys_ofResult {x : Except ε α} {Q : σ → Except ε α → Prop} (h : Q s x) :
    Obeys sem P (ofResult x : Fallible Op Reply ε α).run Q s := h

/-- What holds of every result holds of any program's. -/
theorem obeys_of_forall (hP : ∀ s op, P s op) (hQ : ∀ s a, Q s a) : Obeys sem P p Q s := by
  induction p generalizing s with
  | ret a => exact hQ s a
  | call op next ih => exact ⟨hP s op, fun r s' _ => ih r⟩

/-- A program that makes only calls that change nothing. -/
theorem obeys_of_still {N : Op → Prop} (hp : p.Only N)
    (hstill : ∀ op r s', N op → sem s ⟨op, r⟩ s' → s' = s) (hP : ∀ op, N op → P s op)
    (hQ : ∀ a, Q s a) : Obeys sem P p Q s := by
  induction p with
  | ret a => exact hQ a
  | call op next ih =>
    refine ⟨hP op hp.1, fun r s' hsem => ?_⟩
    obtain rfl := hstill op r s' hp.1 hsem
    exact ih r (hp.2 r)

/-! ## Running a program -/

/-- The first `n` calls of a program, answered by a machine: the calls, the state after them, and
what is left of the program. -/
def runFor (machine : σ → (op : Op) → Reply op × σ) :
    ℕ → Prog Op Reply α → σ → List (Exchange Op Reply) × σ × Prog Op Reply α
  | 0, p, s => ([], s, p)
  | _ + 1, .ret a, s => ([], s, .ret a)
  | n + 1, .call op next, s =>
    let answer := machine s op
    let rest := runFor machine n (next answer.1) answer.2
    (⟨op, answer.1⟩ :: rest.1, rest.2)

variable {machine : σ → (op : Op) → Reply op × σ}

/-- A machine whose answers are possible runs a program as it may run. -/
theorem runFor_possible (hmachine : ∀ s op, sem s ⟨op, (machine s op).1⟩ (machine s op).2) (n : ℕ)
    (p : Prog Op Reply α) (s : σ) :
    After p (runFor machine n p s).1 (runFor machine n p s).2.2 ∧
      Performs sem s (runFor machine n p s).1 (runFor machine n p s).2.1 := by
  induction n generalizing p s with
  | zero => exact ⟨.here p, .nil s⟩
  | succ n ih =>
    cases p with
    | ret a => exact ⟨.here _, .nil s⟩
    | call op next =>
      obtain ⟨hafter, hperf⟩ := ih (next (machine s op).1) (machine s op).2
      exact ⟨.call hafter, .cons (hmachine s op) hperf⟩

/-! ## Returning -/

/-- The program may return `a`, and leave `t`. -/
def Returns (sem : σ → Exchange Op Reply → σ → Prop) (p : Prog Op Reply α) (s : σ) (a : α) (t : σ) :
    Prop :=
  ∃ cs, Yields p cs a ∧ Performs sem s cs t

variable {a : α} {t : σ} {sem' : σ → Exchange Op Reply → σ → Prop}

theorem Performs.mono (h : Performs sem s cs t) (hsem : ∀ s c s', sem s c s' → sem' s c s') :
    Performs sem' s cs t := by
  induction h with
  | nil s => exact .nil s
  | cons hcall _ ih => exact .cons (hsem _ _ _ hcall) ih

/-- What holds of each call may be part of what a call does. -/
theorem Performs.and_of_forall {N : Exchange Op Reply → Prop} (h : Performs sem s cs t)
    (hN : ∀ c ∈ cs, N c) : Performs (fun s c s' => sem s c s' ∧ N c) s cs t := by
  induction h with
  | nil s => exact .nil s
  | cons hcall _ ih =>
    obtain ⟨hc, hN⟩ := List.forall_mem_cons.mp hN
    exact .cons ⟨hcall, hc⟩ (ih hN)

theorem Returns.mono (h : Returns sem p s a t) (hsem : ∀ s c s', sem s c s' → sem' s c s') :
    Returns sem' p s a t := by
  obtain ⟨cs, hyields, hperf⟩ := h
  exact ⟨cs, hyields, hperf.mono hsem⟩

/-- What holds when the program returns. -/
theorem Obeys.of_returns (h : Obeys sem P p Q s) (hreturns : Returns sem p s a t) : Q t a := by
  obtain ⟨cs, hyields, hperf⟩ := hreturns
  exact h.after hyields hperf

/-- A program each of whose calls has some reply returns. -/
theorem Obeys.exists_returns (h : Obeys sem (fun s op => ∃ r s', sem s ⟨op, r⟩ s') p Q s) :
    ∃ a t, Returns sem p s a t ∧ Q t a := by
  induction p generalizing s with
  | ret a => exact ⟨a, s, ⟨[], yields_ret.mpr ⟨rfl, rfl⟩, .nil s⟩, h⟩
  | call op next ih =>
    obtain ⟨⟨r, s', hsem⟩, hnext⟩ := h
    obtain ⟨a, t, ⟨cs, hyields, hperf⟩, hQ⟩ := ih r (hnext r s' hsem)
    exact ⟨a, t, ⟨⟨op, r⟩ :: cs, .call hyields, .cons hsem hperf⟩, hQ⟩

/-- The result of a program that has one. -/
def result : Prog Op Reply α → Option α
  | .ret a => some a
  | .call _ _ => none

theorem result_eq_some : p.result = some a ↔ p = .ret a := by
  cases p with
  | ret b => rw [result, Option.some_inj, ret.injEq]
  | call op next => exact ⟨fun h => (by cases h), fun h => (by cases h)⟩

/-- The call that a program waits for. -/
def pending : Prog Op Reply α → Option Op
  | .ret _ => none
  | .call op _ => some op

theorem pending_eq_some {op : Op} : p.pending = some op ↔ ∃ next, p = .call op next := by
  cases p with
  | ret a => exact ⟨fun h => (by cases h), fun ⟨_, h⟩ => (by cases h)⟩
  | call op' next =>
    constructor
    · rintro ⟨⟩
      exact ⟨next, rfl⟩
    · rintro ⟨_, ⟨⟩⟩
      rfl

/-- A machine that runs the program to its end shows what it may return. -/
theorem returns_of_runFor (hmachine : ∀ s op, sem s ⟨op, (machine s op).1⟩ (machine s op).2) {n : ℕ}
    (h : (runFor machine n p s).2.2.result = some a) :
    Returns sem p s a (runFor machine n p s).2.1 := by
  obtain ⟨hafter, hperf⟩ := runFor_possible hmachine n p s
  rw [result_eq_some.mp h] at hafter
  exact ⟨_, hafter, hperf⟩

/-! ## The history as part of the state -/

/-- The state together with the calls made so far. -/
def withHistory (sem : σ → Exchange Op Reply → σ → Prop) :
    σ × List (Exchange Op Reply) → Exchange Op Reply → σ × List (Exchange Op Reply) → Prop :=
  fun s c s' => sem s.1 c s'.1 ∧ s'.2 = s.2 ++ [c]

theorem Performs.withHistory (h : Performs sem s cs s') (past : List (Exchange Op Reply)) :
    Performs (Prog.withHistory sem) (s, past) cs (s', past ++ cs) := by
  induction h generalizing past with
  | nil s =>
    rw [List.append_nil]
    exact .nil _
  | @cons s s' t c cs hsem _ ih =>
    have hfirst : Prog.withHistory sem (s, past) c (s', past ++ [c]) := ⟨hsem, rfl⟩
    have hrest := ih (past ++ [c])
    rw [List.append_assoc] at hrest
    exact .cons hfirst hrest

/-- Keeping a history does not change what a program does: its calls are added to what is there. -/
theorem Obeys.history (h : Obeys sem P p Q s) (past : List (Exchange Op Reply)) :
    Obeys (Prog.withHistory sem) (fun m op => P m.1 op ∧ past <+: m.2) p
      (fun m a => Q m.1 a ∧ ∃ cs, Yields p cs a ∧ m.2 = past ++ cs) (s, past) := by
  induction p generalizing s past with
  | ret a => exact ⟨h, [], yields_ret.mpr ⟨rfl, rfl⟩, (List.append_nil past).symm⟩
  | call op next ih =>
    refine ⟨⟨h.1, List.prefix_rfl⟩, fun r m hsem => ?_⟩
    obtain ⟨t, past'⟩ := m
    obtain ⟨hcall, hpast⟩ := hsem
    obtain rfl : past' = past ++ [⟨op, r⟩] := hpast
    refine (ih r (h.2 r t hcall) (past ++ [⟨op, r⟩])).mono ?_ ?_
    · exact fun m op' h' => ⟨h'.1, (List.prefix_append _ _).trans h'.2⟩
    · rintro m a ⟨hQ, cs, hyields, hm⟩
      refine ⟨hQ, ⟨op, r⟩ :: cs, yields_call.mpr ⟨r, cs, rfl, hyields⟩, ?_⟩
      rw [hm, List.append_assoc, List.singleton_append]

theorem Obeys.withHistory (h : Obeys sem P p Q s) (past : List (Exchange Op Reply)) :
    Obeys (Prog.withHistory sem) (fun s => P s.1) p (fun s => Q s.1) (s, past) :=
  (h.history past).mono (fun _ _ h => h.1) fun _ _ h => h.1

end Prog
