import Mathlib.Data.List.Basic

/-!
# Programs that call out

A component that talks to a device, a store or a peer is a *program*: it either returns, or makes a
call and goes on with the reply.  `Prog Op Reply α` is the type of such programs, with `Reply op`
the type of replies to the call `op`.  What a call does to the outside is not part of the program;
it is given later, by whoever runs it, and between two calls of one program the outside may have
moved for other reasons.  So the meaning of a program on its own is its set of *histories*: the
calls it makes and the replies it gets, in order.

* `After p cs q`: having exchanged `cs`, the program `p` has become `q`.
* `Yields p cs a`: it has then returned `a`.
* `yields_bind`: the histories of a sequence are the histories of its parts, one after the other.
* `eval`: what the program returns if all its calls are answered from one fixed source.
* `Only`: which calls the program makes at all.
* `yields_tryBind`: the same for programs that may fail, which is how a fallible procedure is
  written: the first failure ends the history.
-/

/-- A program that makes calls `op : Op`, receives `Reply op` for each, and returns an `α`. -/
inductive Prog (Op : Type) (Reply : Op → Type) (α : Type) where
  | ret (a : α) : Prog Op Reply α
  | call (op : Op) (next : Reply op → Prog Op Reply α) : Prog Op Reply α

/-- A call together with its reply. -/
abbrev Exchange (Op : Type) (Reply : Op → Type) := (op : Op) × Reply op

namespace Prog

variable {Op : Type} {Reply : Op → Type} {α β γ : Type}

/-- One call, returning its reply. -/
def perform (op : Op) : Prog Op Reply (Reply op) := .call op .ret

/-- Sequencing. -/
def bind : Prog Op Reply α → (α → Prog Op Reply β) → Prog Op Reply β
  | .ret a, f => f a
  | .call op next, f => .call op fun r => (next r).bind f

instance : Monad (Prog Op Reply) where
  pure := .ret
  bind := bind

@[simp] theorem ret_bind (a : α) (f : α → Prog Op Reply β) : (ret a >>= f) = f a := rfl

@[simp] theorem call_bind (op : Op) (next : Reply op → Prog Op Reply α)
    (f : α → Prog Op Reply β) : (call op next >>= f) = call op (fun r => next r >>= f) := rfl

theorem bind_ret (p : Prog Op Reply α) : (p >>= ret) = p := by
  induction p with
  | ret a => rfl
  | call op next ih => rw [call_bind, funext ih]

theorem bind_bind (p : Prog Op Reply α) (f : α → Prog Op Reply β) (g : β → Prog Op Reply γ) :
    (p >>= f) >>= g = p >>= fun a => f a >>= g := by
  induction p with
  | ret a => rfl
  | call op next ih => simp only [call_bind, ih]

instance : LawfulMonad (Prog Op Reply) :=
  LawfulMonad.mk' _ bind_ret ret_bind bind_bind

/-! ## Histories -/

/-- Having exchanged `cs`, the program has become `q`. -/
inductive After : Prog Op Reply α → List (Exchange Op Reply) → Prog Op Reply α → Prop
  | here (p : Prog Op Reply α) : After p [] p
  | call {op : Op} {next : Reply op → Prog Op Reply α} {r : Reply op}
      {cs : List (Exchange Op Reply)} {q : Prog Op Reply α} :
      After (next r) cs q → After (.call op next) (⟨op, r⟩ :: cs) q

/-- Having exchanged `cs`, the program has returned `a`. -/
def Yields (p : Prog Op Reply α) (cs : List (Exchange Op Reply)) (a : α) : Prop :=
  After p cs (.ret a)

variable {cs : List (Exchange Op Reply)} {p q : Prog Op Reply α} {a b : α}

theorem after_nil : After p [] q ↔ p = q := by
  constructor
  · rintro ⟨⟩; rfl
  · rintro rfl; exact .here p

theorem after_ret : After (ret a) cs q ↔ cs = [] ∧ q = ret a := by
  constructor
  · rintro ⟨⟩; exact ⟨rfl, rfl⟩
  · rintro ⟨rfl, rfl⟩; exact .here _

theorem after_call {op : Op} {next : Reply op → Prog Op Reply α} :
    After (call op next) cs q ↔
      (cs = [] ∧ q = call op next) ∨ ∃ r cs', cs = ⟨op, r⟩ :: cs' ∧ After (next r) cs' q := by
  constructor
  · intro h
    cases h with
    | here => exact .inl ⟨rfl, rfl⟩
    | call h => exact .inr ⟨_, _, rfl, h⟩
  · rintro (⟨rfl, rfl⟩ | ⟨r, cs', rfl, h⟩)
    · exact .here _
    · exact .call h

/-- Calls can be made one part after the other. -/
theorem after_append {cs' : List (Exchange Op Reply)} :
    After p (cs ++ cs') q ↔ ∃ p', After p cs p' ∧ After p' cs' q := by
  induction cs generalizing p with
  | nil =>
    refine ⟨fun h => ⟨p, .here p, h⟩, fun ⟨p', h, h'⟩ => ?_⟩
    obtain rfl := after_nil.mp h
    exact h'
  | cons c cs ih =>
    refine ⟨fun h => ?_, fun ⟨p', h, h'⟩ => ?_⟩
    · rw [List.cons_append] at h
      cases h with
      | call h =>
        obtain ⟨p', hp, hq⟩ := ih.mp h
        exact ⟨p', .call hp, hq⟩
    · cases h with
      | call h => exact .call (ih.mpr ⟨p', h, h'⟩)

@[simp] theorem yields_ret : Yields (ret a) cs b ↔ cs = [] ∧ a = b := by
  rw [Yields, after_ret, ret.injEq, eq_comm (a := b)]

@[simp] theorem yields_pure : Yields (pure a) cs b ↔ cs = [] ∧ a = b := yields_ret

theorem yields_call {op : Op} {next : Reply op → Prog Op Reply α} :
    Yields (call op next) cs a ↔ ∃ r cs', cs = ⟨op, r⟩ :: cs' ∧ Yields (next r) cs' a := by
  rw [Yields, after_call]
  constructor
  · rintro (⟨-, h⟩ | h)
    · cases h
    · exact h
  · exact .inr

theorem yields_perform {op : Op} {r : Reply op} :
    Yields (perform op) cs r ↔ cs = [⟨op, r⟩] := by
  rw [perform, yields_call]
  constructor
  · rintro ⟨r', cs', rfl, h⟩
    obtain ⟨rfl, rfl⟩ := yields_ret.mp h
    rfl
  · rintro rfl
    exact ⟨r, [], rfl, yields_ret.mpr ⟨rfl, rfl⟩⟩

/-- A history has one outcome. -/
theorem Yields.unique (h : Yields p cs a) (h' : Yields p cs b) : a = b := by
  induction p generalizing cs with
  | ret c => exact ((yields_ret.mp h).2).symm.trans (yields_ret.mp h').2
  | call op next ih =>
    obtain ⟨r, cs₁, rfl, h₁⟩ := yields_call.mp h
    obtain ⟨r', cs₂, hcs, h₂⟩ := yields_call.mp h'
    cases hcs
    exact ih r h₁ h₂

/-- Where a sequence can be: still in its first part, about to make a call of it, or past it. -/
theorem after_bind {f : α → Prog Op Reply β} {q : Prog Op Reply β} :
    After (p >>= f) cs q ↔ (∃ op next, After p cs (.call op next) ∧ q = .call op next >>= f) ∨
      ∃ cs₁ cs₂ a, cs = cs₁ ++ cs₂ ∧ Yields p cs₁ a ∧ After (f a) cs₂ q := by
  induction p generalizing cs with
  | ret a =>
    rw [ret_bind]
    constructor
    · intro h; exact .inr ⟨[], cs, a, rfl, yields_ret.mpr ⟨rfl, rfl⟩, h⟩
    · rintro (⟨op, next, h, rfl⟩ | ⟨cs₁, cs₂, a', rfl, h, h'⟩)
      · cases (after_ret.mp h).2
      · obtain ⟨rfl, rfl⟩ := yields_ret.mp h; exact h'
  | call op next ih =>
    rw [call_bind, after_call]
    constructor
    · rintro (⟨rfl, rfl⟩ | ⟨r, cs', rfl, h⟩)
      · exact .inl ⟨op, next, .here _, rfl⟩
      · rcases (ih r).mp h with ⟨op', next', hp, rfl⟩ | ⟨cs₁, cs₂, a, rfl, hp, hf⟩
        · exact .inl ⟨op', next', .call hp, rfl⟩
        · exact .inr ⟨⟨op, r⟩ :: cs₁, cs₂, a, rfl, .call hp, hf⟩
    · rintro (⟨op', next', h, rfl⟩ | ⟨cs₁, cs₂, a, rfl, h, h'⟩)
      · rcases after_call.mp h with ⟨rfl, hcall⟩ | ⟨r, cs', rfl, hp⟩
        · exact .inl ⟨rfl, by rw [hcall]; rfl⟩
        · exact .inr ⟨r, cs', rfl, (ih r).mpr (.inl ⟨op', next', hp, rfl⟩)⟩
      · obtain ⟨r, cs', rfl, hp⟩ := yields_call.mp h
        exact .inr ⟨r, cs' ++ cs₂, rfl, (ih r).mpr (.inr ⟨cs', cs₂, a, rfl, hp, h'⟩)⟩

/-- The histories of a sequence are those of its parts, one after the other. -/
theorem yields_bind {f : α → Prog Op Reply β} {b : β} :
    Yields (p >>= f) cs b ↔
      ∃ cs₁ cs₂ a, cs = cs₁ ++ cs₂ ∧ Yields p cs₁ a ∧ Yields (f a) cs₂ b := by
  rw [Yields, after_bind]
  constructor
  · rintro (⟨op, next, -, hret⟩ | h)
    · cases hret
    · exact h
  · exact .inr

/-- A result handed on changed. -/
theorem yields_map {f : α → β} {b : β} : Yields (f <$> p) cs b ↔ ∃ a, Yields p cs a ∧ f a = b := by
  rw [map_eq_pure_bind, yields_bind]
  refine ⟨fun ⟨cs₁, cs₂, a, hcs, ha, hret⟩ => ?_, fun ⟨a, ha, hb⟩ => ?_⟩
  · obtain ⟨rfl, hb⟩ := yields_pure.mp hret
    rw [List.append_nil] at hcs
    exact ⟨a, hcs ▸ ha, hb⟩
  · exact ⟨cs, [], a, (List.append_nil cs).symm, ha, yields_pure.mpr ⟨rfl, hb⟩⟩

/-- The result of a program whose calls are all answered from a fixed source. -/
def eval (answer : (op : Op) → Reply op) : Prog Op Reply α → α
  | .ret a => a
  | .call op next => (next (answer op)).eval answer

@[simp] theorem eval_pure {answer : (op : Op) → Reply op} :
    (pure a : Prog Op Reply α).eval answer = a := rfl

@[simp] theorem eval_bind {answer : (op : Op) → Reply op} {f : α → Prog Op Reply β} :
    (p >>= f).eval answer = (f (p.eval answer)).eval answer := by
  induction p with
  | ret a => rfl
  | call op next ih => exact ih _

@[simp] theorem eval_perform {answer : (op : Op) → Reply op} {op : Op} :
    (perform op : Prog Op Reply (Reply op)).eval answer = answer op := rfl

/-- It is what the program yields when its history is answered from there. -/
theorem eval_eq_iff {answer : (op : Op) → Reply op} :
    p.eval answer = a ↔ ∃ cs, Yields p cs a ∧ ∀ c ∈ cs, c.2 = answer c.1 := by
  induction p with
  | ret b =>
    refine ⟨fun h => ⟨[], yields_ret.mpr ⟨rfl, h⟩, fun c hc => absurd hc List.not_mem_nil⟩,
      fun ⟨cs, h, _⟩ => (yields_ret.mp h).2⟩
  | call op next ih =>
    rw [eval, ih]
    refine ⟨fun ⟨cs, h, hanswers⟩ => ⟨⟨op, answer op⟩ :: cs, .call h, fun c hc => ?_⟩,
      fun ⟨cs, h, hanswers⟩ => ?_⟩
    · rcases List.mem_cons.mp hc with rfl | hc
      · rfl
      · exact hanswers c hc
    · obtain ⟨r, cs', rfl, h'⟩ := yields_call.mp h
      obtain rfl : r = answer op := hanswers _ List.mem_cons_self
      exact ⟨cs', h', fun c hc => hanswers c (List.mem_cons_of_mem _ hc)⟩

/-- Some replies see every program to its end, as long as each call has some reply. -/
theorem exists_yields [∀ op, Inhabited (Reply op)] (p : Prog Op Reply α) :
    ∃ cs a, Yields p cs a := by
  induction p with
  | ret a => exact ⟨[], a, yields_ret.mpr ⟨rfl, rfl⟩⟩
  | call op next ih =>
    obtain ⟨cs, a, h⟩ := ih default
    exact ⟨⟨op, default⟩ :: cs, a, .call h⟩

/-- So a history cut short is the start of one that is not. -/
theorem After.exists_yields [∀ op, Inhabited (Reply op)] (h : After p cs q) :
    ∃ cs' a, Yields p (cs ++ cs') a := by
  obtain ⟨cs', a, hq⟩ := q.exists_yields
  exact ⟨cs', a, after_append.mpr ⟨q, h, hq⟩⟩

/-- The program makes no calls outside a class. -/
def Only (P : Op → Prop) : Prog Op Reply α → Prop
  | .ret _ => True
  | .call op next => P op ∧ ∀ r, (next r).Only P

variable {P : Op → Prop}

theorem only_pure (a : α) : (pure a : Prog Op Reply α).Only P := trivial

theorem only_perform {op : Op} (h : P op) : (perform op : Prog Op Reply (Reply op)).Only P :=
  ⟨h, fun _ => trivial⟩

theorem Only.bind {f : α → Prog Op Reply β} (hp : p.Only P) (hf : ∀ a, (f a).Only P) :
    (p >>= f).Only P := by
  induction p with
  | ret a => exact hf a
  | call op next ih => exact ⟨hp.1, fun r => ih r (hp.2 r)⟩

/-- So its history has none. -/
theorem Only.of_after (hp : p.Only P) (h : After p cs q) : ∀ c ∈ cs, P c.1 := by
  induction h with
  | here p => exact fun c hc => absurd hc List.not_mem_nil
  | call _ ih =>
    intro c hc
    rcases List.mem_cons.mp hc with rfl | hc
    · exact hp.1
    · exact ih (hp.2 _) c hc

/-! ## Programs that may fail -/

/-- A program that may fail with an error in `ε`; the first failure ends it. -/
abbrev Fallible (Op : Type) (Reply : Op → Type) (ε α : Type) := ExceptT ε (Prog Op Reply) α

variable {ε : Type}

/-- A result that takes no call. -/
def ofResult (x : Except ε α) : Fallible Op Reply ε α := ExceptT.mk (pure x)

theorem yields_ofResult {x out : Except ε α} :
    Yields (ofResult x : Fallible Op Reply ε α).run cs out ↔ cs = [] ∧ x = out := yields_pure

/-- The histories of a sequence of fallible programs. -/
theorem yields_tryBind {x : Fallible Op Reply ε α} {f : α → Fallible Op Reply ε β}
    {out : Except ε β} :
    Yields (x >>= f).run cs out ↔
      (∃ e, out = .error e ∧ Yields x.run cs (.error e)) ∨
      ∃ cs₁ cs₂ a, cs = cs₁ ++ cs₂ ∧ Yields x.run cs₁ (.ok a) ∧ Yields (f a).run cs₂ out := by
  rw [ExceptT.run_bind, yields_bind]
  constructor
  · rintro ⟨cs₁, cs₂, e | a, rfl, h, h'⟩
    · obtain ⟨rfl, rfl⟩ := yields_pure.mp h'
      exact .inl ⟨e, rfl, by rwa [List.append_nil]⟩
    · exact .inr ⟨cs₁, cs₂, a, rfl, h, h'⟩
  · rintro (⟨e, rfl, h⟩ | ⟨cs₁, cs₂, a, rfl, h, h'⟩)
    · exact ⟨cs, [], .error e, by simp, h, yields_pure.mpr ⟨rfl, rfl⟩⟩
    · exact ⟨cs₁, cs₂, .ok a, rfl, h, h'⟩

/-- A fallible sequence that succeeds succeeded in both parts. -/
theorem yields_tryBind_ok {x : Fallible Op Reply ε α} {f : α → Fallible Op Reply ε β} {b : β} :
    Yields (x >>= f).run cs (.ok b) ↔
      ∃ cs₁ cs₂ a, cs = cs₁ ++ cs₂ ∧ Yields x.run cs₁ (.ok a) ∧ Yields (f a).run cs₂ (.ok b) := by
  rw [yields_tryBind]
  constructor
  · rintro (⟨e, h, -⟩ | h)
    · cases h
    · exact h
  · exact .inr

/-- A result in front of a sequence is taken apart without a call. -/
theorem yields_ofResult_bind {x : Except ε α} {f : α → Fallible Op Reply ε β} {b : β} :
    Yields (ofResult x >>= f).run cs (.ok b) ↔ ∃ a, x = .ok a ∧ Yields (f a).run cs (.ok b) := by
  rw [yields_tryBind_ok]
  refine ⟨fun ⟨cs₁, cs₂, a, hcs, hx, hf⟩ => ?_, fun ⟨a, hx, hf⟩ => ?_⟩
  · obtain ⟨rfl, hresult⟩ := yields_ofResult.mp hx
    exact ⟨a, hresult, hcs ▸ hf⟩
  · exact ⟨[], cs, a, rfl, yields_ofResult.mpr ⟨rfl, hx⟩, hf⟩

/-- A result in front of a sequence, whichever way the whole ends. -/
theorem yields_ofResult_tryBind {x : Except ε α} {f : α → Fallible Op Reply ε β}
    {out : Except ε β} :
    Yields (ofResult x >>= f).run cs out ↔
      (∃ e, x = .error e ∧ cs = [] ∧ out = .error e) ∨
        ∃ a, x = .ok a ∧ Yields (f a).run cs out := by
  rcases x with e | a
  · refine yields_pure.trans ⟨fun ⟨hcs, hout⟩ => .inl ⟨e, rfl, hcs, hout.symm⟩, ?_⟩
    rintro (⟨e', he, hcs, hout⟩ | ⟨a, ha, -⟩)
    · cases he
      exact ⟨hcs, hout.symm⟩
    · cases ha
  · refine ⟨fun h => .inr ⟨a, rfl, h⟩, ?_⟩
    rintro (⟨e, he, -⟩ | ⟨a', ha, h⟩)
    · cases he
    · cases ha
      exact h

/-- A procedure that is one call, in front of a sequence: the call succeeds, and the sequence goes
on with its reply. -/
theorem yields_call_tryBind {x : Fallible Op Reply ε α} {exchange : Except ε α → Exchange Op Reply}
    (hx : ∀ {cs out}, Yields x.run cs out ↔ cs = [exchange out])
    {f : α → Fallible Op Reply ε β} {b : β} :
    Yields (x >>= f).run cs (.ok b) ↔
      ∃ a cs', cs = exchange (.ok a) :: cs' ∧ Yields (f a).run cs' (.ok b) := by
  rw [yields_tryBind_ok]
  refine ⟨fun ⟨cs₁, cs', a, hcs, ha, hf⟩ => ?_, fun ⟨a, cs', hcs, hf⟩ => ?_⟩
  · obtain rfl := hx.mp ha
    exact ⟨a, cs', hcs, hf⟩
  · exact ⟨[exchange (.ok a)], cs', a, hcs, hx.mpr rfl, hf⟩

/-- One call in front of a sequence, whichever way the whole ends. -/
theorem yields_exchange_tryBind {x : Fallible Op Reply ε α}
    {exchange : Except ε α → Exchange Op Reply}
    (hx : ∀ {cs out}, Yields x.run cs out ↔ cs = [exchange out])
    {f : α → Fallible Op Reply ε β} {out : Except ε β} :
    Yields (x >>= f).run cs out ↔
      (∃ e, cs = [exchange (.error e)] ∧ out = .error e) ∨
        ∃ a cs', cs = exchange (.ok a) :: cs' ∧ Yields (f a).run cs' out := by
  rw [yields_tryBind]
  constructor
  · rintro (⟨e, hout, he⟩ | ⟨cs₁, cs', a, hcs, ha, hf⟩)
    · exact .inl ⟨e, hx.mp he, hout⟩
    · obtain rfl := hx.mp ha
      exact .inr ⟨a, cs', hcs, hf⟩
  · rintro (⟨e, hcs, hout⟩ | ⟨a, cs', hcs, hf⟩)
    · exact .inl ⟨e, hout, hx.mpr hcs⟩
    · exact .inr ⟨[exchange (.ok a)], cs', a, hcs, hx.mpr rfl, hf⟩

theorem yields_tryPure {out : Except ε α} :
    Yields (pure a : Fallible Op Reply ε α).run cs out ↔ cs = [] ∧ .ok a = out := yields_pure

theorem Only.tryBind {x : Fallible Op Reply ε α} {f : α → Fallible Op Reply ε β}
    (hx : x.run.Only P) (hf : ∀ a, (f a).run.Only P) : (x >>= f).run.Only P := by
  rw [ExceptT.run_bind]
  refine hx.bind fun out => ?_
  rcases out with e | a
  · exact only_pure _
  · exact hf a

end Prog
