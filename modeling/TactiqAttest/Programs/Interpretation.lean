import TactiqAttest.Programs.Contract
import TactiqAttest.Programs.Obligations

/-!
# Programs whose calls are programs

A procedure written against its own small set of calls is used inside a larger program by saying
what each of its calls is there: `p.interpret h` is `p` with every call `op` replaced by the program
`h op`, whose result is taken for the reply.

* `yields_interpret`: a history of the whole is a history of `p`, with a history of `h op` in the
  place of every exchange.
* `obeys_simulate`: what `p` obeys over its own states, `p.interpret h` obeys over others that are
  related to them, if each `h op` leads to where a state is that the call may lead to.
* `obeys_interpret`: in particular over larger ones, if each `h op` does to the part that `p` works
  on what the call may do.  Whatever else the `h op` keep is kept by the whole.
* `Ensures.obeys`: the other way to allow for others, as part of what a call may do.
-/

namespace Prog

variable {σ τ Op Op' : Type} {Reply : Op → Type} {Reply' : Op' → Type} {α β ε : Type}

/-- The program with each of its calls replaced by a program that answers it. -/
def interpret (h : (op : Op) → Prog Op' Reply' (Reply op)) : Prog Op Reply α → Prog Op' Reply' α
  | .ret a => .ret a
  | .call op next => h op >>= fun r => (next r).interpret h

/-- The same for programs that may fail. -/
def interpretTry (h : (op : Op) → Prog Op' Reply' (Reply op)) (x : Fallible Op Reply ε α) :
    Fallible Op' Reply' ε α :=
  ExceptT.mk (x.run.interpret h)

variable {h : (op : Op) → Prog Op' Reply' (Reply op)} {p : Prog Op Reply α} {a : α}

/-! ## Histories -/

variable (h) in
/-- The exchanges `cs` of a program, with the exchanges that answered each of them. -/
inductive Answers : List (Exchange Op Reply) → List (Exchange Op' Reply') → Prop
  | nil : Answers [] []
  | cons {op : Op} {r : Reply op} {cs : List (Exchange Op Reply)}
      {cs₁ cs₂ : List (Exchange Op' Reply')} :
      Yields (h op) cs₁ r → Answers cs cs₂ → Answers (⟨op, r⟩ :: cs) (cs₁ ++ cs₂)

/-- A history of the whole is one of the program, with each exchange answered. -/
theorem yields_interpret {cs' : List (Exchange Op' Reply')} :
    Yields (p.interpret h) cs' a ↔ ∃ cs, Yields p cs a ∧ Answers h cs cs' := by
  induction p generalizing cs' with
  | ret b =>
    rw [interpret, yields_ret]
    constructor
    · rintro ⟨rfl, rfl⟩
      exact ⟨[], yields_ret.mpr ⟨rfl, rfl⟩, .nil⟩
    · rintro ⟨cs, hret, hanswers⟩
      obtain ⟨rfl, rfl⟩ := yields_ret.mp hret
      cases hanswers
      exact ⟨rfl, rfl⟩
  | call op next ih =>
    rw [interpret, yields_bind]
    constructor
    · rintro ⟨cs₁, cs₂, r, rfl, hr, hrest⟩
      obtain ⟨cs, hcs, hanswers⟩ := (ih r).mp hrest
      exact ⟨_, yields_call.mpr ⟨r, cs, rfl, hcs⟩, .cons hr hanswers⟩
    · rintro ⟨cs, hcall, hanswers⟩
      obtain ⟨r, cs', rfl, hrest⟩ := yields_call.mp hcall
      cases hanswers with
      | cons hr hanswers => exact ⟨_, _, r, rfl, hr, (ih r).mpr ⟨cs', hrest, hanswers⟩⟩

/-- An exchange of the program was answered somewhere in the history of the whole. -/
theorem Answers.of_mem {cs : List (Exchange Op Reply)} {cs' : List (Exchange Op' Reply')}
    {c : Exchange Op Reply} (hanswers : Answers h cs cs') (hc : c ∈ cs) :
    ∃ l m r, cs' = l ++ m ++ r ∧ Yields (h c.1) m c.2 := by
  induction hanswers with
  | nil => cases hc
  | @cons op r cs cs₁ cs₂ hr _ ih =>
    rcases List.mem_cons.mp hc with rfl | hc
    · exact ⟨[], cs₁, cs₂, rfl, hr⟩
    · obtain ⟨l, m, r', rfl, hm⟩ := ih hc
      exact ⟨cs₁ ++ l, m, r', by simp, hm⟩

/-- Where every call is answered by one, the history is the same but for the names of the calls. -/
theorem Answers.eq_map {cs : List (Exchange Op Reply)} {cs' : List (Exchange Op' Reply')}
    {e : Exchange Op Reply → Exchange Op' Reply'}
    (he : ∀ {op : Op} {cs : List (Exchange Op' Reply')} {r : Reply op},
      Yields (h op) cs r → cs = [e ⟨op, r⟩])
    (hanswers : Answers h cs cs') : cs' = cs.map e := by
  induction hanswers with
  | nil => rfl
  | cons hr _ ih => rw [he hr, ih, List.map_cons, List.singleton_append]

/-- Any class with all calls in it. -/
theorem only_of_forall {P : Op → Prop} (hP : ∀ op, P op) : p.Only P := by
  induction p with
  | ret a => trivial
  | call op next ih => exact ⟨hP op, ih⟩

theorem Only.mono {P P' : Op → Prop} (hp : p.Only P) (hP : ∀ op, P op → P' op) : p.Only P' := by
  induction p with
  | ret a => trivial
  | call op next ih => exact ⟨hP op hp.1, fun r => ih r (hp.2 r)⟩

/-- The calls of the whole are those that answer. -/
theorem Only.interpret {P : Op → Prop} {P' : Op' → Prop} (hp : p.Only P)
    (hh : ∀ op, P op → (h op).Only P') : (p.interpret h).Only P' := by
  induction p with
  | ret a => trivial
  | call op next ih => exact (hh op hp.1).bind fun r => ih r (hp.2 r)

/-! ## States -/

variable {sem : σ → Exchange Op Reply → σ → Prop} {sem' : τ → Exchange Op' Reply' → τ → Prop}
  {P : σ → Op → Prop} {P' : τ → Op' → Prop} {Q : σ → α → Prop} {proj : τ → σ} {F : τ → Prop} {t : τ}

/-- What a program obeys over its own states, its interpretation obeys over states that are related
to them: where each call is answered by a program that ends in relation with a state the call may
lead to. -/
theorem obeys_simulate {s : σ} (Rel : τ → σ → Prop)
    (hh : ∀ t s op, Rel t s → P s op →
      Obeys sem' P' (h op) (fun t' r => ∃ s', sem s ⟨op, r⟩ s' ∧ Rel t' s') t)
    (hrel : Rel t s) (hp : Obeys sem P p Q s) :
    Obeys sem' P' (p.interpret h) (fun t' a => ∃ s', Rel t' s' ∧ Q s' a) t := by
  induction p generalizing t s with
  | ret a => exact ⟨s, hrel, hp⟩
  | call op next ih =>
    refine obeys_bind ((hh t s op hrel hp.1).mono (fun _ _ h => h) ?_)
    rintro t' r ⟨s', hsem, hrel'⟩
    exact ih r hrel' (hp.2 r s' hsem)

/-- Over larger states: where each call is answered by a program that does to the part `proj` what
the call may do, and keeps `F`. -/
theorem obeys_interpret (proj : τ → σ) (F : τ → Prop)
    (hh : ∀ t op, F t → P (proj t) op →
      Obeys sem' P' (h op) (fun t' r => F t' ∧ sem (proj t) ⟨op, r⟩ (proj t')) t)
    (hF : F t) (hp : Obeys sem P p Q (proj t)) :
    Obeys sem' P' (p.interpret h) (fun t' a => F t' ∧ Q (proj t') a) t := by
  refine (obeys_simulate (fun t s => F t ∧ proj t = s) ?_ ⟨hF, rfl⟩ hp).mono (fun _ _ h => h) ?_
  · rintro t _ op ⟨hFt, rfl⟩ hop
    refine (hh t op hFt hop).mono (fun _ _ h => h) ?_
    rintro t' r ⟨hFt', hsem⟩
    exact ⟨proj t', hsem, hFt', rfl⟩
  · rintro t a ⟨_, ⟨hFt, rfl⟩, hQ⟩
    exact ⟨hFt, hQ⟩

/-- Whatever the answers, it is the program that is run. -/
theorem after_runFor (machine : σ → (op : Op) → Reply op × σ) (n : ℕ)
    (p : Prog Op Reply α) (s : σ) :
    After p (runFor machine n p s).1 (runFor machine n p s).2.2 := by
  let sem (_ : σ) (_ : Exchange Op Reply) (_ : σ) : Prop := True
  have hpossible : ∀ s op, sem s ⟨op, (machine s op).1⟩ (machine s op).2 := fun _ _ => trivial
  exact (runFor_possible hpossible n p s).1

/-- What a program may do over the whole of a state, it may do over a part of it. -/
theorem Performs.map {g : τ → σ} {sem' : τ → Exchange Op Reply → τ → Prop}
    {cs : List (Exchange Op Reply)} {t t' : τ} (h : Performs sem' t cs t')
    (hsem : ∀ t c t', sem' t c t' → sem (g t) c (g t')) : Performs sem (g t) cs (g t') := by
  induction h with
  | nil t => exact .nil _
  | cons hcall _ ih => exact .cons (hsem _ _ _ hcall) ih

/-- Every call was made in some state. -/
theorem Performs.of_mem {cs : List (Exchange Op Reply)} {c : Exchange Op Reply} {s s' : σ}
    (h : Performs sem s cs s') (hc : c ∈ cs) : ∃ m m', sem m c m' := by
  induction h with
  | nil s => cases hc
  | cons hcall _ ih =>
    rcases List.mem_cons.mp hc with rfl | hc
    · exact ⟨_, _, hcall⟩
    · exact ih hc

/-! ## Obligations together -/

/-- What a program obeys over a part of the state, it obeys over the whole. -/
theorem Obeys.comap (proj : τ → σ) {sem' : τ → Exchange Op Reply → τ → Prop}
    (h : Obeys sem P p Q (proj t)) (hsem : ∀ t c t', sem' t c t' → sem (proj t) c (proj t')) :
    Obeys sem' (fun t => P (proj t)) p (fun t => Q (proj t)) t := by
  induction p generalizing t with
  | ret a => exact h
  | call op next ih => exact ⟨h.1, fun r t' hcall => ih r (h.2 r _ (hsem _ _ _ hcall))⟩

theorem Obeys.and {s : σ} {P₂ : σ → Op → Prop} {Q₂ : σ → α → Prop} (h : Obeys sem P p Q s)
    (h₂ : Obeys sem P₂ p Q₂ s) :
    Obeys sem (fun s op => P s op ∧ P₂ s op) p (fun s a => Q s a ∧ Q₂ s a) s := by
  induction p generalizing s with
  | ret a => exact ⟨h, h₂⟩
  | call op next ih =>
    exact ⟨⟨h.1, h₂.1⟩, fun r s' hcall => ih r (h.2 r s' hcall) (h₂.2 r s' hcall)⟩

/-- What no allowed call breaks may be asked for before each of them, and holds at the end. -/
theorem Obeys.keeping {s : σ} {I : σ → Prop}
    (hI : ∀ s op r s', I s → P s op → sem s ⟨op, r⟩ s' → I s') (h : Obeys sem P p Q s) (hs : I s) :
    Obeys sem (fun s op => I s ∧ P s op) p (fun s a => I s ∧ Q s a) s := by
  induction p generalizing s with
  | ret a => exact ⟨hs, h⟩
  | call op next ih =>
    exact ⟨⟨hs, h.1⟩, fun r s' hcall => ih r (h.2 r s' hcall) (hI _ _ _ _ hs h.1 hcall)⟩

/-- A program that makes only calls that keep `I`. -/
theorem Only.obeys {s : σ} {N : Op → Prop} {I : σ → Prop} (hp : p.Only N)
    (hP : ∀ s op, I s → N op → P s op)
    (hI : ∀ s op r s', I s → N op → sem s ⟨op, r⟩ s' → I s') (hs : I s) :
    Obeys sem P p (fun s _ => I s) s := by
  induction p generalizing s with
  | ret a => exact hs
  | call op next ih =>
    exact ⟨hP s op hs hp.1, fun r s' hcall => ih r (hp.2 r) (hI _ _ _ _ hs hp.1 hcall)⟩

/-- Moves of others, made before each call, are part of what the call may do. -/
def Disturbed (rely : σ → σ → Prop) (sem : σ → Exchange Op Reply → σ → Prop) (s : σ)
    (c : Exchange Op Reply) (s' : σ) : Prop :=
  ∃ m, rely s m ∧ sem m c s'

theorem Ensures.obeys {rely : σ → σ → Prop} {s : σ} (hrefl : ∀ s, rely s s)
    (hp : Ensures sem rely p Q s) : Obeys (Disturbed rely sem) (fun _ _ => True) p Q s := by
  induction p generalizing s with
  | ret a => exact hp.ret hrefl
  | call op next ih =>
    refine ⟨trivial, fun r s' hcall => ?_⟩
    obtain ⟨m, hm, hsem⟩ := hcall
    exact ih r (hp m hm r s' hsem)

end Prog
