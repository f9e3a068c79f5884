import TactiqAttest.Programs.Obligations
import TactiqAttest.Runs.Labelled

/-!
# A host that runs one program after another

A host has a state, and at any time at most one program that works on it.  Programs are started,
make their calls and return; and at any point the program may be killed, or a fault may strike the
host, which takes the program with it and may change the state.

To keep a property `I` of the state over the whole life of the host, it is enough that every program
that is started obeys a discipline `P` under which no call breaks `I`, and that no fault breaks it.
`Lives.kept` is that rule.  It gives, besides `I` throughout, that every call that was ever made was
one that `P` allows in the state it was made in.

`I` and `P` may also be about the calls made so far, by whichever program: `Lives.kept_remembering`
is the rule for a host that remembers them.
-/

open Labelled

namespace Programs

open Prog

variable {σ Op ι F : Type} {Reply : Op → Type} {Out : ι → Type}

/-- A state, and what is left to do of the program that is running on it, if one is. -/
structure Host (σ : Type) (Op : Type) (Reply : Op → Type) (ι : Type) (Out : ι → Type) where
  state : σ
  running : Option ((i : ι) × Prog Op Reply (Out i))

/-- What happens on a host. -/
inductive Occasion (Op : Type) (Reply : Op → Type) (ι : Type) (Out : ι → Type) (F : Type) where
  | start (i : ι)
  | call (c : Exchange Op Reply)
  | finish (i : ι) (out : Out i)
  | kill
  | fault (f : F)

/-- One step of its life. -/
inductive Lives (program : (i : ι) → Prog Op Reply (Out i)) (sem : σ → Exchange Op Reply → σ → Prop)
    (fault : σ → F → σ → Prop) :
    Host σ Op Reply ι Out → Occasion Op Reply ι Out F → Host σ Op Reply ι Out → Prop
  | start (s : σ) (i : ι) : Lives program sem fault ⟨s, none⟩ (.start i) ⟨s, some ⟨i, program i⟩⟩
  | call {s s' : σ} {i : ι} {op : Op} {r : Reply op} {next : Reply op → Prog Op Reply (Out i)} :
      sem s ⟨op, r⟩ s' →
      Lives program sem fault ⟨s, some ⟨i, .call op next⟩⟩ (.call ⟨op, r⟩) ⟨s', some ⟨i, next r⟩⟩
  | finish (s : σ) (i : ι) (out : Out i) :
      Lives program sem fault ⟨s, some ⟨i, .ret out⟩⟩ (.finish i out) ⟨s, none⟩
  | kill (w : Host σ Op Reply ι Out) : Lives program sem fault w .kill ⟨w.state, none⟩
  | fault {w : Host σ Op Reply ι Out} {f : F} {s' : σ} :
      fault w.state f s' → Lives program sem fault w (.fault f) ⟨s', none⟩

variable {program : (i : ι) → Prog Op Reply (Out i)} {sem : σ → Exchange Op Reply → σ → Prop}
  {fault : σ → F → σ → Prop} {I : σ → Prop} {P : σ → Op → Prop} {Q : (i : ι) → σ → Out i → Prop}
  {w w' : Host σ Op Reply ι Out} {a : Occasion Op Reply ι Out F}
  {es : List (Event (Host σ Op Reply ι Out) (Occasion Op Reply ι Out F))}

variable (sem I P Q) in
/-- The property holds, and what is running obeys the discipline, and will have `Q` when it
returns. -/
structure Disciplined (w : Host σ Op Reply ι Out) : Prop where
  state : I w.state
  obeys : ∀ i p, w.running = some ⟨i, p⟩ → Obeys sem P p (Q i) w.state

theorem disciplined_idle {s : σ} (h : I s) :
    Disciplined sem I P Q (⟨s, none⟩ : Host σ Op Reply ι Out) :=
  ⟨h, fun _ _ hp => by cases hp⟩

variable (I P Q) in
/-- What is asked of the programs, the calls and the faults. -/
structure Discipline (program : (i : ι) → Prog Op Reply (Out i))
    (sem : σ → Exchange Op Reply → σ → Prop) (fault : σ → F → σ → Prop) : Prop where
  /-- Every program obeys, from wherever it is started. -/
  program : ∀ i s, I s → Obeys sem P (program i) (Q i) s
  /-- No call that is allowed breaks the property. -/
  call : ∀ s op r s', I s → P s op → sem s ⟨op, r⟩ s' → I s'
  /-- No fault breaks it. -/
  fault : ∀ s f s', I s → fault s f s' → I s'

theorem Disciplined.step (hD : Discipline I P Q program sem fault) (h : Disciplined sem I P Q w)
    (hstep : Lives program sem fault w a w') : Disciplined sem I P Q w' := by
  cases hstep with
  | start s i =>
    refine ⟨h.state, fun j p hp => ?_⟩
    cases hp
    exact hD.program i s h.state
  | call hsem =>
    have hobeys := h.obeys _ _ rfl
    refine ⟨hD.call _ _ _ _ h.state hobeys.1 hsem, fun j p hp => ?_⟩
    cases hp
    exact hobeys.call hsem
  | finish s i out => exact disciplined_idle h.state
  | kill w => exact disciplined_idle h.state
  | fault hfault => exact disciplined_idle (hD.fault _ _ _ h.state hfault)

/-- A call is made under the discipline. -/
theorem Disciplined.allowed {op : Op} {r : Reply op} (h : Disciplined sem I P Q w)
    (hstep : Lives program sem fault w (.call ⟨op, r⟩) w') :
    P w.state op ∧ sem w.state ⟨op, r⟩ w'.state := by
  cases hstep with
  | call hsem => exact ⟨(h.obeys _ _ rfl).1, hsem⟩

/-- What a program that returns has. -/
theorem Disciplined.finished {i : ι} {out : Out i} (h : Disciplined sem I P Q w)
    (hstep : Lives program sem fault w (.finish i out) w') :
    Q i w.state out ∧ w'.state = w.state := by
  cases hstep with
  | finish s i out => exact ⟨h.obeys _ _ rfl, rfl⟩

/-- **The discipline is kept over the whole life of a host.** -/
theorem Lives.kept (hD : Discipline I P Q program sem fault)
    (hrun : Run (Lives program sem fault) w es w') (h : Disciplined sem I P Q w) :
    Disciplined sem I P Q w' ∧
      ∀ e ∈ es, Disciplined sem I P Q e.pre ∧ Disciplined sem I P Q e.post :=
  hrun.invariant (fun _ _ _ hstep h => h.step hD hstep) h

/-! ## The calls made so far -/

/-- The call that an occasion is, if it is one. -/
def Occasion.calls : Occasion Op Reply ι Out F → List (Exchange Op Reply)
  | .call c => [c]
  | _ => []

/-- The calls made in a run, in order. -/
def made (es : List (Event (Host σ Op Reply ι Out) (Occasion Op Reply ι Out F))) :
    List (Exchange Op Reply) :=
  es.flatMap fun e => e.label.calls

/-- The calls made so far, as part of the state of a host. -/
def Host.remember (past : List (Exchange Op Reply)) (w : Host σ Op Reply ι Out) :
    Host (σ × List (Exchange Op Reply)) Op Reply ι Out :=
  ⟨(w.state, past), w.running⟩

/-- A fault, in a state with the calls made so far. -/
def sparing (fault : σ → F → σ → Prop) (s : σ × List (Exchange Op Reply)) (f : F)
    (s' : σ × List (Exchange Op Reply)) : Prop :=
  fault s.1 f s'.1 ∧ s'.2 = s.2

theorem Lives.remember (hstep : Lives program sem fault w a w') (past : List (Exchange Op Reply)) :
    Lives program (withHistory sem) (sparing fault) (w.remember past) a
      (w'.remember (past ++ a.calls)) := by
  have hsame : past ++ [] = past := List.append_nil past
  cases hstep with
  | start s i =>
    show Lives _ _ _ _ _ ⟨(s, past ++ []), some ⟨i, program i⟩⟩
    rw [hsame]
    exact .start _ i
  | call hsem => exact .call ⟨hsem, rfl⟩
  | finish s i out =>
    show Lives _ _ _ _ _ ⟨(s, past ++ []), none⟩
    rw [hsame]
    exact .finish _ i out
  | kill w =>
    show Lives _ _ _ _ _ ⟨(w.state, past ++ []), none⟩
    rw [hsame]
    exact .kill (w.remember past)
  | @fault w f s' hfault =>
    show Lives _ _ _ _ _ ⟨(s', past ++ []), none⟩
    rw [hsame]
    exact Lives.fault ⟨hfault, rfl⟩

/-- **A discipline about the calls made so far is kept**, and every transition of the run is one of
the host that remembers them. -/
theorem Lives.kept_remembering {I : σ × List (Exchange Op Reply) → Prop}
    {P : σ × List (Exchange Op Reply) → Op → Prop}
    {Q : (i : ι) → σ × List (Exchange Op Reply) → Out i → Prop}
    (hD : Discipline I P Q program (withHistory sem) (sparing fault))
    (hrun : Run (Lives program sem fault) w es w') (past : List (Exchange Op Reply))
    (h : Disciplined (withHistory sem) I P Q (w.remember past)) :
    Disciplined (withHistory sem) I P Q (w'.remember (past ++ made es)) ∧
      ∀ l e r, es = l ++ e :: r →
        Disciplined (withHistory sem) I P Q (e.pre.remember (past ++ made l)) ∧
        Lives program (withHistory sem) (sparing fault) (e.pre.remember (past ++ made l)) e.label
          (e.post.remember (past ++ made (l ++ [e]))) := by
  induction hrun generalizing past with
  | nil s =>
    refine ⟨by rwa [made, List.flatMap_nil, List.append_nil], fun l e r hes => ?_⟩
    rcases l with _ | _ <;> cases hes
  | @cons s s' t a es hstep _ ih =>
    have hremember := hstep.remember past
    obtain ⟨hlast, hall⟩ := ih (past ++ a.calls) (h.step hD hremember)
    have hmade : ∀ l, past ++ made (⟨s, a, s'⟩ :: l) = past ++ a.calls ++ made l := fun l => by
      rw [made, List.flatMap_cons, List.append_assoc, made]
    refine ⟨(hmade es).symm ▸ hlast, fun l e r hes => ?_⟩
    rcases l with _ | ⟨e', l⟩
    · obtain ⟨rfl, -⟩ := List.cons.inj hes
      rw [List.nil_append, hmade []]
      simpa [made] using And.intro h hremember
    · obtain ⟨rfl, hrest⟩ := List.cons.inj hes
      rw [List.cons_append, hmade l, hmade]
      exact hall l e r hrest

/-- What a program does before it is stopped is part of the life of a host. -/
theorem run_of_performs {s s' : σ} {i : ι} {p q : Prog Op Reply (Out i)}
    {cs : List (Exchange Op Reply)} (hafter : After p cs q) (hperf : Performs sem s cs s') :
    ∃ es : List (Event (Host σ Op Reply ι Out) (Occasion Op Reply ι Out F)),
      Run (Lives program sem fault) ⟨s, some ⟨i, p⟩⟩ es ⟨s', some ⟨i, q⟩⟩ ∧
        es.map Event.label = cs.map .call := by
  induction hafter generalizing s with
  | here p =>
    cases hperf
    exact ⟨[], .nil _, rfl⟩
  | @call op next r cs q _ ih =>
    rcases hperf with _ | ⟨hsem, hperf⟩
    obtain ⟨es, hrun, hlabels⟩ := ih hperf
    exact ⟨_, .cons (.call hsem) hrun, by simp [hlabels]⟩

end Programs
