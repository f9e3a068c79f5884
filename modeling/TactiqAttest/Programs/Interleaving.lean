import TactiqAttest.Programs.Interaction
import TactiqAttest.Runs.Labelled

/-!
# Programs running side by side

Several programs run over one shared state.  A call is atomic: `sem s c s'` says that in state `s`
the exchange `c` may happen and leave `s'`.  Between any two calls, of the same program or of
different ones, other programs may make theirs, and the surroundings may act on their own (`env`).
An interleaving is then a run of the shared state whose transitions are the calls, each with the
name of the program that made it, and the acts of the surroundings; what one program did in it is
its *history*, read off the run.

* `Interleaving`: every program's history is one it can have.
* `exists_event_of_callsOf_eq_cons`: the first exchange of a history is a transition of the run,
  with nothing of that program before it and the rest of the history after it.  Applied repeatedly
  it places a whole history in the run.
-/

open Labelled

namespace Programs

/-- What happens in an interleaving: program `i` makes a call and gets its reply, or the
surroundings do something. -/
inductive Act (ι Op : Type) (Reply : Op → Type) (E : Type) where
  | call (i : ι) (c : Exchange Op Reply)
  | env (e : E)

variable {σ ι Op E : Type} {Reply : Op → Type}

/-- The transitions of the shared state. -/
inductive Shared (sem : σ → Exchange Op Reply → σ → Prop) (env : σ → E → σ → Prop) :
    σ → Act ι Op Reply E → σ → Prop
  | call {s s' : σ} {i : ι} {c : Exchange Op Reply} : sem s c s' → Shared sem env s (.call i c) s'
  | env {s s' : σ} {e : E} : env s e s' → Shared sem env s (.env e) s'

/-- The call an act is, if program `i` made it. -/
def Act.callOf [DecidableEq ι] (i : ι) : Act ι Op Reply E → Option (Exchange Op Reply)
  | .call j c => if j = i then some c else none
  | .env _ => none

/-- The history of program `i` in a run. -/
def callsOf [DecidableEq ι] (i : ι) (es : List (Event σ (Act ι Op Reply E))) :
    List (Exchange Op Reply) :=
  es.filterMap fun e => e.label.callOf i

section Histories

variable [DecidableEq ι] {i : ι} {es es' : List (Event σ (Act ι Op Reply E))}
  {c : Exchange Op Reply} {cs : List (Exchange Op Reply)}

theorem Act.callOf_eq_some {a : Act ι Op Reply E} : a.callOf i = some c ↔ a = .call i c := by
  cases a with
  | call j d =>
    rw [callOf, Act.call.injEq]
    by_cases h : j = i
    · rw [if_pos h, Option.some.injEq]
      exact ⟨fun hd => ⟨h, hd⟩, fun hd => hd.2⟩
    · rw [if_neg h]
      exact ⟨fun hd => (by cases hd), fun hd => absurd hd.1 h⟩
  | env e =>
    constructor
    · intro h; cases h
    · intro h; cases h

@[simp] theorem callsOf_nil : callsOf i ([] : List (Event σ (Act ι Op Reply E))) = [] := rfl

@[simp] theorem callsOf_append : callsOf i (es ++ es') = callsOf i es ++ callsOf i es' :=
  List.filterMap_append

theorem callsOf_cons_call {s s' : σ} :
    callsOf i (⟨s, .call i c, s'⟩ :: es) = c :: callsOf i es :=
  List.filterMap_cons_some (Act.callOf_eq_some.mpr rfl)

/-- Where the first exchange of a history is in the run. -/
theorem exists_event_of_callsOf_eq_cons (h : callsOf i es = c :: cs) :
    ∃ l e r, es = l ++ e :: r ∧ e.label = .call i c ∧ callsOf i l = [] ∧ callsOf i r = cs := by
  obtain ⟨l, e, r, rfl, hl, he, hr⟩ := List.filterMap_eq_cons_iff.mp h
  exact ⟨l, e, r, rfl, Act.callOf_eq_some.mp he, List.filterMap_eq_nil_iff.mpr hl, hr⟩

/-- Every exchange of a history is a transition of the run. -/
theorem exists_mem_of_mem_callsOf (h : c ∈ callsOf i es) : ∃ e ∈ es, e.label = .call i c := by
  obtain ⟨e, he, hcall⟩ := List.mem_filterMap.mp h
  exact ⟨e, he, Act.callOf_eq_some.mp hcall⟩

theorem mem_callsOf {e : Event σ (Act ι Op Reply E)} (he : e ∈ es) (hlabel : e.label = .call i c) :
    c ∈ callsOf i es :=
  List.mem_filterMap.mpr ⟨e, he, Act.callOf_eq_some.mpr hlabel⟩

end Histories

section Runs

variable {sem : σ → Exchange Op Reply → σ → Prop} {env : σ → E → σ → Prop}

/-- A call in a run did what calls do. -/
theorem Shared.sem_of_call {s s' : σ} {a : Act ι Op Reply E} {i : ι} {c : Exchange Op Reply}
    (h : Shared sem env s a s') (ha : a = .call i c) : sem s c s' := by
  cases h with
  | call hsem => cases ha; exact hsem
  | env => cases ha

variable [DecidableEq ι] {Out : ι → Type} {s t : σ} {es : List (Event σ (Act ι Op Reply E))}

/-- An interleaving of the programs `procs`: a run of the shared state in which every program's
history is one it can have.  A program may stop being scheduled at any point. -/
structure Interleaving (sem : σ → Exchange Op Reply → σ → Prop) (env : σ → E → σ → Prop)
    (procs : (i : ι) → Prog Op Reply (Out i)) (s : σ)
    (es : List (Event σ (Act ι Op Reply E))) (t : σ) : Prop where
  /-- The shared state makes the transitions. -/
  run : Run (Shared sem env) s es t
  /-- Each program has become something. -/
  follows : ∀ i, ∃ q, (procs i).After (callsOf i es) q

/-- Placing the first call of a history in a run: a run up to the call without that program, the
call, and the run after it, which has the rest of the history. -/
theorem exists_call {i : ι} {c : Exchange Op Reply} {cs : List (Exchange Op Reply)}
    (hrun : Run (Shared sem env) s es t) (h : callsOf i es = c :: cs) :
    ∃ l m m' r, es = l ++ ⟨m, .call i c, m'⟩ :: r ∧ callsOf i l = [] ∧ callsOf i r = cs ∧
      Run (Shared sem env) s l m ∧ sem m c m' ∧ Run (Shared sem env) m' r t := by
  obtain ⟨l, ⟨m, a, m'⟩, r, rfl, hlabel, hl, hr⟩ := exists_event_of_callsOf_eq_cons h
  obtain ⟨hrunl, hstep, hrunr⟩ := hrun.around
  cases hlabel
  exact ⟨l, m, m', r, rfl, hl, hr, hrunl, hstep.sem_of_call rfl, hrunr⟩

/-- Placing any call of a history: the run up to it has the calls before it. -/
theorem exists_call_after {i : ι} {c : Exchange Op Reply} {cs cs' : List (Exchange Op Reply)}
    (hrun : Run (Shared sem env) s es t) (h : callsOf i es = cs ++ c :: cs') :
    ∃ l m m' r, es = l ++ ⟨m, .call i c, m'⟩ :: r ∧ callsOf i l = cs ∧ callsOf i r = cs' ∧
      Run (Shared sem env) s l m ∧ sem m c m' ∧ Run (Shared sem env) m' r t := by
  obtain ⟨l₁, l₂, rfl, rfl, hl₂⟩ := List.filterMap_eq_append_iff.mp h
  obtain ⟨n, hrun₁, hrun₂⟩ := Run.append_iff.mp hrun
  obtain ⟨l, m, m', r, rfl, hl, hr, hrunl, hsem, hrunr⟩ := exists_call hrun₂ hl₂
  refine ⟨l₁ ++ l, m, m', r, (List.append_assoc ..).symm, ?_, hr, ?_, hsem, hrunr⟩
  · rw [callsOf_append, hl, List.append_nil]
    rfl
  · exact Run.append_iff.mpr ⟨n, hrun₁, hrunl⟩

end Runs

end Programs
