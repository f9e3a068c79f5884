import TactiqAttest.Programs.Interpretation
import TactiqAttest.Runs.Labelled

/-!
# Programs that take a lock

Any number of programs work on one state, each in its own process.  There is a lock: a call that
`grants` it succeeds only while nobody holds it, and it is let go when the process returns, is
killed, or goes down with the rest.  A call that a process was waiting for when it was killed may be
carried out all the same, and late, when somebody else has the lock: it is an *orphan* until then.

Each program asks before it works.  While a process does not hold the lock it makes only calls that
change nothing; once it has been granted the lock it obeys a discipline, which may speak of the
state the lock was taken in and of the calls made since.  Then the processes do not disturb each
other (`Steps.kept`): whatever is done to the state is done by the one that holds the lock, or by an
orphan; and as long as no orphan has changed it since the lock was taken, what the holder has made
of it is what it would have made of it alone.
-/

open Labelled

namespace Programs

open Prog

variable {σ Op ι : Type} {Reply : Op → Type} {Out : ι → Type}

/-! ## Crowds -/

/-- How a process holds the lock: the state it took it in, its calls since then, and whether an
orphan has changed the state in the meantime. -/
structure Hold (σ Op : Type) (Reply : Op → Type) where
  pid : ℕ
  since : σ
  calls : List (Exchange Op Reply)
  disturbed : Prop

/-- Process `k` makes a call. -/
def Hold.note (k : ℕ) (c : Exchange Op Reply) (h : Hold σ Op Reply) : Hold σ Op Reply :=
  if h.pid = k then { h with calls := h.calls ++ [c] } else h

/-- An orphan is carried out, and changes the state or not. -/
def Hold.meet (change : Prop) (h : Hold σ Op Reply) : Hold σ Op Reply :=
  { h with disturbed := h.disturbed ∨ change }

/-- A state, who holds the lock, what is left to do of the program of each process, and the calls of
killed processes that may still be carried out. -/
structure Crowd (σ : Type) (Op : Type) (Reply : Op → Type) (ι : Type) (Out : ι → Type) where
  state : σ
  holder : Option (Hold σ Op Reply)
  running : ℕ → Option ((i : ι) × Prog Op Reply (Out i))
  orphans : List Op

/-- What happens in a crowd; the number is that of the process. -/
inductive Deed (Op : Type) (Reply : Op → Type) (ι : Type) (Out : ι → Type) where
  | start (k : ℕ) (i : ι)
  | call (k : ℕ) (c : Exchange Op Reply)
  | finish (k : ℕ) (i : ι) (out : Out i)
  | kill (k : ℕ)
  /-- An orphan is carried out. -/
  | late (c : Exchange Op Reply)
  | crash

variable (Op Reply Out) in
/-- Nobody runs. -/
def nobody : ℕ → Option ((i : ι) × Prog Op Reply (Out i)) := fun _ => none

/-- The holder, once a process is gone. -/
def release (k : ℕ) (holder : Option (Hold σ Op Reply)) : Option (Hold σ Op Reply) :=
  holder.filter fun h => h.pid ≠ k

/-- The crowd, once a process is gone. -/
def Crowd.without (w : Crowd σ Op Reply ι Out) (k : ℕ) : Crowd σ Op Reply ι Out :=
  ⟨w.state, release k w.holder, Function.update w.running k none, w.orphans⟩

/-- One step of a crowd. -/
inductive Steps (program : (i : ι) → Prog Op Reply (Out i)) (sem : σ → Exchange Op Reply → σ → Prop)
    (grants : Exchange Op Reply → Prop) :
    Crowd σ Op Reply ι Out → Deed Op Reply ι Out → Crowd σ Op Reply ι Out → Prop
  | start {w : Crowd σ Op Reply ι Out} (k : ℕ) (i : ι) : w.running k = none →
      Steps program sem grants w (.start k i)
        ⟨w.state, w.holder, Function.update w.running k (some ⟨i, program i⟩), w.orphans⟩
  | call {w : Crowd σ Op Reply ι Out} {k : ℕ} {i : ι} {op : Op} {r : Reply op} {s' : σ}
      {next : Reply op → Prog Op Reply (Out i)} : w.running k = some ⟨i, .call op next⟩ →
      ¬ grants ⟨op, r⟩ → sem w.state ⟨op, r⟩ s' →
      Steps program sem grants w (.call k ⟨op, r⟩)
        ⟨s', w.holder.map (.note k ⟨op, r⟩),
          Function.update w.running k (some ⟨i, next r⟩), w.orphans⟩
  | lock {w : Crowd σ Op Reply ι Out} {k : ℕ} {i : ι} {op : Op} {r : Reply op} {s' : σ}
      {next : Reply op → Prog Op Reply (Out i)} : w.running k = some ⟨i, .call op next⟩ →
      grants ⟨op, r⟩ → w.holder = none → sem w.state ⟨op, r⟩ s' →
      Steps program sem grants w (.call k ⟨op, r⟩)
        ⟨s', some ⟨k, s', [], False⟩, Function.update w.running k (some ⟨i, next r⟩), w.orphans⟩
  | finish {w : Crowd σ Op Reply ι Out} {k : ℕ} {i : ι} {out : Out i} :
      w.running k = some ⟨i, .ret out⟩ →
      Steps program sem grants w (.finish k i out) (w.without k)
  | kill {w : Crowd σ Op Reply ι Out} (k : ℕ) : Steps program sem grants w (.kill k) (w.without k)
  /-- The process is killed while it waits for a call. -/
  | abandon {w : Crowd σ Op Reply ι Out} {k : ℕ} {i : ι} {op : Op}
      {next : Reply op → Prog Op Reply (Out i)} : w.running k = some ⟨i, .call op next⟩ →
      Steps program sem grants w (.kill k) { w.without k with orphans := op :: w.orphans }
  | late {w : Crowd σ Op Reply ι Out} {before after : List Op} {op : Op} {r : Reply op} {s' : σ} :
      w.orphans = before ++ op :: after → sem w.state ⟨op, r⟩ s' →
      Steps program sem grants w (.late ⟨op, r⟩)
        ⟨s', w.holder.map (.meet (s' ≠ w.state)), w.running, before ++ after⟩
  | crash {w : Crowd σ Op Reply ι Out} :
      Steps program sem grants w .crash ⟨w.state, none, nobody Op Reply Out, []⟩

variable {program : (i : ι) → Prog Op Reply (Out i)} {sem : σ → Exchange Op Reply → σ → Prop}
  {grants : Exchange Op Reply → Prop} {N : Op → Prop} {I : σ → Prop}
  {P : ι → σ → σ × List (Exchange Op Reply) → Op → Prop}
  {Q : (i : ι) → σ → σ × List (Exchange Op Reply) → Out i → Prop} {R : (i : ι) → Out i → Prop}
  {w w' : Crowd σ Op Reply ι Out} {a : Deed Op Reply ι Out} {k : ℕ} {i : ι}
  {es : List (Event (Crowd σ Op Reply ι Out) (Deed Op Reply ι Out))}

theorem Hold.note_of_ne {h : Hold σ Op Reply} {c : Exchange Op Reply} (hk : h.pid ≠ k) :
    h.note k c = h := if_neg hk

/-- A call changes neither who has the lock nor since when. -/
theorem Hold.note_kept (h : Hold σ Op Reply) (c : Exchange Op Reply) : (h.note k c).pid = h.pid ∧
    (h.note k c).since = h.since ∧ (h.note k c).disturbed = h.disturbed := by
  rw [Hold.note]
  split_ifs
  · exact ⟨rfl, rfl, rfl⟩
  · exact ⟨rfl, rfl, rfl⟩

theorem release_eq_some {holder : Option (Hold σ Op Reply)} {h : Hold σ Op Reply} :
    release k holder = some h ↔ holder = some h ∧ h.pid ≠ k := by
  rw [release, Option.filter_eq_some_iff]
  simp

theorem Steps.of_finish {out : Out i} (h : Steps program sem grants w (.finish k i out) w') :
    w.running k = some ⟨i, .ret out⟩ ∧ w' = w.without k := by
  cases h with
  | finish hrunning => exact ⟨hrunning, rfl⟩

theorem Steps.of_call {op : Op} {r : Reply op}
    (h : Steps program sem grants w (.call k ⟨op, r⟩) w') :
    sem w.state ⟨op, r⟩ w'.state ∧ ∃ i next, w.running k = some ⟨i, .call op next⟩ := by
  cases h with
  | call hrunning _ hsem => exact ⟨hsem, _, _, hrunning⟩
  | lock hrunning _ _ hsem => exact ⟨hsem, _, _, hrunning⟩

/-- What is carried out late is an orphan, and does what calls do. -/
theorem Steps.of_late {op : Op} {r : Reply op} (h : Steps program sem grants w (.late ⟨op, r⟩) w') :
    op ∈ w.orphans ∧ sem w.state ⟨op, r⟩ w'.state := by
  cases h with
  | late horphans hsem =>
    refine ⟨?_, hsem⟩
    rw [horphans]
    exact List.mem_append_right _ List.mem_cons_self

/-! ## The discipline -/

variable (sem grants N I P Q R) in
/-- A program that asks for the lock before it works: until then it makes only calls of `N`, and
what it returns then is in `R`; from then on it obeys. -/
def Waits (i : ι) : Prog Op Reply (Out i) → Prop
  | .ret out => R i out
  | .call op next => N op ∧ ∀ r s s', I s → sem s ⟨op, r⟩ s' →
      (grants ⟨op, r⟩ → Obeys (withHistory sem) (P i s) (next r) (Q i s) (s, [])) ∧
      (¬ grants ⟨op, r⟩ → Waits i (next r))

variable (sem grants N I P Q R) in
/-- What is asked of the programs and the calls. -/
structure LockDiscipline (program : (i : ι) → Prog Op Reply (Out i)) : Prop where
  program : ∀ i, Waits sem grants N I P Q R i (program i)
  /-- The calls that are made without the lock change nothing, nor does the one that takes it. -/
  still : ∀ op r s s', N op → sem s ⟨op, r⟩ s' → s' = s
  /-- No call breaks the property. -/
  keeps : ∀ s c s', I s → sem s c s' → I s'

variable (sem grants N I P Q R) in
/-- The property holds; who holds the lock obeys, unless an orphan has come in between; and everyone
else still asks before they work. -/
structure Queued (w : Crowd σ Op Reply ι Out) : Prop where
  state : I w.state
  holds : ∀ h, w.holder = some h → I h.since ∧ ∃ i p, w.running h.pid = some ⟨i, p⟩ ∧
    (¬ h.disturbed → Obeys (withHistory sem) (P i h.since) p (Q i h.since) (w.state, h.calls))
  waits : ∀ k i p, w.running k = some ⟨i, p⟩ → (∀ h, w.holder = some h → h.pid ≠ k) →
    Waits sem grants N I P Q R i p

theorem queued_empty {s : σ} {orphans : List Op} (h : I s) :
    Queued sem grants N I P Q R
      (⟨s, none, nobody Op Reply Out, orphans⟩ : Crowd σ Op Reply ι Out) :=
  ⟨h, fun _ hh => (by cases hh), fun _ _ _ hp => (by cases hp)⟩

/-- A process is gone. -/
theorem Queued.gone (h : Queued sem grants N I P Q R w) (k : ℕ) :
    Queued sem grants N I P Q R (w.without k) := by
  refine ⟨h.state, fun held hheld => ?_, fun k' i p hp hnot => ?_⟩
  · obtain ⟨hholder, hne⟩ := release_eq_some.mp hheld
    obtain ⟨hsince, i, p, hp, hobeys⟩ := h.holds held hholder
    exact ⟨hsince, i, p, (Function.update_of_ne hne _ _).trans hp, hobeys⟩
  · by_cases hk : k' = k
    · subst hk
      cases (Function.update_self k' _ w.running).symm.trans hp
    · have hp' := (Function.update_of_ne hk _ _).symm.trans hp
      refine h.waits k' i p hp' fun held hholder hpid => ?_
      exact hnot held (release_eq_some.mpr ⟨hholder, hpid ▸ hk⟩) hpid

/-- What a call does: it changes nothing, or it is made by the one that holds the lock, under the
discipline unless an orphan has come in between. -/
theorem Queued.call (hD : LockDiscipline sem grants N I P Q R program)
    (h : Queued sem grants N I P Q R w) {op : Op} {r : Reply op}
    (hstep : Steps program sem grants w (.call k ⟨op, r⟩) w') :
    w'.state = w.state ∨ ∃ held i p, w.holder = some held ∧ held.pid = k ∧
      w.running k = some ⟨i, p⟩ ∧ (¬ held.disturbed → P i held.since (w.state, held.calls) op) := by
  obtain ⟨hsem, i, next, hrunning⟩ := hstep.of_call
  by_cases hholder : ∃ held, w.holder = some held ∧ held.pid = k
  · obtain ⟨held, hholder, rfl⟩ := hholder
    obtain ⟨-, i', p, hp, hobeys⟩ := h.holds held hholder
    cases hrunning.symm.trans hp
    exact .inr ⟨held, i, _, hholder, rfl, hrunning, fun hundisturbed => (hobeys hundisturbed).1⟩
  · have hwaits := h.waits k i _ hrunning fun held hheld hpid => hholder ⟨held, hheld, hpid⟩
    exact .inl (hD.still op r _ _ hwaits.1 hsem)

theorem Queued.step (hD : LockDiscipline sem grants N I P Q R program)
    (h : Queued sem grants N I P Q R w) (hstep : Steps program sem grants w a w') :
    Queued sem grants N I P Q R w' := by
  cases hstep with
  | start k i hfree =>
    refine ⟨h.state, fun held hholder => ?_, fun k' i' p hp hnot => ?_⟩
    · obtain ⟨hsince, i', p, hp, hobeys⟩ := h.holds held hholder
      have hne : held.pid ≠ k := by
        rintro rfl
        rw [hfree] at hp
        cases hp
      exact ⟨hsince, i', p, (Function.update_of_ne hne _ _).trans hp, hobeys⟩
    · by_cases hk : k' = k
      · subst hk
        cases Option.some_inj.mp ((Function.update_self k' _ w.running).symm.trans hp)
        exact hD.program _
      · exact h.waits k' i' p ((Function.update_of_ne hk _ _).symm.trans hp) hnot
  | @call k i op r s' next hrunning hno hsem =>
    by_cases hholder : ∃ held, w.holder = some held ∧ held.pid = k
    · -- the one that holds the lock
      obtain ⟨held, hholder, rfl⟩ := hholder
      obtain ⟨hsince, i', p, hp, hobeys⟩ := h.holds held hholder
      cases hrunning.symm.trans hp
      have hnote : held.note held.pid ⟨op, r⟩ = { held with calls := held.calls ++ [⟨op, r⟩] } :=
        if_pos rfl
      refine ⟨hD.keeps _ _ _ h.state hsem, fun held' hheld' => ?_, fun k' i' p hp' hnot => ?_⟩
      · rw [hholder, Option.map_some, hnote] at hheld'
        cases hheld'
        refine ⟨hsince, i, next r, Function.update_self _ _ _, fun hundisturbed => ?_⟩
        have hcall : withHistory sem (w.state, held.calls) ⟨op, r⟩ (s', held.calls ++ [⟨op, r⟩]) :=
          ⟨hsem, rfl⟩
        exact (hobeys hundisturbed).call hcall
      · have hne : k' ≠ held.pid := by
          rintro rfl
          refine hnot _ (congrArg (Option.map _) hholder) ?_
          rw [hnote]
        refine h.waits k' i' p ((Function.update_of_ne hne _ _).symm.trans hp')
          fun held' hheld' => ?_
        cases hholder.symm.trans hheld'
        exact hne.symm
    · -- somebody else
      have hother : ∀ held, w.holder = some held → held.pid ≠ k := fun held hheld hpid =>
        hholder ⟨held, hheld, hpid⟩
      have hwaits := h.waits k i _ hrunning hother
      have hsame : s' = w.state := hD.still op r _ _ hwaits.1 hsem
      have hnote : w.holder.map (.note k ⟨op, r⟩) = w.holder := by
        rcases hheld : w.holder with _ | held
        · rfl
        · exact congrArg some (Hold.note_of_ne (hother held hheld))
      rw [hsame] at hsem ⊢
      rw [hnote]
      refine ⟨h.state, fun held hheld => ?_, fun k' i' p hp' hnot => ?_⟩
      · obtain ⟨hsince, i', p, hp, hobeys⟩ := h.holds held hheld
        exact ⟨hsince, i', p, (Function.update_of_ne (hother held hheld) _ _).trans hp, hobeys⟩
      · by_cases hk : k' = k
        · subst hk
          cases Option.some_inj.mp ((Function.update_self k' _ w.running).symm.trans hp')
          exact (hwaits.2 r _ _ h.state hsem).2 hno
        · exact h.waits k' i' p ((Function.update_of_ne hk _ _).symm.trans hp') hnot
  | @lock k i op r s' next hrunning hgrants hfree hsem =>
    have hnone : ∀ {k' : ℕ} held, w.holder = some held → held.pid ≠ k' := fun held hheld => by
      rw [hfree] at hheld
      cases hheld
    have hwaits := h.waits k i _ hrunning hnone
    have hsame : s' = w.state := hD.still op r _ _ hwaits.1 hsem
    rw [hsame] at hsem ⊢
    refine ⟨h.state, fun held hheld => ?_, fun k' i' p hp' hnot => ?_⟩
    · cases hheld
      have hobeys := (hwaits.2 r _ _ h.state hsem).1 hgrants
      exact ⟨h.state, i, next r, Function.update_self _ _ _, fun _ => hobeys⟩
    · have hne : k' ≠ k := fun hk => hnot _ rfl hk.symm
      exact h.waits k' i' p ((Function.update_of_ne hne _ _).symm.trans hp') hnone
  | finish hrunning => exact h.gone _
  | kill k => exact h.gone k
  | @abandon k i op next hrunning =>
    have hgone := h.gone k
    exact ⟨hgone.state, hgone.holds, hgone.waits⟩
  | @late before after op r s' horphans hsem =>
    refine ⟨hD.keeps _ _ _ h.state hsem, fun held hheld => ?_, fun k i p hp hnot => ?_⟩
    · obtain ⟨held, hholder, rfl⟩ := Option.map_eq_some_iff.mp hheld
      obtain ⟨hsince, i, p, hp, hobeys⟩ := h.holds held hholder
      refine ⟨hsince, i, p, hp, fun hundisturbed => ?_⟩
      obtain ⟨hbefore, hchange⟩ := not_or.mp hundisturbed
      obtain rfl : s' = w.state := not_not.mp hchange
      exact hobeys hbefore
    · refine h.waits k i p hp fun held hheld => ?_
      exact hnot (held.meet (s' ≠ w.state)) (congrArg (Option.map _) hheld)
  | crash => exact queued_empty h.state

/-- What a program returns: with the lock, what it obeys, unless an orphan has come in between;
without it, what it returns then. -/
theorem Queued.finished (h : Queued sem grants N I P Q R w) {out : Out i}
    (hstep : Steps program sem grants w (.finish k i out) w') : w'.state = w.state ∧
      ((∃ held, w.holder = some held ∧ held.pid = k ∧ I held.since ∧
          (¬ held.disturbed → Q i held.since (w.state, held.calls) out)) ∨
        (∀ held, w.holder = some held → held.pid ≠ k) ∧ R i out) := by
  cases hstep with
  | finish hrunning =>
    refine ⟨rfl, ?_⟩
    by_cases hholder : ∃ held, w.holder = some held ∧ held.pid = k
    · obtain ⟨held, hholder, rfl⟩ := hholder
      obtain ⟨hsince, i', p, hp, hobeys⟩ := h.holds held hholder
      cases hrunning.symm.trans hp
      exact .inl ⟨held, hholder, rfl, hsince, hobeys⟩
    · have hnot : ∀ held, w.holder = some held → held.pid ≠ k := fun held hheld hpid =>
        hholder ⟨held, hheld, hpid⟩
      exact .inr ⟨hnot, h.waits k i _ hrunning hnot⟩

/-- **The lock is kept to over every run**, and with it the property. -/
theorem Steps.kept (hD : LockDiscipline sem grants N I P Q R program)
    (hrun : Run (Steps program sem grants) w es w') (h : Queued sem grants N I P Q R w) :
    Queued sem grants N I P Q R w' ∧
      ∀ e ∈ es, Queued sem grants N I P Q R e.pre ∧ Queued sem grants N I P Q R e.post :=
  hrun.invariant (fun _ _ _ hstep h => h.step hD hstep) h

/-! ## Programs that wait -/

section Waiting

variable {α : Type}

variable (N grants) in
/-- A call that may be made without the lock, and does not take it. -/
def Idle (op : Op) : Prop := N op ∧ ∀ r, ¬ grants ⟨op, r⟩

/-- First something that does not ask, then something that waits. -/
theorem waits_bind {p : Prog Op Reply α} {f : α → Prog Op Reply (Out i)}
    (hp : p.Only (Idle grants N))
    (hf : ∀ cs a, Yields p cs a → (∀ c ∈ cs, ∃ s s', I s ∧ sem s c s') →
      Waits sem grants N I P Q R i (f a)) : Waits sem grants N I P Q R i (p >>= f) := by
  induction p with
  | ret a => exact hf [] a (yields_ret.mpr ⟨rfl, rfl⟩) fun c hc => by cases hc
  | call op next ih =>
    refine ⟨hp.1.1, fun r s s' hs hsem => ⟨fun hgrants => absurd hgrants (hp.1.2 r), fun _ => ?_⟩⟩
    refine ih r (hp.2 r) fun cs a hyields hcs => ?_
    refine hf (⟨op, r⟩ :: cs) a (yields_call.mpr ⟨r, cs, rfl, hyields⟩) ?_
    exact List.forall_mem_cons.mpr ⟨⟨s, s', hs, hsem⟩, hcs⟩

/-- A program that changes nothing, whether it asks for the lock or not. -/
theorem waits_of_only {p : Prog Op Reply (Out i)} (hp : p.Only N)
    (hstill : ∀ op r s s', N op → sem s ⟨op, r⟩ s' → s' = s)
    (hP : ∀ s₀ m op, N op → P i s₀ m op) (hQ : ∀ s cs out, Q i s (s, cs) out)
    (hR : ∀ out, R i out) : Waits sem grants N I P Q R i p := by
  induction p with
  | ret out => exact hR out
  | call op next ih =>
    refine ⟨hp.1, fun r s s' _ _ => ⟨fun _ => ?_, fun _ => ih r (hp.2 r)⟩⟩
    have hkept : Obeys (withHistory sem) (P i s) (next r) (fun m _ => m.1 = s) (s, []) := by
      refine (hp.2 r).obeys (fun m op _ hop => hP s m op hop) ?_ rfl
      rintro m op r m' rfl hop hsem
      exact hstill op r _ _ hop hsem.1
    refine hkept.mono (fun _ _ h => h) ?_
    rintro ⟨_, cs⟩ out rfl
    exact hQ _ cs out

end Waiting

/-! ## Keeping more -/

theorem Waits.restrict {J : σ → Prop} {p : Prog Op Reply (Out i)}
    (h : Waits sem grants N J P Q R i p) (hIJ : ∀ s, I s → J s) :
    Waits sem grants N I P Q R i p := by
  induction p with
  | ret out => exact h
  | call op next ih =>
    refine ⟨h.1, fun r s s' hs hsem => ?_⟩
    obtain ⟨hlock, hwait⟩ := h.2 r s s' (hIJ s hs) hsem
    exact ⟨hlock, fun hno => ih r (hwait hno)⟩

/-- What no call breaks is kept as well. -/
theorem LockDiscipline.keeping (hD : LockDiscipline sem grants N (fun _ => True) P Q R program)
    (hI : ∀ s c s', I s → sem s c s' → I s') : LockDiscipline sem grants N I P Q R program where
  program i := (hD.program i).restrict fun _ _ => trivial
  still := hD.still
  keeps := hI

/-! ## While the state stands still -/

/-- Where a process comes from: it has been started, it was as it is, or it has made a call. -/
theorem Steps.process {p : Prog Op Reply (Out i)} (h : Steps program sem grants w a w')
    (hp : w'.running k = some ⟨i, p⟩) : p = program i ∨ w.running k = some ⟨i, p⟩ ∨
      ∃ op r next, w.running k = some ⟨i, .call op next⟩ ∧ p = next r ∧
        sem w.state ⟨op, r⟩ w'.state := by
  have hother : ∀ {k' : ℕ} {left : Option ((i : ι) × Prog Op Reply (Out i))}, k' ≠ k →
      Function.update w.running k' left k = some ⟨i, p⟩ → w.running k = some ⟨i, p⟩ := by
    intro k' left hne hp
    rwa [Function.update_of_ne hne.symm] at hp
  have hself : ∀ {k' : ℕ} {left : Option ((i : ι) × Prog Op Reply (Out i))}, k' = k →
      Function.update w.running k' left k = some ⟨i, p⟩ → left = some ⟨i, p⟩ := by
    rintro _ left rfl hp
    rwa [Function.update_self] at hp
  have hgone : ∀ {k' : ℕ}, (w.without k').running k = some ⟨i, p⟩ → w.running k = some ⟨i, p⟩ := by
    intro k' hp
    by_cases hk : k' = k
    · cases hself hk hp
    · exact hother hk hp
  cases h with
  | start k' i hfree =>
    by_cases hk : k' = k
    · cases hself hk hp
      exact .inl rfl
    · exact .inr (.inl (hother hk hp))
  | @call k' i op r s' next hrunning hno hsem =>
    by_cases hk : k' = k
    · cases hself hk hp
      exact .inr (.inr ⟨op, r, next, hk ▸ hrunning, rfl, hsem⟩)
    · exact .inr (.inl (hother hk hp))
  | @lock k' i op r s' next hrunning hgrants hfree hsem =>
    by_cases hk : k' = k
    · cases hself hk hp
      exact .inr (.inr ⟨op, r, next, hk ▸ hrunning, rfl, hsem⟩)
    · exact .inr (.inl (hother hk hp))
  | finish hrunning => exact .inr (.inl (hgone hp))
  | kill k' => exact .inr (.inl (hgone hp))
  | abandon hrunning => exact .inr (.inl (hgone hp))
  | late horphans hsem => exact .inr (.inl hp)
  | crash => cases hp

/-- A process that is started while the state is `s`, and runs while it is `s`, returns what it
obeys there. -/
theorem Steps.obeyed {s : σ} {P : σ → Op → Prop} {K : (i : ι) → σ → Out i → Prop}
    (hp : ∀ i, Obeys sem P (program i) (K i) s)
    (hrun : Run (Steps program sem grants) w es w') (hw : w.state = s) (hidle : w.running k = none)
    (hstill : ∀ e ∈ es, e.post.state = s) :
    ∀ i p, w'.running k = some ⟨i, p⟩ → Obeys sem P p (K i) s := by
  have hkept := hrun.invariant_mem
    (I := fun w => w.state = s ∧ ∀ i p, w.running k = some ⟨i, p⟩ → Obeys sem P p (K i) s) ?_
    ⟨hw, fun i p h => by rw [hidle] at h; cases h⟩
  · exact hkept.1.2
  · intro e he hstep hpre
    obtain ⟨hstate, hmine⟩ := hpre
    have hpost := hstill e he
    refine ⟨hpost, fun i p hrunning => ?_⟩
    rcases hstep.process hrunning with rfl | h | ⟨op, r, next, h, rfl, hsem⟩
    · exact hp i
    · exact hmine i p h
    · rw [hstate, hpost] at hsem
      exact (hmine i _ h).call hsem

/-! ## Running one process -/

section Solo

variable {α : Type} {machine : Option (ℕ × σ) → σ → (op : Op) → Reply op × σ}
  {takes : (op : Op) → Reply op → Bool} {orphans : List Op}

variable (machine takes) in
/-- The calls of one process, while nobody else makes any, answered by a machine: the state after
them, who holds the lock then, since which state, and what is left of the program. -/
def solo (k : ℕ) : ℕ → Prog Op Reply α → σ → Option (ℕ × σ) → σ × Option (ℕ × σ) × Prog Op Reply α
  | n + 1, .call op next, s, holder =>
    let answer := machine holder s op
    solo k n (next answer.1) answer.2 (if takes op answer.1 then some (k, answer.2) else holder)
  | _, p, s, holder => (s, holder, p)

/-- The lock is held as the machine has it, and no orphan has come in between. -/
structure Kept (held : Option (Hold σ Op Reply)) (holder : Option (ℕ × σ)) : Prop where
  same : held.map (fun h => (h.pid, h.since)) = holder
  undisturbed : ∀ h, held = some h → ¬ h.disturbed

theorem Kept.free : Kept (none : Option (Hold σ Op Reply)) none :=
  ⟨rfl, fun _ h => by cases h⟩

theorem Kept.taken {s : σ} : Kept (some (⟨k, s, [], False⟩ : Hold σ Op Reply)) (some (k, s)) :=
  ⟨rfl, fun _ h => by cases h; exact id⟩

theorem Kept.note {held : Option (Hold σ Op Reply)} {holder : Option (ℕ × σ)} (h : Kept held holder)
    (c : Exchange Op Reply) : Kept (held.map (.note k c)) holder := by
  constructor
  · rw [← h.same, Option.map_map]
    refine congrArg (fun f => held.map f) (funext fun h => ?_)
    exact Prod.ext (h.note_kept c).1 (h.note_kept c).2.1
  · intro h' hh'
    obtain ⟨h₁, hh₁, rfl⟩ := Option.map_eq_some_iff.mp hh'
    rw [(h₁.note_kept c).2.2]
    exact h.undisturbed h₁ hh₁

theorem Kept.released {held : Option (Hold σ Op Reply)} {holder : Option (ℕ × σ)}
    (h : Kept held holder) (hpid : ∀ x, holder = some x → x.1 = k) : release k held = none := by
  refine Option.filter_eq_none_iff.mpr fun h₁ hh₁ hne => ?_
  have hk := hpid (h₁.pid, h₁.since) (by rw [← h.same, hh₁]; rfl)
  exact of_decide_eq_true hne hk

/-- A machine whose answers are possible, and which gives the lock to one process at a time, runs a
process as it may run. -/
theorem run_solo (hkeeps : ∀ s c s', I s → sem s c s' → I s')
    (hmachine : ∀ holder s op, I s →
      sem s ⟨op, (machine holder s op).1⟩ (machine holder s op).2)
    (hlock : ∀ holder s op, takes op (machine holder s op).1 = true → holder = none) (n : ℕ)
    (p : Prog Op Reply (Out i)) {s : σ} {held : Option (Hold σ Op Reply)}
    {holder : Option (ℕ × σ)} (hheld : Kept held holder) (hs : I s)
    (running : ℕ → Option ((i : ι) × Prog Op Reply (Out i))) :
    ∃ held' es, Kept held' (solo machine takes k n p s holder).2.1 ∧
      Run (Steps program sem fun c => takes c.1 c.2 = true)
        ⟨s, held, Function.update running k (some ⟨i, p⟩), orphans⟩ es
        ⟨(solo machine takes k n p s holder).1, held',
          Function.update running k (some ⟨i, (solo machine takes k n p s holder).2.2⟩),
          orphans⟩ := by
  induction n generalizing p s held holder with
  | zero => exact ⟨held, [], hheld, .nil _⟩
  | succ n ih =>
    cases p with
    | ret out => exact ⟨held, [], hheld, .nil _⟩
    | call op next =>
      have hsem := hmachine holder s op hs
      have hkeep := hkeeps _ _ _ hs hsem
      let mine : Option ((i : ι) × Prog Op Reply (Out i)) := some ⟨i, .call op next⟩
      have hself : Function.update running k mine k = mine := Function.update_self k mine running
      have hidem : ∀ mine', Function.update (Function.update running k mine) k mine' =
          Function.update running k mine' := by
        intro mine'
        exact Function.update_idem _ _ _
      rw [solo]
      by_cases htakes : takes op (machine holder s op).1 = true
      · rw [if_pos htakes]
        obtain rfl := hlock holder s op htakes
        have hfree : held = none := Option.map_eq_none_iff.mp hheld.same
        obtain ⟨held', es, hheld', hrun⟩ := ih (next (machine none s op).1) .taken hkeep
        rw [← hidem] at hrun
        exact ⟨held', _, hheld', .cons (.lock hself htakes hfree hsem) hrun⟩
      · rw [if_neg htakes]
        obtain ⟨held', es, hheld', hrun⟩ := ih (next (machine holder s op).1)
          (hheld.note ⟨op, (machine holder s op).1⟩) hkeep
        rw [← hidem] at hrun
        exact ⟨held', _, hheld', .cons (.call hself htakes hsem) hrun⟩

/-- The same from where nobody runs. -/
theorem run_cut (hkeeps : ∀ s c s', I s → sem s c s' → I s')
    (hmachine : ∀ holder s op, I s →
      sem s ⟨op, (machine holder s op).1⟩ (machine holder s op).2)
    (hlock : ∀ holder s op, takes op (machine holder s op).1 = true → holder = none) (n : ℕ)
    {s s' : σ} {holder : Option (ℕ × σ)} {rest : Prog Op Reply (Out i)} (hs : I s)
    (hsolo : solo machine takes k n (program i) s none = (s', holder, rest)) :
    ∃ held w es, Kept held holder ∧ Run (Steps program sem fun c => takes c.1 c.2 = true)
      ⟨s, none, nobody Op Reply Out, orphans⟩
      (⟨⟨s, none, nobody Op Reply Out, orphans⟩, .start k i, w⟩ :: es)
      ⟨s', held, Function.update (nobody Op Reply Out) k (some ⟨i, rest⟩), orphans⟩ := by
  have h : ∃ held es, Kept held _ ∧ Run (Steps program sem fun c => takes c.1 c.2 = true)
      ⟨s, none, Function.update (nobody Op Reply Out) k (some ⟨i, program i⟩), orphans⟩ es _ :=
    run_solo hkeeps hmachine hlock n (program i) .free hs (nobody Op Reply Out)
  rw [hsolo] at h
  obtain ⟨held, es, hheld, hrun⟩ := h
  exact ⟨held, _, es, hheld, .cons (.start k i rfl) hrun⟩

theorem Crowd.without_self {s : σ} {held : Option (Hold σ Op Reply)} {holder : Option (ℕ × σ)}
    {mine : (i : ι) × Prog Op Reply (Out i)} (h : Kept held holder)
    (hpid : ∀ x, holder = some x → x.1 = k) :
    Crowd.without ⟨s, held, Function.update (nobody Op Reply Out) k (some mine), orphans⟩ k =
      ⟨s, none, nobody Op Reply Out, orphans⟩ := by
  have hgone : Function.update (Function.update (nobody Op Reply Out) k (some mine)) k none =
      nobody Op Reply Out := by
    rw [Function.update_idem, Function.update_eq_self_iff, nobody]
  rw [Crowd.without, h.released hpid, hgone]

/-- And to where nobody runs again: the process returns. -/
theorem run_through (hkeeps : ∀ s c s', I s → sem s c s' → I s')
    (hmachine : ∀ holder s op, I s →
      sem s ⟨op, (machine holder s op).1⟩ (machine holder s op).2)
    (hlock : ∀ holder s op, takes op (machine holder s op).1 = true → holder = none) {n : ℕ}
    {s s' : σ} {holder : Option (ℕ × σ)} {out : Out i} {rest : Prog Op Reply (Out i)} (hs : I s)
    (hsolo : solo machine takes k n (program i) s none = (s', holder, rest))
    (hout : rest.result = some out) (hpid : ∀ x, holder = some x → x.1 = k) :
    ∃ w es w₁, Kept w₁.holder holder ∧ (∃ p, w₁.running k = some ⟨i, p⟩) ∧
      Run (Steps program sem fun c => takes c.1 c.2 = true) ⟨s, none, nobody Op Reply Out, orphans⟩
        (⟨⟨s, none, nobody Op Reply Out, orphans⟩, .start k i, w⟩ ::
          (es ++ [⟨w₁, .finish k i out, ⟨s', none, nobody Op Reply Out, orphans⟩⟩]))
        ⟨s', none, nobody Op Reply Out, orphans⟩ := by
  obtain rfl : rest = .ret out := result_eq_some.mp hout
  obtain ⟨held, w, es, hheld, hrun⟩ := run_cut hkeeps hmachine hlock n hs hsolo
  let mine : (i : ι) × Prog Op Reply (Out i) := ⟨i, .ret out⟩
  let w₁ : Crowd σ Op Reply ι Out :=
    ⟨s', held, Function.update (nobody Op Reply Out) k (some mine), orphans⟩
  have hself : w₁.running k = some mine := Function.update_self k (some mine) (nobody Op Reply Out)
  have hfinish : Steps program sem (fun c => takes c.1 c.2 = true) w₁ (.finish k i out)
      ⟨s', none, nobody Op Reply Out, orphans⟩ := by
    rw [← Crowd.without_self hheld hpid]
    exact .finish hself
  have hall := Run.append_iff.mpr ⟨w₁, hrun, .cons hfinish (.nil _)⟩
  exact ⟨w, es, w₁, hheld, ⟨_, hself⟩, hall⟩

/-- Or it is killed, and leaves an orphan. -/
theorem run_abandoned (hkeeps : ∀ s c s', I s → sem s c s' → I s')
    (hmachine : ∀ holder s op, I s →
      sem s ⟨op, (machine holder s op).1⟩ (machine holder s op).2)
    (hlock : ∀ holder s op, takes op (machine holder s op).1 = true → holder = none) {n : ℕ}
    {s s' : σ} {holder : Option (ℕ × σ)} {op : Op} {rest : Prog Op Reply (Out i)} (hs : I s)
    (hsolo : solo machine takes k n (program i) s none = (s', holder, rest))
    (hop : rest.pending = some op) (hpid : ∀ x, holder = some x → x.1 = k) :
    ∃ es, Run (Steps program sem fun c => takes c.1 c.2 = true)
      ⟨s, none, nobody Op Reply Out, orphans⟩ es
        ⟨s', none, nobody Op Reply Out, op :: orphans⟩ := by
  obtain ⟨next, rfl⟩ := pending_eq_some.mp hop
  obtain ⟨held, w, es, hheld, hrun⟩ := run_cut hkeeps hmachine hlock n hs hsolo
  let mine : (i : ι) × Prog Op Reply (Out i) := ⟨i, .call op next⟩
  let w₁ : Crowd σ Op Reply ι Out :=
    ⟨s', held, Function.update (nobody Op Reply Out) k (some mine), orphans⟩
  have hself : w₁.running k = some mine := Function.update_self k (some mine) (nobody Op Reply Out)
  have hkilled : Steps program sem (fun c => takes c.1 c.2 = true) w₁ (.kill k)
      ⟨s', none, nobody Op Reply Out, op :: orphans⟩ := by
    have h : Steps program sem (fun c => takes c.1 c.2 = true) w₁ (.kill k)
        { w₁.without k with orphans := op :: orphans } := .abandon hself
    rwa [Crowd.without_self hheld hpid] at h
  exact ⟨_, Run.append_iff.mpr ⟨w₁, hrun, .cons hkilled (.nil _)⟩⟩

end Solo

end Programs
