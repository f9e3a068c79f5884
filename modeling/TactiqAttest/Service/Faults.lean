import TactiqAttest.Programs.Sequential
import TactiqAttest.Service.Move
import TactiqAttest.Service.Recover

/-!
# The operator's commands, when the TPM fails

Here nobody else moves the counter, but every call to the TPM may fail: a reading may, and an
increment may report a failure before it took effect or after.  A command that loses its footing in
this way must not move the counter where it should not be, and what it tells the operator about the
counter must be true, because the operator goes by it.

* `MoveAtomic`, `RecoverAtomic`: where a command may leave the counter, and what it may report of
  it;
* `commands_atomic`: that `trip`, `settle` and `recover` keep to it, and that one that has succeeded
  does nothing when it is repeated.

The release may be anything, and reading it may fail.
-/

namespace TactiqAttest.Service

open Prog

variable {C : Crypto} {lift : Lift C} {want : Stop.State} {c t u v : UInt64}
  {cs cs' : List (Exchange Op Reply)} {out out' : Except TransitionError Transition}
  {tr : Transition}

/-! ## What is asked of a command -/

/-- The transition of a counter that was `c` and is `t`. -/
def Transition.between (c t : UInt64) : Transition :=
  if t = c then .alreadyThere c else .changed c t

/-- What an error says of the counter is that it is `t`, if it says anything. -/
def TransitionError.TrueAt (err : TransitionError) (t : UInt64) : Prop :=
  err.now = none ∨ err.now = some t

/-- A move towards `want` that found the counter at `c` and left it at `t`. -/
structure MoveAtomic (want : Stop.State) (c : UInt64) (out : Except TransitionError Transition)
    (t : UInt64) : Prop where
  /-- It moves the counter by one, and only from the other parity. -/
  counter : t = c ∨ t.toNat = c.toNat + 1 ∧ stateOf c ≠ want
  /-- Success is reported as it was, and the parity is right then. -/
  ok : ∀ tr, out = .ok tr → tr = .between c t ∧ stateOf t = want
  error : ∀ err, out = .error err → err.TrueAt t

/-- Within the calls of a `recover`, after its first, the gate was asked for `v` and gave this
answer. -/
def GateAsked (lift : Lift C) (v : UInt64) (cs : List (Exchange Op Reply))
    (answer : Except String Gate) : Prop :=
  ∃ u gs rest, cs = ⟨.readCounter, .ok u⟩ :: (gs ++ rest) ∧ (gate lift v).run.Yields gs answer

/-- A `recover` that found the counter at `c` and left it at `t`. -/
structure RecoverAtomic (lift : Lift C) (c : UInt64) (cs : List (Exchange Op Reply))
    (out : Except TransitionError Transition) (t : UInt64) : Prop where
  /-- It moves the counter by one, and only from a stop to a value with the gate open. -/
  counter : t = c ∨ t.toNat = c.toNat + 1 ∧ stateOf c = .stopped ∧
    GateAsked lift (c + 1) cs (.ok .opened)
  /-- Without a release for it, or if that cannot be read, the counter stays and is reported. -/
  refused : ∀ answer, GateAsked lift (target c) cs answer → answer ≠ .ok .opened →
    t = c ∧ ∃ message, out = .error ⟨message, some c⟩
  /-- Success is reported as it was, and the gate is open then. -/
  ok : ∀ tr, out = .ok tr → tr = .between c t ∧ GateAsked lift t cs (.ok .opened)
  error : ∀ err, out = .error err → err.TrueAt t

/-! ## Moves -/

theorem between_self (c : UInt64) : Transition.between c c = .alreadyThere c := if_pos rfl

/-- One above, without wrapping. -/
theorem eq_add_one (h : t.toNat = c.toNat + 1) : t = c + 1 := by
  have hadd : (c + 1).toNat = (c.toNat + 1) % 2 ^ 64 := UInt64.toNat_add c 1
  have hlt := t.toNat_lt
  rw [← UInt64.toNat_inj, hadd]
  omega

theorem between_succ (h : t.toNat = c.toNat + 1) : Transition.between c t = .changed c (c + 1) := by
  have hne : t ≠ c := fun heq => by rw [heq] at h; omega
  rw [Transition.between, if_neg hne, eq_add_one h]

/-- What is read is the counter, if anything is. -/
theorem trueAt_of_read {message : String} {r : Except String UInt64} {s s' : UInt64}
    (h : Counts s ⟨.readCounter, r⟩ s') :
    s = s' ∧ TransitionError.TrueAt ⟨message, r.toOption⟩ s' := by
  cases h with
  | readCounter => exact ⟨rfl, .inr rfl⟩
  | readCounterFailed => exact ⟨rfl, .inl rfl⟩

/-- **A move is atomic.** -/
theorem Moved.atomic (h : Moved want cs out) (hcs : Performs Counts c cs t) :
    MoveAtomic want c out t := by
  cases h with
  | unread =>
    obtain ⟨m, hread, hnil⟩ := Performs.cons_iff.mp hcs
    obtain rfl := Performs.nil_iff.mp hnil
    cases hread
    exact ⟨.inl rfl, fun tr htr => (by cases htr), fun err herr => by cases herr; exact .inl rfl⟩
  | already hstate =>
    obtain ⟨m, hread, hnil⟩ := Performs.cons_iff.mp hcs
    obtain rfl := Performs.nil_iff.mp hnil
    cases hread
    refine ⟨.inl rfl, fun tr htr => ?_, fun err herr => (by cases herr)⟩
    cases htr
    exact ⟨(between_self c).symm, hstate⟩
  | failed hstate =>
    simp only [Performs.cons_iff, Performs.nil_iff] at hcs
    obtain ⟨_, hread, m, hinc, _, hlast, rfl⟩ := hcs
    cases hread
    obtain ⟨rfl, htrue⟩ := trueAt_of_read hlast
    refine ⟨?_, fun tr htr => (by cases htr), fun err herr => by cases herr; exact htrue⟩
    cases hinc with
    | incrementFailed hm => exact hm.imp_right fun hm => ⟨hm, hstate⟩
  | lost hstate =>
    simp only [Performs.cons_iff, Performs.nil_iff] at hcs
    obtain ⟨_, hread, m, hinc, _, hback, _, hlast, rfl⟩ := hcs
    cases hread
    cases hback
    obtain ⟨rfl, htrue⟩ := trueAt_of_read hlast
    cases hinc with
    | increment hm =>
      exact ⟨.inr ⟨hm, hstate⟩, fun tr htr => (by cases htr),
        fun err herr => by cases herr; exact htrue⟩
  | changed hstate =>
    simp only [Performs.cons_iff, Performs.nil_iff] at hcs
    obtain ⟨_, hread, m, hinc, _, hback, rfl⟩ := hcs
    cases hread
    cases hback
    cases hinc with
    | increment hm =>
      refine ⟨.inr ⟨hm, hstate⟩, fun tr htr => ?_, fun err herr => (by cases herr)⟩
      cases htr
      exact ⟨(between_succ hm).symm, stateOf_succ_of_ne hstate⟩
  | crossed hstate hne =>
    -- nobody else is there to move the counter
    simp only [Performs.cons_iff, Performs.nil_iff] at hcs
    obtain ⟨_, hread, m, hinc, _, hback, rfl⟩ := hcs
    cases hread
    cases hback
    cases hinc with
    | increment hm => exact absurd (eq_add_one hm) hne

/-! ## Recover -/

/-- How `recover` can go: its calls, with their replies, and what it returns. -/
inductive Recovered (lift : Lift C) :
    List (Exchange Op Reply) → Except TransitionError Transition → Prop
  /-- The counter could not be read. -/
  | unread {e : String} : Recovered lift [⟨.readCounter, .error e⟩] (.error ⟨e, none⟩)
  /-- The gate is not open at the value it would take, or that could not be decided. -/
  | refused {v : UInt64} {gs : List (Exchange Op Reply)} {answer : Except String Gate}
      {message : String} : (gate lift (target v)).run.Yields gs answer → answer ≠ .ok .opened →
      Recovered lift (⟨.readCounter, .ok v⟩ :: gs) (.error ⟨message, some v⟩)
  /-- It is not stopped. -/
  | already {v : UInt64} {gs : List (Exchange Op Reply)} : stateOf v = .running →
      (gate lift v).run.Yields gs (.ok .opened) →
      Recovered lift (⟨.readCounter, .ok v⟩ :: gs) (.ok (.alreadyThere v))
  /-- It is, and is moved. -/
  | moved {v : UInt64} {gs ms : List (Exchange Op Reply)}
      {out : Except TransitionError Transition} : stateOf v = .stopped →
      (gate lift (v + 1)).run.Yields gs (.ok .opened) → Moved .running ms out →
      Recovered lift (⟨.readCounter, .ok v⟩ :: (gs ++ ms)) out

theorem target_of_running (h : stateOf v = .running) : target v = v := if_pos h

theorem target_of_stopped (h : stateOf v = .stopped) : target v = v + 1 := by
  rw [target, if_neg (by rw [h]; decide)]

/-- A call of `recover` that returns went one of the four ways. -/
theorem recovered_of_yields (h : (recover lift).Yields cs out) : Recovered lift cs out := by
  obtain ⟨read, cs₁, rfl, hfrom⟩ := yields_readOnce h
  rcases read with e | v
  · obtain ⟨rfl, rfl⟩ := yields_pure.mp hfrom
    exact .unread
  obtain ⟨gs, ms, answer, rfl, hgate, hat⟩ := yields_bind.mp hfrom
  have hrefused : ∀ {message : String}, (pure (.error ⟨message, some v⟩) : Command).Yields ms out →
      answer ≠ .ok .opened → Recovered lift (⟨.readCounter, .ok v⟩ :: (gs ++ ms)) out := by
    intro message hret hne
    obtain ⟨rfl, rfl⟩ := yields_pure.mp hret
    rw [List.append_nil]
    exact .refused hgate hne
  rcases answer with e | ⟨_ | _ | why⟩
  · exact hrefused hat (by simp)
  · rw [recoverAt] at hat
    cases hstate : stateOf v with
    | running =>
      rw [target_of_running hstate] at hat hgate
      rw [if_pos rfl] at hat
      obtain ⟨rfl, rfl⟩ := yields_pure.mp hat
      rw [List.append_nil]
      exact .already hstate hgate
    | stopped =>
      rw [target_of_stopped hstate] at hat hgate
      have hne : v + 1 ≠ v := fun heq => by
        have hsucc : stateOf (v + 1) = .running := stateOf_succ_of_ne (by rw [hstate]; decide)
        rw [heq, hstate] at hsucc
        cases hsucc
      rw [if_neg hne] at hat
      exact .moved hstate hgate (moved_of_yields hat)
  · exact hrefused hat (by simp)
  · exact hrefused hat (by simp)

/-- The gate gives one answer in a call. -/
theorem GateAsked.unique {gs rest : List (Exchange Op Reply)} {answer answer' : Except String Gate}
    (h : GateAsked lift v (⟨.readCounter, .ok u⟩ :: (gs ++ rest)) answer)
    (hgate : (gate lift v).run.Yields gs answer') : answer = answer' := by
  obtain ⟨_, gs', rest', hcs, hgate'⟩ := h
  exact (hgate'.unique_append hgate (List.cons.inj hcs).2.symm).2

/-- Deciding the gate leaves the counter alone. -/
theorem eq_of_gate {gs : List (Exchange Op Reply)} {answer : Except String Gate}
    (hstore : lift.release.run.Only IsFile) (hgate : (gate lift v).run.Yields gs answer)
    (hgs : Performs Counts c gs t) : c = t := by
  refine hgs.eq_of_still fun e he m m' hstep => ?_
  obtain ⟨op, r⟩ := e
  obtain ⟨path, n, rfl⟩ := (gate_only hstore v).of_after hgate _ he
  cases hstep
  rfl

/-- **Recovering is atomic.** -/
theorem Recovered.atomic (hstore : lift.release.run.Only IsFile) (h : Recovered lift cs out)
    (hcs : Performs Counts c cs t) : RecoverAtomic lift c cs out t := by
  cases h with
  | unread =>
    obtain ⟨m, hread, hnil⟩ := Performs.cons_iff.mp hcs
    obtain rfl := Performs.nil_iff.mp hnil
    cases hread
    refine ⟨.inl rfl, fun answer hasked => ?_, fun tr htr => (by cases htr),
      fun err herr => by cases herr; exact .inl rfl⟩
    obtain ⟨u, gs, rest, hcs, -⟩ := hasked
    cases hcs
  | @refused v gs answer message hgate hne =>
    obtain ⟨m, hread, hgs⟩ := Performs.cons_iff.mp hcs
    cases hread
    obtain rfl := eq_of_gate hstore hgate hgs
    exact ⟨.inl rfl, fun _ _ _ => ⟨rfl, message, rfl⟩, fun tr htr => (by cases htr),
      fun err herr => by cases herr; exact .inr rfl⟩
  | @already v gs hstate hgate =>
    obtain ⟨m, hread, hgs⟩ := Performs.cons_iff.mp hcs
    cases hread
    obtain rfl := eq_of_gate hstore hgate hgs
    rw [← List.append_nil gs]
    refine ⟨.inl rfl, fun answer hasked hne => ?_, fun tr htr => ?_,
      fun err herr => (by cases herr)⟩
    · rw [target_of_running hstate] at hasked
      exact absurd (hasked.unique hgate) hne
    · cases htr
      exact ⟨(between_self c).symm, c, gs, [], rfl, hgate⟩
  | @moved v gs ms out hstate hgate hmoved =>
    obtain ⟨m, hread, hrest⟩ := Performs.cons_iff.mp hcs
    cases hread
    obtain ⟨m, hgs, hms⟩ := Performs.append_iff.mp hrest
    obtain rfl := eq_of_gate hstore hgate hgs
    have hatomic := hmoved.atomic hms
    have hasked : GateAsked lift (c + 1) (⟨.readCounter, .ok c⟩ :: (gs ++ ms)) (.ok .opened) :=
      ⟨c, gs, ms, rfl, hgate⟩
    refine ⟨?_, fun answer hother hne => ?_, fun tr htr => ?_, hatomic.error⟩
    · exact hatomic.counter.imp_right fun hnext => ⟨hnext.1, hstate, hasked⟩
    · rw [target_of_stopped hstate] at hother
      exact absurd (hother.unique hgate) hne
    · obtain ⟨hreport, hrunning⟩ := hatomic.ok tr htr
      refine ⟨hreport, ?_⟩
      rcases hatomic.counter with rfl | ⟨hnext, -⟩
      · rw [hstate] at hrunning
        cases hrunning
      · rwa [eq_add_one hnext]

/-! ## The commands -/

theorem GateAsked.running (h : GateAsked lift v cs (.ok .opened)) : stateOf v = .running := by
  obtain ⟨u, gs, rest, -, hgate⟩ := h
  exact (yields_gate_opened.mp hgate).1

/-- A move that has succeeded does nothing when it is repeated. -/
theorem move_again (h : (moveTo want).Yields cs (.ok tr)) (hcs : Performs Counts c cs t)
    (h' : (moveTo want).Yields cs' out') (hcs' : Performs Counts t cs' u) : u = t := by
  have hwant := (((moved_of_yields h).atomic hcs).ok tr rfl).2
  rcases ((moved_of_yields h').atomic hcs').counter with hsame | ⟨-, hne⟩
  · exact hsame
  · exact absurd hwant hne

/-- Neither does a lift, whatever has become of the release. -/
theorem recover_again (hstore : lift.release.run.Only IsFile)
    (h : (recover lift).Yields cs (.ok tr)) (hcs : Performs Counts c cs t)
    (h' : (recover lift).Yields cs' out') (hcs' : Performs Counts t cs' u) : u = t := by
  have hrunning := (((recovered_of_yields h).atomic hstore hcs).ok tr rfl).2.running
  rcases ((recovered_of_yields h').atomic hstore hcs').counter with hsame | ⟨-, hstopped, -⟩
  · exact hsame
  · rw [hrunning] at hstopped
    cases hstopped

/-- What the three commands can be relied on for, with nobody else at the counter. -/
structure CommandsAtomic (lift : Lift C) : Prop where
  trip : ∀ c cs out t, trip.Yields cs out → Performs Counts c cs t → MoveAtomic .stopped c out t
  settle : ∀ want c cs out t, (settle want).Yields cs out → Performs Counts c cs t →
    MoveAtomic want c out t
  recover : ∀ c cs out t, (recover lift).Yields cs out → Performs Counts c cs t →
    RecoverAtomic lift c cs out t
  /-- Repeated after a success, a command leaves the counter where it is. -/
  tripAgain : ∀ c cs tr t cs' out' u, Service.trip.Yields cs (.ok tr) → Performs Counts c cs t →
    Service.trip.Yields cs' out' → Performs Counts t cs' u → u = t
  settleAgain : ∀ want c cs tr t cs' out' u, (Service.settle want).Yields cs (.ok tr) →
    Performs Counts c cs t → (Service.settle want).Yields cs' out' → Performs Counts t cs' u → u = t
  recoverAgain : ∀ c cs tr t cs' out' u, (Service.recover lift).Yields cs (.ok tr) →
    Performs Counts c cs t → (Service.recover lift).Yields cs' out' →
    Performs Counts t cs' u → u = t

/-- **The operator's commands are atomic when the TPM fails.**  All that is asked of the release is
that it is read from files. -/
theorem commands_atomic (hstore : lift.release.run.Only IsFile) : CommandsAtomic lift where
  trip _ _ _ _ h hcs := (moved_of_yields h).atomic hcs
  settle _ _ _ _ _ h hcs := (moved_of_yields h).atomic hcs
  recover _ _ _ _ h hcs := (recovered_of_yields h).atomic hstore hcs
  tripAgain _ _ _ _ _ _ _ h hcs h' hcs' := move_again h hcs h' hcs'
  settleAgain _ _ _ _ _ _ _ _ h hcs h' hcs' := move_again h hcs h' hcs'
  recoverAgain _ _ _ _ _ _ _ h hcs h' hcs' := recover_again hstore h hcs h' hcs'

/-- The service reads the release from its two files. -/
theorem commands_atomic_deviceSix : CommandsAtomic deviceSix.lift :=
  commands_atomic (release_files release)

end TactiqAttest.Service
