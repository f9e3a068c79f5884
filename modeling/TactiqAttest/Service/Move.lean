import TactiqAttest.Service.Safety

/-!
# Trip and settle, with others moving the counter

A move reads the counter, increments it if its parity is wrong, and reads it back.  Those are three
commands, and the operators' lock keeps out only other operators: any process may increment the
counter between any two of them.  What the move reports has to be right all the same, and all it has
to go by is the two values it read.

It is enough, because the counter only goes up, and goes up by one at a time.  If the second value
is one above the first, the move's own increment is the whole difference, so nobody else's fell in
between; and if somebody else's did, the difference is two or more and the move says so.

* `Moved`: the six ways a move can go, each with its calls and its result.
* `move_sound`: what follows for a move in a run with everything else a device does.
-/

namespace TactiqAttest.Service

open Labelled Programs Prog

/-! ## The ways a move can go -/

/-- How `move_to` can go: its calls, with their replies, and what it returns. -/
inductive Moved (want : Stop.State) :
    List (Exchange Op Reply) → Except TransitionError Transition → Prop
  /-- The counter could not be read. -/
  | unread {e : String} : Moved want [⟨.readCounter, .error e⟩] (.error ⟨e, none⟩)
  /-- The parity was right. -/
  | already {v : UInt64} : stateOf v = want →
      Moved want [⟨.readCounter, .ok v⟩] (.ok (.alreadyThere v))
  /-- The increment failed, and the counter was read once more. -/
  | failed {v : UInt64} {e message : String} {r : Except String UInt64} : stateOf v ≠ want →
      Moved want [⟨.readCounter, .ok v⟩, ⟨.increment, .error e⟩, ⟨.readCounter, r⟩]
        (.error ⟨message, r.toOption⟩)
  /-- The counter could not be read back, and was read once more. -/
  | lost {v : UInt64} {e message : String} {r : Except String UInt64} : stateOf v ≠ want →
      Moved want [⟨.readCounter, .ok v⟩, ⟨.increment, .ok ()⟩, ⟨.readCounter, .error e⟩,
        ⟨.readCounter, r⟩] (.error ⟨message, r.toOption⟩)
  /-- The counter went up by one. -/
  | changed {v : UInt64} : stateOf v ≠ want →
      Moved want [⟨.readCounter, .ok v⟩, ⟨.increment, .ok ()⟩, ⟨.readCounter, .ok (v + 1)⟩]
        (.ok (.changed v (v + 1)))
  /-- It went somewhere else. -/
  | crossed {v w : UInt64} {message : String} : stateOf v ≠ want → w ≠ v + 1 →
      Moved want [⟨.readCounter, .ok v⟩, ⟨.increment, .ok ()⟩, ⟨.readCounter, .ok w⟩]
        (.error ⟨message, some w⟩)

section Histories

variable {want : Stop.State} {cs : List (Exchange Op Reply)}
  {out : Except TransitionError Transition}

/-- The state changes with every increment. -/
theorem stateOf_succ_of_ne {v : UInt64} (h : stateOf v ≠ want) : stateOf (v + 1) = want := by
  have hadd : (v + 1).toNat = (v.toNat + 1) % 2 ^ 64 := UInt64.toNat_add v 1
  have hlt := v.toNat_lt
  unfold stateOf at h ⊢
  rw [hadd]
  cases want <;> grind

theorem yields_readOnce {α : Type} {f : Except String UInt64 → Prog Op Reply α} {a : α}
    (h : (perform Op.readCounter >>= f).Yields cs a) :
    ∃ r cs', cs = ⟨.readCounter, r⟩ :: cs' ∧ (f r).Yields cs' a := by
  obtain ⟨cs₁, cs', r, rfl, hread, hrest⟩ := yields_bind.mp h
  obtain rfl := yields_perform.mp hread
  exact ⟨r, cs', rfl, hrest⟩

theorem yields_fail {message : String} (h : (fail message).Yields cs out) :
    ∃ r, cs = [⟨.readCounter, r⟩] ∧ out = .error ⟨message, r.toOption⟩ := by
  obtain ⟨r, cs', rfl, hret⟩ := yields_readOnce h
  obtain ⟨rfl, rfl⟩ := yields_pure.mp hret
  refine ⟨r, rfl, ?_⟩
  rcases r with e | v
  · rfl
  · rfl

/-- A move that returns went one of the six ways. -/
theorem moved_of_yields (h : (moveTo want).Yields cs out) : Moved want cs out := by
  obtain ⟨read, cs₁, rfl, hfrom⟩ := yields_readOnce h
  rcases read with e | v
  · obtain ⟨rfl, rfl⟩ := yields_pure.mp hfrom
    exact .unread
  rw [moveFrom] at hfrom
  by_cases hstate : stateOf v = want
  · rw [if_pos hstate] at hfrom
    obtain ⟨rfl, rfl⟩ := yields_pure.mp hfrom
    exact .already hstate
  rw [if_neg hstate] at hfrom
  obtain ⟨cs₂, cs₃, incremented, rfl, hinc, hrest⟩ := yields_bind.mp hfrom
  obtain rfl := yields_perform.mp hinc
  rcases incremented with e | ⟨⟩
  · obtain ⟨r, rfl, rfl⟩ := yields_fail hrest
    exact .failed hstate
  obtain ⟨back, cs₄, rfl, harrived⟩ := yields_readOnce hrest
  rcases back with e | w
  · obtain ⟨r, rfl, rfl⟩ := yields_fail harrived
    exact .lost hstate
  rw [arrived] at harrived
  by_cases hnext : w = v + 1
  · rw [if_pos hnext] at harrived
    obtain ⟨rfl, rfl⟩ := yields_pure.mp harrived
    subst hnext
    exact .changed hstate
  · rw [if_neg hnext] at harrived
    obtain ⟨rfl, rfl⟩ := yields_pure.mp harrived
    exact .crossed hstate hnext

/-- A successful move ends with reading a value of the wanted parity. -/
theorem Moved.last_ok {tr : Transition} (h : Moved want cs (.ok tr)) :
    ∃ w, cs.getLast? = some ⟨.readCounter, .ok w⟩ ∧ stateOf w = want := by
  cases h with
  | @already v hstate => exact ⟨v, rfl, hstate⟩
  | @changed v hstate => exact ⟨v + 1, rfl, stateOf_succ_of_ne hstate⟩

/-- What an unsuccessful one reports, it read last. -/
theorem Moved.last_now {err : TransitionError} {v : UInt64} (h : Moved want cs (.error err))
    (hnow : err.now = some v) : cs.getLast? = some ⟨.readCounter, .ok v⟩ := by
  have hread : ∀ {r : Except String UInt64}, r.toOption = some v → r = .ok v := by
    intro r hr
    rcases r with e | w
    · cases hr
    · exact congrArg Except.ok (Option.some.inj hr)
  cases h with
  | unread => cases hnow
  | failed _ => rw [hread hnow]; rfl
  | lost _ => rw [hread hnow]; rfl
  | crossed _ _ => rw [← Option.some.inj hnow]; rfl

/-- A move reads the counter and no more, or it reads a value of the wrong parity, increments, and
from then on only reads. -/
theorem Moved.shape (h : Moved want cs out) :
    (∃ read, cs = [⟨.readCounter, read⟩]) ∨
      ∃ v x rest, cs = ⟨.readCounter, .ok v⟩ :: ⟨.increment, x⟩ :: rest ∧ stateOf v ≠ want ∧
        ∀ c ∈ rest, c.1 = .readCounter := by
  cases h with
  | unread => exact .inl ⟨_, rfl⟩
  | already _ => exact .inl ⟨_, rfl⟩
  | failed hstate => exact .inr ⟨_, _, _, rfl, hstate, by simp⟩
  | lost hstate => exact .inr ⟨_, _, _, rfl, hstate, by simp⟩
  | changed hstate => exact .inr ⟨_, _, _, rfl, hstate, by simp⟩
  | crossed hstate _ => exact .inr ⟨_, _, _, rfl, hstate, by simp⟩

/-- So before its increment there is that reading, and after it no other increment. -/
theorem Moved.around_increment {l r : List (Exchange Op Reply)} {x : Except String Unit}
    (h : Moved want (l ++ ⟨.increment, x⟩ :: r) out) :
    ∃ v, l = [⟨.readCounter, .ok v⟩] ∧ stateOf v ≠ want ∧ ∀ c ∈ r, c.1 = .readCounter := by
  rcases h.shape with ⟨read, hcs⟩ | ⟨v, y, rest, hcs, hstate, hrest⟩
  · simp [List.append_eq_cons_iff] at hcs
  · rcases l with _ | ⟨c, l⟩
    · simp at hcs
    rw [List.cons_append] at hcs
    obtain ⟨rfl, htail⟩ := List.cons.inj hcs
    rcases l with _ | ⟨c, l⟩
    · obtain ⟨-, hr⟩ := List.cons.inj htail
      exact ⟨v, rfl, hstate, hr ▸ hrest⟩
    · -- a second increment would be among the readings
      obtain ⟨-, hr⟩ := List.cons.inj htail
      rw [← hr] at hrest
      cases hrest ⟨.increment, x⟩ (List.mem_append_right _ List.mem_cons_self)

/-- A successful move that read twice read a value and the next one, with its increment and nothing
else of its own in between. -/
theorem Moved.reads_ok {l m r : List (Exchange Op Reply)} {x y : Except String UInt64}
    {tr : Transition} (h : Moved want cs (.ok tr))
    (hcs : cs = l ++ ⟨.readCounter, x⟩ :: (m ++ ⟨.readCounter, y⟩ :: r)) :
    ∃ v, tr = .changed v (v + 1) ∧ x = .ok v ∧ y = .ok (v + 1) ∧ m = [⟨.increment, .ok ()⟩] := by
  cases h with
  | already _ => simp [List.cons_eq_append_iff] at hcs
  | @changed v _ =>
    obtain ⟨-, hx, htail⟩ : l = [] ∧ x = .ok v ∧ m ++ ⟨.readCounter, y⟩ :: r =
        [⟨.increment, .ok ()⟩, ⟨.readCounter, .ok (v + 1)⟩] := by
      simpa [List.cons_eq_append_iff] using hcs
    rcases m with _ | ⟨c, m⟩
    · simp at htail
    rw [List.cons_append] at htail
    obtain ⟨rfl, htail⟩ := List.cons.inj htail
    obtain ⟨rfl, hy⟩ : m = [] ∧ y = .ok (v + 1) := by
      simp [List.append_eq_cons_iff] at htail
      exact ⟨htail.1, htail.2.1⟩
    exact ⟨v, rfl, hx, hy, rfl⟩

end Histories

/-! ## The counter, going up by one -/

/-- What a call does to the counter, and what it may answer.  An increment that succeeds took effect
once; one that fails may have. -/
inductive Counts (s : UInt64) : Exchange Op Reply → UInt64 → Prop
  | readCounter : Counts s ⟨.readCounter, .ok s⟩ s
  | readCounterFailed {e : String} : Counts s ⟨.readCounter, .error e⟩ s
  | increment {s' : UInt64} : s'.toNat = s.toNat + 1 → Counts s ⟨.increment, .ok ()⟩ s'
  | incrementFailed {s' : UInt64} {e : String} :
      s' = s ∨ s'.toNat = s.toNat + 1 → Counts s ⟨.increment, .error e⟩ s'
  | certify {qd : List.Vector UInt8 32} {r : Except String (Bytes × Bytes)} :
      Counts s ⟨.certify qd, r⟩ s
  | pcrRead {spec : String} {r : Except String Bytes} : Counts s ⟨.pcrRead spec, r⟩ s
  | quote {qd : List.Vector UInt8 32} {spec : String} {r : Except String (Bytes × Bytes)} :
      Counts s ⟨.quote qd spec, r⟩ s
  | readFile {path : String} {n : ℕ} {r : Except FileError Bytes} : Counts s ⟨.readFile path n, r⟩ s

/-- Another process increments the counter.  It does not run out of values. -/
def Ticks (s : UInt64) (_ : Unit) (s' : UInt64) : Prop := s'.toNat = s.toNat + 1

/-- These are calls of a device whose counter never decreases. -/
theorem Counts.counter {s s' : UInt64} {c : Exchange Op Reply} (h : Counts s c s') :
    Counter (fun _ _ _ => True) s c s' := by
  cases h with
  | readCounter => exact .readCounter
  | readCounterFailed => exact .readCounterFailed
  | increment hnext => exact .increment (UInt64.le_iff_toNat_le.mpr (by omega))
  | incrementFailed hnext =>
    refine .increment ?_
    rcases hnext with rfl | hnext
    · exact UInt64.le_refl _
    · exact UInt64.le_iff_toNat_le.mpr (by omega)
  | certify => exact .certify
  | pcrRead => exact .pcrRead
  | quote => exact .quote
  | readFile => exact .readFile trivial

section Runs

variable {C : Crypto} {ι : Type} {owned : Owned C} {tasks : ι → Task} {i j : ι} {want : Stop.State}
  {s t v w : UInt64} {es m : List (Event UInt64 (Act ι Op Reply Unit))}
  {e : Event UInt64 (Act ι Op Reply Unit)} {out : Except TransitionError Transition}

/-- Call `i` is a move towards `want`. -/
def IsMove (tasks : ι → Task) (i : ι) (want : Stop.State) : Prop :=
  (tasks i = .trip ∧ want = .stopped) ∨ tasks i = .settle want

/-- Call `i` reads the counter, which holds `v`. -/
def Reads (i : ι) (v : UInt64) (e : Event UInt64 (Act ι Op Reply Unit)) : Prop :=
  e.label = .call i ⟨.readCounter, .ok v⟩ ∧ e.pre = v ∧ e.post = v

/-- The counter moves, and not by an increment of call `i`. -/
def Foreign (i : ι) (e : Event UInt64 (Act ι Op Reply Unit)) : Prop :=
  e.pre ≠ e.post ∧ ∀ x, e.label ≠ .call i ⟨.increment, x⟩

theorem le_of_counting {s : UInt64} {a : Act ι Op Reply Unit} {s' : UInt64}
    (h : Shared Counts Ticks s a s') : s.toNat ≤ s'.toNat := by
  cases h with
  | call hsem => exact hsem.counter.le
  | env htick => exact htick ▸ Nat.le_succ _

theorem reads_of_label (hrun : Run (Shared Counts Ticks) s es t) (he : e ∈ es)
    (hlabel : e.label = .call i ⟨.readCounter, .ok v⟩) : Reads i v e := by
  have hcall := (hrun.step_of_mem he).sem_of_call hlabel
  obtain ⟨pre, a, post⟩ := e
  cases hcall
  exact ⟨hlabel, rfl, rfl⟩

theorem program_of_isMove (hi : IsMove tasks i want) :
    (tasks i).program owned = .transition <$> moveTo want := by
  rcases hi with ⟨htask, rfl⟩ | htask
  · rw [htask]
    rfl
  · rw [htask]
    rfl

variable [DecidableEq ι]

/-- A run of the device: the tasks interleaved, and others incrementing the counter. -/
abbrev CountingRun (owned : Owned C) (tasks : ι → Task) (s : UInt64)
    (es : List (Event UInt64 (Act ι Op Reply Unit))) (t : UInt64) : Prop :=
  Interleaving Counts Ticks (fun i => (tasks i).program owned) s es t

/-- Call `i` has returned `out`. -/
def Reports (owned : Owned C) (tasks : ι → Task) (es : List (Event UInt64 (Act ι Op Reply Unit)))
    (i : ι) (out : Except TransitionError Transition) : Prop :=
  ((tasks i).program owned).Yields (callsOf i es) (.transition out)

theorem moved_of_reports (hi : IsMove tasks i want) (h : Reports owned tasks es i out) :
    Moved want (callsOf i es) out := by
  rw [Reports, program_of_isMove hi] at h
  obtain ⟨out', hmove, hout⟩ := yields_map.mp h
  cases hout
  exact moved_of_yields hmove

/-- Whatever a move has done so far is the start of one of the six ways. -/
theorem moved_of_run (hi : IsMove tasks i want) (hrun : CountingRun owned tasks s es t) :
    ∃ cs out, Moved want (callsOf i es ++ cs) out := by
  obtain ⟨q, hq⟩ := hrun.follows i
  obtain ⟨cs, o, ho⟩ := hq.exists_yields
  rw [program_of_isMove hi] at ho
  obtain ⟨out, hmove, -⟩ := yields_map.mp ho
  exact ⟨cs, out, moved_of_yields hmove⟩

/-- **The two values decide.**  If the counter is one higher after a stretch in which call `i` made
one successful increment, nobody else moved it there. -/
theorem not_foreign_between (hrun : Run (Shared Counts Ticks) v m (v + 1))
    (hcalls : callsOf i m = [⟨.increment, .ok ()⟩]) :
    (v + 1).toNat = v.toNat + 1 ∧ ∀ d ∈ m, ¬ Foreign i d := by
  obtain ⟨l, a, b, r, rfl, -, -, hl, hinc, hr⟩ := exists_call hrun hcalls
  have hle₁ := hl.mono (f := UInt64.toNat) fun _ _ _ hstep => le_of_counting hstep
  have hle₂ := hr.mono (f := UInt64.toNat) fun _ _ _ hstep => le_of_counting hstep
  have hnext : b.toNat = a.toNat + 1 := by
    cases hinc with
    | increment h => exact h
  have hadd : (v + 1).toNat = v.toNat + 1 := by
    have hwrap : (v + 1).toNat = (v.toNat + 1) % 2 ^ 64 := UInt64.toNat_add v 1
    have hlt := b.toNat_lt
    rw [hwrap]
    omega
  have hsame : ∀ {s' t' : UInt64} {es' : List (Event UInt64 (Act ι Op Reply Unit))}
      {d : Event UInt64 (Act ι Op Reply Unit)}, Run (Shared Counts Ticks) s' es' t' →
      t'.toNat ≤ s'.toNat → d ∈ es' → ¬ Foreign i d := by
    intro s' t' es' d hrun' hback hd hforeign
    obtain ⟨hpre, hpost⟩ :=
      hrun'.squeeze (f := UInt64.toNat) (fun _ _ _ hstep => le_of_counting hstep) hback hd
    exact hforeign.1 (UInt64.toNat_inj.mp (hpre.trans hpost.symm))
  refine ⟨hadd, fun d hd => ?_⟩
  rcases List.mem_append.mp hd with hd | hd
  · exact hsame hl (by omega) hd
  · rcases List.mem_cons.mp hd with rfl | hd
    · exact fun hforeign => hforeign.2 _ rfl
    · exact hsame hr (by omega) hd

/-- What a move may be relied on for, in a run. -/
structure MoveSound (owned : Owned C) (tasks : ι → Task) (i : ι) (want : Stop.State)
    (es : List (Event UInt64 (Act ι Op Reply Unit))) : Prop where
  /-- It increments at most once, and only after it has read a value of the unwanted parity. -/
  increments : ∀ l e r x, es = l ++ e :: r → e.label = .call i ⟨.increment, x⟩ →
    (∃ v, stateOf v ≠ want ∧ ∃ e' ∈ l, Reads i v e') ∧
      ∀ e' ∈ l ++ r, ∀ x', e'.label ≠ .call i ⟨.increment, x'⟩
  /-- A counter reported as already there held that value, of the wanted parity, within the call. -/
  alreadyThere : ∀ v, Reports owned tasks es i (.ok (.alreadyThere v)) →
    stateOf v = want ∧ ∃ e ∈ es, Reads i v e
  /-- A counter reported as changed went up by one, to the wanted parity; it held both values within
  the call, and between the two readings nobody else moved it. -/
  changed : ∀ v w, Reports owned tasks es i (.ok (.changed v w)) →
    w.toNat = v.toNat + 1 ∧ stateOf w = want ∧
      ∃ e m e', Before es e m e' ∧ Reads i v e ∧ Reads i w e' ∧ ∀ d ∈ m, ¬ Foreign i d
  /-- If somebody else moved it between two readings, the result is an error, and the counter value
  in it, if there is one, was read after that. -/
  crossed : ∀ out l d r, Reports owned tasks es i out → es = l ++ d :: r → Foreign i d →
    (∃ e ∈ l, ∃ x, e.label = .call i ⟨.readCounter, x⟩) →
    (∃ e ∈ r, ∃ x, e.label = .call i ⟨.readCounter, x⟩) →
      ∃ err, out = .error err ∧ ∀ v, err.now = some v → ∃ e ∈ r, Reads i v e
  /-- Once a stop has been reported, no call is let through that reads the counter after the last
  reading of the move, as long as the counter has not moved since. -/
  stopped : want = .stopped → ∀ tr l e r x, Reports owned tasks es i (.ok tr) → es = l ++ e :: r →
    e.label = .call i ⟨.readCounter, x⟩ → callsOf i r = [] →
      ∀ j m e' r' v, r = m ++ e' :: r' → Reads j v e' → (∀ d ∈ m, d.pre = d.post) →
        ¬ Allowed owned tasks es j

section Parts

variable {l r : List (Event UInt64 (Act ι Op Reply Unit))} {d : Event UInt64 (Act ι Op Reply Unit)}

theorem callsOf_split {c : Exchange Op Reply} (hlabel : e.label = .call i c) :
    callsOf i (l ++ e :: r) = callsOf i l ++ c :: callsOf i r := by
  obtain ⟨pre, a, post⟩ := e
  cases hlabel
  rw [callsOf_append, callsOf_cons_call]

theorem increments_of_run (hi : IsMove tasks i want) (hrun : CountingRun owned tasks s es t)
    {x : Except String Unit} (hes : es = l ++ e :: r) (hlabel : e.label = .call i ⟨.increment, x⟩) :
    (∃ v, stateOf v ≠ want ∧ ∃ e' ∈ l, Reads i v e') ∧
      ∀ e' ∈ l ++ r, ∀ x', e'.label ≠ .call i ⟨.increment, x'⟩ := by
  obtain ⟨cs, out, hmoved⟩ := moved_of_run hi hrun
  rw [hes, callsOf_split hlabel, List.append_assoc, List.cons_append] at hmoved
  obtain ⟨v, hbefore, hstate, hafter⟩ := hmoved.around_increment
  have hread : (⟨.readCounter, .ok v⟩ : Exchange Op Reply) ∈ callsOf i l := by
    rw [hbefore]
    exact List.mem_singleton.mpr rfl
  obtain ⟨e', he', hread'⟩ := exists_mem_of_mem_callsOf hread
  have hmem : e' ∈ es := hes ▸ List.mem_append_left _ he'
  refine ⟨⟨v, hstate, e', he', reads_of_label hrun.run hmem hread'⟩, fun e' he' x' hinc => ?_⟩
  rcases List.mem_append.mp he' with hl | hr
  · have hcall := mem_callsOf hl hinc
    rw [hbefore] at hcall
    cases List.mem_singleton.mp hcall
  · cases hafter _ (List.mem_append_left _ (mem_callsOf hr hinc))

theorem alreadyThere_of_run (hi : IsMove tasks i want) (hrun : CountingRun owned tasks s es t)
    (h : Reports owned tasks es i (.ok (.alreadyThere v))) :
    stateOf v = want ∧ ∃ e ∈ es, Reads i v e := by
  obtain ⟨w, hlast, hstate⟩ := (moved_of_reports hi h).last_ok
  have hvw : w = v := by
    generalize hcs : callsOf i es = cs at hlast
    have hmoved := moved_of_reports hi h
    rw [hcs] at hmoved
    cases hmoved with
    | already _ => simpa using hlast.symm
  subst hvw
  obtain ⟨e, he, hlabel⟩ := exists_mem_of_mem_callsOf (List.mem_of_getLast? hlast)
  exact ⟨hstate, e, he, reads_of_label hrun.run he hlabel⟩

/-- Two readings of a move that succeeded are of a value and the next, and nobody else moved the
counter in between. -/
theorem quiet_of_ok {tr : Transition} {e' : Event UInt64 (Act ι Op Reply Unit)}
    {x y : Except String UInt64} (hi : IsMove tasks i want) (hrun : CountingRun owned tasks s es t)
    (h : Reports owned tasks es i (.ok tr)) (hes : es = l ++ e :: (m ++ e' :: r))
    (he : e.label = .call i ⟨.readCounter, x⟩) (he' : e'.label = .call i ⟨.readCounter, y⟩) :
    ∃ v, tr = .changed v (v + 1) ∧ Reads i v e ∧ Reads i (v + 1) e' ∧
      (v + 1).toNat = v.toNat + 1 ∧ ∀ d ∈ m, ¬ Foreign i d := by
  have hcalls : callsOf i es = callsOf i l ++ ⟨.readCounter, x⟩ ::
      (callsOf i m ++ ⟨.readCounter, y⟩ :: callsOf i r) := by
    rw [hes, callsOf_split he, callsOf_split he']
  obtain ⟨v, rfl, rfl, rfl, hm⟩ := (moved_of_reports hi h).reads_ok hcalls
  have hbefore : Before es e m e' := ⟨l, r, hes⟩
  have hreads := reads_of_label hrun.run hbefore.mem_left he
  have hreads' := reads_of_label hrun.run hbefore.mem_right he'
  have hbetween := hrun.run.between hbefore
  rw [hreads.2.2, hreads'.2.1] at hbetween
  exact ⟨v, rfl, hreads, hreads', not_foreign_between hbetween hm⟩

theorem changed_of_run (hi : IsMove tasks i want) (hrun : CountingRun owned tasks s es t)
    (h : Reports owned tasks es i (.ok (.changed v w))) :
    w.toNat = v.toNat + 1 ∧ stateOf w = want ∧
      ∃ e m e', Before es e m e' ∧ Reads i v e ∧ Reads i w e' ∧ ∀ d ∈ m, ¬ Foreign i d := by
  have hhistory : callsOf i es =
      [⟨.readCounter, .ok v⟩, ⟨.increment, .ok ()⟩, ⟨.readCounter, .ok w⟩] := by
    generalize hcs : callsOf i es = cs
    have hmoved := moved_of_reports hi h
    rw [hcs] at hmoved
    cases hmoved with
    | changed _ => rfl
  obtain ⟨l, a, b, r₁, hes, -, hr₁, -, -, hrun₁⟩ := exists_call hrun.run hhistory
  obtain ⟨m₁, c, c', r₂, hes₁, -, hr₂, -, -, hrun₂⟩ := exists_call hrun₁ hr₁
  obtain ⟨m₂, f, f', r, hes₂, -, -, -, -, -⟩ := exists_call hrun₂ hr₂
  have hsplit : es = l ++ ⟨a, .call i ⟨.readCounter, .ok v⟩, b⟩ ::
      ((m₁ ++ ⟨c, .call i ⟨.increment, .ok ()⟩, c'⟩ :: m₂) ++
        ⟨f, .call i ⟨.readCounter, .ok w⟩, f'⟩ :: r) := by
    rw [hes, hes₁, hes₂]
    simp
  obtain ⟨v', htr, hreads, hreads', hnext, hquiet⟩ := quiet_of_ok hi hrun h hsplit rfl rfl
  obtain ⟨rfl, rfl⟩ := Transition.changed.inj htr
  obtain ⟨w', hlast, hstate⟩ := (moved_of_reports hi h).last_ok
  rw [hhistory] at hlast
  obtain rfl : w' = v + 1 := by simpa using hlast.symm
  exact ⟨hnext, hstate, _, _, _, ⟨l, r, hsplit⟩, hreads, hreads', hquiet⟩

theorem crossed_of_run (hi : IsMove tasks i want) (hrun : CountingRun owned tasks s es t)
    (h : Reports owned tasks es i out) (hes : es = l ++ d :: r) (hforeign : Foreign i d)
    (hbefore : ∃ e ∈ l, ∃ x, e.label = .call i ⟨.readCounter, x⟩)
    (hafter : ∃ e ∈ r, ∃ x, e.label = .call i ⟨.readCounter, x⟩) :
    ∃ err, out = .error err ∧ ∀ v, err.now = some v → ∃ e ∈ r, Reads i v e := by
  obtain ⟨e, he, x, hlabel⟩ := hbefore
  obtain ⟨e', he', y, hlabel'⟩ := hafter
  rcases out with err | tr
  · refine ⟨err, rfl, fun v hnow => ?_⟩
    -- what is reported was read last, and there is a reading after the foreign increment
    have hlast := (moved_of_reports hi h).last_now hnow
    have hsplit : callsOf i es = callsOf i (l ++ [d]) ++ callsOf i r := by
      rw [hes, ← callsOf_append]
      simp
    have hsome : callsOf i r ≠ [] := List.ne_nil_of_mem (mem_callsOf he' hlabel')
    rw [hsplit, List.getLast?_append_of_ne_nil _ hsome] at hlast
    obtain ⟨f, hf, hread⟩ := exists_mem_of_mem_callsOf (List.mem_of_getLast? hlast)
    have hmem : f ∈ es := hes ▸ List.mem_append_right _ (List.mem_cons_of_mem _ hf)
    exact ⟨f, hf, reads_of_label hrun.run hmem hread⟩
  · obtain ⟨l₁, l₂, rfl⟩ := List.append_of_mem he
    obtain ⟨r₁, r₂, rfl⟩ := List.append_of_mem he'
    have hsplit : es = l₁ ++ e :: ((l₂ ++ d :: r₁) ++ e' :: r₂) := by
      rw [hes]
      simp
    obtain ⟨-, -, -, -, -, hquiet⟩ := quiet_of_ok hi hrun h hsplit hlabel hlabel'
    exact absurd hforeign (hquiet d (List.mem_append_right _ List.mem_cons_self))

theorem stopped_of_run (hi : IsMove tasks i .stopped) (hrun : CountingRun owned tasks s es t)
    {tr : Transition} {x : Except String UInt64} (h : Reports owned tasks es i (.ok tr))
    (hes : es = l ++ e :: r) (hlabel : e.label = .call i ⟨.readCounter, x⟩)
    (hlast : callsOf i r = []) {e' : Event UInt64 (Act ι Op Reply Unit)}
    {r' : List (Event UInt64 (Act ι Op Reply Unit))} (hr : r = m ++ e' :: r') (hread : Reads j v e')
    (hstill : ∀ d ∈ m, d.pre = d.post) : ¬ Allowed owned tasks es j := by
  intro hallowed
  obtain ⟨w, hreadLast, hstate⟩ := (moved_of_reports hi h).last_ok
  rw [hes, callsOf_split hlabel, hlast, List.getLast?_concat] at hreadLast
  cases hreadLast
  -- from the last reading of the move to the reading of the call, the counter stays
  have hbefore : Before es e m e' := ⟨l, r', by rw [hes, hr]⟩
  have hmoved := reads_of_label hrun.run hbefore.mem_left hlabel
  have hsame := (hrun.run.between hbefore).eq_of_still hstill
  rw [hmoved.2.2, hread.2.1] at hsame
  obtain ⟨c, record, sig, hcalls, hrunning, -⟩ := calls_of_allowed hallowed
  have hmem := mem_callsOf hbefore.mem_right hread.1
  rw [hcalls] at hmem
  obtain rfl : v = c := by simpa using hmem
  rw [hsame, hrunning] at hstate
  cases hstate

end Parts

/-- **A move may be relied on, whatever the others do to the counter.** -/
theorem move_sound (hi : IsMove tasks i want) (hrun : CountingRun owned tasks s es t) :
    MoveSound owned tasks i want es where
  increments _ _ _ _ hes hlabel := increments_of_run hi hrun hes hlabel
  alreadyThere _ h := alreadyThere_of_run hi hrun h
  changed _ _ h := changed_of_run hi hrun h
  crossed _ _ _ _ h hes hforeign hbefore hafter :=
    crossed_of_run hi hrun h hes hforeign hbefore hafter
  stopped hwant _ _ _ _ _ h hes hlabel hlast _ _ _ _ _ hr hread hstill :=
    stopped_of_run (hwant ▸ hi) hrun h hes hlabel hlast hr hread hstill

end Runs

/-- An operator trips at 4, and somebody else increments the counter before the operator's
increment: the agent is left running, at 6. -/
def crossedTrip : List (Event UInt64 (Act Unit Op Reply Unit)) :=
  [⟨4, .call () ⟨.readCounter, .ok 4⟩, 4⟩, ⟨4, .env (), 5⟩, ⟨5, .call () ⟨.increment, .ok ()⟩, 6⟩,
    ⟨6, .call () ⟨.readCounter, .ok 6⟩, 6⟩]

theorem crossedTrip_run : CountingRun deviceFour (fun _ => .trip) 4 crossedTrip 6 where
  run := .cons (.call .readCounter) (.cons (.env rfl) (.cons (.call (.increment rfl))
    (.cons (.call .readCounter) (.nil _))))
  follows _ := ⟨_, .call (.call (.call (.here _)))⟩

theorem crossedTrip_sound : MoveSound deviceFour (fun _ => .trip) () .stopped crossedTrip :=
  move_sound (.inl ⟨rfl, rfl⟩) crossedTrip_run

end TactiqAttest.Service
