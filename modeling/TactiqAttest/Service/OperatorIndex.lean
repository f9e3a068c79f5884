import TactiqAttest.Service.Move
import TactiqAttest.Service.Operator
import TactiqAttest.Service.Recover

/-!
# What the operator's commands do to the index

With the lock, a command is alone with the index.  Its calls are followed here at two levels:
`Counted` is what the commands of `Service.Core` see of the index, as a counter; `Sem` is what the
calls of a whole process do to it.  `counted_real` connects the two: what `Real` makes of each call
does to the index what the call may do to the counter.  A lift also goes by the release files, so it
is followed together with what it has read, and `follows_real` connects that: a file that the
service's command has seen is one that the process has read.

`obeys_tripBody`, `obeys_recoverBody` and `obeys_defineBody` say of each command in which states it
changes the index (`MayTrip`, `MayRecover`, `MayDefine`), and what it comes to.
-/

namespace TactiqAttest.Operator

open Stop Service StopIndex Prog

/-! ## The counter -/

section Counter

variable {Faulty : Prop} {s s' : Option Index} {P : Option Index → Service.Op → Prop} {want : State}
  {v : UInt64}

variable (Faulty) in
/-- What the service's calls do to the counter. -/
def Counted (s : Option Index) : Exchange Service.Op Service.Reply → Option Index → Prop
  | ⟨.readCounter, r⟩, s' => s' = s ∧ (∀ v, r = .ok v → valueOf s = some v) ∧
      (r.isOk = true ∨ Faulty ∨ valueOf s = none)
  | ⟨.increment, r⟩, s' => Changed Faulty Incremented s r s'
  | _, s' => s' = s

/-- The counter cannot go on. -/
def AtEnd (s : Option Index) : Prop := ∃ v, valueOf s = some v ∧ ¬ v < v + 1

/-- The index as one increment leaves it. -/
def bumped (s : Option Index) (v : UInt64) : Option Index := withValue s (v + 1)

theorem valueOf_withValue (h : valueOf s = some v) (w : UInt64) :
    valueOf (withValue s w) = some w := by
  rcases s with _ | i
  · cases h
  · rfl

theorem isSome_of_valueOf (h : valueOf s = some v) : s.isSome = true := by
  rcases s with _ | i
  · cases h
  · rfl

theorem incremented_iff (h : valueOf s = some v) :
    Incremented s s' ↔ s' = bumped s v ∧ v < v + 1 := by
  unfold Incremented
  rw [h]
  constructor
  · rintro ⟨-, w, ⟨rfl, hlt⟩, rfl⟩
    exact ⟨rfl, hlt⟩
  · rintro ⟨rfl, hlt⟩
    exact ⟨isSome_of_valueOf h, v + 1, ⟨rfl, hlt⟩, rfl⟩

variable (Faulty) in
/-- What a move has come to. -/
structure Moved (want : State) (s s' : Option Index) (out : Except TransitionError Transition) :
    Prop where
  /-- The index is as it was, or one step on, from a value of the other parity. -/
  index : s' = s ∨ ∃ v, valueOf s = some v ∧ stateOf v ≠ want ∧ v < v + 1 ∧ s' = bumped s v
  /-- It is what was wanted, and is reported. -/
  ok : ∀ tr, out = .ok tr → ∃ v, valueOf s = some v ∧
    (tr = .alreadyThere v ∧ stateOf v = want ∧ s' = s ∨
      tr = .changed v (v + 1) ∧ stateOf v ≠ want ∧ s' = bumped s v)
  /-- The value that is reported is that of the index; and there was a fault, or there is no value,
  or no further one. -/
  error : ∀ err, out = .error err → (∀ v, err.now = some v → valueOf s' = some v) ∧
    (Faulty ∨ valueOf s = none ∨ AtEnd s)

/-- The value wanted is there. -/
theorem Moved.wanted {tr : Transition} (h : Moved Faulty want s s' (.ok tr)) :
    ∃ v, valueOf s' = some v ∧ stateOf v = want := by
  obtain ⟨v, hv, ⟨-, hstate, rfl⟩ | ⟨-, hstate, rfl⟩⟩ := h.ok tr rfl
  · exact ⟨v, hv, hstate⟩
  · exact ⟨v + 1, valueOf_withValue hv _, stateOf_succ_of_ne hstate⟩

/-- A failure, with the counter read once more. -/
theorem obeys_fail {s₀ : Option Index} (message : String) (hread : P s .readCounter)
    (hindex : s = s₀ ∨ ∃ v, valueOf s₀ = some v ∧ stateOf v ≠ want ∧ v < v + 1 ∧ s = bumped s₀ v)
    (hwhy : Faulty ∨ valueOf s₀ = none ∨ AtEnd s₀) :
    Obeys (Counted Faulty) P (fail message) (fun s' out => Moved Faulty want s₀ s' out) s := by
  refine obeys_bind (obeys_perform hread ?_)
  rintro (e | w) s' ⟨rfl, hval, -⟩
  · refine ⟨hindex, fun _ h => (by cases h), fun err h => ?_⟩
    cases h
    exact ⟨fun _ h => (by cases h), hwhy⟩
  · refine ⟨hindex, fun _ h => (by cases h), fun err h => ?_⟩
    cases h
    refine ⟨fun v hv => ?_, hwhy⟩
    rw [← Option.some_inj.mp hv]
    exact hval w rfl

/-- **A move**, of an index that nobody else moves. -/
theorem obeys_moveTo (hread : ∀ s, P s .readCounter)
    (hinc : ∀ v, valueOf s = some v → stateOf v ≠ want → P s .increment) :
    Obeys (Counted Faulty) P (moveTo want) (fun s' out => Moved Faulty want s s' out) s := by
  refine obeys_bind (obeys_perform (hread s) ?_)
  rintro (e | v) s' ⟨rfl, hval, herr⟩
  · refine ⟨.inl rfl, fun _ h => (by cases h), fun err h => ?_⟩
    cases h
    refine ⟨fun _ h => (by cases h), ?_⟩
    rcases herr with h | h | h
    · cases h
    · exact .inl h
    · exact .inr (.inl h)
  have hv : valueOf s' = some v := hval v rfl
  show Obeys _ _ (if stateOf v = want then _ else _) _ _
  split_ifs with hstate
  · refine ⟨.inl rfl, fun tr h => ?_, fun _ h => (by cases h)⟩
    cases h
    exact ⟨v, hv, .inl ⟨rfl, hstate, rfl⟩⟩
  -- the parity is wrong
  refine obeys_bind (obeys_perform (hinc v hv hstate) fun r t hchanged => ?_)
  have hwhy : r.isOk = false → Faulty ∨ valueOf s' = none ∨ AtEnd s' := by
    intro hr
    rcases hchanged with ⟨-, h | h⟩ | ⟨-, -, h | h⟩
    · exact .inl h
    · rw [hr] at h
      cases h
    · exact .inl h
    · exact .inr (.inr ⟨v, hv, fun hlt => h _ ((incremented_iff hv).mpr ⟨rfl, hlt⟩)⟩)
  have hindex : t = s' ∨ ∃ v, valueOf s' = some v ∧ stateOf v ≠ want ∧ v < v + 1 ∧
      t = bumped s' v := by
    rcases hchanged with ⟨h, -⟩ | ⟨h, -⟩
    · obtain ⟨h, hlt⟩ := (incremented_iff hv).mp h
      exact .inr ⟨v, hv, hstate, hlt, h⟩
    · exact .inl h
  rcases r with e | ⟨⟩
  · exact obeys_fail _ (hread t) hindex (hwhy rfl)
  obtain rfl : t = bumped s' v := by
    rcases hchanged with ⟨h, -⟩ | ⟨-, h, -⟩
    · exact ((incremented_iff hv).mp h).1
    · cases h
  have hnext : valueOf (bumped s' v) = some (v + 1) := valueOf_withValue hv _
  refine obeys_bind (obeys_perform (hread _) ?_)
  rintro (e | w) s'' ⟨rfl, hval', herr'⟩
  · refine obeys_fail _ (hread _) hindex ?_
    rcases herr' with h | h | h
    · cases h
    · exact .inl h
    · rw [hnext] at h
      cases h
  obtain rfl : v + 1 = w := Option.some_inj.mp (hnext.symm.trans (hval' w rfl))
  show Obeys _ _ (if v + 1 = v + 1 then _ else _) _ _
  rw [if_pos rfl]
  refine ⟨hindex, fun tr h => ?_, fun _ h => (by cases h)⟩
  cases h
  exact ⟨v, hv, .inr ⟨rfl, hstate, rfl⟩⟩

/-! ## A release -/

variable {C : Crypto} {lift : Lift C}

/-- The two files of a release were read, and hold one for this device and this epoch, with the
operator's signature. -/
def Released (lift : Lift C) (read : String → ℕ → Bytes → Prop) (epoch : UInt64) : Prop :=
  ∃ record sig, read release.record (maxRecord + 1) record ∧ read release.sig (maxSig + 1) sig ∧
    Release.check C lift.operatorKey record sig lift.deviceId epoch = .ok ()

/-- The file was read, up to so many bytes, and this is what it held. -/
def FileIn (cs : List (Exchange Service.Op Service.Reply)) (path : String) (n : ℕ) (b : Bytes) :
    Prop :=
  ⟨.readFile path n, .ok b⟩ ∈ cs

variable {read read' : String → ℕ → Bytes → Prop}

theorem Released.mono (h : Released lift read v)
    (hread : ∀ path n b, read path n b → read' path n b) : Released lift read' v := by
  obtain ⟨record, sig, hrecord, hsig, hcheck⟩ := h
  exact ⟨record, sig, hread _ _ _ hrecord, hread _ _ _ hsig, hcheck⟩

theorem FileIn.mono {cs cs' : List (Exchange Service.Op Service.Reply)}
    (hcs : cs <+: cs') (path : String)
    (n : ℕ) (b : Bytes) (h : FileIn cs path n b) : FileIn cs' path n b := hcs.subset h

/-- The gate is decided without touching the counter, and opened by what was read. -/
theorem obeys_gate (hstore : lift.release = Service.release.read)
    (past : List (Exchange Service.Op Service.Reply)) :
    Obeys (withHistory (Counted Faulty)) (fun _ op => IsFile op) (gate lift v).run
      (fun m r => m.1 = s ∧ past <+: m.2 ∧
        (r = .ok .opened → stateOf v = .running ∧ Released lift (FileIn m.2) v)) (s, past) := by
  have honly : (gate lift v).run.Only IsFile := gate_only (hstore ▸ release_files _) v
  have hstill : Obeys (Counted Faulty) (fun _ op => IsFile op) (gate lift v).run
      (fun s' _ => s' = s) s := by
    refine honly.obeys (I := fun t => t = s) (fun _ _ _ hop => hop) ?_ rfl
    rintro t op r t' rfl ⟨path, n, rfl⟩ hsem
    exact hsem
  refine (hstill.history past).mono (fun _ _ h => h.1) ?_
  rintro m r ⟨hs, cs, hyields, hm⟩
  refine ⟨hs, hm ▸ List.prefix_append _ _, ?_⟩
  rintro rfl
  obtain ⟨hstate, record, sig, hread, hcheck⟩ := yields_gate_opened.mp hyields
  rw [hstore] at hread
  obtain ⟨-, -, rfl⟩ := ReleaseFiles.yields_read_some.mp hread
  refine ⟨hstate, record, sig, ?_, ?_, hcheck⟩
  · rw [FileIn, hm]
    exact List.mem_append_right _ List.mem_cons_self
  · rw [FileIn, hm]
    exact List.mem_append_right _ (List.mem_cons_of_mem _ List.mem_cons_self)

/-- What `recover` has come to. -/
structure Recovered (lift : Lift C) (read : String → ℕ → Bytes → Prop) (s s' : Option Index)
    (out : Except TransitionError Transition) : Prop where
  /-- The index is as it was, or one step on, from a stop, to an epoch that has been released. -/
  index : s' = s ∨ ∃ v, valueOf s = some v ∧ stateOf v = .stopped ∧ Released lift read (v + 1) ∧
    s' = bumped s v
  /-- The agent runs, and that has been released. -/
  ok : ∀ tr, out = .ok tr → ∃ v, valueOf s' = some v ∧ stateOf v = .running ∧ Released lift read v
  /-- The value that is reported is that of the index. -/
  error : ∀ err, out = .error err → ∀ v, err.now = some v → valueOf s' = some v

theorem Recovered.mono {out : Except TransitionError Transition} (h : Recovered lift read s s' out)
    (hread : ∀ path n b, read path n b → read' path n b) : Recovered lift read' s s' out where
  index := h.index.imp_right fun ⟨v, hv, hstate, hreleased, hs'⟩ =>
    ⟨v, hv, hstate, hreleased.mono hread, hs'⟩
  ok tr htr := by
    obtain ⟨v, hv, hstate, hreleased⟩ := h.ok tr htr
    exact ⟨v, hv, hstate, hreleased.mono hread⟩
  error := h.error

/-- **A recovery**, of an index that nobody else moves, lifts the stop to the epoch that was
released. -/
theorem obeys_recover (hstore : lift.release = Service.release.read)
    {may : Option Index × List (Exchange Service.Op Service.Reply) → Prop}
    (hmay : ∀ v past, valueOf s = some v → stateOf v = .stopped →
      Released lift (FileIn past) (v + 1) →
      may (s, past)) :
    Obeys (withHistory (Counted Faulty)) (fun m op => op = .increment → may m) (recover lift)
      (fun m out => Recovered lift (FileIn m.2) s m.1 out) (s, []) := by
  refine obeys_bind (obeys_perform (fun h => by cases h) ?_)
  rintro (e | v) ⟨s', past⟩ ⟨⟨rfl, hval, -⟩, -⟩
  · refine ⟨.inl rfl, fun _ h => (by cases h), fun err h => ?_⟩
    cases h
    exact fun _ h => by cases h
  have hv : valueOf s' = some v := hval v rfl
  have hrefused : ∀ why read, Recovered lift read s' s' (.error (refused v why)) := by
    refine fun why read => ⟨.inl rfl, fun _ h => (by cases h), fun err h w hw => ?_⟩
    cases h
    rw [← Option.some_inj.mp hw]
    exact hv
  refine obeys_bind ((obeys_gate hstore past).mono ?_ ?_)
  · rintro m _ ⟨path, n, rfl⟩ h
    cases h
  rintro ⟨t, past'⟩ (e | g) ⟨rfl, -, hopened⟩
  · exact hrefused e _
  cases g with
  | stopped => exact hrefused "odd epoch" _
  | unreleased why => exact hrefused why _
  | opened =>
    obtain ⟨hstate, hreleased⟩ := hopened rfl
    show Obeys _ _ (if target v = v then _ else _) _ _
    by_cases hv' : stateOf v = .running
    · have htarget : target v = v := if_pos hv'
      rw [if_pos htarget]
      refine ⟨.inl rfl, fun tr _ => ⟨v, hv, hv', htarget ▸ hreleased⟩, fun _ h => (by cases h)⟩
    -- from a stop
    have hstopped : stateOf v = .stopped := by
      rcases hs : stateOf v with _ | _
      · exact absurd hs hv'
      · rfl
    have htarget : target v = v + 1 := if_neg hv'
    have hne : v + 1 ≠ v := by
      intro h
      rw [htarget, h] at hstate
      exact hv' hstate
    rw [htarget] at hreleased ⊢
    rw [if_neg hne]
    have hmove : Obeys (Counted Faulty) (fun t' op => op = .increment → t' = t) (moveTo .running)
        (fun s'' out => Moved Faulty .running t s'' out) t :=
      obeys_moveTo (fun _ h => (by cases h)) fun _ _ _ _ => rfl
    refine (hmove.history past').mono ?_ ?_
    · rintro ⟨t', past''⟩ op ⟨hsame, hpast⟩ hop
      obtain rfl : t' = t := hsame hop
      exact hmay v past'' hv hstopped (hreleased.mono (FileIn.mono hpast))
    rintro ⟨s', past''⟩ out ⟨hmoved, cs, -, rfl⟩
    have hreleased' : Released lift (FileIn (past' ++ cs)) (v + 1) :=
      hreleased.mono (FileIn.mono (List.prefix_append _ _))
    refine ⟨?_, fun tr hok => ?_, fun err herr => (hmoved.error err herr).1⟩
    · rcases hmoved.index with h | ⟨w, hw, -, -, h⟩
      · exact .inl h
      · obtain rfl : v = w := Option.some_inj.mp (hv.symm.trans hw)
        exact .inr ⟨v, hv, hstopped, hreleased', h⟩
    · obtain ⟨w, hw, ⟨-, hstate', -⟩ | ⟨-, -, h⟩⟩ := hmoved.ok tr hok
      · obtain rfl : v = w := Option.some_inj.mp (hv.symm.trans hw)
        exact absurd hstate' hv'
      · obtain rfl : v = w := Option.some_inj.mp (hv.symm.trans hw)
        refine ⟨v + 1, ?_, htarget ▸ hstate, hreleased'⟩
        rw [h]
        exact valueOf_withValue hv _

end Counter

/-! ## The index -/

section Index

variable {Faulty : Prop} {fixed : String → Option Bytes} {s s' : Option Index}
  {P : Option Index → Op → Prop} {cfg : Prover.Provision.Config}

variable (Faulty fixed) in
/-- What the calls of a process do to the index; and files that do not change read as they are. -/
def Sem (s : Option Index) : Exchange Op Reply → Option Index → Prop
  | ⟨.tool op, r⟩, s' => StopIndex.Sem Faulty s ⟨op, r⟩ s'
  | ⟨.readFile path, r⟩, s' => s' = s ∧ ∀ b b', r = .ok b → fixed path = some b' → b = b'
  | _, s' => s' = s

/-- The index is changed: incremented, or defined. -/
def Touched (s s' : Option Index) : Prop := Incremented s s' ∨ Defined s s'

/-- Whatever a call is, that is all it may do. -/
theorem touched_of_sem {c : Exchange Op Reply} (hsem : Sem Faulty fixed s c s') :
    s' = s ∨ Touched s s' := by
  obtain ⟨op, r⟩ := c
  cases op with
  | tool op =>
    cases op with
    | command args =>
      cases hsem with
      | increment h => exact h.elim (fun h => .inr (.inl h.1)) fun h => .inl h.1
      | define _ h => exact h.elim (fun h => .inr (.inr h.1)) fun h => .inl h.1
      | shown _ _ => exact .inl rfl
    | metadata p => exact .inl hsem.1
    | _ => exact .inl hsem
  | readFile path => exact .inl hsem.1
  | _ => exact .inl hsem

/-- A call that does not change the index. -/
def Harmless (op : Op) : Prop := ∀ args, op = .tool (.command args) → ¬ Writes args

theorem still_of_harmless {op : Op} {r : Reply op} (hop : Harmless op)
    (hsem : Sem Faulty fixed s ⟨op, r⟩ s') : s' = s := by
  cases op with
  | tool op =>
    cases op with
    | command args =>
      cases hsem with
      | increment _ => exact absurd (.inl rfl) (hop _ rfl)
      | define h _ => exact absurd (.inr h) (hop _ rfl)
      | shown _ _ => rfl
    | metadata p => exact hsem.1
    | _ => exact hsem
  | readFile path => exact hsem.1
  | _ => exact hsem

/-- A procedure on the index, in a process. -/
theorem obeys_onIndex {α : Type} {x : Prover.Provision.Procedure α}
    {Q : Option Index → Except String α → Prop}
    (hx : Obeys (StopIndex.Sem Faulty) (fun s op => P s (.tool op)) x.run Q s) :
    Obeys (Sem Faulty fixed) P (onIndex x).run Q s := by
  refine (obeys_interpret (fun s : Option Index => s) (fun _ => True) ?_ trivial hx).mono
    (fun _ _ h => h) fun _ _ h => h.2
  intro s op _ hop
  exact obeys_perform hop fun r s' hsem => ⟨trivial, hsem⟩

theorem only_call {α : Type} {op : Op} {h : Reply op = Except String α} {what : String → String}
    {N : Op → Prop} (hop : N op) : (call op h what).run.Only N :=
  Only.bind (only_perform hop) fun _ => only_pure _

theorem only_onIndex {α : Type} {x : Prover.Provision.Procedure α} {N : Op → Prop}
    (hx : x.run.Only fun op => N (.tool op)) : (onIndex x).run.Only N :=
  Only.interpret hx fun _ hop => only_perform hop

theorem only_run {args : List String} {N : Prover.Provision.Op → Prop} (h : N (.command args)) :
    (Prover.Provision.run args).run.Only N := only_perform h

theorem harmless_of_head {args : List String} {tool : String} (h : args.head? = some tool)
    (hinc : tool ≠ "tpm2_nvincrement") (hdef : tool ≠ "tpm2_nvdefine") :
    Harmless (.tool (.command args)) := by
  intro args' heq
  cases heq
  refine not_writes_of_head ?_ fun h' => hdef (Option.some_inj.mp (h.symm.trans h'))
  intro hargs
  rw [hargs] at h
  exact hinc (Option.some_inj.mp h).symm

theorem harmless_of_ne {op : Op} (h : ∀ args, op ≠ .tool (.command args)) : Harmless op :=
  fun args hargs => absurd hargs (h args)

theorem obeys_harmless {α : Type} {p : Prog Op Reply α} (hp : p.Only Harmless)
    (hP : ∀ op, Harmless op → P s op) : Obeys (Sem Faulty fixed) P p (fun s' _ => s' = s) s :=
  obeys_of_still hp (fun _ _ _ hop hsem => still_of_harmless hop hsem) hP fun _ => rfl

theorem only_readPair {attest sig : String} : (readPair attest sig).run.Only Harmless := by
  refine Only.tryBind (only_call (harmless_of_ne fun _ h => by cases h)) fun a => ?_
  exact Only.tryBind (only_call (harmless_of_ne fun _ h => by cases h)) fun s => only_pure _

/-- Of what the service asks of the TPM, only the increment changes the index. -/
theorem only_real {op : Service.Op} (hop : op ≠ .increment) : (real cfg op).Only Harmless := by
  have hrun : ∀ {args tool}, args.head? = some tool → tool ≠ "tpm2_nvincrement" →
    tool ≠ "tpm2_nvdefine" →
      (Prover.Provision.run args).run.Only fun op => Harmless (.tool op) := fun h hinc hdef =>
    only_run (N := fun op => Harmless (.tool op)) (harmless_of_head h hinc hdef)
  cases op with
  | readCounter =>
    refine only_onIndex (Only.tryBind (hrun rfl (by decide) (by decide)) fun raw => ?_)
    exact only_pure _
  | increment => exact absurd rfl hop
  | certify qd =>
    refine Only.tryBind (only_onIndex ?_) fun _ => only_readPair
    refine Only.tryBind (only_pure _) fun h => ?_
    exact Only.tryBind (hrun rfl (by decide) (by decide)) fun _ => only_pure _
  | pcrRead spec =>
    refine Only.tryBind (only_onIndex (hrun rfl (by decide) (by decide))) fun _ => ?_
    exact only_call (harmless_of_ne fun _ h => by cases h)
  | quote qd spec =>
    refine Only.tryBind (only_onIndex ?_) fun _ => only_readPair
    refine Only.tryBind (only_pure _) fun h => ?_
    exact Only.tryBind (hrun rfl (by decide) (by decide)) fun _ => only_pure _
  | readFile path n => exact only_perform (harmless_of_ne fun _ h => by cases h)

/-! ## What a command may do -/

/-- The call that increments the index. -/
def incrementCall : Op := .tool (.command incrementArgs)

/-- The calls of a command: those that change nothing, increments where it may move the counter, and
the definition of an index that is not there. -/
def Permitted (make : Prop) (may : Option Index → Prop) (s : Option Index) (op : Op) : Prop :=
  Harmless op ∨ op = incrementCall ∧ may s ∨
    make ∧ s = none ∧ ∃ auth, op = .tool (.command (defineArgs ++ auth))

variable {make : Prop} {may : Option Index → Prop}

theorem Permitted.mono {may' : Option Index → Prop} {op : Op} (h : Permitted make may s op)
    (hmay : may s → may' s) : Permitted make may' s op := by
  rcases h with h | ⟨h, hs⟩ | h
  · exact .inl h
  · exact .inr (.inl ⟨h, hmay hs⟩)
  · exact .inr (.inr h)

/-- What the service asks of the TPM does to the index what it may do to the counter. -/
theorem counted_real {op : Service.Op} (hinc : op = .increment → may s) :
    Obeys (Sem Faulty fixed) (Permitted make may) (real cfg op)
      (fun s' r => Counted Faulty s ⟨op, r⟩ s') s := by
  have hstill : op ≠ .increment → Obeys (Sem Faulty fixed) (Permitted make may) (real cfg op)
      (fun s' _ => s' = s) s := fun hop => obeys_harmless (only_real hop) fun _ => .inl
  cases op with
  | readCounter =>
    exact obeys_onIndex (obeys_stopNvRead (.inl (harmless_of_head rfl (by decide) (by decide))))
  | increment => exact obeys_onIndex (obeys_run_increment (.inr (.inl ⟨rfl, hinc rfl⟩)))
  | certify qd => exact hstill (by rintro ⟨⟩)
  | pcrRead spec => exact hstill (by rintro ⟨⟩)
  | quote qd spec => exact hstill (by rintro ⟨⟩)
  | readFile path n => exact hstill (by rintro ⟨⟩)

/-- The file was read by the process. -/
def ReadIn (cs : List (Exchange Op Reply)) (path : String) (n : ℕ) (b : Bytes) : Prop :=
  ⟨.readBounded path n, .ok b⟩ ∈ cs

theorem ReadIn.mono {cs cs' : List (Exchange Op Reply)} (hcs : cs <+: cs') (path : String) (n : ℕ)
    (b : Bytes) (h : ReadIn cs path n b) : ReadIn cs' path n b := hcs.subset h

/-- A process that runs a command of the service: the index is the same, and what the command has
seen of files the process has read. -/
def Follows (m : Option Index × List (Exchange Op Reply))
    (n : Option Index × List (Exchange Service.Op Service.Reply)) : Prop :=
  m.1 = n.1 ∧ ∀ path k b, FileIn n.2 path k b → ReadIn m.2 path k b

variable (make) in
theorem follows_real {op : Service.Op} {m : Option Index × List (Exchange Op Reply)}
    {n : Option Index × List (Exchange Service.Op Service.Reply)} (h : Follows m n) :
    Obeys (withHistory (Sem Faulty fixed))
      (fun m' op' => Permitted make (fun t => t = m.1 ∧ op = .increment) m'.1 op' ∧ m.2 <+: m'.2)
      (real cfg op)
      (fun m' r => ∃ n', withHistory (Counted Faulty) n ⟨op, r⟩ n' ∧ Follows m' n') m := by
  obtain ⟨hindex, hfiles⟩ := h
  have hreal : Obeys (Sem Faulty fixed) (Permitted make fun t => t = m.1 ∧ op = .increment)
      (real cfg op) (fun s' r => Counted Faulty m.1 ⟨op, r⟩ s') m.1 :=
      counted_real fun h => ⟨rfl, h⟩
  refine (hreal.history m.2).mono (fun _ _ h => h) ?_
  rintro m' r ⟨hcounted, cs, hyields, hm'⟩
  refine ⟨(m'.1, n.2 ++ [⟨op, r⟩]), ⟨hindex ▸ hcounted, rfl⟩, rfl, fun path k b hb => ?_⟩
  rw [ReadIn, hm']
  rcases List.mem_append.mp hb with hb | hb
  · exact List.mem_append_left _ (hfiles path k b hb)
  · cases List.mem_singleton.mp hb
    obtain ⟨_, _, rfl, hret⟩ := yields_call.mp hyields
    obtain ⟨rfl, rfl⟩ := yields_ret.mp hret
    exact List.mem_append_right _ List.mem_cons_self

/-- A command of the service, on the index. -/
theorem obeys_adminCommand {f : Command}
    {Q : Option Index → Except TransitionError Transition → Prop}
    (hf : Obeys (Counted Faulty) (fun t op => op = .increment → may t) f Q s) :
    Obeys (Sem Faulty fixed) (Permitted make may) (adminCommand cfg f).run
      (fun s' out => ∃ r, Q s' r ∧ out = r.mapError describeFailure) s := by
  refine obeys_bind ((obeys_interpret (fun t : Option Index => t)
    (fun _ => True) ?_ trivial hf).mono
    (fun _ _ h => h) fun s' r h => ⟨r, h.2, rfl⟩)
  intro t op _ hinc
  exact (counted_real hinc).mono (fun _ _ h => h) fun _ _ h => ⟨trivial, h⟩

/-! ## Trip and recover -/

theorem only_confirmThroughService {want : State} :
    (confirmThroughService want).run.Only Harmless := by
  refine Only.bind (only_perform (harmless_of_ne fun _ h => by cases h)) fun connected => ?_
  rcases connected with e | ⟨⟩
  · exact only_pure _
  · refine Only.tryBind (only_call (harmless_of_ne fun _ h => by cases h)) fun _ => ?_
    refine Only.tryBind (only_call (harmless_of_ne fun _ h => by cases h)) fun _ => ?_
    exact Only.tryBind (only_call (harmless_of_ne fun _ h => by cases h)) fun _ => only_pure _

theorem obeys_verified : Obeys (Sem Faulty fixed) (Permitted make may)
    (onIndex verifyStopCounter).run
    (fun s' r => s' = s ∧ (r = .ok () → Legit s) ∧ (r.isOk = true ∨ Faulty ∨ ¬ Legit s)) s :=
  obeys_onIndex (obeys_verifyStopCounter (.inl (harmless_of_head rfl (by decide) (by decide))))

variable (Faulty) in
/-- What `admin` comes to: the index is not what it should be, or cannot be looked at; or the
command fails, and that is described; or it does what it reports, and the service is asked. -/
inductive Administered (Q : Option Index → Except TransitionError Transition → Prop)
    (s s' : Option Index) : Except String Unit → Prop
  | unverified {e : String} : s' = s → Faulty ∨ ¬ Legit s → Administered Q s s' (.error e)
  | failed {err : TransitionError} : Legit s → Q s' (.error err) →
      Administered Q s s' (.error (describeFailure err))
  | done {tr : Transition} {out : Except String Unit} : Legit s → Q s' (.ok tr) →
      Administered Q s s' out

theorem obeys_adminBody {f : Command} {want : State}
    {M : List (Exchange Op Reply) → Option Index → Prop}
    {Q : List (Exchange Op Reply) → Option Index → Except TransitionError Transition → Prop}
    (hQ : ∀ cs cs' t r, cs <+: cs' → Q cs t r → Q cs' t r)
    (hf : Legit s → ∀ past, Obeys (withHistory (Sem Faulty fixed))
      (fun m => Permitted make (M m.2) m.1)
      (adminCommand cfg f).run (fun m out => ∃ r, Q m.2 m.1 r ∧
        out = r.mapError describeFailure) (s, past)) :
    Obeys (withHistory (Sem Faulty fixed)) (fun m => Permitted make (M m.2) m.1)
      (adminBody cfg f want).run (fun m out => Administered Faulty (Q m.2) s m.1 out) (s, []) := by
  have hverified : Obeys (Sem Faulty fixed) (Permitted make fun _ => False)
      (onIndex verifyStopCounter).run _ s := obeys_verified
  refine obeys_tryBind ((hverified.withHistory []).mono (fun m op h => h.mono False.elim) ?_)
  rintro ⟨s', past⟩ (e | ⟨⟩) ⟨rfl, hlegit, hwhy⟩
  · refine .unverified rfl ?_
    rcases hwhy with h | h
    · cases h
    · exact h
  · have hlegit := hlegit rfl
    refine obeys_tryBind ((hf hlegit past).mono (fun _ _ h => h) ?_)
    rintro ⟨t, past'⟩ out ⟨r, hr, rfl⟩
    rcases r with err | tr
    · exact .failed hlegit hr
    · have hconfirm : Obeys (Sem Faulty fixed) (Permitted make fun _ => False)
          (confirmThroughService want).run (fun s' _ => s' = t) t :=
        obeys_harmless only_confirmThroughService fun _ => .inl
      refine (hconfirm.history past').mono (fun m op h => h.1.mono False.elim) ?_
      rintro ⟨_, past''⟩ out ⟨rfl, cs, -, rfl⟩
      exact .done hlegit (hQ _ _ _ _ (List.prefix_append _ _) hr)

/-- When `trip` may move the counter. -/
def MayTrip (s₀ t : Option Index) : Prop :=
  t = s₀ ∧ Legit s₀ ∧ ∃ v, valueOf s₀ = some v ∧ stateOf v = .running

/-- When `recover` may move the counter. -/
def MayRecover {C : Crypto} (lift : Lift C) (read : String → ℕ → Bytes → Prop)
    (s₀ t : Option Index) : Prop :=
  t = s₀ ∧ Legit s₀ ∧
    ∃ v, valueOf s₀ = some v ∧ stateOf v = .stopped ∧ Released lift read (v + 1)

/-- **`trip`, alone with the index.** -/
theorem obeys_tripBody :
    Obeys (withHistory (Sem Faulty fixed)) (fun m => Permitted make (MayTrip s) m.1)
      (adminBody cfg trip .stopped).run
      (fun m out => Administered Faulty (Moved Faulty .stopped s) s m.1 out) (s, []) := by
  refine obeys_adminBody (M := fun _ => MayTrip s) (Q := fun _ => Moved Faulty .stopped s)
    (fun _ _ _ _ _ h => h) fun hlegit past => Obeys.withHistory (obeys_adminCommand ?_) past
  refine obeys_moveTo (fun _ h => (by cases h)) fun v hv hstate _ => ⟨rfl, hlegit, v, hv, ?_⟩
  rcases h : stateOf v with _ | _
  · rfl
  · exact absurd h hstate

/-- The command of `recover`, by what it has read. -/
theorem obeys_recoverCommand {C : Crypto} {lift : Lift C}
    (hstore : lift.release = Service.release.read)
    (hlegit : Legit s) (past : List (Exchange Op Reply)) :
    Obeys (withHistory (Sem Faulty fixed))
      (fun m => Permitted make (MayRecover lift (ReadIn m.2) s) m.1)
      (adminCommand cfg (recover lift)).run
      (fun m out => ∃ r, Recovered lift (ReadIn m.2) s m.1 r ∧ out = r.mapError describeFailure)
      (s, past) := by
  have hrecover : Obeys (withHistory (Counted Faulty))
      (fun n op => op = .increment → MayRecover lift (FileIn n.2) s n.1) (recover lift)
      (fun n out => Recovered lift (FileIn n.2) s n.1 out) (s, []) :=
    obeys_recover hstore fun v past hv hstate hreleased => ⟨rfl, hlegit, v, hv, hstate, hreleased⟩
  refine obeys_bind ((obeys_simulate Follows ?_ ⟨rfl, fun _ _ _ h => by cases h⟩ hrecover).mono
    (fun _ _ h => h) ?_)
  · intro m n op hfollows hop
    refine (follows_real make hfollows).mono ?_ fun _ _ h => h
    rintro m' op' ⟨hpermitted, hpast⟩
    refine hpermitted.mono fun ⟨hsame, hinc⟩ => ?_
    obtain ⟨hindex, hlegit, v, hv, hstate, hreleased⟩ := hop hinc
    refine ⟨hsame.trans (hfollows.1.trans hindex), hlegit, v, hv, hstate,
      hreleased.mono fun path k b hb => ?_⟩
    exact ReadIn.mono hpast path k b (hfollows.2 path k b hb)
  · rintro m r ⟨n, hfollows, hrecovered⟩
    rw [← hfollows.1] at hrecovered
    exact ⟨r, hrecovered.mono hfollows.2, rfl⟩

/-- **`recover`, alone with the index.** -/
theorem obeys_recoverBody {C : Crypto} {lift : Lift C}
    (hstore : lift.release = Service.release.read) : Obeys (withHistory (Sem Faulty fixed))
      (fun m => Permitted make (MayRecover lift (ReadIn m.2) s) m.1)
      (adminBody cfg (recover lift) .running).run
      (fun m out => Administered Faulty (Recovered lift (ReadIn m.2) s) s m.1 out) (s, []) :=
  obeys_adminBody (M := fun cs => MayRecover lift (ReadIn cs) s)
    (Q := fun cs => Recovered lift (ReadIn cs) s)
    (fun _ _ _ _ hcs h => h.mono (ReadIn.mono hcs)) (obeys_recoverCommand hstore)

/-! ## Define -/

/-- The index is not there, or is one this code was written for. -/
def Sound (s : Option Index) : Prop := ∀ i, s = some i → i.attributes = stopNvAttributes

theorem sound_of_legit (h : Legit s) : Sound s := by
  obtain ⟨i, rfl, hattrs⟩ := h
  intro i' hi'
  rw [← Option.some_inj.mp hi']
  exact hattrs

theorem legit_withValue {v : UInt64} : Legit (withValue s v) ↔ Legit s := by
  rcases s with _ | i
  · rfl
  · constructor
    · rintro ⟨i', hi', hattrs⟩
      rw [← Option.some_inj.mp hi'] at hattrs
      exact ⟨i, rfl, hattrs⟩
    · rintro ⟨i', hi', hattrs⟩
      rw [← Option.some_inj.mp hi'] at hattrs
      exact ⟨_, rfl, hattrs⟩

theorem legit_new : Legit (some Index.new) := ⟨Index.new, rfl, rfl⟩

/-- There is never another index than one this code was written for. -/
theorem sound_of_sem {c : Exchange Op Reply} (hs : Sound s) (hsem : Sem Faulty fixed s c s') :
    Sound s' := by
  rcases touched_of_sem hsem with rfl | ⟨hsome, v, -, rfl⟩ | ⟨-, rfl⟩
  · exact hs
  · obtain ⟨i, rfl⟩ := Option.isSome_iff_exists.mp hsome
    exact sound_of_legit (legit_withValue.mpr ⟨i, rfl, hs i rfl⟩)
  · exact sound_of_legit legit_new

/-- When `define` may move the counter. -/
def MayDefine (want : State) (s₀ t : Option Index) : Prop :=
  valueOf s₀ = none ∧ Legit t ∧ ∀ v, valueOf t = some v → stateOf v ≠ want

variable (Faulty) in
/-- What making the index, or finishing it, comes to. -/
structure Prepared (s s' : Option Index) (out : Except String Unit) : Prop where
  untouched : valueOf s ≠ none → s' = s ∧ out.isOk = false
  sound : Sound s → Sound s'
  ok : out = .ok () → valueOf s = none ∧ Legit s' ∧ (valueOf s').isSome = true
  complete : ¬ Faulty → Sound s → valueOf s = none → out.isOk = true

/-- Nothing has been done, and there is a reason. -/
theorem Prepared.nothing {e : String} (h : Faulty ∨ ¬ Sound s ∨ valueOf s ≠ none) :
    Prepared Faulty s s (.error e) := by
  refine ⟨fun _ => ⟨rfl, rfl⟩, fun h => h, fun h => (by cases h), fun hfaulty hsound hvalue => ?_⟩
  rcases h with h | h | h
  · exact absurd h hfaulty
  · exact absurd hsound h
  · exact absurd hvalue h

/-- The first write. -/
theorem prepared_of_changed {m : Option Index} {r : Except String Unit} (hs : valueOf s = none)
    (hm : Legit m) (hmv : valueOf m = none) (h : Changed Faulty Incremented m r s') :
    Prepared Faulty s s' r := by
  refine ⟨fun h => absurd hs h, fun _ => ?_, fun hok => ⟨hs, ?_⟩, fun hfaulty _ _ => ?_⟩
  · rcases h with ⟨⟨-, v, -, rfl⟩, -⟩ | ⟨rfl, -, -⟩
    · exact sound_of_legit (legit_withValue.mpr hm)
    · exact sound_of_legit hm
  · rcases h with ⟨⟨hsome, v, -, rfl⟩, -⟩ | ⟨-, hr, -⟩
    · refine ⟨legit_withValue.mpr hm, ?_⟩
      obtain ⟨i, rfl⟩ := Option.isSome_iff_exists.mp hsome
      rfl
    · rw [hok] at hr
      cases hr
  · rcases h with ⟨-, hr | hr⟩ | ⟨-, -, hr | hr⟩
    · exact absurd hr hfaulty
    · exact hr
    · exact absurd hr hfaulty
    · obtain ⟨i, rfl, -⟩ := hm
      have hfirst : Incremented (some i) (withValue (some i) 0) := by
        refine ⟨rfl, 0, ?_, rfl⟩
        rw [hmv]
        trivial
      exact absurd hfirst (hr _)

theorem obeys_firstWrite {P : Option Index → Op → Prop} (hP : P s incrementCall) :
    Obeys (Sem Faulty fixed) P (onIndex stopNvFirstWrite).run
      (fun s' r => Changed Faulty Incremented s r s') s :=
  obeys_onIndex (obeys_run_increment hP)

/-- **The index is made, or finished**, unless it has been written before. -/
theorem obeys_prepareIndex {want : State} :
    Obeys (Sem Faulty fixed) (Permitted (s = none) (MayDefine want s)) (prepareIndex cfg).run
      (fun s' out => Prepared Faulty s s' out) s := by
  refine obeys_tryBind ((obeys_onIndex (obeys_nvDefined
    (.inl (harmless_of_head rfl (by decide) (by decide))))).mono (fun _ _ h => h) ?_)
  rintro s' (e | there) ⟨rfl, hthere, hwhy⟩
  · exact .nothing (hwhy.elim (fun h => by cases h) .inl)
  obtain rfl : there = s'.isSome := hthere there rfl
  rcases s' with _ | i
  · -- it is not there
    refine obeys_onIndex (obeys_tryBind ((obeys_runOwner_define
      (P := fun s op => Permitted (none = none) (MayDefine want none) s (.tool op))
      (fun auth => .inr (.inr ⟨rfl, rfl, auth, rfl⟩))
      (fun p => .inl (harmless_of_ne fun _ h => by cases h))).mono (fun _ _ h => h) ?_))
    rintro m (e | o) hdefined
    · rcases hdefined with ⟨⟨-, rfl⟩, h | h⟩ | ⟨rfl, -, h | h⟩
      · exact ⟨fun h => absurd rfl h, fun _ => sound_of_legit legit_new, fun h => (by cases h),
          fun hfaulty => absurd h hfaulty⟩
      · cases h
      · exact .nothing (.inl h)
      · exact absurd ⟨rfl, rfl⟩ (h (some Index.new))
    · obtain rfl : m = some Index.new := by
        rcases hdefined with ⟨⟨-, h⟩, -⟩ | ⟨-, h, -⟩
        · exact h
        · cases h
      refine (obeys_run_increment (.inr (.inl ⟨rfl, rfl, legit_new, fun _ h => by cases h⟩))).mono
        (fun _ _ h => h) fun s' r h => ?_
      exact prepared_of_changed rfl legit_new rfl h
  · -- it is
    refine obeys_tryBind ((obeys_onIndex (obeys_stopNvAttributesNow
      (.inl (harmless_of_head rfl (by decide) (by decide))))).mono (fun _ _ h => h) ?_)
    rintro s' (e | w) ⟨rfl, hword, hwhy⟩
    · refine .nothing (.inl ?_)
      rcases hwhy with h | h | h
      · cases h
      · exact h
      · cases h
    obtain ⟨_, hi, rfl⟩ := hword w rfl
    cases hi
    refine obeys_tryBind (obeys_ofResult ?_)
    rcases hcheck : checkStopAttributes i.word with e | ⟨⟩
    · refine .nothing (.inr (.inl fun hsound => ?_))
      rw [checkStopAttributes_ok.mpr (hsound i rfl)] at hcheck
      cases hcheck
    have hlegit : Legit (some i) := ⟨i, rfl, checkStopAttributes_ok.mp hcheck⟩
    refine obeys_tryBind (obeys_ofResult ?_)
    rw [i.written_word]
    rcases hvalue : i.value with _ | v
    · have hmay : MayDefine want (some i) (some i) :=
        ⟨hvalue, hlegit, fun v hv => by cases hvalue.symm.trans hv⟩
      refine (obeys_firstWrite (.inr (.inl ⟨rfl, hmay⟩))).mono (fun _ _ h => h) fun s' r h => ?_
      exact prepared_of_changed (s := some i) hvalue hlegit hvalue h
    · refine .nothing (.inr (.inr fun h => ?_))
      cases hvalue.symm.trans h

variable (Faulty) in
/-- What `define` comes to. -/
structure Made (want : State) (s s' : Option Index) (out : Except String Unit) : Prop where
  /-- An index that has been written is left as it is. -/
  untouched : valueOf s ≠ none → s' = s ∧ out.isOk = false
  /-- No other index is made. -/
  sound : Sound s → Sound s'
  /-- It is what was asked for. -/
  ok : out = .ok () → Legit s' ∧ ∃ v, valueOf s' = some v ∧ stateOf v = want
  /-- It gets there, whatever an earlier one has left. -/
  complete : ¬ Faulty → Sound s → valueOf s = none → out.isOk = true ∨ AtEnd s'

/-- **`define`, alone with the index.** -/
theorem obeys_defineBody {want : State} :
    Obeys (Sem Faulty fixed) (Permitted (s = none) (MayDefine want s)) (defineBody cfg want).run
      (fun s' out => Made Faulty want s s' out) s := by
  refine obeys_tryBind (obeys_prepareIndex.mono (fun _ _ h => h) ?_)
  rintro m (e | ⟨⟩) hprepared
  · refine ⟨hprepared.untouched, hprepared.sound, fun h => (by cases h),
      fun hfaulty hsound hvalue => ?_⟩
    cases hprepared.complete hfaulty hsound hvalue
  obtain ⟨hs, hlegit, hwritten⟩ := hprepared.ok rfl
  refine obeys_tryBind (obeys_verified.mono (fun _ _ h => h) ?_)
  rintro m' (e | ⟨⟩) ⟨rfl, -, hwhy⟩
  · refine ⟨fun h => absurd hs h, hprepared.sound, fun h => (by cases h), fun hfaulty _ _ => ?_⟩
    rcases hwhy with h | h | h
    · cases h
    · exact absurd h hfaulty
    · exact absurd hlegit h
  have hmay : ∀ v, valueOf m' = some v → stateOf v ≠ want → MayDefine want s m' := by
    intro v hv hstate
    refine ⟨hs, hlegit, fun w hw => ?_⟩
    rwa [← Option.some_inj.mp (hv.symm.trans hw)]
  refine obeys_bind ((obeys_adminCommand (obeys_moveTo (fun _ h => (by cases h))
    fun v hv hstate _ => hmay v hv hstate)).mono (fun _ _ h => h) ?_)
  rintro s' _ ⟨r, hmoved, rfl⟩
  have hlegit' : Legit s' := by
    rcases hmoved.index with rfl | ⟨v, -, -, -, rfl⟩
    · exact hlegit
    · exact legit_withValue.mpr hlegit
  rcases r with err | tr
  · refine ⟨fun h => absurd hs h, fun _ => sound_of_legit hlegit', fun h => (by cases h),
      fun hfaulty _ _ => .inr ?_⟩
    obtain ⟨hnow, h | h | h⟩ := hmoved.error err rfl
    · exact absurd h hfaulty
    · rw [h] at hwritten
      cases hwritten
    · rcases hmoved.index with rfl | ⟨v, hv, -, hlt, -⟩
      · exact h
      · obtain ⟨w, hw, hend⟩ := h
        rw [hv] at hw
        rw [← Option.some_inj.mp hw] at hend
        exact absurd hlt hend
  · exact ⟨fun h => absurd hs h, fun _ => sound_of_legit hlegit', fun _ => ⟨hlegit', hmoved.wanted⟩,
      fun _ _ _ => .inl rfl⟩

end Index

end TactiqAttest.Operator
