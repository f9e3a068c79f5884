import TactiqAttest.Programs.Locking
import TactiqAttest.Service.Handle
import TactiqAttest.Service.OperatorIndex

/-!
# The operator's commands, one at a time

Any number of operators run commands on one device, each in its own process, and any process may be
killed at any point; so may the device.  Beside them runs the service, and anything else that leaves
the index alone.  What keeps the commands apart is the lock: each asks for it before it looks at the
index, and has it until it returns.  It does not keep out the tool that a killed command was waiting
for: that is a process of its own, which does not hold the lock and is not killed with its parent.

`lockDiscipline`: without the lock a command changes nothing, and what it returns is an error; with
it, it changes the index only where it may, and comes to what it comes to alone, as long as no such
tool has come in between.
-/

namespace TactiqAttest.Operator

open Labelled Programs Stop Service StopIndex Prog

variable {C : Crypto}

/-- A device, as the commands and the service find it: how a key is read, where things are, what the
files hold that do not change, and what the service has loaded at start. -/
structure Station (C : Crypto) where
  /-- `OperatorKey::from_pem`. -/
  fromPem : List Char → Except String C.VerifyingKey
  cfg : Prover.Provision.Config
  files : String → Option Bytes
  rawId : Bytes
  rawKey : Bytes
  id_file : files (deviceIdPath cfg) = some rawId
  key_file : files operatorKeyPath = some rawKey
  owned : Owned C
  /-- What `{:?}` makes of a string. -/
  debug : Bytes → String

/-- What `recover` is run with, if the two files hold a device id and a key. -/
def Station.lift (st : Station C) : Except String (Lift C) := do
  let id ← Service.readDeviceId (deviceIdPath st.cfg) (.ok st.rawId)
  let key ← keyOf st.fromPem (.ok st.rawKey)
  return liftOf key id

/-- The commands that move the counter. -/
inductive Task
  | trip
  | recover
  | define (args : List String)

/-- What runs on the device. -/
inductive Process
  | command (t : Task)
  /-- The service answers one question of the gateway, which arrives so. -/
  | question (incoming : List Incoming)
  /-- Whatever else leaves the index alone. -/
  | other (p : {p : Prog Op Reply (Except String Unit) // p.Only Harmless})

/-- What comes out of it. -/
abbrev Out : Process → Type
  | .command _ => Except String Unit
  | .question _ => Response
  | .other _ => Except String Unit

def Station.command (st : Station C) : Task → Procedure Unit
  | .trip => cmdTrip st.cfg
  | .recover => cmdRecover st.fromPem st.cfg
  | .define args => define st.cfg args

/-- Its program. -/
def Station.program (st : Station C) : (i : Process) → Prog Op Reply (Out i)
  | .command t => (st.command t).run
  | .question incoming => (handle st.debug incoming st.owned.ctx).interpret (real st.cfg)
  | .other p => p.1

/-- The answer that gives the lock. -/
def takes : (op : Op) → Reply op → Bool
  | .tryLock, .acquired => true
  | _, _ => false

def Grants (c : Exchange Op Reply) : Prop := takes c.1 c.2 = true

/-- The device, with the processes that run on it. -/
abbrev Floor := Crowd (Option Index) Op Reply Process Out

/-- What happens on it. -/
abbrev Happening := Deed Op Reply Process Out

/-- One step. -/
abbrev Station.Step (st : Station C) (Faulty : Prop) : Floor → Happening → Floor → Prop :=
  Steps st.program (Sem Faulty st.files) Grants

/-! ## What each may do -/

variable {st : Station C} {Faulty : Prop}

/-- When a process may move the counter, by the calls it has made. -/
def Station.May (st : Station C) :
    Process → Option Index → List (Exchange Op Reply) → Option Index → Prop
  | .command .trip, s₀, _, t => MayTrip s₀ t
  | .command .recover, s₀, cs, t => ∃ lift, st.lift = .ok lift ∧ MayRecover lift (ReadIn cs) s₀ t
  | .command (.define args), s₀, _, t => ∃ want, initialOf args = .ok want ∧ MayDefine want s₀ t
  | _, _, _, _ => False

/-- When it may define the index. -/
def MayMake : Process → Option Index → Prop
  | .command (.define _), s₀ => s₀ = none
  | _, _ => False

/-- What it may call with the lock, which it has had since the index was `s₀`. -/
abbrev Station.Allows (st : Station C) (i : Process) (s₀ : Option Index)
    (m : Option Index × List (Exchange Op Reply)) : Op → Prop :=
  Permitted (MayMake i s₀) (st.May i s₀ m.2) m.1

/-- What it comes to. -/
def Station.Outcome (st : Station C) (Faulty : Prop) : (i : Process) → Option Index →
    Option Index × List (Exchange Op Reply) → Out i → Prop
  | .command .trip, s₀, m, out => Administered Faulty (Moved Faulty .stopped s₀) s₀ m.1 out
  | .command .recover, s₀, m, out => ∃ lift, st.lift = .ok lift ∧
    Administered Faulty (Recovered lift (ReadIn m.2) s₀) s₀ m.1 out
  | .command (.define args), s₀, m, out =>
    ∃ want, initialOf args = .ok want ∧ Made Faulty want s₀ m.1 out
  | .question _, _, _, _ => True
  | .other _, _, _, _ => True

/-- And without. -/
def Refused : (i : Process) → Out i → Prop
  | .command _, out => out.isOk = false
  | .question _, _ => True
  | .other _, _ => True

/-! ## Waiting -/

section Waiting

variable {task : Task} {f : Unit → Procedure Unit}

/-- A command waits. -/
abbrev Station.Waits (st : Station C) (Faulty : Prop) (i : Process) (p : Prog Op Reply (Out i)) :
    Prop :=
  Programs.Waits (Sem Faulty st.files) Grants Harmless (fun _ => True) st.Allows (st.Outcome Faulty)
    Refused i p

theorem idle_of_ne {op : Op} (h : Harmless op) (hne : op ≠ .tryLock) : Idle Grants Harmless op := by
  refine ⟨h, fun r hgrants => ?_⟩
  cases op with
  | tryLock => exact hne rfl
  | _ => cases hgrants

theorem idle_call {α : Type} {op : Op} {h : Reply op = Except String α} {what : String → String}
    (hop : ∀ args, op ≠ .tool (.command args)) (hne : op ≠ .tryLock) :
    (call op h what).run.Only (Idle Grants Harmless) :=
  only_call (idle_of_ne (harmless_of_ne hop) hne)

theorem idle_workDir : workDir.run.Only (Idle Grants Harmless) := by
  refine Only.tryBind (idle_call (by rintro _ ⟨⟩) (by rintro ⟨⟩)) fun md => ?_
  exact Only.tryBind (idle_call (by rintro _ ⟨⟩) (by rintro ⟨⟩)) fun me => only_pure _

/-- A failure before there is the lock ends a command. -/
theorem waits_then {α : Type} {x : Procedure α} {g : α → Procedure Unit}
    (hx : x.run.Only (Idle Grants Harmless))
    (hg : ∀ cs a, Yields x.run cs (.ok a) → (∀ c ∈ cs, ∃ s s', True ∧ Sem Faulty st.files s c s') →
      st.Waits Faulty (.command task) (g a).run) : st.Waits Faulty (.command task)
      (x >>= g).run := by
  rw [ExceptT.run_bind]
  refine waits_bind hx fun cs out hyields hcs => ?_
  rcases out with e | a
  · exact (rfl : Except.isOk (.error e : Except String Unit) = false)
  · exact hg cs a hyields hcs

/-- The loop ends with the lock, or with an error. -/
theorem waits_attempts (hf : ∀ s, Obeys (withHistory (Sem Faulty st.files))
      (st.Allows (.command task) s) (f ()).run (st.Outcome Faulty (.command task) s) (s, [])) :
    ∀ n, st.Waits Faulty (.command task) (attempts n >>= f).run := by
  have hattempt : ∀ again : Procedure Unit, st.Waits Faulty (.command task) (again >>= f).run →
      st.Waits Faulty (.command task) (attempt again >>= f).run := by
    intro again hagain
    refine ⟨harmless_of_ne (by rintro _ ⟨⟩),
      fun r s s' _ hsem => ⟨fun hgrants => ?_, fun hno => ?_⟩⟩
    · cases r with
      | acquired => exact hf s
      | wouldBlock => cases hgrants
      | error e => cases hgrants
    · cases r with
      | acquired => exact absurd rfl hno
      | wouldBlock => exact hagain
      | error e => exact (rfl : Except.isOk (.error _ : Except String Unit) = false)
  have hwaited : st.Waits Faulty (.command task) (waited >>= f).run :=
    (rfl : Except.isOk (.error _ : Except String Unit) = false)
  intro n
  induction n with
  | zero => exact hattempt _ hwaited
  | succ n ih =>
    refine hattempt _ ⟨harmless_of_ne (by rintro _ ⟨⟩),
      fun b s s' _ _ => ⟨fun h => ?_, fun _ => ?_⟩⟩
    · cases h
    · cases b
      · exact hwaited
      · refine ⟨harmless_of_ne (by rintro _ ⟨⟩), fun r s s' _ _ => ⟨fun h => ?_, fun _ => ih⟩⟩
        cases h

/-- `work_dir`, the lock, and then the work. -/
theorem waits_locked (hf : ∀ s, Obeys (withHistory (Sem Faulty st.files))
      (st.Allows (.command task) s) (f ()).run (st.Outcome Faulty (.command task) s) (s, [])) :
    st.Waits Faulty (.command task) (workDir >>= fun _ => adminLock >>= f).run := by
  refine waits_then idle_workDir fun _ _ _ _ => ?_
  rw [adminLock, bind_assoc]
  refine waits_then (idle_call (by rintro _ ⟨⟩) (by rintro ⟨⟩)) fun _ _ _ _ => ?_
  exact waits_attempts hf pauses

/-- What a file that does not change gave. -/
theorem yields_readFile {α : Type} {path : String} {b : Bytes}
    {g : Except String Bytes → Except String α}
    {cs : List (Exchange Op Reply)} {a : α} (hfile : st.files path = some b)
    (herr : ∀ e, g (.error e) ≠ .ok a)
    (h : Yields (do
      let raw ← ExceptT.lift (perform (Op.readFile path))
      ofResult (g raw) : Procedure α).run cs (.ok a))
    (hcs : ∀ c ∈ cs, ∃ s s', True ∧ Sem Faulty st.files s c s') : g (.ok b) = .ok a := by
  obtain ⟨raw, cs', rfl, hret⟩ := yields_call.mp h
  obtain ⟨rfl, hg⟩ := yields_pure.mp hret
  obtain ⟨s, s', -, -, hsem⟩ := hcs _ List.mem_cons_self
  rcases raw with e | raw
  · exact absurd hg (herr e)
  · rwa [← hsem raw b rfl hfile]

theorem idle_readFile {path : String} :
    (ExceptT.lift (perform (Op.readFile path)) : Procedure (Except String Bytes)).run.Only
      (Idle Grants Harmless) :=
  ⟨idle_of_ne (harmless_of_ne (by rintro _ ⟨⟩)) (by rintro ⟨⟩), fun _ => trivial⟩

/-- `recover` gets to the lock only with the key and the id that the files hold. -/
theorem waits_recover : st.Waits Faulty (.command .recover) (cmdRecover st.fromPem st.cfg).run := by
  refine waits_then ?_ fun cs id hyields hcs => ?_
  · exact Only.tryBind idle_readFile fun raw => only_pure _
  have hid : Service.readDeviceId (deviceIdPath st.cfg) (.ok st.rawId) = .ok id := by
    refine yields_readFile st.id_file (fun e h => ?_) hyields hcs
    cases h
  refine waits_then ?_ fun cs key hyields hcs => ?_
  · exact Only.tryBind idle_readFile fun raw => only_pure _
  have hkey : keyOf st.fromPem (.ok st.rawKey) = .ok key := by
    refine yields_readFile st.key_file (fun e h => ?_) hyields hcs
    cases h
  have hlift : st.lift = .ok (liftOf key id) := by
    rw [Station.lift, hid, hkey]
    rfl
  refine waits_locked fun s => ?_
  have hbody : Obeys (withHistory (Sem Faulty st.files))
      (fun m => Permitted False (MayRecover (liftOf key id) (ReadIn m.2) s) m.1)
      (adminBody st.cfg (recover (liftOf key id)) .running).run _ (s, []) := obeys_recoverBody rfl
  exact hbody.mono (fun m op hop => hop.mono fun hmay => ⟨_, hlift, hmay⟩)
    fun m out h => ⟨_, hlift, h⟩

theorem sign_quiet {ctx : Ctx C} {rec : StopRecord} {nonce : Bytes} :
    (sign ctx rec nonce).run.Only IsQuiet := by
  have hcall : ∀ {op : Service.Op}, op ≠ .increment →
      (perform op : Prog _ Service.Reply _).Only IsQuiet :=
    fun hop => only_perform hop
  refine Only.tryBind (only_pure _) fun body => ?_
  refine Only.tryBind (hcall (by rintro ⟨⟩)) fun cert => ?_
  refine Only.tryBind (only_pure _) fun _ => Only.tryBind (only_pure _) fun _ => ?_
  refine Only.tryBind (only_pure _) fun bundle => Only.tryBind (hcall (by rintro ⟨⟩)) fun pcrs => ?_
  refine Only.tryBind (only_pure _) fun _ => Only.tryBind (hcall (by rintro ⟨⟩)) fun quote => ?_
  exact only_pure _

theorem handle_quiet {debug : Bytes → String} {incoming : List Incoming} {owned : Owned C} :
    (handle debug incoming owned.ctx).Only IsQuiet := by
  have hdecide : ∀ d, (admitCall owned.ctx d).run.Only IsQuiet := by
    intro d
    refine Only.tryBind (only_perform readCounter_quiet) fun counter => ?_
    refine Only.tryBind ((gate_files owned counter).mono fun _ h => h.quiet) fun g => ?_
    have hrefuse : (do
        let receipt ← sign owned.ctx (refusalRecord owned.ctx counter d) []
        return .refuse receipt : Stop Admission).run.Only IsQuiet :=
      Only.tryBind sign_quiet fun _ => only_pure _
    cases g with
    | opened => exact only_pure _
    | stopped => exact hrefuse
    | unreleased why => exact hrefuse
  unfold handle
  rcases readRequest debug [] incoming with e | req
  · exact only_pure _
  · exact (hdecide _).bind fun _ => only_pure _

/-- The service only looks. -/
theorem only_question {incoming : List Incoming} :
    (st.program (.question incoming)).Only Harmless :=
  handle_quiet.interpret fun _ hop => only_real hop

theorem lockDiscipline : LockDiscipline (Sem Faulty st.files) Grants Harmless (fun _ => True)
    st.Allows (st.Outcome Faulty) Refused st.program where
  program i := by
    have hstill : ∀ {i : Process} {p : Prog Op Reply (Out i)}, p.Only Harmless →
        (∀ s cs out, st.Outcome Faulty i s (s, cs) out) → (∀ out, Refused i out) →
        st.Waits Faulty i p := fun hp =>
      waits_of_only hp (fun _ _ _ _ hop hsem => still_of_harmless hop hsem) fun _ _ _ => .inl
    cases i with
    | command task =>
      cases task with
      | trip => exact waits_locked fun s => obeys_tripBody
      | recover => exact waits_recover
      | define args =>
        refine waits_then (only_pure _) fun cs want hyields _ => ?_
        obtain ⟨-, hwant⟩ := yields_pure.mp hyields
        refine waits_locked fun s => (obeys_defineBody.withHistory []).mono (fun m op hop => ?_)
          fun m out h => ⟨want, hwant, h⟩
        exact hop.mono fun hmay => ⟨want, hwant, hmay⟩
    | question incoming => exact hstill only_question (fun _ _ _ => trivial) fun _ => trivial
    | other p => exact hstill p.2 (fun _ _ _ => trivial) fun _ => trivial
  still op r s s' hop hsem := still_of_harmless hop hsem
  keeps _ _ _ _ _ := trivial

/-- There is never another index than one this code was written for. -/
theorem soundDiscipline : LockDiscipline (Sem Faulty st.files) Grants Harmless Sound
    st.Allows (st.Outcome Faulty) Refused st.program :=
  lockDiscipline.keeping fun _ _ _ => sound_of_sem

end Waiting

end TactiqAttest.Operator
