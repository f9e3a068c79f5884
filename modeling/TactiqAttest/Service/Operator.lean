import TactiqAttest.Appraise.Identity
import TactiqAttest.Programs.Interpretation
import TactiqAttest.Service.Core
import TactiqAttest.Service.StopIndex

/-!
# The operator's commands

`tactiq-stop trip`, `recover` and `define`, as processes: each checks the shared work directory,
waits for the lock of the operator's commands, and then moves the stop counter with the commands of
`Service.Core`.  `trip` and `recover` ask the running service afterwards what it answers now.

What they print is left out.  The lock is asked for until it is granted, or the deadline has passed;
between two attempts there is a pause of a tenth of a second, so there are `pauses` of them at most.

`real` is how `Real` does with TPM tools what the service needs of the TPM.
-/

namespace TactiqAttest.Operator

open Stop Service StopIndex Prog

/-! ## Calls -/

/-- What `symlink_metadata` says of the work directory. -/
structure Metadata where
  isDir : Bool
  uid : ℕ
  mode : UInt32

/-- What asking for the lock answers. -/
inductive Attempt where
  | acquired
  | wouldBlock
  | error (text : String)

/-- What the commands call. -/
inductive Op where
  /-- `symlink_metadata` of the work directory. -/
  | workDir
  /-- The owner of `/proc/self`. -/
  | ownUid
  /-- Create the file of the lock. -/
  | createLock
  /-- `try_lock`. -/
  | tryLock
  /-- The clock has not reached the deadline. -/
  | beforeDeadline
  /-- Sleep for a tenth of a second. -/
  | pause
  /-- Read a whole file. -/
  | readFile (path : String)
  /-- Open a file and read it, up to a number of bytes. -/
  | readBounded (path : String) (atMost : ℕ)
  /-- A TPM tool, or a look at the file with the owner's authorization. -/
  | tool (op : Prover.Provision.Op)
  /-- Connect to the service. -/
  | connect
  /-- Limit the time that reading may take. -/
  | setReadTimeout
  /-- Send to the service. -/
  | send (data : Bytes)
  /-- Read what it answers, to the end. -/
  | readToEnd

/-- What a call returns. -/
abbrev Reply : Op → Type
  | .workDir => Except String Metadata
  | .ownUid => Except String ℕ
  | .createLock => Except String Unit
  | .tryLock => Attempt
  | .beforeDeadline => Bool
  | .pause => Unit
  | .readFile _ => Except String Bytes
  | .readBounded _ _ => Except FileError Bytes
  | .tool op => Prover.Provision.Reply op
  | .connect | .setReadTimeout | .send _ => Except String Unit
  | .readToEnd => Except String Bytes

/-- A procedure, failing with a text. -/
abbrev Procedure (α : Type) := Fallible Op Reply String α

/-- One call, and what its failure is called. -/
def call {α : Type} (op : Op) (h : Reply op = Except String α) (what : String → String) :
    Procedure α :=
  ExceptT.mk do
    let reply ← perform op
    return (h ▸ reply : Except String α).mapError what

/-- A call of a procedure on the stop counter's index. -/
def toolCall (op : Prover.Provision.Op) : Prog Op Reply (Prover.Provision.Reply op) :=
  perform (Op.tool op)

/-- A procedure on the index, as part of a command. -/
def onIndex {α : Type} (x : Prover.Provision.Procedure α) : Procedure α := interpretTry toolCall x

/-! ## The TPM -/

section Real

variable (cfg : Prover.Provision.Config)

/-- `read_pair`. -/
def readPair (attest sig : String) : Procedure (Bytes × Bytes) := do
  let a ← call (.readFile attest) rfl fun e => s!"read {attest}: {e}"
  let s ← call (.readFile sig) rfl fun e => s!"read {sig}: {e}"
  return (a, s)

/-- `Real`: what the service asks of the TPM, and of the files of a release; `cfg.work` is the
directory the tools write to. -/
def real : (op : Service.Op) → Prog Op Reply (Service.Reply op)
  | .readCounter => (onIndex stopNvRead).run
  | .increment => (onIndex stopNvIncrement).run
  | .certify qd => (do
      let attest := s!"{cfg.work}/certify.attest"
      let sig := s!"{cfg.work}/certify.sig"
      onIndex (stopNvCertify cfg qd attest sig)
      readPair attest sig).run
  | .pcrRead spec => (do
      let path := s!"{cfg.work}/pcrs.bin"
      let _ ← onIndex (Prover.Provision.run ["tpm2_pcrread", spec, "-o", path])
      call (.readFile path) rfl fun e => s!"read pcrs: {e}").run
  | .quote qd spec => (do
      let attest := s!"{cfg.work}/quote.attest"
      let sig := s!"{cfg.work}/quote.sig"
      onIndex (quoteQualified cfg qd spec attest sig)
      readPair attest sig).run
  | .readFile path atMost => perform (Op.readBounded path atMost)

end Real

/-! ## The lock -/

/-- `WORK_DIR`. -/
def workDirPath : String := "/run/tactiq-stop"

/-- The text of a mode, in octal. -/
def octal (n : ℕ) : String := String.ofList (Nat.toDigits 8 n)

/-- `work_dir`: a real directory, not writable by group or others, owned by the caller or root; root
may use one that is not its own. -/
def workDir : Procedure Unit := do
  let md : Metadata ← call .workDir rfl fun e =>
    s!"{workDirPath}: {e}; it is created at boot by the tactiq-stop tmpfiles entry, " ++
      "not by this command"
  let me : ℕ ← call .ownUid rfl fun e => s!"stat /proc/self: {e}"
  let mode := md.mode &&& 0o7777
  let ownerOk := md.uid = me ∨ me = 0 ∨ md.uid = 0
  ofResult (Except.ensure (md.isDir = true ∧ ownerOk ∧ mode &&& 0o022 = 0)
    (s!"{workDirPath} must be a real directory, not writable by group or others, owned by uid " ++
      s!"{me} or root (is uid {md.uid}, mode {octal mode.toNat})"))

/-- The path of the lock. -/
def lockPath : String := workDirPath ++ "/admin.lock"

/-- `LOCK_WAIT`, in seconds. -/
def lockWait : ℕ := 20

/-- The pauses that fit in it. -/
def pauses : ℕ := lockWait * 10

/-- The deadline has passed. -/
def waited : Procedure Unit :=
  throw s!"another tactiq-stop command has held {lockPath} for {lockWait}s; nothing was changed"

/-- One attempt, and what follows it if somebody else holds the lock. -/
def attempt (again : Procedure Unit) : Procedure Unit := ExceptT.mk do
  match ← perform Op.tryLock with
  | .acquired => return .ok ()
  | .wouldBlock => again.run
  | .error e => return .error s!"lock {lockPath}: {e}"

/-- The loop of `admin_lock`, with so many pauses left before the deadline must have passed. -/
def attempts : ℕ → Procedure Unit
  | 0 => attempt waited
  | left + 1 => attempt (ExceptT.mk do
      if ← perform Op.beforeDeadline then
        perform Op.pause
        (attempts left).run
      else waited.run)

/-- `admin_lock`. -/
def adminLock : Procedure Unit := do
  call .createLock rfl fun e => s!"create {lockPath}: {e}"
  attempts pauses

/-! ## The commands -/

/-- How `{:?}` shows a state. -/
def showState : State → String
  | .running => "Running"
  | .stopped => "Stopped"

/-- `describe_failure`. -/
def describeFailure (e : TransitionError) : String :=
  match e.now with
  | some c =>
    if stateOf c = .stopped then s!"{e.message}\nTHE AGENT IS NOW Stopped (stop counter {c})"
    else
      s!"{e.message}\nSTOP COUNTER {c} IS EVEN: THE AGENT RUNS ONLY IF A VALID OPERATOR RELEASE " ++
        s!"NAMES {c}, OTHERWISE IT IS STOPPED"
  | none => s!"{e.message}\nTHE AGENT'S STATE IS UNKNOWN: the counter could not be read"

/-- `LISTEN`. -/
def listen : String := "127.0.0.1:49318"

/-- What is asked of the service. -/
def probe : Bytes := Text.ascii "POST /tactiq-stop/probe HTTP/1.1\r\nContent-Length: 0\r\n\r\n"

/-- The code in an answer. -/
def codeOf (out : Bytes) : String :=
  if 12 ≤ out.length then String.ofList (Text.lossy ((out.drop 9).take 3)) else "???"

/-- What the code confirms. -/
def confirmed (want : State) (code : String) : Except String Unit :=
  if want = .stopped ∧ code = "403" then .ok ()
  else if want = .running ∧ code = "200" then .ok ()
  else if want = .stopped ∧ code = "200" then
    .error "THE SERVICE STILL ANSWERS 200: tool calls are NOT stopped"
  else .error s!"service answered {code}, not what {showState want} should give"

/-- `confirm_through_service`, once there is a connection. -/
def confirmOver (want : State) : Procedure Unit := do
  call .setReadTimeout rfl id
  call (.send probe) rfl fun e => s!"probe: {e}"
  let out : Bytes ← call .readToEnd rfl fun e => s!"probe: {e}"
  ofResult (confirmed want (codeOf out))

/-- `confirm_through_service`: a service that cannot be reached lets no call pass. -/
def confirmThroughService (want : State) : Procedure Unit := ExceptT.mk do
  let connected : Except String Unit ← perform Op.connect
  match connected with
  | .ok () => (confirmOver want).run
  | .error _ => return .ok ()

section Commands

variable {C : Crypto} (fromPem : List Char → Except String C.VerifyingKey)
  (cfg : Prover.Provision.Config)

/-- The command of `admin`, and its failure described. -/
def adminCommand (f : Command) : Procedure Transition := ExceptT.mk do
  return (← f.interpret (real cfg)).mapError describeFailure

/-- What `admin` does with the lock. -/
def adminBody (f : Command) (want : State) : Procedure Unit := do
  onIndex verifyStopCounter
  let _ ← adminCommand cfg f
  confirmThroughService want

/-- `admin`. -/
def admin (f : Command) (want : State) : Procedure Unit := do
  workDir
  adminLock
  adminBody cfg f want

/-- `cmd_trip`. -/
def cmdTrip : Procedure Unit := admin cfg trip .stopped

/-- `OPERATOR_KEY`. -/
def operatorKeyPath : String := "/usr/share/tactiq/stop-operator.pem"

/-- The text of a file, as `read_to_string` reads it. -/
def textOf (path : String) (raw : Except String Bytes) : Except String (List Char) := do
  let raw ← raw.mapError fun e => s!"read {path}: {e}"
  Except.ensure (Text.utf8Valid raw = true) s!"read {path}: stream did not contain valid UTF-8"
  return Text.lossy raw

/-- The key in a file. -/
def keyOf (raw : Except String Bytes) : Except String C.VerifyingKey := do
  let pem ← textOf operatorKeyPath raw
  (fromPem pem).mapError fun e => s!"{operatorKeyPath}: {e}"

/-- `load_operator_key`. -/
def loadOperatorKey : Procedure C.VerifyingKey := do
  let raw ← ExceptT.lift (perform (Op.readFile operatorKeyPath))
  ofResult (keyOf fromPem raw)

/-- The path of the device id. -/
def deviceIdPath : String := s!"{cfg.keysDir}/device_id"

/-- `read_device_id`. -/
def readDeviceId : Procedure String := do
  let raw ← ExceptT.lift (perform (Op.readFile (deviceIdPath cfg)))
  ofResult (Service.readDeviceId (deviceIdPath cfg) raw)

/-- What `recover` is run with. -/
def liftOf (key : C.VerifyingKey) (id : String) : Lift C :=
  ⟨Chars.utf8 id.toList, key, Service.release.read⟩

/-- `cmd_recover`. -/
def cmdRecover : Procedure Unit := do
  let id ← readDeviceId cfg
  let key ← loadOperatorKey fromPem
  admin cfg (recover (liftOf key id)) .running

/-- The state `define` is asked for. -/
def initialOf : List String → Except String State
  | [] => .ok .stopped
  | ["--initial", "stopped"] => .ok .stopped
  | ["--initial", "running"] => .ok .running
  | _ => .error "define takes --initial stopped|running"

/-- The index, as `define` needs it: made, or finished if it has never been written. -/
def prepareIndex : Procedure Unit := do
  if ← onIndex (Prover.Provision.nvDefined stopNvCounter) then
    let attrs ← onIndex stopNvAttributesNow
    ofResult (checkStopAttributes attrs)
    ofResult (Except.ensure (stopAttributesWritten attrs = false)
      s!"{stopNvCounter} already defined; use trip or recover to change the state")
    onIndex stopNvFirstWrite
  else onIndex (stopNvDefine cfg)

/-- What `define` does with the lock. -/
def defineBody (want : State) : Procedure Unit := do
  prepareIndex cfg
  onIndex verifyStopCounter
  let _ ← adminCommand cfg (settle want)

/-- `define`. -/
def define (args : List String) : Procedure Unit := do
  let want ← ofResult (initialOf args)
  workDir
  adminLock
  defineBody cfg want

end Commands

end TactiqAttest.Operator
