import TactiqAttest.Programs.Interpretation
import TactiqAttest.Prover.Audit
import TactiqAttest.Prover.CounterAlloc
import TactiqAttest.Prover.PcrSpec
import TactiqAttest.Prover.SameAk

/-!
# The agent

`tactiq-agent` makes one envelope with `cmd_attest`, and with `cmd_run` one after another.  Its
parts are modelled each against the calls it makes: the identity on disk and the TPM tools
(`Provision`), the NV counter (`NvCounter`, `CounterAlloc`) and the audit directory (`Audit`).  Here
they are put together.

A cycle has three parts.  `checks` is everything that can be found wrong before a counter value is
spent: the directories, what an interrupted cycle left behind, the identity, the PCR selection and
the key at the handle.  Then the counter is taken.  `emit` reads the PCRs, builds the message and
publishes the envelope.

What the agent prints is left out.  The loop of `cmd_run` has no end; `runCycles n` is its first `n`
turns.
-/

namespace TactiqAttest.Prover.Agent

open Envelope Files Prog

/-! ## Calls -/

/-- What the agent calls. -/
inductive Op where
  /-- A file operation in the keys directory, a directory made, a TPM command. -/
  | keys (op : Provision.Op)
  /-- A command on the NV counter. -/
  | nv (op : NvOp)
  /-- A file operation in the audit directory. -/
  | audit (op : Files.Op String)
  /-- `tpm2_readpublic -o`, and the file it wrote, read back. -/
  | handlePublic (handle path : String)
  /-- `tpm2_pcrread -o`, and the file it wrote, read back. -/
  | pcrRead (spec path : String)
  /-- `tpm2_quote` with some qualifying data, into two files of the audit directory. -/
  | quote (handle spec : String) (qualifying : List.Vector UInt8 32) (attest sig : String)
  /-- Open the boot log, and read it up to a number of bytes. -/
  | bootLog (path : String) (atMost : ℕ)
  /-- `sd_notify`. -/
  | notify (msg : String)
  /-- Wait for the rest of the interval. -/
  | pause

/-- What a call returns; a command its output, or the text of its failure. -/
abbrev Reply : Op → Type
  | .keys op => Provision.Reply op
  | .nv op => NvReply op
  | .audit op => Files.Reply op
  | .handlePublic _ _ | .pcrRead _ _ => Except String Bytes
  | .quote _ _ _ _ _ => Except String Unit
  | .bootLog _ _ => Except IoError (Except String Bytes)
  | .notify _ | .pause => Unit

/-- A procedure of the agent, failing with a text. -/
abbrev Procedure (α : Type) := Fallible Op Reply String α

/-- A call of a procedure on the keys directory. -/
def keysCall (op : Provision.Op) : Prog Op Reply (Provision.Reply op) := perform (Op.keys op)

/-- A call of a procedure on the NV counter. -/
def nvCall (op : NvOp) : Prog Op Reply (NvReply op) := perform (Op.nv op)

/-- A procedure on the keys directory, as part of the agent. -/
def onKeys {α : Type} (x : Provision.Procedure α) : Procedure α := interpretTry keysCall x

/-- The calls of a procedure on the audit directory; `quote` is the callback of
`publish_envelope`. -/
def auditCall (quote : String → String → Procedure Unit) :
    (op : AuditOp) → Prog Op Reply (AuditReply op)
  | .file op => perform (Op.audit op)
  | .quote attest sig => (quote attest sig).run

/-- A procedure on the audit directory, as part of the agent. -/
def onAudit {α : Type} (quote : String → String → Procedure Unit) (x : Audit α) : Procedure α :=
  interpretTry (auditCall quote) x

/-- The callback of the procedures that call none. -/
def noQuote (_ _ : String) : Procedure Unit := pure ()

/-! ## A cycle -/

section Cycle

variable (C : Crypto) (cfg : Provision.Config) (out spec : String)

/-- `ensure_dir`. -/
def ensureDir (path : String) : Procedure Unit := ExceptT.mk do
  let reply : Except String Unit ← perform (Op.keys (.createDirAll path))
  return reply.mapError fun e => s!"mkdir {path}: {e}"

/-- `verify_ak`, with the public area recorded in the keys directory. -/
def verifyAk : Procedure Unit := do
  let akh ← ofResult (Provision.akHandle cfg)
  let occupied ← onKeys (Provision.handleExists akh)
  ofResult (Except.ensure (occupied = true)
    s!"no object at {akh}; the recorded AK is not in this TPM")
  let recorded ← onKeys (Provision.io s!"read {Provision.pubkeyPath cfg}" (.read "ak.pub"))
  let h ← ofResult (Provision.akHandle cfg)
  let cur ← ExceptT.mk (perform (Op.handlePublic h s!"{cfg.work}/ak.handle.pub"))
  ofResult (sameAk C cfg recorded cur)

/-- The identity of a provisioned device, or why it has none. -/
def identity : Procedure String := onKeys (ExceptT.mk do
  match ← Provision.inspect with
  | .complete => (Provision.readId cfg).run
  | .absent => return .error "not provisioned; run `tactiq-agent provision <id>`"
  | .incomplete haveId haveKey =>
    return .error s!"partial provisioning state (device_id: {haveId}, pubkey: {haveKey})")

/-- What `cmd_attest` does before it takes a counter value: the id, and the selection. -/
def checks : Procedure (String × UInt16 × List.Vector UInt8 3) := do
  ensureDir cfg.work
  ensureDir out
  let _ ← onAudit noQuote (removePartials out)
  let id ← identity cfg
  let (alg, bitmap) ← ofResult (parsePcrSpec spec)
  verifyAk C cfg
  return (id, alg, bitmap)

/-- `quote`, as the callback of `publish_envelope`. -/
def quoteMessage (msg : Bytes) (attest sig : String) : Procedure Unit := do
  let qd ← ofResult (qualifyingData C msg)
  let h ← ofResult (Provision.akHandle cfg)
  ExceptT.mk (perform (Op.quote h spec qd attest sig))

/-- The message of an envelope: no evidence goes with it. -/
def message (id : String) (alg : UInt16) (bitmap : List.Vector UInt8 3) (counter : UInt64)
    (pcrState : Bytes) : Bytes :=
  buildCanonical C (Chars.utf8 id.toList) counter (encodePcrSelection alg bitmap) pcrState []

/-- The tag of an envelope. -/
def tag (id : String) (counter : UInt64) : Bytes := Chars.utf8 s!"{id} counter={counter}\n".toList

/-- What `cmd_attest` does with a counter value. -/
def emit (id : String) (alg : UInt16) (bitmap : List.Vector UInt8 3) (counter : UInt64) :
    Procedure UInt64 := do
  let pcrState ← ExceptT.mk (perform (Op.pcrRead spec s!"{cfg.work}/pcrs.bin"))
  let msg := message C id alg bitmap counter pcrState
  ofResult (Except.ensure (msg.length = msgLen) s!"built {msg.length} bytes, expected {msgLen}")
  onAudit (quoteMessage C cfg spec msg) (publishEnvelope out (stem counter) msg (tag id counter))
  return counter

/-- `cmd_attest`: one cycle.  The allocator is left where `next` leaves it. -/
def cmdAttest (alloc : CounterAlloc) : Prog Op Reply (CounterAlloc × Except String UInt64) := do
  match ← (checks C cfg out spec).run with
  | .error e => return (alloc, .error e)
  | .ok (id, alg, bitmap) =>
    let (alloc, taken) ← (alloc.next cfg.nvIndex).interpret nvCall
    match taken with
    | .error e => return (alloc, .error e)
    | .ok counter =>
      let result ← (emit C cfg out spec id alg bitmap counter).run
      return (alloc, result)

end Cycle

/-! ## The boot log -/

/-- `BOOT_LOG_MAX`. -/
def bootLogMax : ℕ := 1 <<< 20

/-- The name a boot log is saved under. -/
def bootName (C : Crypto) (data : Bytes) : String :=
  "boot-" ++ Hex.encode (evidenceDigest C data).toList ++ ".bios.log"

/-- The name it has while it is being written. -/
def bootPart (name : String) : String := name ++ ".part"

/-- The name of a file of a save that was cut short. -/
def isBootPart (name : String) : Bool :=
  "boot-".toList.isPrefixOf name.toList && ".bios.log.part".toList.isSuffixOf name.toList

section BootLog

variable (C : Crypto) (out : String)

/-- The first loop of `save_boot_log`. -/
def removeBootParts : List (Except IoError String) → Audit Unit
  | [] => return ()
  | entry :: entries => do
    let name ← ofResult (entry.mapError fun e => s!"read_dir {out}: {e.text}")
    if isBootPart name then io s!"remove {path out name}" (.remove name)
    removeBootParts entries

/-- The end of `save_boot_log`: the log, under its own name, unless it is there. -/
def storeBootLog (data : Bytes) : Audit (Option String) := do
  let name := bootName C data
  let there : Except IoError Unit ← ExceptT.lift (file (.stat name))
  if there.isOk then return none
  else
    writeSynced out (bootPart name) data
    io s!"rename {path out name}" (.rename (bootPart name) name)
    syncDir out
    return some (path out name)

/-- What the boot log is, if there is one: it may not open, and reading it may fail. -/
def bootLogOf (src : String) : Except IoError (Except String Bytes) → Except String (Option Bytes)
  | .error e => if e.notFound then .ok none else .error s!"open {src}: {e.text}"
  | .ok (.error e) => .error s!"read {src}: {e}"
  | .ok (.ok data) =>
    if data.length > bootLogMax then .error s!"{src} is larger than {bootLogMax} bytes"
    else if data = [] then .ok none
    else .ok (some data)

/-- `save_boot_log`: the path it was saved under, if it was. -/
def saveBootLog (src : String) : Procedure (Option String) := do
  onAudit noQuote (do
    let entries ← io s!"read_dir {out}" .list
    removeBootParts out entries)
  let read : Except IoError (Except String Bytes) ← ExceptT.lift
    (perform (Op.bootLog src (bootLogMax + 1)))
  match ← ofResult (bootLogOf src read) with
  | none => return none
  | some data => onAudit noQuote (storeBootLog C out data)

end BootLog

/-! ## The commands -/

section Commands

variable (C : Crypto) (cfg : Provision.Config) (out spec : String)

/-- `sd_notify`. -/
def sdNotify (msg : String) : Prog Op Reply Unit := perform (Op.notify msg)

/-- One turn of the loop of `cmd_run`: a cycle, and the pruning after it. -/
def cycle (keep : ℕ) (alloc : CounterAlloc) :
    Prog Op Reply (CounterAlloc × Except String Unit) := do
  let (alloc, attested) ← cmdAttest C cfg out spec alloc
  match attested with
  | .error e => return (alloc, .error e)
  | .ok _ =>
    let pruned ← (onAudit noQuote (pruneAudit out keep)).run
    return (alloc, pruned.map fun _ => ())

/-- The first turns of the loop of `cmd_run`: it goes on unless a cycle fails. -/
def runCycles (keep : ℕ) : ℕ → CounterAlloc → Prog Op Reply (Except String Unit)
  | 0, _ => return .ok ()
  | n + 1, alloc => do
    let (alloc, result) ← cycle C cfg out spec keep alloc
    match result with
    | .error e =>
      sdNotify s!"STATUS=attest failed: {e}"
      return .error e
    | .ok () =>
      sdNotify "WATCHDOG=1"
      perform Op.pause
      runCycles keep n alloc

/-- How `{:?}` shows what `inspect` found. -/
def Provisioning.debug : Provision.Provisioning → String
  | .complete => "Complete"
  | .absent => "Absent"
  | .incomplete haveId haveKey => s!"Partial \x7b have_id: {haveId}, have_key: {haveKey} \x7d"

/-- The start of `cmd_run`. -/
def startRun (bootLog : String) : Procedure Unit := do
  let found ← ExceptT.lift (Provision.inspect.interpret keysCall)
  ofResult (Except.ensure (found = .complete) ("cannot run: " ++ Provisioning.debug found))
  ensureDir out
  let _ ← ExceptT.lift (saveBootLog C out bootLog).run
  ExceptT.lift (sdNotify "READY=1")

/-- `cmd_run`, up to its `n`-th turn. -/
def cmdRun (bootLog : String) (keep n : ℕ) : Prog Op Reply (Except String Unit) := do
  match ← (startRun C out bootLog).run with
  | .error e => return .error e
  | .ok () => runCycles C cfg out spec keep n .new

/-- `cmd_status`: the id, if the device is provisioned and its key is in place. -/
def cmdStatus : Procedure (Option String) := do
  let found ← ExceptT.lift (Provision.inspect.interpret keysCall)
  match found with
  | .complete => do
    let id ← onKeys (Provision.readId cfg)
    ensureDir cfg.work
    verifyAk C cfg
    return some id
  | .absent => return none
  | .incomplete haveId haveKey =>
    throw (s!"partial provisioning state (device_id: {haveId}, pubkey: {haveKey}) — " ++
      "refusing to continue; re-provision this device at the verifier and " ++
      s!"clear {cfg.keysDir} deliberately")

end Commands

/-! ## A device whose calls do not fail -/

namespace Sample

/-- What is in its TPM: the public area of the key, the contents of the PCRs, and what a quote of
some qualifying data leaves. -/
structure Chip where
  area : Bytes
  pcrs : Bytes
  quotes : List.Vector UInt8 32 → Bool
  attested : Bytes
  signed : Bytes

/-- A key at a small point. -/
def chip : Chip := ⟨tpm2b (sampleKey 1).tpmt, [], fun _ => true, [0x01], [0x02]⟩

/-- The default directories and handles. -/
def config : Provision.Config := ⟨"/data/tactiq/keys", "/run/tactiq-agent", none, none, none⟩

/-- The keys directory, provisioned for `device-A`, and the TPM commands. -/
def keys (t : Chip) : (op : Provision.Op) → Provision.Reply op
  | .file (.read n) => .ok (if n = "device_id" then Text.ascii "device-A\n" else t.area)
  | .file (.stat _) => .ok ()
  | .file _ => .error ⟨false, "permission denied"⟩
  | .command _ => .ok (Text.ascii "- 0x81010100\n")
  | .createDirAll _ | .setMode _ _ | .metadata _ | .readPublic _ => .ok ()

/-- The counters, and the audit directory, if anything has been done in it. -/
abbrev State := Counters × Option (Disk String)

/-- The answers. -/
def answer (t : Chip) (s : State) : (op : Op) → Reply op × State
  | .keys op => (keys t op, s)
  | .nv (.readPublic _) => (.ok (counterNvAttributes ||| tpmaNvWritten), s)
  | .nv (.increment nv) =>
    if s.1 nv < s.1 nv + 1 then (.ok (), Function.update s.1 nv (s.1 nv + 1), s.2)
    else (.error "the counter is at its end", s)
  | .nv (.read nv) => (.ok (BigEndian.be (s.1 nv)), s)
  | .audit .list =>
    match s.2 with
    | none => (.ok [], s)
    | some _ => (.error ⟨false, "not listed"⟩, s)
  | .audit op =>
    let reply := (s.2.getD Disk.empty).serve op
    (reply.1, s.1, some reply.2)
  | .handlePublic _ _ => (.ok t.area, s)
  | .pcrRead _ _ => (.ok t.pcrs, s)
  | .quote _ _ qd attest sig =>
    let d := s.2.getD Disk.empty
    if t.quotes qd = true ∧ d.view attest = none ∧ (d.make attest).view sig = none then
      (.ok (), s.1,
        some ((((d.make attest).put d.next t.attested).make sig).put (d.next + 1) t.signed))
    else (.error "no quote", s)
  | .bootLog _ _ => (.ok (.ok [0x01, 0x02]), s)
  | .notify _ | .pause => ((), s)

end Sample

end TactiqAttest.Prover.Agent
