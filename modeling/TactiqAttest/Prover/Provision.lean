import TactiqAttest.Bytes.Chars
import TactiqAttest.Envelope.Message
import TactiqAttest.Files.Staging
import TactiqAttest.Programs.Obligations
import TactiqAttest.Prover.NvCounter

/-!
# Provisioning

A device gets its identity once: an attestation key in the TPM, its public area in `ak.pub`, and the
id the verifier knows it by in `device_id`, both files in the keys directory.  `cmd_provision` makes
them, in this order; `inspect` tells a device that has both from one that has neither or one.

What is modelled is the keys directory, on a disk that power cuts leave in part.  `tpm2_readpublic`
writes `ak.pub`; the other TPM commands do nothing to the directory.
-/

namespace TactiqAttest.Prover.Provision

open Envelope Files Prog

/-! ## Calls -/

/-- What provisioning calls. -/
inductive Op where
  /-- A file operation in the keys directory. -/
  | file (op : Files.Op String)
  /-- `create_dir_all`. -/
  | createDirAll (path : String)
  /-- `set_permissions` of a file in the keys directory. -/
  | setMode (name : String) (mode : ℕ)
  /-- `metadata` of a file elsewhere. -/
  | metadata (path : String)
  /-- A TPM command. -/
  | command (args : List String)
  /-- `tpm2_readpublic`, into `ak.pub`. -/
  | readPublic (handle : String)

/-- What a call returns; a command its output, or the text of its failure. -/
abbrev Reply : Op → Type
  | .file op => Files.Reply op
  | .createDirAll _ | .setMode _ _ | .metadata _ => Except String Unit
  | .command _ => Except String Bytes
  | .readPublic _ => Except String Unit

/-- A procedure that makes such calls. -/
abbrev Procedure (α : Type) := Fallible Op Reply String α

/-- The directories and the environment. -/
structure Config where
  keysDir : String
  work : String
  /-- `TACTIQ_AK_HANDLE`. -/
  akHandle : Option String
  /-- `TACTIQ_NV_INDEX`. -/
  nvIndex : Option String
  /-- `TACTIQ_OWNER_AUTH_FILE`. -/
  ownerAuthFile : Option String

/-- One file operation; `what` names it in the text of the error. -/
def io (what : String) (op : Files.Op String) : Procedure (Result op) := ExceptT.mk do
  let reply : Except IoError (Result op) ← perform (Op.file op)
  return reply.mapError fun e => s!"{what}: {e.text}"

/-! ## The identity on disk -/

section State

variable (cfg : Config)

/-- `Paths::device_id`. -/
def deviceIdPath : String := s!"{cfg.keysDir}/device_id"

/-- `Paths::pubkey`. -/
def pubkeyPath : String := s!"{cfg.keysDir}/ak.pub"

/-- `Provisioning`. -/
inductive Provisioning where
  | complete
  | absent
  /-- `Partial`: exactly one of the two is there. -/
  | incomplete (haveId haveKey : Bool)
  deriving DecidableEq

/-- `Path::exists`. -/
def pathExists (name : String) : Prog Op Reply Bool := do
  let reply : Except IoError Unit ← perform (Op.file (.stat name))
  return reply.isOk

/-- `inspect`. -/
def inspect : Prog Op Reply Provisioning := do
  let haveId ← pathExists "device_id"
  let haveKey ← pathExists "ak.pub"
  return match haveId, haveKey with
    | true, true => .complete
    | false, false => .absent
    | _, _ => .incomplete haveId haveKey

/-- `validate_id`. -/
def validateId (id : String) : Except String Unit :=
  let bytes := Chars.utf8 id.toList
  if bytes.isEmpty then .error "device id is empty"
  else if bytes.length > deviceIdLen then
    .error s!"device id {Chars.debug id.toList} is {bytes.length} bytes, max {deviceIdLen}"
  else if !bytes.all Text.isGraphic then
    .error s!"device id {Chars.debug id.toList} must be printable ASCII without spaces"
  else .ok ()

/-- The id in a file. -/
def idOfFile (path : String) (raw : Bytes) : Except String String := do
  Except.ensure (Text.utf8Valid raw = true)
    s!"read {path}: stream did not contain valid UTF-8"
  let id := String.ofList (Chars.trim (Text.lossy raw))
  validateId id
  return id

/-- `read_id`. -/
def readId : Procedure String := do
  let raw ← io s!"read {deviceIdPath cfg}" (.read "device_id")
  ofResult (idOfFile (deviceIdPath cfg) raw)

/-- `sync_dir` of the keys directory. -/
def syncDir : Procedure Unit := io s!"fsync dir {cfg.keysDir}" .syncDir

/-- `write_id`.  The id and the end of the line are two writes. -/
def writeId (id : String) : Procedure Unit := do
  ofResult (validateId id)
  let f ← io s!"create {deviceIdPath cfg}" (.createNew "device_id")
  io s!"write {deviceIdPath cfg}" (.write f (Chars.utf8 id.toList))
  io s!"write {deviceIdPath cfg}" (.write f [0x0A])
  io s!"fsync {deviceIdPath cfg}" (.sync f)
  syncDir cfg

/-- `finalize_pubkey_perms`. -/
def finalizePubkeyPerms : Procedure Unit := do
  io s!"stat {pubkeyPath cfg}" (.stat "ak.pub")
  ExceptT.mk do
    let reply : Except String Unit ← perform (Op.setMode "ak.pub" 0o644)
    return reply.mapError fun e => s!"chmod {pubkeyPath cfg}: {e}"

end State

/-! ## The TPM -/

section Tpm

variable (cfg : Config)

/-- `DEFAULT_AK_HANDLE`. -/
def defaultAkHandle : String := "0x81010100"

/-- `ak_handle`. -/
def akHandle : Except String String :=
  handleFromEnv "TACTIQ_AK_HANDLE" cfg.akHandle defaultAkHandle 0x81000000 0x81FFFFFF

/-- `run`. -/
def run (args : List String) : Procedure Bytes := ExceptT.mk (perform (Op.command args))

/-- `let _ = run(..)`. -/
def runAnyhow (args : List String) : Procedure Unit := ExceptT.mk do
  let _ ← (run args).run
  return .ok ()

/-- `owner_auth`. -/
def ownerAuth : Procedure (Option String) :=
  match cfg.ownerAuthFile with
  | none => return none
  | some p => ExceptT.mk do
    let reply : Except String Unit ← perform (Op.metadata p)
    return match reply with
      | .ok () => .ok (some s!"file:{p}")
      | .error e => .error s!"TACTIQ_OWNER_AUTH_FILE={p}: {e}"

/-- The text `run_owner` makes of a failure. -/
def ownerHint (auth : Option String) (e : String) : String :=
  if auth.isNone && ["auth", "0x9a2", "0x98e"].any fun s => Chars.contains s.toList e.toList then
    s!"{e}\nhint: the owner hierarchy has an authorization on this TPM (a Windows-managed " ++
      "or policy-provisioned TPM); write it as raw bytes to a 0600 file and set " ++
      "TACTIQ_OWNER_AUTH_FILE to its path"
  else e

/-- `run_owner`. -/
def runOwner (args : List String) : Procedure Bytes := do
  let auth ← ownerAuth cfg
  let args := args ++ (match auth with
    | some a => ["-P", a]
    | none => [])
  ExceptT.mk do
    return (← (run args).run).mapError (ownerHint auth)

/-- `listing_has`. -/
def listingHas (listing : List Char) (handle : String) : Bool :=
  (listing.splitOn '\n').any fun l =>
    match Chars.stripPrefix "- ".toList (Chars.trim l) with
    | some h => Chars.eqIgnoreCase (Chars.trim h) handle.toList
    | none => false

/-- `handle_exists`. -/
def handleExists (handle : String) : Procedure Bool := do
  let o ← run ["tpm2_getcap", "handles-persistent"]
  return listingHas (Text.lossy o) handle

/-- `nv_defined`. -/
def nvDefined (index : String) : Procedure Bool := do
  let o ← run ["tpm2_getcap", "handles-nv-index"]
  return listingHas (Text.lossy o) index

/-- `create_ek`. -/
def createEk : Procedure String := do
  let ctx := s!"{cfg.work}/ek.ctx"
  let _ ← run ["tpm2_createek", "-c", ctx, "-G", "rsa", "-u", s!"{cfg.work}/ek.pub"]
  runAnyhow ["tpm2_flushcontext", "-t"]
  return ctx

/-- `create_ak`. -/
def createAk : Procedure Unit := do
  let ctx := s!"{cfg.work}/ak.ctx"
  let ek ← createEk cfg
  let _ ← run ["tpm2_createak", "-C", ek, "-c", ctx, "-G", "ecc", "-g", "sha256", "-s", "ecdsa",
    "-u", s!"{cfg.work}/ak.pub", "-r", s!"{cfg.work}/ak.priv"]
  runAnyhow ["tpm2_flushcontext", "-t"]
  let h ← ofResult (akHandle cfg)
  let _ ← runOwner cfg ["tpm2_evictcontrol", "-C", "o", "-c", ctx, h]
  runAnyhow ["tpm2_flushcontext", "-t"]

/-- `nv_define`. -/
def nvDefine : Procedure Unit := do
  let nv ← ofResult (nvCounter cfg.nvIndex)
  let _ ← runOwner cfg ["tpm2_nvdefine", nv, "-C", "o", "-a", counterNvAttributesArg]
  let _ ← run ["tpm2_nvincrement", nv, "-C", nv]
  return ()

/-- `read_ak_public`. -/
def readAkPublic : Procedure Unit := do
  let h ← ofResult (akHandle cfg)
  ExceptT.mk (perform (Op.readPublic h))

end Tpm

/-! ## `cmd_provision` -/

section Command

variable (cfg : Config)

/-- Only a device that has neither file is provisioned. -/
def requireAbsent : Procedure Unit := ExceptT.mk do
  match ← inspect with
  | .complete =>
    return match ← (readId cfg).run with
      | .ok existing => .error
          (s!"already provisioned as {existing}; provisioning again would strand " ++
          "the key the verifier holds under that id")
      | .error e => .error e
  | .incomplete haveId haveKey =>
    return .error (s!"partial provisioning state (device_id: {haveId}, pubkey: {haveKey}) — " ++
      "not repairing automatically")
  | .absent => return .ok ()

/-- The key is not adopted from an occupied handle. -/
def requireFree (h : String) : Procedure Unit := do
  let occupied ← handleExists h
  ofResult (Except.ensure (occupied = false)
    (s!"{h} already holds an object and this device has no recorded AK; " ++
      "the agent does not adopt a key by its handle. If it is left from an " ++
      "interrupted provisioning, evict it deliberately " ++
      s!"(tpm2_evictcontrol -C o -c {h}) and provision again"))

/-- `cmd_provision`, up to where the TPM is ready. -/
def prepare (id : String) : Procedure Unit := do
  ofResult (validateId id)
  ExceptT.mk do
    let reply : Except String Unit ← perform (Op.createDirAll cfg.keysDir)
    return reply.mapError fun e => s!"mkdir {cfg.keysDir}: {e}"
  ExceptT.mk do
    let reply : Except String Unit ← perform (Op.createDirAll cfg.work)
    return reply.mapError fun e => s!"mkdir {cfg.work}: {e}"
  requireAbsent cfg
  let h ← ofResult (akHandle cfg)
  requireFree h
  createAk cfg
  let nv ← ofResult (nvCounter cfg.nvIndex)
  if !(← nvDefined nv) then nvDefine cfg

/-- `cmd_provision`. -/
def cmdProvision (id : String) : Procedure Unit := do
  prepare cfg id
  readAkPublic cfg
  finalizePubkeyPerms cfg
  syncDir cfg
  writeId cfg id

end Command

/-! ## What the calls do -/

variable {α : Type} {pub : Bytes} {d d' : Disk String}

variable (pub) in
/-- What a call does to the keys directory.  `tpm2_readpublic` writes `ak.pub`, and when it succeeds
it has left the public area there. -/
def Sem (d : Disk String) : Exchange Op Reply → Disk String → Prop
  | ⟨.file op, r⟩, d' => d.Step op r d'
  | ⟨.readPublic _, r⟩, d' => Disk.Works (fun n => n = "ak.pub") d d' ∧
      (r = .ok () → ∃ f, d'.view "ak.pub" = some f ∧ d'.data f = pub)
  | _, d' => d' = d

/-- The calls that do nothing to it. -/
def Idle : Op → Prop
  | .file (.stat _) | .file (.read _) => True
  | .file _ | .readPublic _ => False
  | _ => True

theorem eq_of_idle {op : Op} {r : Reply op} (hop : Idle op) (hsem : Sem pub d ⟨op, r⟩ d') :
    d' = d := by
  cases op with
  | file op =>
    cases hsem with
    | found _ => rfl
    | read _ => rfl
    | failed _ => rfl
    | _ => exact hop.elim
  | readPublic handle => exact hop.elim
  | createDirAll path => exact hsem
  | setMode name mode => exact hsem
  | metadata path => exact hsem
  | command args => exact hsem

end TactiqAttest.Prover.Provision
