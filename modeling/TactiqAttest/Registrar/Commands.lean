import TactiqAttest.Files.Disk
import TactiqAttest.Programs.Obligations
import TactiqAttest.Registrar.Record

/-!
# The registrar's commands

`begin` checks the chain of an endorsement key and an attestation key, draws a secret, and leaves
the credential blob and what it will need in a state directory.  `complete` compares the device's
answer with the secret and writes the record.  `verify` checks a record again.

A command is a program: it reads and writes files, reads the clock, draws random bytes and prints.
`Sem` is what its calls do; with `faulty` false no call on files fails.
-/

namespace TactiqAttest.Registrar

open Files Prog

/-! ## Calls -/

/-- What the registrar calls. -/
inductive Op where
  | file (op : Files.Op String)
  /-- Create a file with a mode, and refuse to if there is one. -/
  | createNew (path : String) (mode : ℕ)
  /-- Create a directory with a mode, and refuse to if there is one. -/
  | createDir (path : String) (mode : ℕ)
  /-- The time since 1970. -/
  | now
  /-- Random bytes. -/
  | random (n : ℕ)
  /-- `println!`, line after line. -/
  | print (lines : List String)

/-- What a call returns. -/
abbrev Reply : Op → Type
  | .file op => Files.Reply op
  | .createNew path _ => Files.Reply (.createNew path)
  | .createDir _ _ => Except IoError Unit
  | .now => Duration
  | .random n => List.Vector UInt8 n
  | .print _ => Unit

/-- A procedure that makes such calls. -/
abbrev Procedure (α : Type) := Fallible Op Reply String α

/-- One file operation; `what` names it in the text of the error. -/
def io (what : String) (op : Files.Op String) : Procedure (Result op) := ExceptT.mk do
  let reply : Except IoError (Result op) ← perform (Op.file op)
  return reply.mapError fun e => s!"{what}: {e.text}"

/-- `read`. -/
def read (p : String) : Procedure Bytes := io s!"read {p}" (.read p)

/-- `now`. -/
def now : Procedure Duration := ExceptT.lift (perform Op.now)

/-- `fill_bytes`. -/
def random (n : ℕ) : Procedure (List.Vector UInt8 n) := ExceptT.lift (perform (Op.random n))

/-- `println!`. -/
def print (lines : List String) : Procedure Unit := ExceptT.lift (perform (Op.print lines))

/-- `DirBuilder::create`. -/
def createDir (path : String) (mode : ℕ) : Procedure Unit := ExceptT.mk do
  let reply : Except IoError Unit ← perform (Op.createDir path mode)
  return reply.mapError fun e => s!"create {path} (must not exist yet): {e.text}"

/-- `OpenOptions::open` with `create_new`. -/
def createNew (path : String) (mode : ℕ) : Procedure ℕ := ExceptT.mk do
  let reply : Except IoError ℕ ← perform (Op.createNew path mode)
  return reply.mapError fun e => s!"create {path}: {e.text}"

/-- `write_new`. -/
def writeNew (path : String) (bytes : Bytes) (mode : ℕ) : Procedure Unit := do
  let f ← createNew path mode
  io s!"write {path}" (.write f bytes)
  io s!"write {path}" (.sync f)

/-- `Path::join`. -/
def join (dir name : String) : String :=
  if dir.toList.getLast? = some '/' then dir ++ name else dir ++ "/" ++ name

/-! ## Options -/

/-- `trim_start_matches("--")`. -/
def trimDashes : List Char → List Char
  | '-' :: '-' :: cs => trimDashes cs
  | cs => cs

/-- `Opts`: names with their values. -/
abbrev Opts := List (String × String)

/-- `opts`. -/
def opts : List String → Opts
  | [] => []
  | [k] => [(String.ofList (trimDashes k.toList), "")]
  | k :: v :: tl => (String.ofList (trimDashes k.toList), v) :: opts tl

/-- `Opts::get`. -/
def Opts.get (o : Opts) (k : String) : Except String String :=
  let v := (o.find? fun p => p.1 = k).map Prod.snd
  Except.ofOption s!"missing --{k}"
    (v.filter fun v => v ≠ "" ∧ ¬ ['-', '-'].isPrefixOf v.toList = true)

/-- `Opts::opt`. -/
def Opts.opt (o : Opts) (k : String) : Option String := (Opts.get o k).toOption

/-- The file an option names. -/
def readOption (o : Opts) (k : String) : Procedure Bytes := do
  let p ← ofResult (o.get k)
  read p

/-! ## `begin` -/

section Commands

variable (K : Crates)

/-- The files `begin` is given. -/
structure Given where
  ekDer : Bytes
  intDer : Bytes
  rootDer : Bytes
  akPublic : Bytes
  ekCrl : Bytes
  intCrl : Bytes

/-- What `begin` finds when it checks them. -/
structure Examined where
  chain : Chain K.pki
  ekCrl : Crl.Checked
  intCrl : Crl.Checked
  name : List.Vector UInt8 34

/-- `begin` reads what it is given. -/
def given (o : Opts) : Procedure Given := do
  let ekDer ← readOption o "ek-cert"
  let intDer ← readOption o "intermediate"
  let rootDer ← readOption o "root"
  let akPublic ← readOption o "ak-public"
  let ekCrl ← readOption o "ek-crl"
  let intCrl ← readOption o "intermediate-crl"
  return { ekDer, intDer, rootDer, akPublic, ekCrl, intCrl }

/-- `begin` checks it. -/
def examine (g : Given) (time : Duration) : Except String (Examined K) := do
  let chain ← Chain.verify K.pki K.crypto g.ekDer g.intDer g.rootDer time
  let (ec, ic) ← Crl.checkChain K.pki g.ekDer g.intDer g.rootDer g.ekCrl g.intCrl time
  let name ← checkAk K g.akPublic
  return { chain, ekCrl := ec, intCrl := ic, name }

/-- `make_credential`. -/
def makeCredential (ek : K.pki.PublicKey) (name secret : Bytes) : Procedure Bytes := do
  let seed ← random 32
  let oaep ← random 32
  ofResult (MakeCred.makeCredentialWithSeed K.credential ek name secret seed.toList oaep)

variable {K} in
/-- The state that waits for the answer. -/
def pendingOf (deviceId registrar : String) (g : Given) (time : Duration) (e : Examined K)
    (secret blob : Bytes) : Pending where
  format := pendingFormat
  deviceId := deviceId
  registrar := registrar
  chainCheckedUnix := time.secs
  ekCertificate := Hex.encode g.ekDer
  intermediateCertificate := Hex.encode g.intDer
  rootSha256 := Hex.encode e.chain.rootSha256.toList
  ekCrl := Hex.encode g.ekCrl
  ekCrlThisUpdateUnix := e.ekCrl.thisUpdateUnix
  ekCrlNextUpdateUnix := e.ekCrl.nextUpdateUnix
  intermediateCrl := Hex.encode g.intCrl
  intermediateCrlThisUpdateUnix := e.intCrl.thisUpdateUnix
  intermediateCrlNextUpdateUnix := e.intCrl.nextUpdateUnix
  akPublic := Hex.encode g.akPublic
  akName := Hex.encode e.name.toList
  credentialBlob := Hex.encode blob
  secret := Hex.encode secret

/-- `print_hex_lines`. -/
def hexLines (b : Bytes) : List String :=
  ((Hex.encode b).toList.toChunks 64).map String.ofList

/-- `cmd_begin`. -/
def cmdBegin (o : Opts) : Procedure Unit := do
  let state ← ofResult (o.get "state")
  let deviceId ← ofResult (o.get "device-id")
  ofResult (validateId deviceId)
  let registrar ← ofResult (o.get "registrar")
  let g ← given o
  let time ← now
  let e ← ofResult (examine K g time)
  let secret ← random MakeCred.secretLen
  let blob ← makeCredential K e.chain.ekPublic e.name.toList secret.toList
  createDir state 0o700
  let json := K.pendingJson.toVecPretty (pendingOf deviceId registrar g time e secret.toList blob)
  writeNew (join state "pending.json") json 0o600
  writeNew (join state "cred.blob") blob 0o644
  print ([s!"device      {deviceId}",
    s!"root sha256 {Hex.encode e.chain.rootSha256.toList}",
    (s!"revocation  EK not listed (CRL {utc e.ekCrl.thisUpdateUnix} to " ++
      s!"{utc e.ekCrl.nextUpdateUnix}), intermediate not listed " ++
      s!"(CRL {utc e.intCrl.thisUpdateUnix} to {utc e.intCrl.nextUpdateUnix})"),
    s!"ak name     {Hex.encode e.name.toList}",
    (let path := join state "cred.blob"
     s!"blob        {path} ({blob.length} bytes)"),
    s!"blob sha256 {Hex.encode (K.crypto.sha256 blob).toList}",
    "blob hex:"] ++ hexLines blob)

/-! ## `complete` -/

/-- `complete` reads what waits. -/
def readPending (path : String) : Procedure Pending := do
  let bytes ← read path
  let p ← ofResult ((K.pendingJson.fromSlice bytes).mapError fun e => s!"{path}: {e}")
  ofResult (Except.ensure (p.format = pendingFormat) s!"{path}: format {p.format}")
  return p

/-- The record of a registration. -/
def recordOf (p : Pending) (registered : UInt64) (secret : Bytes) : Record where
  format := recordFormat
  deviceId := p.deviceId
  registrar := p.registrar
  chainCheckedUtc := utc p.chainCheckedUnix
  chainCheckedUnix := p.chainCheckedUnix
  registeredUtc := utc registered
  ekNvIndex := ekNvIndex
  ekCertificate := p.ekCertificate
  intermediateCertificate := p.intermediateCertificate
  rootSha256 := p.rootSha256
  chainCheck := chainCheckText
  revocationChecked := true
  revocationCheck := some revocationCheckText
  ekCrl := some p.ekCrl
  ekCrlThisUpdateUtc := some (utc p.ekCrlThisUpdateUnix)
  ekCrlNextUpdateUtc := some (utc p.ekCrlNextUpdateUnix)
  intermediateCrl := some p.intermediateCrl
  intermediateCrlThisUpdateUtc := some (utc p.intermediateCrlThisUpdateUnix)
  intermediateCrlNextUpdateUtc := some (utc p.intermediateCrlNextUpdateUnix)
  akPublic := p.akPublic
  akName := p.akName
  credentialBlob := p.credentialBlob
  secretSha256 := Hex.encode (K.crypto.sha256 secret).toList
  signed := none

/-- `complete` compares the answer.  The pending state is kept when it does not match. -/
def compareAnswer (p : Pending) (raw : Bytes) : Except String Bytes := do
  let answer ← answerOf raw
  let secret ← Hex.decode p.secret
  Except.ensure (ctEq answer.toList secret = true)
    "the answer does not match the secret; registration NOT made"
  return secret

/-- `cmd_complete`. -/
def cmdComplete (o : Opts) : Procedure Unit := do
  let state ← ofResult (o.get "state")
  let pendingPath := join state "pending.json"
  let p ← readPending K pendingPath
  let raw ← readOption o "answer"
  let secret ← ofResult (compareAnswer p raw)
  let time ← now
  let record := recordOf K p time.secs secret
  let json := K.recordJson.toVecPretty record ++ [0x0A]
  let out := join state "record.json"
  writeNew out json 0o644
  io s!"remove {pendingPath}" (.remove pendingPath)
  print [s!"registered  {record.deviceId}", s!"record      {out}",
    s!"record sha256 {Hex.encode (K.crypto.sha256 json).toList}",
    "unsigned: internal only, not L3 (DDR-005 decision 6)"]

/-! ## `verify` -/

/-- `verify` looks at the signature, if there is one, at the current time. -/
def checkSignature (o : Opts) (recordBytes : Bytes) : Procedure (Option Signature.Signer) :=
  match o.opt "sig", o.opt "release-root" with
  | some p7s, some root => do
    let rootBytes ← read root
    let rootDer ← ofResult (Signature.certDer K.pki rootBytes "release root")
    let p7sBytes ← read p7s
    let time ← now
    let signer ← ofResult (Signature.verify K.pki K.crypto recordBytes p7sBytes rootDer time)
    return some signer
  | none, none => return none
  | _, _ => ofResult (.error "--sig and --release-root go together")

/-- What `verify` prints. -/
def verdict (record : Record) (v2 : Bool) (signer : Option Signature.Signer) : List String :=
  (if v2 then
    [s!"record ok   {record.deviceId} " ++
      s!"(format 2: chain and CRLs at {record.chainCheckedUtc}, AK rule, AK name, blob layout)",
     "not checked: the blob contents (activate on the device), who registered"]
  else
    [s!"record ok   {record.deviceId} " ++
      s!"(format 1: chain at {record.chainCheckedUtc}, AK rule, AK name, blob layout)",
     "not checked: the blob contents (activate on the device), revocation, who registered"]) ++
  match signer with
  | some s =>
    [s!"signed      by {s.leafSubject} (serial {s.leafSerial})",
     s!"            Signing CA {s.signingCaSubject}; release root sha256 {s.rootSha256}",
     "            signer EKU is the registration purpose; certificates valid now"]
  | none => ["unsigned: internal only, not L3"]

/-- The AK public area, if it was asked for. -/
def emitAk (o : Opts) (akPublic : Bytes) : Procedure Unit :=
  match o.opt "emit-ak" with
  | some p => do
    writeNew p akPublic 0o644
    print [s!"AK public area written to {p}"]
  | none => return ()

/-- `cmd_verify`. -/
def cmdVerify (o : Opts) : Procedure Unit := do
  let recordBytes ← readOption o "record"
  let record ← ofResult ((K.recordJson.fromSlice recordBytes).mapError fun e => s!"record: {e}")
  let v2 ← ofResult (checkFormat record)
  ofResult (validateId record.deviceId)
  let rootDer ← readOption o "root"
  let akPublic ← ofResult (judge K record v2 rootDer)
  let signer ← checkSignature K o recordBytes
  print (verdict record v2 signer)
  emitAk o akPublic

end Commands

/-! ## What the calls do -/

/-- The files, and what has been drawn. -/
structure World where
  disk : Disk String
  drawn : List Bytes

/-- What a call does. -/
def Effect (w : World) : Exchange Op Reply → World → Prop
  | ⟨.file op, r⟩, w' => w.disk.Step op r w'.disk ∧ w'.drawn = w.drawn
  | ⟨.createNew path _, r⟩, w' => w.disk.Step (.createNew path) r w'.disk ∧ w'.drawn = w.drawn
  | ⟨.random _, r⟩, w' => w'.disk = w.disk ∧ w'.drawn = w.drawn ++ [r.toList]
  | _, w' => w' = w

/-- The call failed. -/
def Fails : Exchange Op Reply → Prop
  | ⟨.file _, r⟩ => ∃ e, r = .error e
  | ⟨.createNew _ _, r⟩ => ∃ e, r = .error e
  | ⟨.createDir _ _, r⟩ => ∃ e, r = .error e
  | _ => False

/-- What a call does, where calls fail only if `faulty`. -/
def Sem (faulty : Prop) (w : World) (c : Exchange Op Reply) (w' : World) : Prop :=
  Effect w c w' ∧ (Fails c → faulty)

/-- A call is answered without a failure, unless it may fail. -/
def Possible (faulty : Prop) (w : World) (op : Op) : Prop :=
  ¬ faulty → ∃ r w', Sem False w ⟨op, r⟩ w'

end TactiqAttest.Registrar
