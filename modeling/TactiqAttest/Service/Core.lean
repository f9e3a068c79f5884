import TactiqAttest.Envelope.Bundle
import TactiqAttest.Envelope.Message
import TactiqAttest.Service.Release
import TactiqAttest.Stop.NvCertifyInfo
import TactiqAttest.Stop.Receipt
import TactiqAttest.Stop.Record

/-!
# The decisions of the stop service

What the state is, whether a call passes, how a signed answer is assembled, and what the operator's
commands do.  All of it runs against the calls of `Service.Port`, so each function here is a
program, and what is proved of it is proved for every answer the outside may give.

An odd counter is a stop.  An even one is not yet permission: it also takes the operator's release
for exactly that value, which is what `gate` looks for.
-/

namespace TactiqAttest.Service

open Envelope Stop Prog

variable {C : Crypto}

/-! ## The gate -/

/-- `state_of`: the parity of the stop counter. -/
def stateOf (counter : UInt64) : State := if counter.toNat % 2 = 0 then .running else .stopped

theorem stateOf_eq_running {counter : UInt64} :
    stateOf counter = .running ↔ counter.toNat % 2 = 0 := by
  unfold stateOf
  by_cases h : counter.toNat % 2 = 0
  · rw [if_pos h]
    exact ⟨fun _ => h, fun _ => rfl⟩
  · rw [if_neg h]
    exact ⟨fun h' => (by cases h'), fun h' => absurd h' h⟩

/-- What lifting a stop is checked against. -/
structure Lift (C : Crypto) where
  deviceId : Bytes
  operatorKey : C.VerifyingKey
  release : ReleaseStore

/-- Whether a call may pass at this counter value. -/
inductive Gate
  /-- Even, with a valid release for exactly this value. -/
  | opened
  /-- Odd. -/
  | stopped
  /-- Even, but without a valid release for this value: still a stop. -/
  | unreleased (why : String)
  deriving DecidableEq

def Gate.state : Gate → State
  | .opened => .running
  | .stopped => .stopped
  | .unreleased _ => .stopped

/-- What a release that was read says about an even counter. -/
def judge (lift : Lift C) (counter : UInt64) : Option (Bytes × Bytes) → Gate
  | none => .unreleased "no operator release on the device"
  | some (record, sig) =>
    match Release.check C lift.operatorKey record sig lift.deviceId counter with
    | .ok () => .opened
    | .error e => .unreleased e

/-- Decide the gate for `counter`.  The release is read only for an even one. -/
def gate (lift : Lift C) (counter : UInt64) : Stop Gate :=
  if stateOf counter = .stopped then return .stopped
  else do
    let release ← lift.release
    return judge lift counter release

theorem judge_eq_opened {lift : Lift C} {counter : UInt64} {release : Option (Bytes × Bytes)} :
    judge lift counter release = .opened ↔ ∃ record sig, release = some (record, sig) ∧
      Release.check C lift.operatorKey record sig lift.deviceId counter = .ok () := by
  rcases release with _ | ⟨record, sig⟩
  · exact ⟨fun h => (by cases h), fun ⟨_, _, h, _⟩ => (by cases h)⟩
  · rw [judge]
    rcases hcheck : Release.check C lift.operatorKey record sig lift.deviceId counter with e | ⟨⟩
    · refine ⟨fun h => (by cases h), fun ⟨_, _, h, hok⟩ => ?_⟩
      cases h
      rw [hcheck] at hok
      cases hok
    · exact ⟨fun _ => ⟨record, sig, rfl, hcheck⟩, fun _ => rfl⟩

/-- The gate is open only at an even counter, on a release that was read and passes for it. -/
theorem yields_gate_opened {lift : Lift C} {counter : UInt64} {cs : List (Exchange Op Reply)} :
    (gate lift counter).run.Yields cs (.ok .opened) ↔
      stateOf counter = .running ∧ ∃ record sig,
        lift.release.run.Yields cs (.ok (some (record, sig))) ∧
        Release.check C lift.operatorKey record sig lift.deviceId counter = .ok () := by
  unfold gate
  rcases hstate : stateOf counter with _ | _
  · rw [if_neg (by decide), yields_tryBind_ok]
    refine ⟨fun ⟨cs₁, cs₂, release, hcs, hread, hret⟩ => ?_,
      fun ⟨_, record, sig, hread, hcheck⟩ => ?_⟩
    · obtain ⟨rfl, hopen⟩ := yields_tryPure.mp hret
      rw [List.append_nil] at hcs
      obtain ⟨record, sig, rfl, hcheck⟩ := judge_eq_opened.mp (Except.ok.inj hopen)
      exact ⟨rfl, record, sig, hcs ▸ hread, hcheck⟩
    · have hopen := judge_eq_opened.mpr ⟨record, sig, rfl, hcheck⟩
      exact ⟨cs, [], some (record, sig), (List.append_nil cs).symm, hread,
        yields_tryPure.mpr ⟨rfl, congrArg Except.ok hopen⟩⟩
  · rw [if_pos rfl]
    refine ⟨fun h => ?_, fun h => (by cases h.1)⟩
    cases (yields_tryPure.mp h).2

/-! ## Answers -/

/-- Fixed context of one service instance. -/
structure Ctx (C : Crypto) where
  lift : Lift C
  deviceId : Bytes
  pcrSpec : String
  pcrAlg : UInt16
  pcrBitmap : List.Vector UInt8 3
  policyDigest : List.Vector UInt8 32
  /-- The TPM name of the stop counter, read at start. -/
  stopIndexName : Bytes

/-- What the gateway gets for one call. -/
inductive Admission
  /-- Let the call through. -/
  | allow
  /-- Refuse it, with a signed receipt as the body. -/
  | refuse (receipt : Bytes)

/-- The sections of a receipt: record, certify, and the nonce if there is one. -/
def receiptSections (body cert nonce : Bytes) : List Section :=
  [⟨tagStopState, body⟩, ⟨tagTpmNvCertify, cert⟩] ++
    if nonce = [] then [] else [⟨tagVerifierNonce, nonce⟩]

/-- Assemble and sign a receipt for a record. -/
def sign (ctx : Ctx C) (rec : StopRecord) (nonce : Bytes) : Stop Bytes := do
  let body ← ofResult rec.encode
  let qd := certifyQualifying C body nonce
  let (cAttest, cSig) ← certify qd
  ofResult (checkCounterCertify cAttest qd ctx.stopIndexName rec.stopEpoch)
  let cert ← ofResult (NvCertify.encode ⟨cAttest, cSig⟩)
  let bundle ← ofResult (buildBundle (receiptSections body cert nonce))
  let pcrState ← pcrRead ctx.pcrSpec
  let selection := encodePcrSelection ctx.pcrAlg ctx.pcrBitmap
  let msg := buildCanonical C ctx.deviceId rec.stopEpoch selection pcrState bundle
  ofResult (Except.ensure (msg.length = msgLen) s!"built {msg.length} bytes, expected {msgLen}")
  let (qAttest, qSig) ← quote (stopQuoteQualifying C msg) ctx.pcrSpec
  ofResult (Receipt.encode ⟨msg, qAttest, qSig, bundle⟩)

/-- The record of a refusal. -/
def refusalRecord (ctx : Ctx C) (counter : UInt64) (requestDigest : List.Vector UInt8 32) :
    StopRecord :=
  { kind := .refusal requestDigest, state := .stopped, stopEpoch := counter,
    policyDigest := ctx.policyDigest }

/-- The record of a status answer. -/
def statusRecord (ctx : Ctx C) (counter : UInt64) (gate : Gate) : StopRecord :=
  { kind := .status, state := gate.state, stopEpoch := counter, policyDigest := ctx.policyDigest }

/-- What `admit` does at a gate. -/
def admitAt (ctx : Ctx C) (requestDigest : List.Vector UInt8 32) (counter : UInt64) :
    Gate → Stop Admission
  | .opened => return .allow
  | .stopped | .unreleased _ => do
    let receipt ← sign ctx (refusalRecord ctx counter requestDigest) []
    return .refuse receipt

/-- `admit`: decide one call. -/
def admitCall (ctx : Ctx C) (requestDigest : List.Vector UInt8 32) : Stop Admission := do
  let counter ← readCounter
  let gate ← gate ctx.lift counter
  admitAt ctx requestDigest counter gate

/-- A signed answer to "what is the state now", optionally bound to a verifier's nonce. -/
def status (ctx : Ctx C) (nonce : Bytes) : Stop Bytes := do
  ofResult (if nonce = [] then .ok () else checkNonce nonce)
  let counter ← readCounter
  let gate ← gate ctx.lift counter
  sign ctx (statusRecord ctx counter gate) nonce

/-- `record_of`: the record a receipt carries. -/
def recordOf (receipt : Bytes) : Except String StopRecord := do
  let r ← Receipt.parse receipt
  let sections ← parseBundle r.bundle
  match sections.filter (·.tag = tagStopState) with
  | [s] => StopRecord.parse s.body
  | found => throw s!"receipt: {found.length} stop records, expected one"

theorem yields_readCounter {cs : List (Exchange Op Reply)} {out : Except String UInt64} :
    readCounter.run.Yields cs out ↔ cs = [⟨.readCounter, out⟩] := yields_perform

/-- A call is let through only at the counter value read, with the gate open there. -/
theorem yields_admit_allow {ctx : Ctx C} {requestDigest : List.Vector UInt8 32}
    {cs : List (Exchange Op Reply)} :
    (admitCall ctx requestDigest).run.Yields cs (.ok .allow) ↔
      ∃ counter rest, cs = ⟨.readCounter, .ok counter⟩ :: rest ∧
        (gate ctx.lift counter).run.Yields rest (.ok .opened) := by
  rw [admitCall, yields_tryBind_ok]
  refine ⟨fun ⟨cs₁, cs₂, counter, hcs, hread, hrest⟩ => ?_, fun ⟨counter, rest, hcs, hgate⟩ => ?_⟩
  · obtain rfl := yields_readCounter.mp hread
    obtain ⟨cs₃, cs₄, gate, hcs₂, hgate, hat⟩ := yields_tryBind_ok.mp hrest
    have hsigned : ¬ (do
        let receipt ← sign ctx (refusalRecord ctx counter requestDigest) []
        return .refuse receipt : Stop Admission).run.Yields cs₄ (.ok .allow) := by
      intro h
      obtain ⟨_, _, receipt, -, -, hret⟩ := yields_tryBind_ok.mp h
      cases (yields_tryPure.mp hret).2
    cases gate with
    | opened =>
      obtain ⟨rfl, -⟩ := yields_tryPure.mp hat
      rw [List.append_nil] at hcs₂
      exact ⟨counter, cs₂, hcs, hcs₂ ▸ hgate⟩
    | stopped => exact absurd hat hsigned
    | unreleased why => exact absurd hat hsigned
  · exact ⟨_, rest, counter, hcs, yields_readCounter.mpr rfl, yields_tryBind_ok.mpr
      ⟨rest, [], .opened, (List.append_nil rest).symm, hgate, yields_tryPure.mpr ⟨rfl, rfl⟩⟩⟩

/-- A call is refused where the gate is not open, with a signed receipt. -/
theorem yields_admitAt_refuse {ctx : Ctx C} {requestDigest : List.Vector UInt8 32}
    {counter : UInt64} {g : Gate} {receipt : Bytes} {cs : List (Exchange Op Reply)} :
    (admitAt ctx requestDigest counter g).run.Yields cs (.ok (.refuse receipt)) ↔
      g.state = .stopped ∧
        (sign ctx (refusalRecord ctx counter requestDigest) []).run.Yields cs (.ok receipt) := by
  have hsigned : (do
      let receipt ← sign ctx (refusalRecord ctx counter requestDigest) []
      return .refuse receipt : Stop Admission).run.Yields cs (.ok (.refuse receipt)) ↔
        (sign ctx (refusalRecord ctx counter requestDigest) []).run.Yields cs (.ok receipt) := by
    rw [yields_tryBind_ok]
    refine ⟨fun ⟨cs₁, cs₂, r, hcs, hsign, hret⟩ => ?_, fun h => ?_⟩
    · obtain ⟨rfl, hr⟩ := yields_tryPure.mp hret
      cases hr
      rwa [hcs, List.append_nil]
    · exact ⟨cs, [], receipt, (List.append_nil cs).symm, h, yields_tryPure.mpr ⟨rfl, rfl⟩⟩
  cases g with
  | opened =>
    refine ⟨fun h => ?_, fun h => (by cases h.1)⟩
    cases (yields_tryPure.mp h).2
  | stopped => exact hsigned.trans ⟨fun h => ⟨rfl, h⟩, And.right⟩
  | unreleased why => exact hsigned.trans ⟨fun h => ⟨rfl, h⟩, And.right⟩

/-! ## The operator's commands -/

/-- What an operator command did. -/
inductive Transition
  | changed (from' to' : UInt64)
  | alreadyThere (at' : UInt64)
  deriving DecidableEq

/-- An operator command that failed, with the state as last known. -/
structure TransitionError where
  message : String
  /-- The counter as read after the failure, if it could be read. -/
  now : Option UInt64

/-- An operator command. -/
abbrev Command := Prog Op Reply (Except TransitionError Transition)

/-- A failure in the middle of `move_to`, which reads the counter once more. -/
def fail (message : String) : Command := do
  let now ← perform Op.readCounter
  return .error ⟨message, match now with | .ok v => some v | .error _ => none⟩

/-- The end of `move_to`, with what the counter reads after the increment. -/
def arrived (from' : UInt64) : Except String UInt64 → Command
  | .error e => fail ("increment sent, but the counter could not be read back: " ++ e)
  | .ok to' =>
    if to' = from' + 1 then return .ok (.changed from' to')
    else return .error ⟨"the counter went from " ++ toString from' ++ " to " ++ toString to' ++
      ", not " ++ toString (from' + 1) ++ ": another writer moved it", some to'⟩

/-- The increment of `move_to`, and what follows it. -/
def advance (from' : UInt64) : Command := do
  match ← perform Op.increment with
  | .error e => fail ("increment failed: " ++ e)
  | .ok () => do
    let read ← perform Op.readCounter
    arrived from' read

/-- `move_to` with the counter read. -/
def moveFrom (want : State) : Except String UInt64 → Command
  | .error e => return .error ⟨e, none⟩
  | .ok from' => if stateOf from' = want then return .ok (.alreadyThere from') else advance from'

/-- `move_to`: at most one increment, and only if the parity is wrong. -/
def moveTo (want : State) : Command := do
  let read ← perform Op.readCounter
  moveFrom want read

/-- Stop the agent. -/
def trip : Command := moveTo .stopped

/-- Bring a freshly defined counter to the wanted state. -/
def settle (want : State) : Command := moveTo want

/-- The epoch `recover` needs a release for.  The addition wraps. -/
def target (from' : UInt64) : UInt64 := if stateOf from' = .running then from' else from' + 1

/-- A refused `recover`. -/
def refused (from' : UInt64) (why : String) : TransitionError :=
  ⟨"no valid operator release for epoch " ++ toString (target from') ++ ": " ++ why ++
    "; nothing was changed", some from'⟩

/-- The end of `recover`, once the release has been checked. -/
def recoverAt (from' : UInt64) : Except String Gate → Command
  | .ok .opened =>
    if target from' = from' then return .ok (.alreadyThere from') else moveTo .running
  | .ok (.unreleased why) => return .error (refused from' why)
  | .ok .stopped => return .error (refused from' "odd epoch")
  | .error e => return .error (refused from' e)

/-- `recover` with the counter read. -/
def recoverFrom (lift : Lift C) : Except String UInt64 → Command
  | .error e => return .error ⟨e, none⟩
  | .ok from' => do
    let checked ← (gate lift (target from')).run
    recoverAt from' checked

/-- Lift a stop, with the operator's release for the epoch the counter moves to. -/
def recover (lift : Lift C) : Command := do
  let read ← perform Op.readCounter
  recoverFrom lift read

/-- An increment that is followed through ends one above where it started, or in an error. -/
theorem of_advance {from' : UInt64} {cs : List (Exchange Op Reply)} {tr : Transition}
    (h : (advance from').Yields cs (.ok tr)) : tr = .changed from' (from' + 1) := by
  have hfail : ∀ message cs, ¬ (fail message).Yields cs (.ok tr) := by
    intro message cs h
    obtain ⟨_, _, now, -, -, hret⟩ := yields_bind.mp h
    cases (yields_pure.mp hret).2
  obtain ⟨_, cs₂, incremented, -, -, hrest⟩ := yields_bind.mp h
  rcases incremented with e | ⟨⟩
  · exact absurd hrest (hfail _ _)
  · obtain ⟨_, cs₃, read, -, -, harrived⟩ := yields_bind.mp hrest
    rcases read with e | to'
    · exact absurd harrived (hfail _ _)
    · rw [arrived] at harrived
      by_cases hto : to' = from' + 1
      · rw [if_pos hto] at harrived
        cases (yields_pure.mp harrived).2
        rw [hto]
      · rw [if_neg hto] at harrived
        cases (yields_pure.mp harrived).2

/-! ## One instance -/

/-- `PCR_SPEC`. -/
def pcrSpec : String := "sha256:0,1,8"

/-- `RELEASE`. -/
def release : ReleaseFiles where
  record := "/data/tactiq/stop/release"
  sig := "/data/tactiq/stop/release.sig"

/-- What a service instance loads at start. -/
structure Owned (C : Crypto) where
  operatorKey : C.VerifyingKey
  deviceId : Bytes
  pcrAlg : UInt16
  pcrBitmap : List.Vector UInt8 3
  policy : List.Vector UInt8 32
  indexName : Bytes

/-- What `recover` is run with. -/
def Owned.lift (owned : Owned C) : Lift C := ⟨owned.deviceId, owned.operatorKey, release.read⟩

def Owned.ctx (owned : Owned C) : Ctx C where
  lift := owned.lift
  deviceId := owned.deviceId
  pcrSpec := pcrSpec
  pcrAlg := owned.pcrAlg
  pcrBitmap := owned.pcrBitmap
  policyDigest := owned.policy
  stopIndexName := owned.indexName

end TactiqAttest.Service
