import TactiqAttest.Bytes.Reader
import TactiqAttest.Bytes.Text
import TactiqAttest.Envelope.Crypto
import TactiqAttest.Programs.Results

/-!
# The stop record

The body of the stop service's evidence section, from `attest-stop`:

    status:  version(1) kind=2(1) state(1) 0(1) stop_epoch_be(8) policy_digest(32)
    refusal: version(1) kind=1(1) state(1) 0(1) stop_epoch_be(8) policy_digest(32)
             request_digest(32)

and the three digests both sides compute.  A refusal with the state *running* is refused by the
encoder and by the parser, so the two agree on what a record is:

* `StopRecord.parse_ok`: a body parses to `r` exactly when it is what `r` encodes to.
-/

open BigEndian
open Bytes (slice slice_eq slice_append_drop)

namespace TactiqAttest.Stop

/-- The only version this codec knows. -/
def stopRecordVersion : UInt8 := 0x01

/-- The common head: version, kind, state, reserved, stop epoch, policy digest. -/
abbrev headLen : ℕ := 44
/-- The length of a status record. -/
abbrev statusLen : ℕ := headLen
/-- The length of a refusal record. -/
abbrev refusalLen : ℕ := 76

def kindRefusal : UInt8 := 0x01
def kindStatus : UInt8 := 0x02
def stateRunning : UInt8 := 0x01
def stateStopped : UInt8 := 0x02

/-- The admission state of the gateway when the record was made. -/
inductive State where
  | running
  | stopped
  deriving DecidableEq

namespace State

def toByte : State → UInt8
  | .running => stateRunning
  | .stopped => stateStopped

def fromByte (b : UInt8) : Except String State :=
  if b = stateRunning then .ok .running
  else if b = stateStopped then .ok .stopped
  else .error s!"stop record: state byte 0x{Text.hex 2 b.toNat} is not valid"

theorem fromByte_ok {b : UInt8} {s : State} : fromByte b = .ok s ↔ b = s.toByte := by
  unfold fromByte
  split_ifs with h₁ h₂
  · rw [h₁]
    cases s <;> decide
  · rw [h₂]
    cases s <;> decide
  · refine ⟨fun h => (by cases h), fun h => ?_⟩
    cases s
    · exact absurd h h₁
    · exact absurd h h₂

end State

/-- Why the record exists. -/
inductive Kind where
  /-- One call was refused; the digest names it. -/
  | refusal (requestDigest : List.Vector UInt8 32)
  /-- An answer to a status question. -/
  | status
  deriving DecidableEq

/-- A stop record. -/
structure StopRecord where
  kind : Kind
  state : State
  stopEpoch : UInt64
  policyDigest : List.Vector UInt8 32
  deriving DecidableEq

namespace StopRecord

/-- The head, and for a refusal the digest of the request. -/
def bytes (r : StopRecord) : Bytes :=
  [stopRecordVersion, match r.kind with | .refusal _ => kindRefusal | .status => kindStatus,
    r.state.toByte, 0x00] ++ (be r.stopEpoch ++ (r.policyDigest.toList ++
    match r.kind with | .refusal requestDigest => requestDigest.toList | .status => []))

/-- The one combination that is not a record: a refusal while running. -/
def Legal (r : StopRecord) : Prop :=
  match r.kind with
  | .refusal _ => r.state = .stopped
  | .status => True

/-- `StopRecord::encode`. -/
def encode (r : StopRecord) : Except String Bytes :=
  match r.kind, r.state with
  | .refusal _, .running => .error "stop record: a refusal must carry state = stopped"
  | _, _ => .ok r.bytes

/-- The `kind` match of `StopRecord::parse`, once the head has been checked. -/
def parseKind (body : Bytes) (kindByte : UInt8) (state : State) : Except String Kind :=
  if kindByte = kindStatus then do
    Except.ensure (body.length = statusLen)
      s!"stop record: status is exactly {statusLen} bytes, got {body.length}"
    return .status
  else if kindByte = kindRefusal then
    if h : body.length = refusalLen then do
      Except.ensure (state = .stopped) "stop record: refusal with state = running"
      return .refusal (slice body 44 32 (by rw [h]))
    else .error s!"stop record: refusal is exactly {refusalLen} bytes, got {body.length}"
  else .error s!"stop record: kind byte 0x{Text.hex 2 kindByte.toNat} is not valid"

/-- `StopRecord::parse`.  Every index is in range once the head is there. -/
def parse (body : Bytes) : Except String StopRecord :=
  if h : headLen ≤ body.length then do
    let byte (i : ℕ) : UInt8 := body.getD i 0
    Except.ensure (byte 0 = stopRecordVersion)
      s!"stop record: unknown version 0x{Text.hex 2 (byte 0).toNat}"
    let state ← State.fromByte (byte 2)
    Except.ensure (byte 3 = 0x00)
      s!"stop record: reserved byte is 0x{Text.hex 2 (byte 3).toNat}, must be zero"
    let epoch := slice body 4 8 (Nat.le_trans (by decide) h)
    let policyDigest := slice body 12 32 h
    let kind ← parseKind body (byte 1) state
    return { kind, state, stopEpoch := ofBe epoch.toList, policyDigest }
  else
    .error s!"stop record: {body.length} bytes, shorter than the {headLen}-byte head"

theorem encode_ok {r : StopRecord} {b : Bytes} : r.encode = .ok b ↔ r.Legal ∧ b = r.bytes := by
  obtain ⟨kind, state, epoch, policy⟩ := r
  cases kind with
  | status => simp [encode, Legal, eq_comm]
  | refusal d =>
    cases state with
    | running => simp [encode, Legal]
    | stopped => simp [encode, Legal, eq_comm]

theorem length_bytes (r : StopRecord) :
    r.bytes.length = match r.kind with | .refusal _ => refusalLen | .status => statusLen := by
  obtain ⟨kind, state, epoch, policy⟩ := r
  cases kind <;> simp [bytes]

/-- What a kind contributes to the body: its byte, and what follows the head. -/
theorem parseKind_ok {body : Bytes} {kindByte : UInt8} {state : State} {kind : Kind}
    (hlen : headLen ≤ body.length) :
    parseKind body kindByte state = .ok kind ↔
      match kind with
      | .status => kindByte = kindStatus ∧ body.drop 44 = []
      | .refusal d => kindByte = kindRefusal ∧ state = .stopped ∧ body.drop 44 = d.toList := by
  unfold parseKind
  split_ifs with hstatus hrefusal hbody
  · simp only [Except.bind_eq_ok, Except.ensure_eq_ok, Except.pure_eq_ok, hstatus]
    cases kind with
    | status =>
      have hlen : 44 ≤ body.length := hlen
      simp only [List.drop_eq_nil_iff, true_and, and_true, exists_const]
      exact ⟨fun h => h.le, fun h => Nat.le_antisymm h hlen⟩
    | refusal d => simp [kindStatus, kindRefusal]
  · simp only [Except.bind_eq_ok, Except.ensure_eq_ok, Except.pure_eq_ok, hrefusal]
    cases kind with
    | status => simp [kindStatus, kindRefusal]
    | refusal d =>
      have htail : (slice body 44 32 (by rw [hbody])).toList = body.drop 44 := by
        have h := slice_append_drop body 44 32 (by rw [hbody])
        rwa [List.drop_of_length_le (by rw [hbody]), List.append_nil] at h
      simp only [Kind.refusal.injEq, exists_const, true_and]
      rw [← htail]
      exact and_congr_right fun _ =>
        ⟨fun h => h ▸ rfl, fun h => List.Vector.toList_injective h⟩
  · cases kind with
    | status => simp [hstatus]
    | refusal d =>
      refine ⟨fun h => (by cases h), ?_⟩
      rintro ⟨-, -, h⟩
      have hd := congrArg List.length h
      rw [List.length_drop, List.Vector.toList_length] at hd
      exact absurd (show body.length = 76 by have : 44 ≤ body.length := hlen; omega) hbody
  · cases kind with
    | status => simp [hstatus]
    | refusal d => simp [hrefusal]

/-- A body with a head, taken apart. -/
theorem head_split {body : Bytes} (h : headLen ≤ body.length) :
    ∃ (version kind state reserved : UInt8) (epoch : List.Vector UInt8 8)
      (policy : List.Vector UInt8 32) (tail : Bytes),
      body = [version, kind, state, reserved] ++ (epoch.toList ++ (policy.toList ++ tail)) := by
  have h₀ : (slice body 0 4 (Nat.le_trans (by decide) h)).toList.length = 4 :=
    List.Vector.toList_length _
  have hsplit : body = (slice body 0 4 (Nat.le_trans (by decide) h)).toList ++
      ((slice body 4 8 (Nat.le_trans (by decide) h)).toList ++
        ((slice body 12 32 h).toList ++ body.drop 44)) := by
    rw [slice_append_drop body 12 32, slice_append_drop body 4 8, slice_append_drop body 0 4,
      List.drop_zero]
  obtain ⟨b₀, b₁, b₂, b₃, hb⟩ := List.length_eq_four.mp h₀
  exact ⟨b₀, b₁, b₂, b₃, _, _, _, by rw [← hb]; exact hsplit⟩

/-- What is left of the parser once the head is taken apart. -/
theorem parse_head (version kind state reserved : UInt8) (epoch : List.Vector UInt8 8)
    (policy : List.Vector UInt8 32) (tail : Bytes) (r : StopRecord) :
    parse ([version, kind, state, reserved] ++ (epoch.toList ++ (policy.toList ++ tail))) =
        .ok r ↔
      version = stopRecordVersion ∧ state = r.state.toByte ∧ reserved = 0x00 ∧
        ofBe epoch.toList = r.stopEpoch ∧ policy = r.policyDigest ∧
        match r.kind with
        | .status => kind = kindStatus ∧ tail = []
        | .refusal d => kind = kindRefusal ∧ r.state = .stopped ∧ tail = d.toList := by
  have hlen : 44 ≤
      ([version, kind, state, reserved] ++ (epoch.toList ++ (policy.toList ++ tail))).length := by
    simp
    omega
  have hepoch : slice ([version, kind, state, reserved] ++
      (epoch.toList ++ (policy.toList ++ tail))) 4 8 (by omega) = epoch := slice_eq rfl rfl
  have hpolicy : slice ([version, kind, state, reserved] ++
      (epoch.toList ++ (policy.toList ++ tail))) 12 32 (by omega) = policy := by
    have hassoc : [version, kind, state, reserved] ++ (epoch.toList ++ (policy.toList ++ tail)) =
        ([version, kind, state, reserved] ++ epoch.toList) ++ (policy.toList ++ tail) := by
      rw [List.append_assoc]
    exact slice_eq hassoc (by simp)
  have htail : ([version, kind, state, reserved] ++
      (epoch.toList ++ (policy.toList ++ tail))).drop 44 = tail := by
    have hlen' : ([version, kind, state, reserved] ++
        (epoch.toList ++ policy.toList)).length = 44 := by simp
    rw [← List.append_assoc, ← List.append_assoc, List.append_assoc _ epoch.toList, ← hlen',
      List.drop_left]
  obtain ⟨rkind, rstate, repoch, rpolicy⟩ := r
  unfold parse
  rw [dif_pos hlen]
  simp only [Except.bind_eq_ok, Except.ensure_eq_ok, Except.pure_eq_ok, State.fromByte_ok,
    parseKind_ok hlen, hepoch, hpolicy, htail, StopRecord.mk.injEq]
  simp only [List.cons_append, List.getD_cons_zero, List.getD_cons_succ]
  constructor
  · rintro ⟨-, rfl, st, rfl, -, rfl, k, hk, rfl, rfl, rfl, rfl⟩
    exact ⟨rfl, rfl, rfl, rfl, rfl, hk⟩
  · rintro ⟨rfl, rfl, rfl, rfl, rfl, hk⟩
    exact ⟨(), rfl, rstate, rfl, (), rfl, rkind, hk, rfl, rfl, rfl, rfl⟩

/-- **A body parses to `r` exactly when it is what `r` encodes to.** -/
theorem parse_ok {b : Bytes} {r : StopRecord} : parse b = .ok r ↔ r.Legal ∧ b = r.bytes := by
  constructor
  · intro h
    have hlen : headLen ≤ b.length := by
      by_contra hshort
      rw [parse, dif_neg hshort] at h
      cases h
    obtain ⟨version, kind, state, reserved, epoch, policy, tail, rfl⟩ := head_split hlen
    obtain ⟨rfl, rfl, rfl, hepoch, rfl, hkind⟩ := (parse_head _ _ _ _ _ _ _ r).mp h
    have hbe : epoch.toList = be r.stopEpoch := by
      rw [← hepoch, be_ofBe (by simp)]
    obtain ⟨rkind, rstate, repoch, rpolicy⟩ := r
    cases rkind with
    | status =>
      obtain ⟨rfl, rfl⟩ := hkind
      exact ⟨trivial, by rw [hbe]; rfl⟩
    | refusal d =>
      obtain ⟨rfl, hstopped, rfl⟩ := hkind
      exact ⟨hstopped, by rw [hbe]; rfl⟩
  · rintro ⟨hlegal, rfl⟩
    have h := parse_head stopRecordVersion
      (match r.kind with | .refusal _ => kindRefusal | .status => kindStatus) r.state.toByte 0x00
      ⟨be r.stopEpoch, by simp⟩ r.policyDigest
      (match r.kind with | .refusal requestDigest => requestDigest.toList | .status => []) r
    refine h.mpr ⟨rfl, rfl, rfl, ofBe_be _, rfl, ?_⟩
    obtain ⟨rkind, rstate, repoch, rpolicy⟩ := r
    cases rkind with
    | status => exact ⟨rfl, rfl⟩
    | refusal d => exact ⟨rfl, hlegal, rfl⟩

/-- What a record encodes to, it is parsed from. -/
theorem parse_of_encode {r : StopRecord} {b : Bytes} (h : r.encode = .ok b) : parse b = .ok r :=
  parse_ok.mpr (encode_ok.mp h)

end StopRecord

/-! ## The nonce, and the digests both sides compute -/

abbrev nonceMin : ℕ := 16
abbrev nonceMax : ℕ := 64

/-- `check_nonce`: the length only. -/
def checkNonce (body : Bytes) : Except String Unit :=
  if body.length < nonceMin ∨ body.length > nonceMax then
    .error s!"verifier nonce: {body.length} bytes, must be {nonceMin}..={nonceMax}"
  else .ok ()

theorem checkNonce_ok {body : Bytes} {u : Unit} :
    checkNonce body = .ok u ↔ 16 ≤ body.length ∧ body.length ≤ 64 := by
  unfold checkNonce
  split_ifs with h
  · refine ⟨fun h' => (by cases h'), fun h' => ?_⟩
    have h : body.length < 16 ∨ body.length > 64 := h
    omega
  · refine ⟨fun _ => ?_, fun _ => rfl⟩
    have h : ¬ (body.length < 16 ∨ body.length > 64) := h
    omega

/-- What `request_digest` feeds to the hash: the domain, and method, path and body with a zero byte
after each of the first two. -/
def requestPreimage (method path body : Bytes) : Bytes :=
  Text.ascii "tactiq-stop/request/v1" ++ 0 :: (method ++ 0 :: (path ++ 0 :: body))

/-- What `stop_quote_qualifying` feeds to the hash. -/
def stopQuotePreimage (msg : Bytes) : Bytes := Text.ascii "tactiq-stop/quote/v1" ++ 0 :: msg

/-- What `certify_qualifying` feeds to the hash. -/
def certifyPreimage (recordBody nonce : Bytes) : Bytes :=
  Text.ascii "tactiq-stop/certify/v1" ++ 0 :: (recordBody ++ nonce)

variable (C : Crypto)

/-- `request_digest`. -/
def requestDigest (method path body : Bytes) : List.Vector UInt8 32 :=
  C.sha256 (requestPreimage method path body)

/-- `stop_quote_qualifying`. -/
def stopQuoteQualifying (msg : Bytes) : List.Vector UInt8 32 := C.sha256 (stopQuotePreimage msg)

/-- `certify_qualifying`. -/
def certifyQualifying (recordBody nonce : Bytes) : List.Vector UInt8 32 :=
  C.sha256 (certifyPreimage recordBody nonce)

end TactiqAttest.Stop
