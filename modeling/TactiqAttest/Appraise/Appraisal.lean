import TactiqAttest.Appraise.Gate1
import TactiqAttest.Envelope.Bundle

/-!
# Appraisal

Gate 3, from `attest-appraise`: the attested device state against a reference set, then the evidence
the bundle presents against what the profile requires.  Inside `gate3` the state axis comes first,
so that "a failure of the extension must not mask a failure of the core".

`appraise` has to hand `gate3` the kinds a bundle presents, and so parses the bundle before `gate3`
runs.  Whether the order of the axes survives that is what `StateFirst` asks, and
`stateFirst_iff` answers: it does exactly when the bundle parses or the state is recognised.
-/

open BigEndian

namespace TactiqAttest.Appraise

open Envelope

/-! ## Evidence, state and verdicts -/

/-- The kinds of evidence sources. -/
inductive EvidenceKind where
  | tpmQuote
  | gpuAttest
  | cpuTee
  deriving DecidableEq

/-- `EvidenceKind::from_tag`.  An unknown tag is a source this verifier does not appraise. -/
def EvidenceKind.fromTag (tag : UInt16) : Option EvidenceKind :=
  if tag = tagTpmQuote then some .tpmQuote
  else if tag = tagGpuAttest then some .gpuAttest
  else if tag = tagCpuTee then some .cpuTee
  else none

/-- Which PCRs a composite was computed over, and with which hash. -/
structure PcrSelection where
  hashAlg : UInt16
  pcrMask : List.Vector UInt8 3
  deriving DecidableEq

/-- `PcrSelection::from_canonical`. -/
def PcrSelection.fromCanonical (b : List.Vector UInt8 pcrSelectionLen) : PcrSelection :=
  ⟨ofBe (b.toList.take 2), ⟨b.toList.drop 2, by rw [List.length_drop, b.toList_length]; rfl⟩⟩

/-- What the prover attested about device state. -/
structure AttestedState where
  selection : PcrSelection
  composite : List.Vector UInt8 32

/-- `AttestedState::from_authenticated`. -/
def AttestedState.fromAuthenticated (a : Authenticated) : AttestedState :=
  ⟨.fromCanonical a.pcrSelection, a.pcrHash⟩

/-- The golden reference set of a device. -/
structure ReferenceSet where
  expectedSelection : PcrSelection
  allowed : List (List.Vector UInt8 32)
  /-- The evidence kinds demanded beyond the envelope, in reporting order. -/
  requiredEvidence : List EvidenceKind

/-- `ReferenceSet::contains`. -/
def ReferenceSet.contains (refs : ReferenceSet) (composite : List.Vector UInt8 32) : Bool :=
  refs.allowed.any fun g => g == composite

inductive Outcome where
  | accept
  | reject
  deriving DecidableEq

/-- One reason per distinguishable failure class of the whole pipeline. -/
inductive Reason where
  | accepted
  | signatureFail
  | unknownDevice
  | malformed
  | evidenceBindingFail
  | quoteBindingFail
  | stale
  | persistFail
  | unrecognizedState
  | evidenceUnparseable
  | evidenceMissing (kind : EvidenceKind)
  | evidenceUnrecognized (kind : EvidenceKind)
  deriving DecidableEq

/-- `Reason::from(Gate1Reject)`. -/
def Reason.ofGate1 : Gate1Reject → Reason
  | .malformed => .malformed
  | .unknownDevice => .unknownDevice
  | .signatureFail => .signatureFail
  | .evidenceBindingFail => .evidenceBindingFail
  | .quoteBindingFail => .quoteBindingFail

structure Verdict where
  outcome : Outcome
  reason : Reason
  deriving DecidableEq

def Verdict.accept : Verdict := ⟨.accept, .accepted⟩

def Verdict.reject (reason : Reason) : Verdict := ⟨.reject, reason⟩

/-! ## Gate 3 -/

/-- The loop of `presented_kinds`: unknown tags are skipped, repeated ones collapsed. -/
def kindsOf (sections : List Section) : List EvidenceKind :=
  sections.foldl (fun out s =>
    match EvidenceKind.fromTag s.tag with
    | some kind => if out.contains kind then out else out ++ [kind]
    | none => out) []

/-- `presented_kinds`. -/
def presentedKinds (bundle : Bytes) : Except String (List EvidenceKind) :=
  kindsOf <$> parseBundle bundle

/-- `gate3`: the selection, then the composite, then the completeness of the evidence. -/
def gate3 (attested : AttestedState) (presented : List EvidenceKind) (refs : ReferenceSet) :
    Verdict :=
  if attested.selection ≠ refs.expectedSelection then .reject .unrecognizedState
  else if !refs.contains attested.composite then .reject .unrecognizedState
  else
    match refs.requiredEvidence.find? fun k => !presented.contains k with
    | some missing => .reject (.evidenceMissing missing)
    | none => .accept

/-- `appraise`. -/
def appraise (auth : Authenticated) (refs : ReferenceSet) : Verdict :=
  match presentedKinds auth.evidence with
  | .ok kinds => gate3 (.fromAuthenticated auth) kinds refs
  | .error _ => .reject .evidenceUnparseable

/-- `check`: gate 1 under a legacy key, then gate 3. -/
def check (C : Crypto) (msgBytes sigBytes evidence : Bytes) (key : C.VerifyingKey)
    (refs : ReferenceSet) : Verdict :=
  match authenticateEnvelope C msgBytes none sigBytes evidence fun _ => some (.legacy key) with
  | .ok auth => appraise auth refs
  | .error e => .reject (.ofGate1 e.reason)

/-! ## The order of the axes -/

/-- The attested state is one the reference set knows. -/
def ReferenceSet.Recognises (refs : ReferenceSet) (auth : Authenticated) : Prop :=
  PcrSelection.fromCanonical auth.pcrSelection = refs.expectedSelection ∧
    auth.pcrHash ∈ refs.allowed

instance (refs : ReferenceSet) (auth : Authenticated) : Decidable (refs.Recognises auth) :=
  inferInstanceAs (Decidable (_ ∧ _))

/-- The reasons that are about evidence. -/
def Reason.IsEvidence : Reason → Prop
  | .evidenceUnparseable => True
  | .evidenceMissing _ => True
  | .evidenceUnrecognized _ => True
  | _ => False

theorem contains_iff {refs : ReferenceSet} {composite : List.Vector UInt8 32} :
    refs.contains composite = true ↔ composite ∈ refs.allowed := by
  simp [ReferenceSet.contains]

section Axes

variable {auth : Authenticated} {refs : ReferenceSet} {presented : List EvidenceKind}

/-- Inside gate 3 the state axis comes first. -/
theorem gate3_of_not_recognises (h : ¬ refs.Recognises auth) :
    gate3 (.fromAuthenticated auth) presented refs = .reject .unrecognizedState := by
  unfold gate3
  by_cases hsel : (AttestedState.fromAuthenticated auth).selection = refs.expectedSelection
  · have hcomposite : refs.contains (AttestedState.fromAuthenticated auth).composite = false := by
      rw [Bool.eq_false_iff]
      exact fun hmem => h ⟨hsel, contains_iff.mp hmem⟩
    simp [hsel, hcomposite]
  · simp [hsel]

/-- With a recognised state, what is left of gate 3 is the evidence axis. -/
theorem gate3_of_recognises (h : refs.Recognises auth) :
    gate3 (.fromAuthenticated auth) presented refs =
      match refs.requiredEvidence.find? fun k => !presented.contains k with
      | some missing => .reject (.evidenceMissing missing)
      | none => .accept := by
  have hsel : (AttestedState.fromAuthenticated auth).selection = refs.expectedSelection := h.1
  have hcomposite : refs.contains (AttestedState.fromAuthenticated auth).composite = true :=
    contains_iff.mpr h.2
  unfold gate3
  rw [if_neg (not_not.mpr hsel), hcomposite]
  rfl

theorem appraise_of_parse {ss : List Section} (h : parseBundle auth.evidence = .ok ss) :
    appraise auth refs = gate3 (.fromAuthenticated auth) (kindsOf ss) refs := by
  unfold appraise presentedKinds
  rw [h]
  rfl

theorem appraise_of_parse_error {d : String} (h : parseBundle auth.evidence = .error d) :
    appraise auth refs = .reject .evidenceUnparseable := by
  unfold appraise presentedKinds
  rw [h]
  rfl

/-- State before evidence, for one envelope: an unrecognised state is what the verdict reports, and
a verdict about evidence means the state was recognised. -/
def StateFirst (auth : Authenticated) (refs : ReferenceSet) : Prop :=
  (¬ refs.Recognises auth → appraise auth refs = .reject .unrecognizedState) ∧
    ∀ r : Reason, r.IsEvidence → appraise auth refs = .reject r → refs.Recognises auth

/-- **The order of the axes holds exactly when the bundle parses or the state is recognised.** -/
theorem stateFirst_iff (auth : Authenticated) (refs : ReferenceSet) :
    StateFirst auth refs ↔
      (∃ ss, parseBundle auth.evidence = .ok ss) ∨ refs.Recognises auth := by
  constructor
  · rintro ⟨hstate, -⟩
    rcases Except.isOk_or (parseBundle auth.evidence) with hok | ⟨d, hd⟩
    · exact .inl hok
    · refine .inr (Classical.byContradiction fun hno => ?_)
      have hverdict := hstate hno
      rw [appraise_of_parse_error hd] at hverdict
      exact absurd hverdict (by decide)
  · rintro (⟨ss, hss⟩ | hrec)
    · refine ⟨fun hno => (appraise_of_parse hss).trans (gate3_of_not_recognises hno), ?_⟩
      intro r hr hverdict
      by_contra hno
      rw [appraise_of_parse hss, gate3_of_not_recognises hno] at hverdict
      cases hverdict
      exact hr
    · exact ⟨fun hno => absurd hrec hno, fun _ _ _ => hrec⟩

end Axes

/-! An envelope of a rogue device: properly signed, with three bytes bound to it that are not a
bundle. -/

namespace RogueSample

def key : Bytes :=
  encode 33 0x04a7e8d115fb3ba93977f63e9140e63c3393423134d466313f96dc8859dbb19f2f ++
    encode 32 0xdc293e799b3c6064ca0ed92d4c122ba2856b38f0a8af28462b60c4e8063b0ccc

def sig : Bytes :=
  encode 36 0x304502203323900c9e43a430708848af8f5b7fefde06f0f2ab6289844a192213268e2bd3 ++
    encode 35 0x022100e6483667a7c468e8f72a6f45358b1b85d63bea77caed6059ae4485cd53882e7d

/-- SHA-256 over PCRs 0 to 7. -/
def selection : List.Vector UInt8 pcrSelectionLen :=
  encodePcrSelection tpmAlgSha256 ⟨[0xFF, 0x00, 0x00], rfl⟩

/-- The evidence: a section header cut short. -/
def evidence : Bytes := [0x00, 0x02, 0x00]

def msg : Bytes :=
  buildCanonical (.ofTable []) (Text.ascii "device-A") 1 selection (Text.ascii "rogue") evidence

def crypto : Crypto := .ofTable [(key, msg, sig)]

/-- The reference set knows one good state, which is not this one. -/
def refs : ReferenceSet where
  expectedSelection := .fromCanonical selection
  allowed := [Sha256.hash (Text.ascii "golden")]
  requiredEvidence := []

def authenticated : Authenticated where
  deviceId := padDeviceId (Text.ascii "device-A")
  counter := 1
  pcrSelection := selection
  pcrHash := Sha256.hash (Text.ascii "rogue")
  evidence := evidence
  binding := .selfSigned
  quoteMeta := none

end RogueSample

/-- The envelope passes gate 1, its state is not recognised, and the verdict is about its evidence:
the order of the axes fails. -/
theorem rogue_not_stateFirst :
    ∃ auth, authenticateEnvelope RogueSample.crypto RogueSample.msg none RogueSample.sig
        RogueSample.evidence (fun _ => some (.legacy RogueSample.key)) = .ok auth ∧
      ¬ RogueSample.refs.Recognises auth ∧
      appraise auth RogueSample.refs = .reject .evidenceUnparseable ∧
      ¬ StateFirst auth RogueSample.refs := by
  have hverdict : appraise RogueSample.authenticated RogueSample.refs =
      .reject .evidenceUnparseable := by decide +kernel
  have hstate : ¬ RogueSample.refs.Recognises RogueSample.authenticated := by decide +kernel
  refine ⟨RogueSample.authenticated, by decide +kernel, hstate, hverdict, fun hfirst => ?_⟩
  have hreported := hfirst.1 hstate
  rw [hverdict] at hreported
  exact absurd hreported (by decide)

end TactiqAttest.Appraise
