import TactiqAttest.Envelope.Tpm
import TactiqAttest.Programs.Results

/-!
# Gate 1

Authenticity and evidence binding, from `attest-appraise`.  One gate, two envelope forms: a message
signed directly by a legacy key, and a message committed to by a quote that an attestation key
signed.  Which form is expected is fixed by the trust entry, never by what the envelope offers.

The code is a chain of checks with early exits, shared between the two forms.  `Step` is the list of
checks the design documents, `Passes` what each of them requires of an envelope --- in terms of the
layout of the message and of the quote, not of the code --- and the two results about the code are

* `authenticateEnvelope_ok`: it accepts exactly the envelopes that pass all eight, with the fields
  of the message;
* `authenticateEnvelope_error`: it refuses for the reason of the *first* step that does not pass.
-/

open BigEndian

namespace TactiqAttest.Appraise

open Envelope

/-! ## The types -/

/-- The classes of gate 1 refusals. -/
inductive Gate1Reject where
  /-- The message, or the quote, is not in its layout. -/
  | malformed
  /-- The lookup returned nothing for this device id. -/
  | unknownDevice
  /-- The signature did not decode, or did not verify. -/
  | signatureFail
  /-- The bundle does not hash to the signed digest. -/
  | evidenceBindingFail
  /-- The quote does not commit to this message, or the form does not match the entry. -/
  | quoteBindingFail
  deriving DecidableEq

/-- Why gate 1 refused.  There is no device id when the message did not parse. -/
structure Gate1Error where
  deviceId : Option (List.Vector UInt8 deviceIdLen)
  reason : Gate1Reject
  detail : String
  deriving DecidableEq

/-- How the PCR claim of an authenticated envelope was bound. -/
inductive Binding where
  /-- The prover signed its own message. -/
  | selfSigned
  /-- The TPM quoted the PCRs, and the quote commits to the message. -/
  | tpmQuote
  deriving DecidableEq

/-- Quote fields that are carried and not appraised. -/
structure QuoteMeta where
  clockInfo : ClockInfo
  firmwareVersion : UInt64
  deriving DecidableEq

/-- An attestation key: the key and the TPM name of its public area. -/
structure AkKey (C : Crypto) where
  vk : C.VerifyingKey
  name : List.Vector UInt8 34

/-- What the verifier holds for one device. -/
inductive TrustEntry (C : Crypto) where
  /-- A key that signs messages directly. -/
  | legacy (vk : C.VerifyingKey)
  /-- A restricted key that signs quotes. -/
  | ak (key : AkKey C)

/-- An envelope that passed gate 1. -/
structure Authenticated where
  deviceId : List.Vector UInt8 deviceIdLen
  counter : UInt64
  pcrSelection : List.Vector UInt8 pcrSelectionLen
  pcrHash : List.Vector UInt8 pcrHashLen
  /-- The bundle, verbatim. -/
  evidence : Bytes
  binding : Binding
  /-- Quote metadata of a quoted envelope. -/
  quoteMeta : Option QuoteMeta
  deriving DecidableEq

variable (C : Crypto)

/-! ## The gate -/

/-- Which key must have signed which bytes, and the quote if there is one: the match of the envelope
form against the trust entry. -/
def signedObject (refuse : Gate1Reject → String → Gate1Error) (msgBytes : Bytes) :
    TrustEntry C → Option Bytes → Except Gate1Error (C.VerifyingKey × Bytes × Option Quote)
  | .legacy vk, none => .ok (vk, msgBytes, none)
  | .ak key, some attest => do
    let quote ← (Quote.parse attest).mapError (refuse .malformed)
    return (key.vk, attest, some quote)
  | .ak _, none => .error (refuse .quoteBindingFail
      ("v1 envelope for an attestation key: an AK is accepted only with a quote " ++
        "(DDR-004 decision 5)"))
  | .legacy _, some _ => .error (refuse .quoteBindingFail
      "quote presented under a legacy key: only a restricted AK makes a quote meaningful")

/-- What a quote whose signature verified must say about the message. -/
def bindQuote (refuse : Gate1Reject → String → Gate1Error) (msgBytes : Bytes)
    (msg : AttestationMessage) (quote : Quote) : Except Gate1Error QuoteMeta := do
  let bind := refuse .quoteBindingFail
  let qualifying ← (qualifyingData C msgBytes).mapError bind
  Except.ensure (quote.extraData = qualifying.toList)
    (bind "quote extraData is not SHA-256 of this message")
  let bank ← quote.pcrBanks.sole fun n => bind s!"quote covers {n} PCR banks, want exactly 1"
  let wantAlg : UInt16 := ofBe (msg.pcrSelection.toList.take 2)
  Except.ensure (bank.1 = wantAlg ∧ bank.2 = msg.pcrSelection.toList.drop 2)
    (bind "quote PCR selection differs from the message's pcr_selection")
  Except.ensure (quote.pcrDigest = msg.pcrHash.toList)
    (bind "quote pcrDigest differs from the message's pcr_hash")
  return { clockInfo := quote.clockInfo, firmwareVersion := quote.firmwareVersion }

/-- The metadata of the quote, once it binds; `none` when there is no quote. -/
def quoteMetaOf (refuse : Gate1Reject → String → Gate1Error) (msgBytes : Bytes)
    (msg : AttestationMessage) : Option Quote → Except Gate1Error (Option QuoteMeta)
  | none => .ok none
  | some quote => some <$> bindQuote C refuse msgBytes msg quote

/-- `authenticate_envelope`. -/
def authenticateEnvelope (msgBytes : Bytes) (attest : Option Bytes) (sigBytes evidence : Bytes)
    (entryFor : List.Vector UInt8 deviceIdLen → Option (TrustEntry C)) :
    Except Gate1Error Authenticated := do
  let msg ← (AttestationMessage.parse msgBytes).mapError fun e => ⟨none, .malformed, e⟩
  let refuse (reason : Gate1Reject) (detail : String) : Gate1Error :=
    ⟨some msg.deviceId, reason, detail⟩
  let entry ← Except.ofOption (refuse .unknownDevice "unknown device (not in trust store)")
    (entryFor msg.deviceId)
  let (vk, signed, quote) ← signedObject C refuse msgBytes entry attest
  let sig ← (C.decodeSignature sigBytes).mapError fun e =>
    refuse .signatureFail s!"malformed signature: {e}"
  Except.ensure (C.verify vk signed sig = true)
    (refuse .signatureFail "signature verification failed")
  let quoteMeta ← quoteMetaOf C refuse msgBytes msg quote
  Except.ensure (evidenceDigest C evidence = msg.evidenceHash) (refuse .evidenceBindingFail
    s!"evidence binding: bundle of {evidence.length} byte(s) does not hash to the signed digest")
  return { deviceId := msg.deviceId, counter := msg.counter, pcrSelection := msg.pcrSelection,
           pcrHash := msg.pcrHash, evidence,
           binding := if quoteMeta.isSome then .tpmQuote else .selfSigned, quoteMeta }

/-! ## What the design documents -/

variable {C}

namespace TrustEntry

/-- The key of an entry. -/
def vk : TrustEntry C → C.VerifyingKey
  | .legacy vk => vk
  | .ak key => key.vk

/-- Whether the entry is an attestation key. -/
def isAk : TrustEntry C → Bool
  | .legacy _ => false
  | .ak _ => true

end TrustEntry

/-- The quote is of exactly the message's PCR selection, with the message's digest. -/
def Covers (quote : Quote) (msg : AttestationMessage) : Prop :=
  (∃ bank : Bank, quote.pcrBanks.iter = [bank] ∧ be bank.1 ++ bank.2 = msg.pcrSelection.toList) ∧
    quote.pcrDigest = msg.pcrHash.toList

/-- An envelope as it is presented to the gate, with the lookup it is presented to. -/
structure Presented (C : Crypto) where
  msg : Bytes
  attest : Option Bytes
  sig : Bytes
  evidence : Bytes
  entryFor : List.Vector UInt8 deviceIdLen → Option (TrustEntry C)

/-- The eight steps of the gate. -/
inductive Step where
  | layout
  | entry
  | form
  | quote
  | signature
  | extraData
  | pcrs
  | evidence
  deriving DecidableEq

namespace Step

/-- The place of a step in the order. -/
def index : Step → ℕ
  | layout => 1
  | entry => 2
  | form => 3
  | quote => 4
  | signature => 5
  | extraData => 6
  | pcrs => 7
  | evidence => 8

/-- The reason a step refuses for. -/
def reason : Step → Gate1Reject
  | layout => .malformed
  | entry => .unknownDevice
  | form => .quoteBindingFail
  | quote => .malformed
  | signature => .signatureFail
  | extraData => .quoteBindingFail
  | pcrs => .quoteBindingFail
  | evidence => .evidenceBindingFail

theorem index_injective : Function.Injective index := by
  intro s t h
  cases s <;> cases t <;> first | rfl | cases h

end Step

namespace Presented

variable (e : Presented C)

/-- The gate, run on the envelope. -/
def authenticate : Except Gate1Error Authenticated :=
  authenticateEnvelope C e.msg e.attest e.sig e.evidence e.entryFor

/-- The message is laid out as `m`, and the lookup of its device id gives `entry`. -/
def Trusts (m : AttestationMessage) (entry : TrustEntry C) : Prop :=
  e.msg = m.bytes ∧ e.entryFor m.deviceId = some entry

/-- What each step requires.  The quote steps require nothing when there is no quote. -/
def Passes : Step → Prop
  | .layout => e.msg.length = msgLen
  | .entry => ∃ m entry, e.Trusts m entry
  | .form => ∃ m entry, e.Trusts m entry ∧ entry.isAk = e.attest.isSome
  | .quote => ∀ a, e.attest = some a → ∃ q, Quote.parse a = .ok q
  | .signature => ∃ m entry, e.Trusts m entry ∧ C.Verifies entry.vk (e.attest.getD e.msg) e.sig
  | .extraData => ∀ a q, e.attest = some a → Quote.parse a = .ok q →
      q.extraData = (C.sha256 e.msg).toList
  | .pcrs => ∀ a q m, e.attest = some a → Quote.parse a = .ok q → e.msg = m.bytes → Covers q m
  | .evidence => ∀ m : AttestationMessage, e.msg = m.bytes → C.sha256 e.evidence = m.evidenceHash

/-- The envelope passes the steps before the `n`-th. -/
def PassesBelow (n : ℕ) : Prop := ∀ t : Step, t.index < n → e.Passes t

/-- The step is the first, in the order, that the envelope does not pass. -/
def FirstFailure (s : Step) : Prop := ¬ e.Passes s ∧ e.PassesBelow s.index

/-- What an accepted envelope carries: the fields of the message, the bundle it came with, and the
metadata of the quote it came with. -/
def Carries (a : Authenticated) : Prop :=
  ∃ m : AttestationMessage, e.msg = m.bytes ∧ a.deviceId = m.deviceId ∧ a.counter = m.counter ∧
    a.pcrSelection = m.pcrSelection ∧ a.pcrHash = m.pcrHash ∧ a.evidence = e.evidence ∧
    match e.attest with
    | none => a.binding = .selfSigned ∧ a.quoteMeta = none
    | some attest => a.binding = .tpmQuote ∧ ∃ q, Quote.parse attest = .ok q ∧
        a.quoteMeta = some ⟨q.clockInfo, q.firmwareVersion⟩

variable {e}

theorem Trusts.unique {m m' : AttestationMessage} {entry entry' : TrustEntry C}
    (h : e.Trusts m entry) (h' : e.Trusts m' entry') : m = m' ∧ entry = entry' := by
  have hm : m = m' := AttestationMessage.bytes_injective (h.1.symm.trans h'.1)
  subst hm
  exact ⟨rfl, Option.some_inj.mp (h.2.symm.trans h'.2)⟩

theorem passesBelow_one : e.PassesBelow 1 := by
  intro t ht
  cases t <;> exact absurd ht (by decide)

theorem PassesBelow.succ {s : Step} (h : e.PassesBelow s.index) (hs : e.Passes s) :
    e.PassesBelow (s.index + 1) := by
  intro t ht
  rcases Nat.lt_succ_iff_lt_or_eq.mp ht with ht | ht
  · exact h t ht
  · rwa [Step.index_injective ht]

theorem FirstFailure.unique {s t : Step} (hs : e.FirstFailure s) (ht : e.FirstFailure t) :
    s = t := by
  rcases Nat.lt_trichotomy s.index t.index with h | h | h
  · exact absurd (ht.2 s h) hs.1
  · exact Step.index_injective h
  · exact absurd (hs.2 t h) ht.1

end Presented

/-! ## The checks one by one -/

section Checks

variable {refuse : Gate1Reject → String → Gate1Error} {msgBytes : Bytes} {entry : TrustEntry C}
  {attest : Option Bytes} {err : Gate1Error}

theorem signedObject_ok {vk : C.VerifyingKey} {signed : Bytes} {quote : Option Quote} :
    signedObject C refuse msgBytes entry attest = .ok (vk, signed, quote) ↔
      entry.isAk = attest.isSome ∧ vk = entry.vk ∧ signed = attest.getD msgBytes ∧
        match attest with
        | none => quote = none
        | some a => ∃ q, Quote.parse a = .ok q ∧ quote = some q := by
  cases entry with
  | legacy k =>
    cases attest with
    | none => simp [signedObject, TrustEntry.isAk, TrustEntry.vk, eq_comm]
    | some a => simp [signedObject, TrustEntry.isAk]
  | ak key =>
    cases attest with
    | none => simp [signedObject, TrustEntry.isAk]
    | some a =>
      simp only [signedObject, Except.bind_eq_ok, Except.mapError_eq_ok, Except.pure_eq_ok,
        Prod.mk.injEq, TrustEntry.isAk, TrustEntry.vk, Option.isSome_some, Option.getD_some,
        true_and]
      constructor
      · rintro ⟨q, hq, rfl, rfl, rfl⟩
        exact ⟨rfl, rfl, q, hq, rfl⟩
      · rintro ⟨rfl, rfl, q, hq, rfl⟩
        exact ⟨q, hq, rfl, rfl, rfl⟩

theorem signedObject_error (h : signedObject C refuse msgBytes entry attest = .error err) :
    (entry.isAk ≠ attest.isSome ∧ ∃ d, err = refuse .quoteBindingFail d) ∨
      (entry.isAk = attest.isSome ∧ (∃ a d, attest = some a ∧ Quote.parse a = .error d) ∧
        ∃ d, err = refuse .malformed d) := by
  cases entry with
  | legacy k =>
    cases attest with
    | none => cases h
    | some a => exact .inl ⟨by simp [TrustEntry.isAk], _, by cases h; rfl⟩
  | ak key =>
    cases attest with
    | none => exact .inl ⟨by simp [TrustEntry.isAk], _, by cases h; rfl⟩
    | some a =>
      rcases Except.bind_eq_error.mp h with hparse | ⟨q, -, hret⟩
      · obtain ⟨d, hd, rfl⟩ := Except.mapError_eq_error.mp hparse
        exact .inr ⟨rfl, ⟨a, d, rfl, hd⟩, d, rfl⟩
      · cases hret

/-- The bank check of the code compares the algorithm and the bitmap apart; together they are the
selection. -/
theorem bank_eq_iff {bank : Bank} {sel : List.Vector UInt8 pcrSelectionLen} :
    (bank.1 = ofBe (sel.toList.take 2) ∧ bank.2 = sel.toList.drop 2) ↔
      be bank.1 ++ bank.2 = sel.toList := by
  have htake : (sel.toList.take 2).length = Word.width UInt16 := by
    rw [List.length_take, sel.toList_length]
    rfl
  constructor
  · rintro ⟨h₁, h₂⟩
    rw [h₁, h₂, be_ofBe htake, List.take_append_drop]
  · intro h
    have hlen : (be bank.1).length = 2 := length_be _
    rw [← h, ← hlen, List.take_left, List.drop_left, ofBe_be]
    exact ⟨rfl, rfl⟩

theorem qualifyingData_bytes (msg : AttestationMessage) :
    qualifyingData C msg.bytes = .ok (C.sha256 msg.bytes) :=
  if_pos msg.length_bytes

/-- What a quote that parsed must be for `bindQuote` to accept it. -/
theorem bindQuote_ok {msg : AttestationMessage} {q : Quote} {info : QuoteMeta}
    (hwire : q.pcrBanks.Wire) :
    bindQuote C refuse msg.bytes msg q = .ok info ↔
      (q.extraData = (C.sha256 msg.bytes).toList ∧ Covers q msg) ∧
        info = ⟨q.clockInfo, q.firmwareVersion⟩ := by
  unfold bindQuote Covers
  simp only [qualifyingData_bytes, Except.bind_eq_ok, Except.mapError_eq_ok, Except.ensure_eq_ok,
    PcrBanks.sole_ok hwire, bank_eq_iff, Except.pure_eq_ok, Except.ok.injEq]
  constructor
  · rintro ⟨_, rfl, -, hextra, bank, hbank, -, hsel, -, hdigest, rfl⟩
    exact ⟨⟨hextra, ⟨bank, hbank, hsel⟩, hdigest⟩, rfl⟩
  · rintro ⟨⟨hextra, ⟨bank, hbank, hsel⟩, hdigest⟩, rfl⟩
    exact ⟨_, rfl, (), hextra, bank, hbank, (), hsel, (), hdigest, rfl⟩

theorem bindQuote_error {msg : AttestationMessage} {q : Quote} (hwire : q.pcrBanks.Wire)
    (h : bindQuote C refuse msg.bytes msg q = .error err) :
    ¬ (q.extraData = (C.sha256 msg.bytes).toList ∧ Covers q msg) ∧
      ∃ d, err = refuse .quoteBindingFail d := by
  refine ⟨fun hall => ?_, ?_⟩
  · rw [(bindQuote_ok hwire).mpr ⟨hall, rfl⟩] at h
    cases h
  · -- whichever check refused, it refused with `bind`
    unfold bindQuote at h
    simp only [qualifyingData_bytes, Except.bind_eq_error, Except.mapError_eq_error,
      Except.ensure_eq_error] at h
    rcases h with ⟨_, h, -⟩ | ⟨_, -, h⟩
    · cases h
    rcases h with ⟨-, rfl⟩ | ⟨_, -, h⟩
    · exact ⟨_, rfl⟩
    rcases h with h | ⟨bank, -, h⟩
    · obtain ⟨-, n, rfl⟩ := PcrBanks.sole_error hwire h
      exact ⟨_, rfl⟩
    rcases h with ⟨-, rfl⟩ | ⟨_, -, h⟩
    · exact ⟨_, rfl⟩
    rcases h with ⟨-, rfl⟩ | ⟨_, -, h⟩
    · exact ⟨_, rfl⟩
    · cases h

end Checks

/-! ## The gate decides the steps -/

namespace Presented

variable {e : Presented C} {a : Authenticated} {err : Gate1Error}

/-- The checks an accepted envelope went through, in the code's own terms. -/
theorem authenticate_ok_iff :
    e.authenticate = .ok a ↔
      ∃ m entry, e.Trusts m entry ∧ entry.isAk = e.attest.isSome ∧
        C.Verifies entry.vk (e.attest.getD e.msg) e.sig ∧
        C.sha256 e.evidence = m.evidenceHash ∧
        match e.attest with
        | none => a = ⟨m.deviceId, m.counter, m.pcrSelection, m.pcrHash, e.evidence, .selfSigned,
            none⟩
        | some attest => ∃ q, Quote.parse attest = .ok q ∧
            (q.extraData = (C.sha256 e.msg).toList ∧ Covers q m) ∧
            a = ⟨m.deviceId, m.counter, m.pcrSelection, m.pcrHash, e.evidence, .tpmQuote,
              some ⟨q.clockInfo, q.firmwareVersion⟩⟩ := by
  unfold authenticate authenticateEnvelope
  simp only [Except.bind_eq_ok, Except.mapError_eq_ok, AttestationMessage.parse_ok,
    Except.ofOption_eq_ok, Except.ensure_eq_ok, Except.pure_eq_ok]
  constructor
  · rintro ⟨m, hm, entry, hentry, ⟨vk, signed, quote⟩, hobj, sig, hsig, -, hver,
      info, hinfo, -, hev, rfl⟩
    obtain ⟨hform, rfl, rfl, hquote⟩ := signedObject_ok.mp hobj
    refine ⟨m, entry, ⟨hm, hentry⟩, hform, ⟨sig, hsig, hver⟩, hev, ?_⟩
    rcases hattest : e.attest with _ | attest
    · rw [hattest] at hquote
      subst hquote
      cases hinfo
      rfl
    · rw [hattest] at hquote
      obtain ⟨q, hq, rfl⟩ := hquote
      obtain ⟨info, hbind, rfl⟩ := Except.map_eq_ok.mp hinfo
      rw [hm] at hbind ⊢
      obtain ⟨hall, rfl⟩ := (bindQuote_ok (Quote.parse_ok.mp hq).1.banks).mp hbind
      exact ⟨q, hq, hall, rfl⟩
  · rintro ⟨m, entry, ⟨hm, hentry⟩, hform, ⟨sig, hsig, hver⟩, hev, hrest⟩
    refine ⟨m, hm, entry, hentry, ?_⟩
    rcases hattest : e.attest with _ | attest
    · rw [hattest] at hrest hform hver
      exact ⟨(entry.vk, e.msg, none), signedObject_ok.mpr ⟨hform, rfl, rfl, rfl⟩, sig, hsig, (),
        hver, none, rfl, (), hev, hrest.symm⟩
    · rw [hattest] at hrest hform hver
      obtain ⟨q, hq, hall, ha⟩ := hrest
      refine ⟨(entry.vk, attest, some q), signedObject_ok.mpr ⟨hform, rfl, rfl, q, hq, rfl⟩, sig,
        hsig, (), hver, some ⟨q.clockInfo, q.firmwareVersion⟩, ?_, (), hev, ha.symm⟩
      refine Except.map_eq_ok.mpr ⟨_, ?_, rfl⟩
      rw [hm] at hall ⊢
      exact (bindQuote_ok (Quote.parse_ok.mp hq).1.banks).mpr ⟨hall, rfl⟩

/-! ### A step, once the message, the entry and the quote are known -/

section Steps

variable {m m' : AttestationMessage} {entry : TrustEntry C} {attest : Bytes} {q : Quote}

theorem msg_unique (hm : e.msg = m.bytes) (hm' : e.msg = m'.bytes) : m' = m :=
  AttestationMessage.bytes_injective (hm'.symm.trans hm)

theorem passes_layout (hm : e.msg = m.bytes) : e.Passes .layout :=
  (congrArg List.length hm).trans m.length_bytes

theorem passes_form_iff (h : e.Trusts m entry) :
    e.Passes .form ↔ entry.isAk = e.attest.isSome := by
  refine ⟨?_, fun hform => ⟨m, entry, h, hform⟩⟩
  rintro ⟨m', entry', h', hform⟩
  obtain ⟨rfl, rfl⟩ := h.unique h'
  exact hform

theorem passes_signature_iff (h : e.Trusts m entry) :
    e.Passes .signature ↔ C.Verifies entry.vk (e.attest.getD e.msg) e.sig := by
  refine ⟨?_, fun hsig => ⟨m, entry, h, hsig⟩⟩
  rintro ⟨m', entry', h', hsig⟩
  obtain ⟨rfl, rfl⟩ := h.unique h'
  exact hsig

theorem passes_evidence_iff (hm : e.msg = m.bytes) :
    e.Passes .evidence ↔ C.sha256 e.evidence = m.evidenceHash := by
  refine ⟨fun h => h m hm, fun h m' hm' => ?_⟩
  rw [msg_unique hm hm', h]

theorem passes_extraData_iff (hattest : e.attest = some attest) (hq : Quote.parse attest = .ok q) :
    e.Passes .extraData ↔ q.extraData = (C.sha256 e.msg).toList := by
  refine ⟨fun h => h attest q hattest hq, fun h attest' q' hattest' hq' => ?_⟩
  obtain rfl := Option.some.inj (hattest.symm.trans hattest')
  obtain rfl := Except.ok.inj (hq.symm.trans hq')
  exact h

theorem passes_pcrs_iff (hm : e.msg = m.bytes) (hattest : e.attest = some attest)
    (hq : Quote.parse attest = .ok q) : e.Passes .pcrs ↔ Covers q m := by
  refine ⟨fun h => h attest q m hattest hq hm, fun h attest' q' m' hattest' hq' hm' => ?_⟩
  obtain rfl := Option.some.inj (hattest.symm.trans hattest')
  obtain rfl := Except.ok.inj (hq.symm.trans hq')
  rwa [msg_unique hm hm']

/-- The quote steps require nothing when there is no quote. -/
theorem passes_of_no_quote (hattest : e.attest = none) :
    e.Passes .quote ∧ e.Passes .extraData ∧ e.Passes .pcrs := by
  refine ⟨fun a ha => ?_, fun a q ha => ?_, fun a q m ha => ?_⟩ <;>
  · rw [hattest] at ha
    cases ha

end Steps

/-- An envelope that passes every step is accepted, and only such an envelope. -/
theorem authenticate_ok : e.authenticate = .ok a ↔ (∀ s, e.Passes s) ∧ e.Carries a := by
  rw [authenticate_ok_iff]
  constructor
  · rintro ⟨m, entry, htrust, hform, hsig, hev, hrest⟩
    have hquote : e.Passes .quote ∧ e.Passes .extraData ∧ e.Passes .pcrs := by
      rcases hattest : e.attest with _ | attest
      · exact passes_of_no_quote hattest
      · rw [hattest] at hrest
        obtain ⟨q, hq, hall, -⟩ := hrest
        refine ⟨fun attest' hattest' => ?_, (passes_extraData_iff hattest hq).mpr hall.1,
          (passes_pcrs_iff htrust.1 hattest hq).mpr hall.2⟩
        obtain rfl := Option.some.inj (hattest.symm.trans hattest')
        exact ⟨q, hq⟩
    refine ⟨fun s => ?_, m, htrust.1, ?_⟩
    · cases s with
      | layout => exact passes_layout htrust.1
      | entry => exact ⟨m, entry, htrust⟩
      | form => exact (passes_form_iff htrust).mpr hform
      | quote => exact hquote.1
      | signature => exact (passes_signature_iff htrust).mpr hsig
      | extraData => exact hquote.2.1
      | pcrs => exact hquote.2.2
      | evidence => exact (passes_evidence_iff htrust.1).mpr hev
    · rcases hattest : e.attest with _ | attest
      · rw [hattest] at hrest
        subst hrest
        exact ⟨rfl, rfl, rfl, rfl, rfl, rfl, rfl⟩
      · rw [hattest] at hrest
        obtain ⟨q, hq, -, rfl⟩ := hrest
        exact ⟨rfl, rfl, rfl, rfl, rfl, rfl, q, hq, rfl⟩
  · rintro ⟨hall, m, hm, hid, hctr, hsel, hhash, hevidence, hrest⟩
    obtain ⟨m₁, entry, htrust⟩ := hall .entry
    obtain rfl := msg_unique hm htrust.1
    refine ⟨m₁, entry, htrust, (passes_form_iff htrust).mp (hall .form),
      (passes_signature_iff htrust).mp (hall .signature),
      (passes_evidence_iff hm).mp (hall .evidence), ?_⟩
    obtain ⟨id, ctr, sel, hash, ev, binding, info⟩ := a
    simp only at hid hctr hsel hhash hevidence
    rcases hattest : e.attest with _ | attest
    · rw [hattest] at hrest
      obtain ⟨hbinding, hinfo⟩ := hrest
      simp only at hbinding hinfo
      rw [hid, hctr, hsel, hhash, hevidence, hbinding, hinfo]
    · rw [hattest] at hrest
      obtain ⟨hbinding, q, hq, hinfo⟩ := hrest
      simp only at hbinding hinfo
      refine ⟨q, hq, ⟨hall .extraData attest q hattest hq, hall .pcrs attest q m₁ hattest hq hm⟩,
        ?_⟩
      rw [hid, hctr, hsel, hhash, hevidence, hbinding, hinfo]

/-- The gate refuses for the first step the envelope does not pass, and knows the device id unless
that is the very first. -/
theorem authenticate_error (h : e.authenticate = .error err) :
    ∃ s, e.FirstFailure s ∧ err.reason = s.reason ∧ (err.deviceId = none ↔ s = .layout) := by
  unfold authenticate authenticateEnvelope at h
  simp only [Except.bind_eq_error, Except.mapError_eq_error, Except.mapError_eq_ok,
    AttestationMessage.parse_ok, Except.ofOption_eq_ok, Except.ofOption_eq_error,
    Except.ensure_eq_ok, Except.ensure_eq_error] at h
  have h₁ : e.PassesBelow Step.layout.index := passesBelow_one
  rcases h with ⟨d, hd, rfl⟩ | ⟨m, hm, h⟩
  · refine ⟨.layout, ⟨fun hlen => ?_, h₁⟩, rfl, by simp⟩
    obtain ⟨m, hm⟩ := AttestationMessage.exists_parse_ok hlen
    rw [hm] at hd
    cases hd
  have h₂ : e.PassesBelow Step.entry.index := h₁.succ (passes_layout hm)
  rcases h with ⟨hnone, rfl⟩ | ⟨entry, hentry, h⟩
  · refine ⟨.entry, ⟨?_, h₂⟩, rfl, by simp⟩
    rintro ⟨m', entry, hm', hentry⟩
    rw [msg_unique hm hm', hnone] at hentry
    cases hentry
  have htrust : e.Trusts m entry := ⟨hm, hentry⟩
  have h₃ : e.PassesBelow Step.form.index := h₂.succ ⟨m, entry, htrust⟩
  rcases h with hobj | ⟨⟨vk, signed, quote⟩, hobj, h⟩
  · rcases signedObject_error hobj with ⟨hform, d, rfl⟩ | ⟨hform, ⟨a, d, hattest, hparse⟩, d', rfl⟩
    · exact ⟨.form, ⟨fun hp => hform ((passes_form_iff htrust).mp hp), h₃⟩, rfl, by simp⟩
    · refine ⟨.quote, ⟨?_, h₃.succ ((passes_form_iff htrust).mpr hform)⟩, rfl, by simp⟩
      intro hq
      obtain ⟨q, hq⟩ := hq a hattest
      rw [hq] at hparse
      cases hparse
  obtain ⟨hform, rfl, rfl, hquote⟩ := signedObject_ok.mp hobj
  have h₄ : e.PassesBelow Step.quote.index := h₃.succ ((passes_form_iff htrust).mpr hform)
  have h₅ : e.PassesBelow Step.signature.index := by
    refine h₄.succ fun a hattest => ?_
    rw [hattest] at hquote
    obtain ⟨q, hq, -⟩ := hquote
    exact ⟨q, hq⟩
  have hsignature := passes_signature_iff htrust
  rcases h with ⟨d, hd, rfl⟩ | ⟨sig, hsig, h⟩
  · refine ⟨.signature, ⟨fun hs => ?_, h₅⟩, rfl, by simp⟩
    obtain ⟨s, hs, -⟩ := hsignature.mp hs
    rw [hs] at hd
    cases hd
  rcases h with ⟨hver, rfl⟩ | ⟨-, hver, h⟩
  · refine ⟨.signature, ⟨fun hs => ?_, h₅⟩, rfl, by simp⟩
    obtain ⟨s, hs, hver'⟩ := hsignature.mp hs
    rw [hsig] at hs
    cases hs
    exact hver hver'
  have h₆ : e.PassesBelow Step.extraData.index := h₅.succ (hsignature.mpr ⟨sig, hsig, hver⟩)
  rcases h with hmeta | ⟨info, hmeta, h⟩
  · rcases hattest : e.attest with _ | a
    · rw [hattest] at hquote
      subst hquote
      cases hmeta
    rw [hattest] at hquote
    obtain ⟨q, hq, rfl⟩ := hquote
    have hextra := passes_extraData_iff hattest hq
    rw [hm] at hmeta hextra
    obtain ⟨hnot, d, rfl⟩ := bindQuote_error (Quote.parse_ok.mp hq).1.banks
      (Except.map_eq_error.mp hmeta)
    -- the two quote steps are one check of the code: the first of them that fails is the reason
    by_cases hs : e.Passes .extraData
    · exact ⟨.pcrs, ⟨fun hp => hnot ⟨hextra.mp hs, (passes_pcrs_iff hm hattest hq).mp hp⟩,
        h₆.succ hs⟩, rfl, by simp⟩
    · exact ⟨.extraData, ⟨hs, h₆⟩, rfl, by simp⟩
  have h₈ : e.PassesBelow Step.evidence.index := by
    rcases hattest : e.attest with _ | a
    · obtain ⟨-, hextra, hpcrs⟩ := passes_of_no_quote hattest
      exact PassesBelow.succ (s := .pcrs) (h₆.succ hextra) hpcrs
    · rw [hattest] at hquote
      obtain ⟨q, hq, rfl⟩ := hquote
      have hextra := passes_extraData_iff hattest hq
      obtain ⟨info, hbind, rfl⟩ := Except.map_eq_ok.mp hmeta
      rw [hm] at hbind hextra
      obtain ⟨⟨he, hp⟩, -⟩ := (bindQuote_ok (Quote.parse_ok.mp hq).1.banks).mp hbind
      exact PassesBelow.succ (s := .pcrs) (h₆.succ (hextra.mpr he))
        ((passes_pcrs_iff hm hattest hq).mpr hp)
  rcases h with ⟨hev, rfl⟩ | ⟨-, -, h⟩
  · exact ⟨.evidence, ⟨fun hs => hev ((passes_evidence_iff hm).mp hs), h₈⟩, rfl, by simp⟩
  · cases h

/-- An attestation key's envelope is bound by its quote, and no other envelope is. -/
theorem binding_of_carries {m : AttestationMessage} {entry : TrustEntry C}
    (hform : e.Passes .form) (hcarries : e.Carries a) (htrust : e.Trusts m entry) :
    (a.binding = .tpmQuote ↔ entry.isAk = true ∧ e.attest.isSome = true) ∧
      (entry.isAk = true → a.binding ≠ .selfSigned) := by
  obtain ⟨m', entry', htrust', hform⟩ := hform
  obtain ⟨rfl, rfl⟩ := htrust.unique htrust'
  obtain ⟨-, -, -, -, -, -, -, hrest⟩ := hcarries
  rcases hattest : e.attest with _ | attest
  · rw [hattest] at hrest hform
    rw [hform, hrest.1]
    simp
  · rw [hattest] at hrest hform
    rw [hform, hrest.1]
    simp

/-- **Gate 1 decides exactly its eight steps, in order, with no downgrade.**  It accepts an envelope
if and only if the envelope passes all of them, and then returns the fields of the message; it
refuses for the reason of the first step that fails; and a quote binds exactly the envelopes of
attestation keys. -/
theorem authenticate_decides_steps (C : Crypto) (e : Presented C) :
    (∀ a, e.authenticate = .ok a ↔ (∀ s, e.Passes s) ∧ e.Carries a) ∧
    ((∃ a, e.authenticate = .ok a) ↔ ∀ s, e.Passes s) ∧
    (∀ s, e.FirstFailure s → ∃ err, e.authenticate = .error err ∧ err.reason = s.reason ∧
      (err.deviceId = none ↔ s = .layout)) ∧
    (∀ err, e.authenticate = .error err → ∃ s, e.FirstFailure s ∧ err.reason = s.reason) ∧
    ∀ a m entry, e.authenticate = .ok a → e.Trusts m entry →
      (a.binding = .tpmQuote ↔ entry.isAk = true ∧ e.attest.isSome = true) ∧
      (entry.isAk = true → a.binding ≠ .selfSigned) := by
  have hnot : ∀ {s a}, e.FirstFailure s → e.authenticate ≠ .ok a := fun hs ha =>
    hs.1 ((authenticate_ok.mp ha).1 _)
  have hfirst : ∀ s, e.FirstFailure s → ∃ err, e.authenticate = .error err ∧
      err.reason = s.reason ∧ (err.deviceId = none ↔ s = .layout) := by
    intro s hs
    rcases Except.isOk_or e.authenticate with ⟨a, ha⟩ | ⟨err, herr⟩
    · exact absurd ha (hnot hs)
    · obtain ⟨t, ht, hreason, hid⟩ := authenticate_error herr
      obtain rfl := hs.unique ht
      exact ⟨err, herr, hreason, hid⟩
  refine ⟨fun a => authenticate_ok, ⟨?_, ?_⟩, hfirst, ?_, ?_⟩
  · rintro ⟨a, ha⟩
    exact (authenticate_ok.mp ha).1
  · intro hall
    rcases Except.isOk_or e.authenticate with ⟨a, ha⟩ | ⟨err, herr⟩
    · exact ⟨a, ha⟩
    · obtain ⟨t, ht, -⟩ := authenticate_error herr
      exact absurd (hall t) ht.1
  · intro err herr
    obtain ⟨s, hs, hreason, -⟩ := authenticate_error herr
    exact ⟨s, hs, hreason⟩
  · intro a m entry ha htrust
    obtain ⟨hall, hcarries⟩ := authenticate_ok.mp ha
    exact binding_of_carries (hall .form) hcarries htrust

end Presented

end TactiqAttest.Appraise
