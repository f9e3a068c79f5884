import TactiqAttest.Appraise.Rim
import TactiqAttest.Prover.PcrSpec

/-!
# A device and the RIM of its image

Three pieces have to agree on what a set of PCRs is: the prover's parser of the selection string,
the selection of a quote, and the selection of the reference set that a RIM gives.  Here they are
put together.  A device reads and quotes the PCRs that the RIM lists, spelled as a selection string,
and the verifier appraises the envelope against the RIM.

`agrees_on_every_state`: the envelope passes gate 1 whatever the PCR values are, and is accepted
exactly if one slot of the RIM explains all of them.
-/

open BigEndian

namespace TactiqAttest.Appraise

open Envelope Prover

variable {C : Crypto}

/-- The raw contents of PCRs, as they are read: the values one after the other. -/
def pcrState (indices : List ℕ) (v : ℕ → PcrHash) : Bytes := indices.flatMap fun i => (v i).toList

/-- What a TPM attests when it is asked to quote PCRs with the digest of a message as qualifying
data: one bank, the sha256 one, with exactly these PCRs, and the digest of their contents. -/
structure HonestQuote (C : Crypto) (msg : Bytes) (indices : List ℕ) (state : Bytes) (q : Quote) :
    Prop where
  wire : q.Wire
  extraData : ∃ qd, qualifyingData C msg = .ok qd ∧ q.extraData = qd.toList
  banks : ∃ bits : List.Vector UInt8 3, q.pcrBanks.iter = [(tpmAlgSha256, bits.toList)] ∧
    ∀ i < 24, Bitmap.hasBit bits i = decide (i ∈ indices)
  digest : q.pcrDigest = (C.sha256 state).toList

/-! ## The pieces -/

/-- Values of 32 bytes each can be told apart in their concatenation. -/
theorem flatMap_toList_inj {ds ds' : List PcrHash} (hlen : ds.length = ds'.length)
    (h : (ds.flatMap fun d => d.toList) = ds'.flatMap fun d => d.toList) : ds = ds' := by
  induction ds generalizing ds' with
  | nil => exact (List.length_eq_zero_iff.mp hlen.symm).symm
  | cons d ds ih =>
    rcases ds' with _ | ⟨d', ds'⟩
    · cases hlen
    · rw [List.flatMap_cons, List.flatMap_cons] at h
      have hd : d.toList.length = d'.toList.length := d.toList_length.trans d'.toList_length.symm
      obtain ⟨hhead, htail⟩ := List.append_inj h hd
      rw [List.Vector.toList_injective hhead, ih (Nat.succ.inj hlen) htail]

theorem pcrState_eq {indices : List ℕ} {v : ℕ → PcrHash} :
    pcrState indices v = (indices.map v).flatMap fun d => d.toList := by
  rw [pcrState, List.flatMap_map]

theorem explainsAll_map {values : List (String × Json)} {slot : Option String} {indices : List ℕ}
    {v : ℕ → PcrHash} :
    ExplainsAll values slot indices (indices.map v) ↔
    ∀ i ∈ indices, Explains values slot i (v i) := by
  rw [ExplainsAll, List.forall₂_map_right_iff, List.forall₂_same]

/-- The declared selection is read back as it was declared. -/
theorem fromCanonical_encodePcrSelection (alg : UInt16) (bitmap : List.Vector UInt8 3) :
    PcrSelection.fromCanonical (encodePcrSelection alg bitmap) = ⟨alg, bitmap⟩ := by
  have hlen : (be alg).length = 2 := length_be _
  have htake : (encodePcrSelection alg bitmap).toList.take 2 = be alg := by
    show (be alg ++ bitmap.toList).take 2 = be alg
    rw [← hlen, List.take_left]
  have hdrop : (encodePcrSelection alg bitmap).toList.drop 2 = bitmap.toList := by
    show (be alg ++ bitmap.toList).drop 2 = bitmap.toList
    rw [← hlen, List.drop_left]
  refine congrArg₂ PcrSelection.mk ?_ (List.Vector.toList_injective hdrop)
  rw [htake, ofBe_be]

/-- With nothing demanded beyond the state, appraisal accepts exactly the recognised states. -/
theorem appraise_accept_iff {auth : Authenticated} {refs : ReferenceSet} {ss : List Section}
    (hbundle : parseBundle auth.evidence = .ok ss) (hnone : refs.requiredEvidence = []) :
    appraise auth refs = .accept ↔ refs.Recognises auth := by
  rw [appraise_of_parse hbundle]
  by_cases hrec : refs.Recognises auth
  · rw [gate3_of_recognises hrec, hnone]
    exact iff_of_true rfl hrec
  · rw [gate3_of_not_recognises hrec]
    exact iff_of_false (by decide) hrec

/-- An honest quote of the PCRs that a message declares passes gate 1. -/
theorem authenticate_honest {deviceId state evidence sig : Bytes} {counter : UInt64}
    {indices : List ℕ} {key : AkKey C} {q : Quote}
    {entryFor : List.Vector UInt8 deviceIdLen → Option (TrustEntry C)}
    (hle : ∀ i ∈ indices, i < 8 * 3) (hentry : entryFor (padDeviceId deviceId) = some (.ak key))
    (hquote : HonestQuote C (buildCanonical C deviceId counter
      (encodePcrSelection tpmAlgSha256 (Bitmap.ofIndices 3 indices)) state evidence)
      indices state q)
    (hsig : C.Verifies key.vk q.bytes sig) :
    authenticateEnvelope C (buildCanonical C deviceId counter
        (encodePcrSelection tpmAlgSha256 (Bitmap.ofIndices 3 indices)) state evidence)
        (some q.bytes) sig evidence entryFor =
      .ok ⟨padDeviceId deviceId, counter,
        encodePcrSelection tpmAlgSha256 (Bitmap.ofIndices 3 indices), C.sha256 state, evidence,
        .tpmQuote, some ⟨q.clockInfo, q.firmwareVersion⟩⟩ := by
  let m : AttestationMessage := ⟨padDeviceId deviceId, counter,
    encodePcrSelection tpmAlgSha256 (Bitmap.ofIndices 3 indices), C.sha256 state, C.sha256 evidence⟩
  change HonestQuote C m.bytes indices state q at hquote
  obtain ⟨qd, hqd, hextra⟩ := hquote.extraData
  rw [qualifyingData_bytes] at hqd
  obtain rfl := Except.ok.inj hqd
  obtain ⟨bits, hiter, hbits⟩ := hquote.banks
  have hbits : bits = Bitmap.ofIndices 3 indices := by
    refine Bitmap.ext_hasBit fun i hi => ?_
    rw [hbits i hi, Bitmap.hasBit_ofIndices hle]
  have hcovers : Covers q m := by
    refine ⟨⟨_, hiter, ?_⟩, hquote.digest⟩
    rw [hbits]
    rfl
  change Presented.authenticate ⟨m.bytes, some q.bytes, sig, evidence, entryFor⟩ = _
  refine Presented.authenticate_ok_iff.mpr ⟨m, .ak key, ⟨rfl, hentry⟩, rfl, hsig, rfl, ?_⟩
  exact ⟨q, Quote.parse_ok.mpr ⟨hquote.wire, rfl⟩, ⟨hextra, hcovers⟩, rfl⟩

/-- The states that one slot of a RIM explains. -/
def explainedStates (rim : Json) (indices : List ℕ) : Set Bytes :=
  {b | ∃ slot ds, ExplainsAll (valuesOf rim) slot indices ds ∧ b = ds.flatMap fun d => d.toList}

/-- **Prover and RIM-based verifier agree on every device state.**  Let a RIM be accepted, `indices`
the PCRs it lists in ascending order, and `v` any values of them.  The selection string parses; and
an honest quote of these PCRs, over the message built from what it parsed to, is accepted by gate 1
as a quote.  Appraisal against the RIM's reference set accepts it if and only if there is one slot
(or none is needed) that explains the value of every PCR. -/
theorem agrees_on_every_state (C : Crypto) (fromStr : String → Except String Json)
    (debug : String → String) {rimJson : String} {rim : Json} {refs : ReferenceSet}
    (hrim : fromStr rimJson = .ok rim) (hrefs : referenceFromRim C fromStr debug rimJson = .ok refs)
    {indices : List ℕ} (hasc : indices.Pairwise (· < ·))
    (hindices : ∀ i, i ∈ indices ↔ i ∈ pcrsOf rim) (v : ℕ → PcrHash)
    (hcoll : C.CollisionFreeOn (insert (pcrState indices v) (explainedStates rim indices))) :
    ∃ alg bitmap, parsePcrSpec (pcrSpelling indices) = .ok (alg, bitmap) ∧
      ∀ (deviceId : Bytes) (counter : UInt64) (sections : List Section) (evidence msg : Bytes)
        (key : AkKey C) (entryFor : List.Vector UInt8 deviceIdLen → Option (TrustEntry C))
        (q : Quote) (sig : Bytes),
        buildBundle sections = .ok evidence →
        msg = buildCanonical C deviceId counter (encodePcrSelection alg bitmap)
          (pcrState indices v) evidence →
        entryFor (padDeviceId deviceId) = some (.ak key) →
        HonestQuote C msg indices (pcrState indices v) q →
        C.Verifies key.vk q.bytes sig →
        ∃ auth, authenticateEnvelope C msg (some q.bytes) sig evidence entryFor = .ok auth ∧
          auth.binding = .tpmQuote ∧
          (appraise auth refs = .accept ↔
            ∃ slot, ∀ i ∈ indices, Explains (valuesOf rim) slot i (v i)) := by
  obtain ⟨rim', hrim', hrefs⟩ := Except.bind_eq_ok.mp hrefs
  rw [Except.mapError_eq_ok, hrim] at hrim'
  obtain rfl := Except.ok.inj hrim'
  obtain ⟨selection, hne, hasc', hle, hmem, hsel, hev, hallowed⟩ := referenceOfRim_ok hrefs
  obtain rfl : indices = selection :=
    List.Pairwise.eq_of_mem_iff hasc hasc' fun i => (hindices i).trans (hmem i).symm
  refine ⟨_, _, parsePcrSpec_spelling hne hasc hle, ?_⟩
  intro deviceId counter sections evidence msg key entryFor q sig hbundle hmsg hentry hquote hsig
  rw [hmsg] at hquote ⊢
  refine ⟨_, authenticate_honest (fun i hi => by have := hle i hi; omega) hentry hquote hsig, rfl,
    ?_⟩
  rw [appraise_accept_iff (parseBundle_of_buildBundle hbundle) hev,
    ReferenceSet.Recognises, hallowed, fromCanonical_encodePcrSelection, hsel]
  constructor
  · rintro ⟨-, slot, ds, hds, hdigest⟩
    have hstate : pcrState indices v = ds.flatMap fun d => d.toList :=
      hcoll (Set.mem_insert _ _) (Set.mem_insert_of_mem _ ⟨slot, ds, hds, rfl⟩) hdigest
    have hlen : (indices.map v).length = ds.length := by
      rw [List.length_map, hds.length_eq]
    obtain rfl := flatMap_toList_inj hlen (pcrState_eq.symm.trans hstate)
    exact ⟨slot, explainsAll_map.mp hds⟩
  · rintro ⟨slot, hall⟩
    exact ⟨rfl, slot, indices.map v, explainsAll_map.mpr hall, by rw [← pcrState_eq]⟩

/-! A device with two PCRs: PCR 1 has two legitimate values, PCR 8 one for each of two slots.  It
has booted slot b. -/

namespace SlotSample

/-- A value with all its digits the same. -/
def digits (c : Char) : Json := .string (String.ofList (List.replicate 64 c))

def value (b : UInt8) : PcrHash := ⟨List.replicate 32 b, List.length_replicate⟩

def rimJson : String :=
  let d (c : Char) := String.ofList (List.replicate 64 c)
  "\x7b\"format\":\"tactiq-rim/1\",\"pcr\":\x7b\"bank\":\"sha256\",\"selection\":[8,1]," ++
    "\"values\":\x7b\"1\":[\"" ++ d '1' ++ "\",\"" ++ d '2' ++ "\"],\"8\":\x7b\"a\":\"" ++
    d 'a' ++ "\",\"b\":\"" ++ d 'b' ++ "\"\x7d\x7d\x7d\x7d"

def values : List (String × Json) :=
  [("1", .array [digits '1', digits '2']), ("8", .object [("a", digits 'a'), ("b", digits 'b')])]

def rim : Json :=
  .object [("format", .string "tactiq-rim/1"),
    ("pcr", .object [("bank", .string "sha256"),
      ("selection", .array [.number (some 8), .number (some 1)]), ("values", .object values)])]

/-- `serde_json::from_str`, on this document. -/
def fromStr (s : String) : Except String Json :=
  if s = rimJson then .ok rim else .error "expected value at line 1 column 1"

/-- The PCRs of the device. -/
def v (i : ℕ) : PcrHash := if i = 1 then value 0x22 else value 0xBB

def key : Bytes :=
  encode 33 0x04c8fe4ee6a4eabb90ccb1bbdf8e6a6f5a57ecbd968a260404e6bce9fb9e75eed3 ++
    encode 32 0x7bba43a3eddea847a3cca5a866b0c3ea332f8406808339eb2ba69bbdc610f611

def sig : Bytes :=
  encode 36 0x304502202fb43f69560b4f57238d1f8310f0e852c12921c2c9231dfb802307fcc4877c78 ++
    encode 35 0x022100b002197b17412da7dc0a36a30d8497ad08f7477a0a4c45680d9b387bd5482dad

def msg : Bytes :=
  buildCanonical (.ofTable []) (Text.ascii "device-A") 7
    (encodePcrSelection tpmAlgSha256 (Bitmap.ofIndices 3 [1, 8])) (pcrState [1, 8] v) []

def quote : Quote where
  qualifiedSigner := []
  extraData := (Sha256.hash msg).toList
  clockInfo := ⟨0, 0, 0, true⟩
  firmwareVersion := 1
  pcrBanks := ⟨1, [0x00, 0x0B, 0x03, 0x02, 0x01, 0x00], by decide⟩
  pcrDigest := (Sha256.hash (pcrState [1, 8] v)).toList

def crypto : Crypto := .ofTable [(key, quote.bytes, sig)]

/-- The states the RIM describes: a choice for PCR 1, and a slot. -/
def states : List Bytes :=
  [value 0x11, value 0x22].flatMap fun a =>
    [value 0xAA, value 0xBB].map fun b => a.toList ++ b.toList

theorem isOk_referenceFromRim : (referenceFromRim crypto fromStr id rimJson).isOk = true := by
  decide +kernel

theorem writes_digits :
    Writes (digits '1') (value 0x11) ∧ Writes (digits '2') (value 0x22) ∧
      Writes (digits 'a') (value 0xAA) ∧ Writes (digits 'b') (value 0xBB) :=
  ⟨⟨_, rfl, by decide +kernel, by decide +kernel⟩, ⟨_, rfl, by decide +kernel, by decide +kernel⟩,
    ⟨_, rfl, by decide +kernel, by decide +kernel⟩, ⟨_, rfl, by decide +kernel, by decide +kernel⟩⟩

theorem lookup_one : (valuesOf rim).lookup (toString 1) = some (.array [digits '1', digits '2']) :=
  rfl

theorem lookup_eight :
    (valuesOf rim).lookup (toString 8) = some (.object [("a", digits 'a'), ("b", digits 'b')]) :=
  rfl

theorem mem_pcrsOf (i : ℕ) : i ∈ [1, 8] ↔ i ∈ pcrsOf rim := by
  have hlisted : pcrsOf rim = [8, 1] := rfl
  rw [hlisted]
  simp [or_comm]

theorem explained_subset : explainedStates rim [1, 8] ⊆ {b | b ∈ states} := by
  obtain ⟨h1, h2, ha, hb⟩ := writes_digits
  rintro _ ⟨slot, ds, _ | ⟨hone, _ | ⟨height, _ | _⟩⟩, rfl⟩
  rw [explains_iff lookup_one] at hone
  rw [explains_iff lookup_eight] at height
  obtain ⟨x, hx, hone⟩ := hone
  obtain ⟨slot, y, -, hy, height⟩ := height
  have hx : x = digits '1' ∨ x = digits '2' := by simpa using hx
  have hy : y = digits 'a' ∨ y = digits 'b' := by
    obtain ⟨l, r, hfields, -⟩ := List.lookup_eq_some_iff.mp hy
    have hmem : (slot, y) ∈ [("a", digits 'a'), ("b", digits 'b')] := by
      rw [hfields]
      exact List.mem_append_right _ List.mem_cons_self
    rcases List.mem_cons.mp hmem with h | h
    · exact .inl (congrArg Prod.snd h)
    · exact .inr (congrArg Prod.snd (List.mem_singleton.mp h))
  rcases hx with rfl | rfl <;> rcases hy with rfl | rfl
  · rw [hone.unique h1, height.unique ha]
    decide +kernel
  · rw [hone.unique h1, height.unique hb]
    decide +kernel
  · rw [hone.unique h2, height.unique ha]
    decide +kernel
  · rw [hone.unique h2, height.unique hb]
    decide +kernel

theorem collisionFree :
    crypto.CollisionFreeOn (insert (pcrState [1, 8] v) (explainedStates rim [1, 8])) := by
  have hstates : insert (pcrState [1, 8] v) (explainedStates rim [1, 8]) ⊆ {b | b ∈ states} :=
    Set.insert_subset (by decide +kernel) explained_subset
  have hnodup : (states.map Sha256.hash).Nodup := by decide +kernel
  intro a ha b hb h
  exact List.inj_on_of_nodup_map hnodup (hstates ha) (hstates hb) h

/-- The message does not depend on which signatures are valid. -/
theorem msg_eq :
    msg = buildCanonical crypto (Text.ascii "device-A") 7
      (encodePcrSelection 0x000B (Bitmap.ofIndices 3 [1, 8])) (pcrState [1, 8] v) [] := by
  unfold msg buildCanonical evidenceDigest
  rfl

theorem verifies : crypto.Verifies key quote.bytes sig := by
  have hder : sig.head? = some 0x30 := by decide +kernel
  refine ⟨sig, ?_, ?_⟩
  · simp [Crypto.decodeSignature, crypto, Crypto.ofTable, hder]
  · simp [crypto, Crypto.ofTable]

/-- The quote is what the device's TPM attests. -/
theorem honest_quote : HonestQuote crypto msg [1, 8] (pcrState [1, 8] v) quote where
  wire := by
    refine ⟨by decide, ?_, by decide,
      ⟨[(tpmAlgSha256, [0x02, 0x01, 0x00])], rfl, by decide, by decide⟩, ?_⟩
    · show (Sha256.hash msg).toList.length < 65536
      rw [List.Vector.toList_length]
      decide
    · show (Sha256.hash (pcrState [1, 8] v)).toList.length < 65536
      rw [List.Vector.toList_length]
      decide
  extraData := ⟨Sha256.hash msg, if_pos (by decide +kernel), rfl⟩
  banks := ⟨⟨[0x02, 0x01, 0x00], rfl⟩, by decide, by decide⟩
  digest := rfl

end SlotSample

/-- The device that booted slot b is accepted, as a quote. -/
theorem slotB_agrees :
    ∃ refs auth, referenceFromRim SlotSample.crypto SlotSample.fromStr id SlotSample.rimJson =
        .ok refs ∧
      authenticateEnvelope SlotSample.crypto SlotSample.msg (some SlotSample.quote.bytes)
        SlotSample.sig [] (fun _ => some (.ak ⟨SlotSample.key, ⟨List.replicate 34 0, rfl⟩⟩)) =
        .ok auth ∧
      auth.binding = .tpmQuote ∧ appraise auth refs = .accept := by
  obtain ⟨refs, hrefs⟩ : ∃ refs, referenceFromRim SlotSample.crypto SlotSample.fromStr id
      SlotSample.rimJson = .ok refs := Except.isOk_eq_true.mp SlotSample.isOk_referenceFromRim
  obtain ⟨alg, bitmap, hparse, hagrees⟩ := agrees_on_every_state SlotSample.crypto
    SlotSample.fromStr id (if_pos rfl) hrefs (by decide) SlotSample.mem_pcrsOf
    SlotSample.v SlotSample.collisionFree
  rw [parsePcrSpec_spelling (by decide) (by decide) (by decide)] at hparse
  cases hparse
  obtain ⟨auth, hauth, hbinding, hverdict⟩ := hagrees (Text.ascii "device-A") 7 [] []
    SlotSample.msg ⟨SlotSample.key, ⟨List.replicate 34 0, rfl⟩⟩ (fun _ => some (.ak _))
    SlotSample.quote SlotSample.sig rfl SlotSample.msg_eq rfl SlotSample.honest_quote
    SlotSample.verifies
  obtain ⟨-, h2, -, hb⟩ := SlotSample.writes_digits
  refine ⟨refs, auth, hrefs, hauth, hbinding, hverdict.mpr ⟨some "b", fun i hi => ?_⟩⟩
  have hi : i = 1 ∨ i = 8 := by simpa using hi
  rcases hi with rfl | rfl
  · exact (explains_iff SlotSample.lookup_one).mpr ⟨_, by simp, h2⟩
  · exact (explains_iff SlotSample.lookup_eight).mpr ⟨"b", _, rfl, rfl, hb⟩

end TactiqAttest.Appraise
