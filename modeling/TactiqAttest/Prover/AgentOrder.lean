import TactiqAttest.Prover.Agent

/-!
# What a cycle does in which order

`cmd_attest` says of itself that nothing is spent on an envelope that cannot be made: a malformed
PCR selection burns no counter value, and the key is the provisioned one before a counter value is
spent on it.  And it says that the counter is taken before anything is measured.

A cycle can be stopped, and each of its calls can fail or answer anything.  `attest_in_order` is
about every history of a cycle, complete or cut short:

* `Checked`: what has been found before the NV counter, the PCRs or the attestation key are used;
* `Allocated`: how the counter value came about, before the PCRs are read;
* what is quoted is the message of that device, that selection, that value and those contents.
-/

namespace TactiqAttest.Prover.Agent

open Envelope Files Prog

variable {C : Crypto} {cfg : Provision.Config} {out spec : String}

/-! ## Kinds of calls -/

/-- A use of the NV counter, the PCRs or the attestation key. -/
def Spends : Op → Prop
  | .nv _ | .pcrRead _ _ | .quote _ _ _ _ _ => True
  | _ => False

/-- A use of the PCRs or of the key. -/
def Measures : Op → Prop
  | .pcrRead _ _ | .quote _ _ _ _ _ => True
  | _ => False

theorem spends_of_measures {op : Op} (h : Measures op) : Spends op := by
  cases op with
  | pcrRead _ _ => trivial
  | quote _ _ _ _ _ => trivial
  | _ => exact h.elim

/-- A history of the agent. -/
abbrev History := List (Exchange Op Reply)

section Only

theorem only_onKeys {α : Type} {x : Provision.Procedure α} : (onKeys x).run.Only (¬ Spends ·) :=
  Only.interpret (P := fun _ => True) (only_of_forall fun _ => trivial)
    fun _ _ => only_perform id

/-- The procedures that do not quote do not use the key. -/
theorem only_onAudit {α : Type} {x : Audit α} : (onAudit noQuote x).run.Only (¬ Spends ·) := by
  refine Only.interpret (P := fun _ => True) (only_of_forall fun _ => trivial) ?_
  rintro (op | ⟨attest, sig⟩) -
  · exact only_perform id
  · exact only_pure _

theorem only_ensureDir {p : String} : (ensureDir p).run.Only (¬ Spends ·) :=
  Only.bind (only_perform id) fun _ => only_pure _

theorem only_verifyAk : (verifyAk C cfg).run.Only (¬ Spends ·) := by
  refine (only_pure _).tryBind fun akh => only_onKeys.tryBind fun _ => ?_
  refine (only_pure _).tryBind fun _ => only_onKeys.tryBind fun _ => ?_
  exact (only_pure _).tryBind fun _ => Only.tryBind (only_perform id) fun _ => only_pure _

theorem only_checks : (checks C cfg out spec).run.Only (¬ Spends ·) := by
  refine only_ensureDir.tryBind fun _ => only_ensureDir.tryBind
    fun _ => only_onAudit.tryBind fun _ => ?_
  refine only_onKeys.tryBind fun id => (only_pure _).tryBind fun found => ?_
  exact only_verifyAk.tryBind fun _ => only_pure _

/-- The counter is taken with commands on it. -/
theorem only_next {alloc : CounterAlloc} :
    ((alloc.next cfg.nvIndex).interpret nvCall).Only (¬ Measures ·) :=
  Only.interpret (P := fun _ => True) (only_of_forall fun _ => trivial)
    fun _ _ => only_perform id

end Only

/-! ## What has been checked -/

section Found

variable {α : Type} {cs : History}

/-- The exchange, as one of the agent. -/
def liftKeys (c : Exchange Provision.Op Provision.Reply) : Exchange Op Reply := ⟨.keys c.1, c.2⟩

/-- What a procedure on the keys directory exchanged is in the history of the agent. -/
theorem mem_of_onKeys {x : Provision.Procedure α} {result : Except String α}
    (h : (onKeys x).run.Yields cs result) :
    ∃ cs₀, x.run.Yields cs₀ result ∧ ∀ c ∈ cs₀, liftKeys c ∈ cs := by
  obtain ⟨cs₀, hx, hanswers⟩ := yields_interpret.mp h
  refine ⟨cs₀, hx, fun c hc => ?_⟩
  obtain ⟨l, m, r, rfl, hm⟩ := hanswers.of_mem hc
  obtain rfl := yields_perform.mp hm
  exact List.mem_append_left _ (List.mem_append_right _ (List.mem_singleton.mpr rfl))

/-- A result without a value is one value. -/
theorem eq_of_isOk {reply : Except IoError Unit} (h : reply.isOk = true) : reply = .ok () := by
  rcases reply with e | ⟨⟩
  · cases h
  · rfl

theorem yields_io_ok {what : String} {op : Files.Op String} {a : Files.Result op}
    {cs : List (Exchange Provision.Op Provision.Reply)}
    (h : (Provision.io what op).run.Yields cs (.ok a)) : ⟨.file op, .ok a⟩ ∈ cs := by
  obtain ⟨cs₁, cs₂, reply, rfl, hcall, hret⟩ := yields_bind.mp h
  obtain rfl := yields_perform.mp hcall
  obtain ⟨rfl, hreply⟩ := yields_pure.mp hret
  rcases reply with e | b
  · cases hreply
  · cases hreply
    exact List.mem_cons_self

theorem yields_pathExists {n : String} {b : Bool}
    {cs : List (Exchange Provision.Op Provision.Reply)}
    (h : (Provision.pathExists n).Yields cs b) : ∃ reply : Except IoError Unit,
      cs = [⟨.file (.stat n), reply⟩] ∧ reply.isOk = b := by
  obtain ⟨cs₁, cs₂, reply, rfl, hcall, hret⟩ := yields_bind.mp h
  obtain rfl := yields_perform.mp hcall
  obtain ⟨rfl, hreply⟩ := yields_pure.mp hret
  exact ⟨reply, rfl, hreply⟩

/-- A device is taken for provisioned when both files are found. -/
theorem found_of_inspect {cs : List (Exchange Provision.Op Provision.Reply)}
    (h : Provision.inspect.Yields cs .complete) :
    (⟨.file (.stat "device_id"), .ok ()⟩ : Exchange Provision.Op Provision.Reply) ∈ cs ∧
      (⟨.file (.stat "ak.pub"), .ok ()⟩ : Exchange Provision.Op Provision.Reply) ∈ cs := by
  obtain ⟨cs₁, cs₂, haveId, rfl, hid, hrest⟩ := yields_bind.mp h
  obtain ⟨cs₃, cs₄, haveKey, rfl, hkey, hret⟩ := yields_bind.mp hrest
  obtain ⟨rid, rfl, hidFound⟩ := yields_pathExists hid
  obtain ⟨rkey, rfl, hkeyFound⟩ := yields_pathExists hkey
  obtain ⟨rfl, hfound⟩ := yields_pure.mp hret
  rcases haveId with _ | _
  · rcases haveKey with _ | _ <;> cases hfound
  rcases haveKey with _ | _
  · cases hfound
  obtain rfl := eq_of_isOk hidFound
  obtain rfl := eq_of_isOk hkeyFound
  exact ⟨by simp, by simp⟩

variable (C cfg spec) in
/-- What a cycle has found by then: an identity, a selection, and the recorded key at the handle. -/
structure Checked (cs : History) (id : String) (alg : UInt16) (bitmap : List.Vector UInt8 3) :
    Prop where
  /-- Both files of the identity are there. -/
  complete : ⟨.keys (.file (.stat "device_id")), .ok ()⟩ ∈ cs ∧
    ⟨.keys (.file (.stat "ak.pub")), .ok ()⟩ ∈ cs
  /-- The id was read, and is one. -/
  identity : ∃ raw, ⟨.keys (.file (.read "device_id")), .ok raw⟩ ∈ cs ∧
    Provision.idOfFile (Provision.deviceIdPath cfg) raw = .ok id
  /-- The selection can be declared. -/
  selection : parsePcrSpec spec = .ok (alg, bitmap)
  /-- The handle is in the listing, and the public area there has the name of the recorded one. -/
  key : ∃ h listing recorded area, Provision.akHandle cfg = .ok h ∧
    ⟨.keys (.command ["tpm2_getcap", "handles-persistent"]), .ok listing⟩ ∈ cs ∧
    Provision.listingHas (Text.lossy listing) h = true ∧
    ⟨.keys (.file (.read "ak.pub")), .ok recorded⟩ ∈ cs ∧
    ⟨.handlePublic h s!"{cfg.work}/ak.handle.pub", .ok area⟩ ∈ cs ∧
    sameAk C cfg recorded area = .ok ()

theorem Checked.mono {cs' : History} {id : String} {alg : UInt16} {bitmap : List.Vector UInt8 3}
    (h : Checked C cfg spec cs id alg bitmap) (hsub : cs ⊆ cs') :
    Checked C cfg spec cs' id alg bitmap := by
  obtain ⟨raw, hraw, hid⟩ := h.identity
  obtain ⟨akh, listing, recorded, area, hakh, hlisting, hhas, hrecorded, harea, hsame⟩ := h.key
  exact ⟨h.complete.imp (hsub ·) (hsub ·), ⟨raw, hsub hraw, hid⟩, h.selection,
    akh, listing, recorded, area, hakh, hsub hlisting, hhas, hsub hrecorded, hsub harea, hsame⟩

/-- The identity was found, and is the one in the file. -/
theorem found_of_identity {id : String} (h : (identity cfg).run.Yields cs (.ok id)) :
    (⟨.keys (.file (.stat "device_id")), .ok ()⟩ ∈ cs ∧
      ⟨.keys (.file (.stat "ak.pub")), .ok ()⟩ ∈ cs) ∧
      ∃ raw, ⟨.keys (.file (.read "device_id")), .ok raw⟩ ∈ cs ∧
        Provision.idOfFile (Provision.deviceIdPath cfg) raw = .ok id := by
  obtain ⟨cs₀, hx, hmem⟩ := mem_of_onKeys h
  obtain ⟨cs₁, cs₂, found, rfl, hinspect, hrest⟩ := yields_bind.mp hx
  cases found with
  | complete =>
    obtain ⟨hstatId, hstatKey⟩ := found_of_inspect hinspect
    obtain ⟨cs₃, cs₄, raw, rfl, hread, hid⟩ := yields_tryBind_ok.mp hrest
    obtain ⟨rfl, hidOf⟩ := yields_ofResult.mp hid
    have hraw := yields_io_ok hread
    exact ⟨⟨hmem _ (List.mem_append_left _ hstatId), hmem _ (List.mem_append_left _ hstatKey)⟩,
      raw, hmem _ (List.mem_append_right _ (List.mem_append_left _ hraw)), hidOf⟩
  | absent => cases (yields_pure.mp hrest).2
  | incomplete haveId haveKey => cases (yields_pure.mp hrest).2

/-- The key was found at its handle, and is the recorded one. -/
theorem found_of_verifyAk (h : (verifyAk C cfg).run.Yields cs (.ok ())) :
    ∃ h listing recorded area, Provision.akHandle cfg = .ok h ∧
      ⟨.keys (.command ["tpm2_getcap", "handles-persistent"]), .ok listing⟩ ∈ cs ∧
      Provision.listingHas (Text.lossy listing) h = true ∧
      ⟨.keys (.file (.read "ak.pub")), .ok recorded⟩ ∈ cs ∧
      ⟨.handlePublic h s!"{cfg.work}/ak.handle.pub", .ok area⟩ ∈ cs ∧
      sameAk C cfg recorded area = .ok () := by
  obtain ⟨akh, hakh, hrest⟩ := yields_ofResult_bind.mp h
  obtain ⟨cs₁, cs₂, occupied, rfl, hexists, hrest⟩ := yields_tryBind_ok.mp hrest
  obtain ⟨⟨⟩, hoccupied, hrest⟩ := yields_ofResult_bind.mp hrest
  obtain ⟨cs₃, cs₄, recorded, rfl, hread, hrest⟩ := yields_tryBind_ok.mp hrest
  obtain ⟨akh', hakh', hrest⟩ := yields_ofResult_bind.mp hrest
  obtain rfl : akh = akh' := Except.ok.inj (hakh.symm.trans hakh')
  obtain ⟨cs₅, cs₆, area, rfl, harea, hcompare⟩ := yields_tryBind_ok.mp hrest
  obtain rfl := yields_perform.mp harea
  obtain ⟨rfl, hsame⟩ := yields_ofResult.mp hcompare
  -- the listing
  obtain ⟨cs₀, hlist, hmem⟩ := mem_of_onKeys hexists
  obtain ⟨cs₇, cs₈, listing, rfl, hcommand, hret⟩ := yields_tryBind_ok.mp hlist
  obtain rfl := yields_perform.mp hcommand
  obtain ⟨rfl, hhas⟩ := yields_pure.mp hret
  obtain rfl : Provision.listingHas (Text.lossy listing) akh = occupied := Except.ok.inj hhas
  -- the recorded area
  obtain ⟨cs₉, hio, hmem'⟩ := mem_of_onKeys hread
  have hrecorded := hmem' _ (yields_io_ok hio)
  refine ⟨akh, listing, recorded, area, hakh, ?_, Except.ensure_eq_ok.mp hoccupied,
    ?_, by simp, hsame⟩
  · exact List.mem_append_left _ (hmem _ List.mem_cons_self)
  · exact List.mem_append_right _ (List.mem_append_left _ hrecorded)

/-- Checks that pass have found all this. -/
theorem checked_of_yields {id : String} {alg : UInt16} {bitmap : List.Vector UInt8 3}
    (h : (checks C cfg out spec).run.Yields cs (.ok (id, alg, bitmap))) :
    Checked C cfg spec cs id alg bitmap := by
  obtain ⟨cs₁, cs₂, -, rfl, -, hrest⟩ := yields_tryBind_ok.mp h
  obtain ⟨cs₃, cs₄, -, rfl, -, hrest⟩ := yields_tryBind_ok.mp hrest
  obtain ⟨cs₅, cs₆, -, rfl, -, hrest⟩ := yields_tryBind_ok.mp hrest
  obtain ⟨cs₇, cs₈, id', rfl, hid, hrest⟩ := yields_tryBind_ok.mp hrest
  obtain ⟨⟨alg', bitmap'⟩, hspec, hrest⟩ := yields_ofResult_bind.mp hrest
  obtain ⟨cs₉, cs₁₀, ⟨⟩, rfl, hkey, hret⟩ := yields_tryBind_ok.mp hrest
  obtain ⟨rfl, hfound⟩ := yields_pure.mp hret
  cases hfound
  obtain ⟨hcomplete, hidentity⟩ := found_of_identity hid
  have hkeySub : cs₉ ⊆ cs₁ ++ (cs₃ ++ (cs₅ ++ (cs₇ ++ (cs₉ ++ [])))) := by
    intro c hc
    simp [hc]
  have hidSub : cs₇ ⊆ cs₁ ++ (cs₃ ++ (cs₅ ++ (cs₇ ++ (cs₉ ++ [])))) := by
    intro c hc
    simp [hc]
  obtain ⟨raw, hraw, hidOf⟩ := hidentity
  obtain ⟨akh, listing, recorded, area, hakh, hlisting, hhas, hrecorded, harea, hsame⟩ :=
    found_of_verifyAk hkey
  exact ⟨hcomplete.imp (hidSub ·) (hidSub ·), ⟨raw, hidSub hraw, hidOf⟩, hspec,
    akh, listing, recorded, area, hakh, hkeySub hlisting, hhas, hkeySub hrecorded, hkeySub harea,
    hsame⟩

end Found

/-! ## What is quoted -/

section Quoted

/-- `tpm2_quote` writes the two files of the envelope, under the names they are staged under. -/
def QuotesInto (stem : String) : AuditOp → Prop
  | .quote attest sig => attest = part stem .attest ∧ sig = part stem .sig
  | .file _ => True

theorem only_auditIo {stem what : String} {op : Files.Op String} :
    (io what op).run.Only (QuotesInto stem) := Only.bind (only_perform trivial) fun _ => only_pure _

theorem only_cleanup {stem : String} (es : List Ext) :
    (cleanup stem es).Only (QuotesInto stem) := by
  induction es with
  | nil => exact only_pure _
  | cons e es ih => exact Only.bind (only_perform trivial) fun _ => ih

theorem only_publishEnvelope {stem : String} {msg tag : Bytes} :
    (publishEnvelope out stem msg tag).run.Only (QuotesInto stem) := by
  have hwrite : ∀ n data, (writeSynced out n data).run.Only (QuotesInto stem) := fun n data =>
    only_auditIo.tryBind fun _ => only_auditIo.tryBind fun _ => only_auditIo
  have hsync : ∀ n, (syncFile out n).run.Only (QuotesInto stem) := fun n =>
    only_auditIo.tryBind fun _ => only_auditIo
  have hstage : (stage out stem msg tag).run.Only (QuotesInto stem) :=
    (hwrite _ _).tryBind fun _ => Only.tryBind (only_perform ⟨rfl, rfl⟩) fun _ =>
      (hsync _).tryBind fun _ => (hsync _).tryBind fun _ => hwrite _ _
  have hinstall : (install out stem).run.Only (QuotesInto stem) :=
    only_auditIo.tryBind fun _ => only_auditIo.tryBind fun _ => only_auditIo.tryBind fun _ =>
      only_auditIo.tryBind fun _ => only_auditIo.tryBind fun _ => only_auditIo
  refine Only.bind hstage fun staged => ?_
  rcases staged with e | ⟨⟩
  · exact (only_cleanup _).bind fun _ => only_pure _
  · exact hinstall

variable (C cfg spec) in
/-- A quote of a message, into the files of the envelope; or a call that does not measure. -/
def QuotesOnly (msg : Bytes) (stem : String) : Op → Prop
  | .quote h spec' qd attest sig => Provision.akHandle cfg = .ok h ∧ spec' = spec ∧
      qualifyingData C msg = .ok qd ∧ attest = part stem .attest ∧ sig = part stem .sig
  | .pcrRead _ _ => False
  | _ => True

theorem only_quoteMessage {msg : Bytes} {stem attest sig : String}
    (hattest : attest = part stem .attest) (hsig : sig = part stem .sig) :
    (quoteMessage C cfg spec msg attest sig).run.Only (QuotesOnly C cfg spec msg stem) := by
  unfold quoteMessage
  rcases hqd : qualifyingData C msg with e | qd
  · exact only_pure _
  rcases hakh : Provision.akHandle cfg with e | h
  · exact only_pure _
  · exact only_perform ⟨hakh, rfl, hqd, hattest, hsig⟩

/-- Publishing quotes the message, if anything. -/
theorem only_publish {msg tag : Bytes} {stem : String} :
    (onAudit (quoteMessage C cfg spec msg) (publishEnvelope out stem msg tag)).run.Only
      (QuotesOnly C cfg spec msg stem) := by
  refine only_publishEnvelope.interpret ?_
  rintro (op | ⟨attest, sig⟩) hop
  · exact only_perform trivial
  · exact only_quoteMessage hop.1 hop.2

end Quoted

/-! ## The order -/

section Order

variable {alloc : CounterAlloc} {cs : History}

/-- The exchange, as one of the agent. -/
def liftNv (c : Exchange NvOp NvReply) : Exchange Op Reply := ⟨.nv c.1, c.2⟩

variable (cfg) in
/-- A counter value has been allocated: `next` was run to its end, and returned it. -/
def Allocated (alloc : CounterAlloc) (cs : History) (counter : UInt64) : Prop :=
  ∃ before calls after alloc', cs = before ++ calls.map liftNv ++ after ∧
    (alloc.next cfg.nvIndex).Yields calls (alloc', .ok counter)

theorem Allocated.append {counter : UInt64} (h : Allocated cfg alloc cs counter) (cs' : History) :
    Allocated cfg alloc (cs ++ cs') counter := by
  obtain ⟨before, calls, after, alloc', rfl, hnext⟩ := h
  exact ⟨before, calls, after ++ cs', alloc', by simp, hnext⟩

variable (C cfg spec) in
/-- What holds of every history of a cycle, complete or cut short. -/
structure InOrder (alloc : CounterAlloc) (cs : History) : Prop where
  /-- The NV counter, the PCRs and the key are used only after all has been checked. -/
  checked : ∀ l x r, cs = l ++ x :: r → Spends x.1 →
    ∃ id alg bitmap, Checked C cfg spec l id alg bitmap
  /-- The PCRs and the key are used only with a counter value. -/
  counted : ∀ l x r, cs = l ++ x :: r → Measures x.1 → ∃ counter, Allocated cfg alloc l counter
  /-- What is quoted is the message of the device, the selection, the counter value and what was
  read of the PCRs, once that value had been allocated; into the files of that value, with the
  selection that was read. -/
  quoted : ∀ l h spec' qd attest sig reply r, cs = l ++ ⟨.quote h spec' qd attest sig, reply⟩ :: r →
    spec' = spec ∧ Provision.akHandle cfg = .ok h ∧ ∃ id alg bitmap counter pcrState before between,
      l = before ++ ⟨.pcrRead spec s!"{cfg.work}/pcrs.bin", .ok pcrState⟩ :: between ∧
      Checked C cfg spec before id alg bitmap ∧ Allocated cfg alloc before counter ∧
      qualifyingData C (message C id alg bitmap counter pcrState) = .ok qd ∧
      attest = part (stem counter) .attest ∧ sig = part (stem counter) .sig

/-- The start of a history without a call of a kind is before every call of that kind. -/
theorem prefix_of_append {cs₁ cs₂ l r : History} {x : Exchange Op Reply} {P : Op → Prop}
    (h : cs₁ ++ cs₂ = l ++ x :: r) (hnone : ∀ c ∈ cs₁, ¬ P c.1) (hx : P x.1) :
    ∃ m, l = cs₁ ++ m ∧ cs₂ = m ++ x :: r := by
  rcases List.append_eq_append_iff.mp h with ⟨m, rfl, hm⟩ | ⟨m, rfl, hm⟩
  · exact ⟨m, rfl, hm⟩
  · rcases m with _ | ⟨y, m⟩
    · exact ⟨[], by simp, by simpa using hm.symm⟩
    · obtain ⟨rfl, -⟩ := List.cons.inj hm
      exact absurd hx (hnone x (List.mem_append_right _ List.mem_cons_self))

/-- A history with none of the three in it. -/
theorem inOrder_of_none (h : ∀ c ∈ cs, ¬ Spends c.1) : InOrder C cfg spec alloc cs := by
  have hno : ∀ l x r, cs = l ++ x :: r → ¬ Spends x.1 := fun l x r hcs =>
    h x (hcs ▸ List.mem_append_right _ List.mem_cons_self)
  refine ⟨fun l x r hcs hx => absurd hx (hno l x r hcs), fun l x r hcs hx => ?_, ?_⟩
  · exact absurd (spends_of_measures hx) (hno l x r hcs)
  · intro l h spec' qd attest sig reply r hcs
    exact absurd trivial (hno l _ r hcs)

variable {id : String} {alg : UInt16} {bitmap : List.Vector UInt8 3} {counter : UInt64}

/-- Making an envelope starts with reading the PCRs; what follows quotes the message they give. -/
theorem calls_of_emit {q : Prog Op Reply (Except String UInt64)}
    (h : (emit C cfg out spec id alg bitmap counter).run.After cs q) :
    cs = [] ∨ ∃ reply rest, cs = ⟨.pcrRead spec s!"{cfg.work}/pcrs.bin", reply⟩ :: rest ∧
      ∀ c ∈ rest, ∃ pcrState, reply = .ok pcrState ∧
        QuotesOnly C cfg spec (message C id alg bitmap counter pcrState) (stem counter) c.1 := by
  rcases after_call.mp h with ⟨hcs, -⟩ | ⟨reply, rest, hcs, hrest⟩
  · exact .inl hcs
  refine .inr ⟨reply, rest, hcs, fun c hc => ?_⟩
  rcases reply with e | pcrState
  · rw [(after_ret.mp hrest).1] at hc
    cases hc
  refine ⟨pcrState, rfl, ?_⟩
  refine Only.of_after (p := (do
    ofResult (Except.ensure ((message C id alg bitmap counter pcrState).length = msgLen)
      s!"built {(message C id alg bitmap counter pcrState).length} bytes, expected {msgLen}")
    onAudit (quoteMessage C cfg spec (message C id alg bitmap counter pcrState))
      (publishEnvelope out (stem counter) (message C id alg bitmap counter pcrState)
        (tag id counter))
    return counter : Procedure UInt64).run) ?_ hrest c hc
  exact Only.tryBind (only_pure _) fun _ => only_publish.tryBind fun _ => only_pure _

/-- How far a cycle can have come. -/
theorem calls_of_cmdAttest {q : Prog Op Reply (CounterAlloc × Except String UInt64)}
    (h : (cmdAttest C cfg out spec alloc).After cs q) :
    (∀ c ∈ cs, ¬ Spends c.1) ∨ ∃ found rest id alg bitmap, cs = found ++ rest ∧
      (∀ c ∈ found, ¬ Spends c.1) ∧ Checked C cfg spec found id alg bitmap ∧
      ((∀ c ∈ rest, ¬ Measures c.1) ∨ ∃ calls made alloc' counter,
        rest = calls.map liftNv ++ made ∧
        (alloc.next cfg.nvIndex).Yields calls (alloc', .ok counter) ∧
        ∃ q', (emit C cfg out spec id alg bitmap counter).run.After made q') := by
  rcases after_bind.mp h with ⟨op, next, hchecks, -⟩ | ⟨found, rest, result, rfl, hfound, hrest⟩
  · exact .inl fun c hc => only_checks.of_after hchecks c hc
  have hnone : ∀ c ∈ found, ¬ Spends c.1 := fun c hc => only_checks.of_after hfound c hc
  rcases result with e | ⟨id, alg, bitmap⟩
  · rw [(after_ret.mp hrest).1, List.append_nil]
    exact .inl hnone
  refine .inr ⟨found, rest, id, alg, bitmap, rfl, hnone, checked_of_yields hfound, ?_⟩
  rcases after_bind.mp hrest with ⟨op, next, hnext, -⟩ | ⟨taken, made, ⟨alloc', result⟩,
    rfl, hnext, hmade⟩
  · exact .inl fun c hc => only_next.of_after hnext c hc
  obtain ⟨calls, hcalls, hanswers⟩ := yields_interpret.mp hnext
  obtain rfl := hanswers.eq_map (e := liftNv) fun hcall => yields_perform.mp hcall
  rcases result with e | counter
  · rw [(after_ret.mp hmade).1, List.append_nil]
    exact .inl fun c hc => only_next.of_after hnext c hc
  refine .inr ⟨calls, made, alloc', counter, rfl, hcalls, ?_⟩
  rcases after_bind.mp hmade with ⟨op, next, hemit, -⟩ | ⟨cs₁, cs₂, result, rfl, hemit, hret⟩
  · exact ⟨_, hemit⟩
  · rw [(after_ret.mp hret).1, List.append_nil]
    exact ⟨_, hemit⟩

/-- **A cycle spends nothing on an envelope that cannot be made, and measures nothing without a
counter value**, wherever it is stopped and whatever its calls answer. -/
theorem attest_in_order (C : Crypto) (cfg : Provision.Config) (out spec : String)
    (alloc : CounterAlloc) {cs : History} {q : Prog Op Reply (CounterAlloc × Except String UInt64)}
    (h : (cmdAttest C cfg out spec alloc).After cs q) : InOrder C cfg spec alloc cs := by
  rcases calls_of_cmdAttest h with hnone | ⟨found, rest, id, alg, bitmap, rfl, hnone,
    hchecked, hrest⟩
  · exact inOrder_of_none hnone
  -- what spends comes after the checks
  have hafter : ∀ {l x r}, found ++ rest = l ++ x :: r → Spends x.1 →
      ∃ m, l = found ++ m ∧ rest = m ++ x :: r := fun hcs hx => prefix_of_append hcs hnone hx
  have hfound : ∀ m, Checked C cfg spec (found ++ m) id alg bitmap := fun m =>
    hchecked.mono (List.subset_append_left _ _)
  have hcheckedAll : ∀ l x r, found ++ rest = l ++ x :: r → Spends x.1 →
      ∃ id alg bitmap, Checked C cfg spec l id alg bitmap := by
    intro l x r hcs hx
    obtain ⟨m, rfl, -⟩ := hafter hcs hx
    exact ⟨id, alg, bitmap, hfound m⟩
  rcases hrest with hcount | ⟨calls, made, alloc', counter, rfl, hnext, q', hemit⟩
  · have hno : ∀ {l x r}, found ++ rest = l ++ x :: r → ¬ Measures x.1 := by
      intro l x r hcs hx
      obtain ⟨m, -, hm⟩ := hafter hcs (spends_of_measures hx)
      exact hcount x (hm ▸ List.mem_append_right _ List.mem_cons_self) hx
    refine ⟨hcheckedAll, fun l x r hcs hx => absurd hx (hno hcs), ?_⟩
    intro l h spec' qd attest sig reply r hcs
    exact absurd trivial (hno hcs)
  -- what measures comes after the counter value
  have hcalls : ∀ c ∈ calls.map liftNv, ¬ Measures c.1 := by
    intro c hc
    obtain ⟨c', -, rfl⟩ := List.mem_map.mp hc
    exact fun h => h
  have hcounted : ∀ {l x r}, found ++ (calls.map liftNv ++ made) = l ++ x :: r → Measures x.1 →
      ∃ m, l = found ++ calls.map liftNv ++ m ∧ made = m ++ x :: r := by
    intro l x r hcs hx
    obtain ⟨m, rfl, hm⟩ := hafter hcs (spends_of_measures hx)
    obtain ⟨m', rfl, hm'⟩ := prefix_of_append hm hcalls hx
    exact ⟨m', by simp, hm'⟩
  have hallocated : Allocated cfg alloc (found ++ calls.map liftNv) counter :=
    ⟨found, calls, [], alloc', (List.append_nil _).symm, hnext⟩
  refine ⟨hcheckedAll, fun l x r hcs hx => ?_, ?_⟩
  · obtain ⟨m, rfl, -⟩ := hcounted hcs hx
    exact ⟨counter, hallocated.append m⟩
  · intro l h spec' qd attest sig reply r hcs
    obtain ⟨m, rfl, hm⟩ := hcounted hcs trivial
    rcases calls_of_emit hemit with rfl | ⟨read, others, rfl, hothers⟩
    · simp at hm
    -- the quote is one of the calls after the reading
    rcases m with _ | ⟨y, m⟩
    · cases (List.cons.inj hm).1
    obtain ⟨rfl, rfl⟩ := List.cons.inj hm
    obtain ⟨pcrState, rfl, hakh, hspec, hqd, hattest, hsig⟩ :=
      hothers _ (List.mem_append_right _ List.mem_cons_self)
    exact ⟨hspec, hakh, id, alg, bitmap, counter, pcrState, found ++ calls.map liftNv, m, rfl,
      hfound _, hallocated, hqd, hattest, hsig⟩

/-! ### A cycle to its end -/

namespace Sample

/-- A cycle on a device whose counter stands at 41. -/
def cycle (n : ℕ) :
    List (Exchange Op Reply) × State × Prog Op Reply (CounterAlloc × Except String UInt64) :=
  runFor (answer chip) n (cmdAttest (.ofTable []) config "audit" "sha256:1,8" .new)
    (fun _ => 41, none)

def isQuote : Op → Bool
  | .quote _ _ _ _ _ => true
  | _ => false

end Sample

/-- The cycle quotes, and keeps to the order. -/
theorem attest_in_order_cycle : (Sample.cycle 40).1.any (fun c => Sample.isQuote c.1) = true ∧
    InOrder (.ofTable []) Sample.config "sha256:1,8" .new (Sample.cycle 40).1 := by
  refine ⟨by decide +kernel, attest_in_order (.ofTable []) Sample.config "audit" "sha256:1,8" .new
    (q := (Sample.cycle 40).2.2) ?_⟩
  exact after_runFor _ 40 _ _

end Order

end TactiqAttest.Prover.Agent
