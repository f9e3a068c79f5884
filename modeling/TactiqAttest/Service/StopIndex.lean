import TactiqAttest.Bytes.Hex
import TactiqAttest.Prover.NvCounter
import TactiqAttest.Prover.Provision

/-!
# The stop counter's index

What `attest-tpm` does with the NV index of the stop counter, by running TPM tools: it is looked for
in a listing of handles, its attributes and its name are read off what `tpm2_nvreadpublic` prints,
and it is defined, incremented and read.

`Tpm` is what the tools do to the index.  A tool may fail, and one that was to define or increment
the index may have done so and fail nevertheless.  `Faulty` says whether tools fail at all, so that
a result can also be about a TPM on which none does.
-/

namespace TactiqAttest.StopIndex

open BigEndian Prover Prover.Provision Prog

/-! ## What the tools print -/

/-- `STOP_NV_COUNTER`. -/
def stopNvCounter : String := "0x1500017"

/-- `STOP_NV_ATTRIBUTES`. -/
def stopNvAttributes : UInt32 := counterNvAttributes

/-- The number behind `value:`. -/
def attributesValue (v : List Char) : Except String UInt32 := do
  let shown := String.ofList v
  let digits ← Except.ofOption s!"attributes value is not hex: {shown}" (stripHexPrefix v)
  let n ← (fromStrRadix16 digits).mapError fun e => s!"attributes value {shown}: {e}"
  return UInt32.ofNat n

/-- The search behind `attributes:`, up to the next heading. -/
def findValue : List (List Char) → Except String UInt32
  | [] => .error "no value line in the attributes block"
  | l :: ls =>
    match Chars.stripPrefix "value:".toList l with
    | some v => attributesValue (Chars.trim v)
    | none =>
      if l.getLast? = some ':' ∧ ¬ "friendly".toList.isPrefixOf l then
        .error "no value line in the attributes block"
      else findValue ls

/-- `parse_nv_attributes`. -/
def parseNvAttributes (listing : List Char) : Except String UInt32 :=
  let lines := (Chars.lines listing).map Chars.trim
  match lines.dropWhile (· ≠ "attributes:".toList) with
  | [] => .error "no attributes block in tpm2_nvreadpublic output"
  | _ :: rest => findValue rest

/-- `parse_nv_name`. -/
def parseNvName (listing : List Char) : Except String Bytes := do
  let lines := (Chars.lines listing).map Chars.trim
  let hex ← Except.ofOption "no name line in tpm2_nvreadpublic output"
    ((lines.findSome? (Chars.stripPrefix "name:".toList)).map Chars.trim)
  if hex = [] then throw s!"name is not hex: {Chars.debug hex}"
  Except.ofOption s!"name is not hex: {Chars.debug hex}" (Chars.hexBytes hex)

/-- `check_stop_attributes`. -/
def checkStopAttributes (attrs : UInt32) : Except String Unit :=
  Except.ensure (attrs &&& ~~~tpmaNvWritten = stopNvAttributes)
    (stopNvCounter ++ " has attributes 0x" ++ Text.hex 8 attrs.toNat ++
      "; the stop counter must be exactly 0x" ++ Text.hex 8 stopNvAttributes.toNat ++
      " (counter, authwrite, authread), plus written. " ++
      "An index from before this version is written by the owner. " ++ recreateHint stopNvCounter)

/-- `stop_attributes_written`. -/
def stopAttributesWritten (attrs : UInt32) : Bool := attrs &&& tpmaNvWritten ≠ 0

/-! ## The commands -/

section Commands

variable (cfg : Config)

def listArgs : List String := ["tpm2_getcap", "handles-nv-index"]
def publicArgs : List String := ["tpm2_nvreadpublic", stopNvCounter]
def incrementArgs : List String := ["tpm2_nvincrement", stopNvCounter, "-C", stopNvCounter]
def readArgs : List String := ["tpm2_nvread", stopNvCounter, "-C", stopNvCounter, "--size", "8"]
def defineArgs : List String :=
  ["tpm2_nvdefine", stopNvCounter, "-C", "o", "-a", counterNvAttributesArg]

/-- `stop_nv_attributes`. -/
def stopNvAttributesNow : Procedure UInt32 := do
  let o ← run publicArgs
  ofResult (parseNvAttributes (Text.lossy o))

/-- `verify_stop_counter`. -/
def verifyStopCounter : Procedure Unit := do
  let attrs ← stopNvAttributesNow
  ofResult (checkStopAttributes attrs)

/-- `stop_nv_first_write`. -/
def stopNvFirstWrite : Procedure Unit := do
  let _ ← run incrementArgs

/-- `stop_nv_define`. -/
def stopNvDefine : Procedure Unit := do
  let _ ← runOwner cfg defineArgs
  stopNvFirstWrite

/-- `stop_nv_name`. -/
def stopNvName : Procedure Bytes := do
  let o ← run publicArgs
  ofResult (parseNvName (Text.lossy o))

/-- The value that `tpm2_nvread` printed. -/
def stopCounterOf (raw : Bytes) : Except String UInt64 :=
  if raw.length = 8 then .ok (ofBe raw)
  else .error s!"stop counter read returned {raw.length} bytes, expected 8"

/-- `stop_nv_read`. -/
def stopNvRead : Procedure UInt64 := do
  let raw ← run readArgs
  ofResult (stopCounterOf raw)

/-- `stop_nv_increment`. -/
def stopNvIncrement : Procedure Unit := do
  let _ ← run incrementArgs

/-- `stop_nv_certify`. -/
def stopNvCertify (qualifying : List.Vector UInt8 32) (attest sig : String) : Procedure Unit := do
  let h ← ofResult (akHandle cfg)
  let _ ← run ["tpm2_nvcertify", "-C", h, "-c", stopNvCounter, "-g", "sha256", "-s", "ecdsa",
    "-f", "plain", "-q", Hex.encode qualifying.toList, "--size", "8", "--offset", "0",
    "--attestation", attest, "-o", sig, stopNvCounter]

/-- `quote_qualified`. -/
def quoteQualified (qd : List.Vector UInt8 32) (spec attest sig : String) : Procedure Unit := do
  let h ← ofResult (akHandle cfg)
  let _ ← run ["tpm2_quote", "-c", h, "-l", spec, "-q", Hex.encode qd.toList, "-m", attest,
    "-s", sig, "-g", "sha256", "-f", "plain"]

end Commands

/-! ## What the tools do -/

/-- The index: its attributes, but for the one that says it has been written, and its value once it
has. -/
structure Index where
  attributes : UInt32
  value : Option UInt64
  clear : attributes &&& tpmaNvWritten = 0
  deriving DecidableEq

/-- The attribute word. -/
def Index.word (i : Index) : UInt32 :=
  if i.value.isSome then i.attributes ||| tpmaNvWritten else i.attributes

/-- An index as `stop_nv_define` makes it. -/
def Index.new : Index := ⟨stopNvAttributes, none, by decide⟩

/-- The value, of an index that is defined and has been written. -/
def valueOf (s : Option Index) : Option UInt64 := s.bind Index.value

/-- The index with a value. -/
def withValue (s : Option Index) (v : UInt64) : Option Index :=
  s.map fun i => { i with value := some v }

/-- The value after an increment.  The TPM chooses the first one. -/
def Next : Option UInt64 → UInt64 → Prop
  | none, _ => True
  | some v, v' => v' = v + 1 ∧ v < v + 1

/-- The index has been incremented. -/
def Incremented (s s' : Option Index) : Prop :=
  s.isSome = true ∧ ∃ v, Next (valueOf s) v ∧ s' = withValue s v

/-- The index has been defined. -/
def Defined (s s' : Option Index) : Prop := s = none ∧ s' = some Index.new

/-- The arguments of a definition, with the owner's authorization or without. -/
def IsDefine (args : List String) : Prop := ∃ auth, args = defineArgs ++ auth

/-- A tool that changes the index. -/
def Writes (args : List String) : Prop := args = incrementArgs ∨ IsDefine args

variable (Faulty : Prop)

/-- What has come of a change, and what is answered: it has been made, or it has not; and it is
reported as it is, unless there are faults. -/
def Changed {α : Type} (change : Option Index → Option Index → Prop) (s : Option Index)
    (r : Except String α) (s' : Option Index) : Prop :=
  change s s' ∧ (Faulty ∨ r.isOk = true) ∨ s' = s ∧ r.isOk = false ∧ (Faulty ∨ ∀ t, ¬ change s t)

/-- What a tool prints is of the index as it is; and it prints something if there is something,
unless there are faults. -/
structure Shown (s : Option Index) (args : List String) (r : Except String Bytes) : Prop where
  listed : args = listArgs → (∀ o, r = .ok o → listingHas (Text.lossy o) stopNvCounter = s.isSome) ∧
    (r.isOk = true ∨ Faulty)
  shown : args = publicArgs →
    (∀ o, r = .ok o → ∃ i, s = some i ∧ parseNvAttributes (Text.lossy o) = .ok i.word) ∧
    (r.isOk = true ∨ Faulty ∨ s = none)
  read : args = readArgs → (∀ o, r = .ok o → ∃ v, valueOf s = some v ∧ o = be v) ∧
    (r.isOk = true ∨ Faulty ∨ valueOf s = none)

/-- What a tool does to the index, and what it answers. -/
inductive Tool (s : Option Index) : List String → Except String Bytes → Option Index → Prop
  | increment {r : Except String Bytes} {s' : Option Index} : Changed Faulty Incremented s r s' →
      Tool s incrementArgs r s'
  | define {args : List String} {r : Except String Bytes} {s' : Option Index} : IsDefine args →
      Changed Faulty Defined s r s' → Tool s args r s'
  | shown {args : List String} {r : Except String Bytes} : ¬ Writes args → Shown Faulty s args r →
      Tool s args r s

/-- What a call does to the index. -/
def Sem (s : Option Index) : Exchange Provision.Op Provision.Reply → Option Index → Prop
  | ⟨.command args, r⟩, s' => Tool Faulty s args r s'
  | ⟨.metadata _, r⟩, s' => s' = s ∧ (r.isOk = true ∨ Faulty)
  | _, s' => s' = s

/-! ## What the commands do -/

section Obey

variable {Faulty} {s : Option Index} {P : Option Index → Provision.Op → Prop} {cfg : Config}

theorem head_of_isDefine {args : List String} (h : IsDefine args) :
    args.head? = some "tpm2_nvdefine" := by
  obtain ⟨auth, rfl⟩ := h
  rfl

theorem not_writes_of_head {args : List String} (hinc : args ≠ incrementArgs)
    (hdef : args.head? ≠ some "tpm2_nvdefine") : ¬ Writes args := by
  rintro (h | h)
  · exact hinc h
  · exact hdef (head_of_isDefine h)

theorem not_writes_publicArgs : ¬ Writes publicArgs := not_writes_of_head (by decide) (by decide)

theorem not_writes_listArgs : ¬ Writes listArgs := not_writes_of_head (by decide) (by decide)

theorem not_writes_readArgs : ¬ Writes readArgs := not_writes_of_head (by decide) (by decide)

theorem not_isDefine_incrementArgs : ¬ IsDefine incrementArgs := fun h =>
  absurd (head_of_isDefine h) (by decide)

/-- The bit of a word that is clear. -/
theorem or_and_not {a w : UInt32} (h : a &&& w = 0) : (a ||| w) &&& ~~~w = a := by
  have hand : a.toBitVec &&& w.toBitVec = 0#32 := congrArg UInt32.toBitVec h
  refine UInt32.toBitVec_inj.mp ?_
  show (a.toBitVec ||| w.toBitVec) &&& ~~~w.toBitVec = a.toBitVec
  ext i hi
  have hbit := congrArg (fun b : BitVec 32 => b[i]) hand
  simp only [BitVec.getElem_and, BitVec.getElem_zero] at hbit
  simp only [BitVec.getElem_and, BitVec.getElem_or, BitVec.getElem_not]
  grind

theorem or_and_self {a w : UInt32} : (a ||| w) &&& w = w := by
  refine UInt32.toBitVec_inj.mp ?_
  show (a.toBitVec ||| w.toBitVec) &&& w.toBitVec = w.toBitVec
  ext i hi
  simp only [BitVec.getElem_and, BitVec.getElem_or]
  grind

/-- The word says which attributes the index has. -/
theorem Index.word_and (i : Index) : i.word &&& ~~~tpmaNvWritten = i.attributes := by
  have hor := or_and_not i.clear
  unfold Index.word
  split_ifs
  · exact hor
  · rw [← hor, UInt32.and_assoc, UInt32.and_self]

/-- And whether it has been written. -/
theorem Index.written_word (i : Index) : stopAttributesWritten i.word = i.value.isSome := by
  unfold stopAttributesWritten Index.word
  split_ifs with h
  · rw [or_and_self, h]
    decide
  · rw [i.clear, Bool.not_eq_true _ |>.mp h]
    rfl

theorem checkStopAttributes_ok {i : Index} :
    checkStopAttributes i.word = .ok () ↔ i.attributes = stopNvAttributes := by
  rw [checkStopAttributes, Except.ensure_eq_ok, i.word_and]

/-- A tool that only shows. -/
theorem obeys_run_shown {args : List String} (hargs : ¬ Writes args) (hP : P s (.command args)) :
    Obeys (Sem Faulty) P (run args).run (fun s' r => s' = s ∧ Shown Faulty s args r) s := by
  refine obeys_perform hP fun r s' hsem => ?_
  cases hsem with
  | increment _ => exact absurd (.inl rfl) hargs
  | define h _ => exact absurd (.inr h) hargs
  | shown _ h => exact ⟨rfl, h⟩

/-- `nv_defined`, of the stop counter. -/
theorem obeys_nvDefined (hP : P s (.command listArgs)) :
    Obeys (Sem Faulty) P (nvDefined stopNvCounter).run
      (fun s' r => s' = s ∧ (∀ b, r = .ok b → b = s.isSome) ∧ (r.isOk = true ∨ Faulty)) s := by
  refine obeys_tryBind ((obeys_run_shown not_writes_listArgs hP).mono (fun _ _ h => h) ?_)
  rintro s' (e | o) ⟨rfl, hshown⟩
  · obtain ⟨-, herr⟩ := hshown.listed rfl
    exact ⟨rfl, fun _ h => (by cases h), herr⟩
  · obtain ⟨hlisted, -⟩ := hshown.listed rfl
    refine ⟨rfl, fun b hb => ?_, .inl rfl⟩
    rw [← Except.ok.inj hb]
    exact hlisted o rfl

/-- `stop_nv_attributes`. -/
theorem obeys_stopNvAttributesNow (hP : P s (.command publicArgs)) :
    Obeys (Sem Faulty) P stopNvAttributesNow.run (fun s' r => s' = s ∧
      (∀ w, r = .ok w → ∃ i, s = some i ∧ w = i.word) ∧ (r.isOk = true ∨ Faulty ∨ s = none)) s := by
  refine obeys_tryBind ((obeys_run_shown not_writes_publicArgs hP).mono (fun _ _ h => h) ?_)
  rintro s' (e | o) ⟨rfl, hshown⟩
  · obtain ⟨-, herr⟩ := hshown.shown rfl
    exact ⟨rfl, fun _ h => (by cases h), herr⟩
  · obtain ⟨hparsed, -⟩ := hshown.shown rfl
    obtain ⟨i, hi, hword⟩ := hparsed o rfl
    refine ⟨rfl, fun w hw => ⟨i, hi, ?_⟩, .inl (by rw [hword]; rfl)⟩
    exact Except.ok.inj (hw.symm.trans hword)

/-- The index is there, and is one this code was written for. -/
def Legit (s : Option Index) : Prop := ∃ i, s = some i ∧ i.attributes = stopNvAttributes

/-- `verify_stop_counter`. -/
theorem obeys_verifyStopCounter (hP : P s (.command publicArgs)) :
    Obeys (Sem Faulty) P verifyStopCounter.run (fun s' r => s' = s ∧ (r = .ok () → Legit s) ∧
      (r.isOk = true ∨ Faulty ∨ ¬ Legit s)) s := by
  refine obeys_tryBind ((obeys_stopNvAttributesNow hP).mono (fun _ _ h => h) ?_)
  rintro s' (e | w) ⟨rfl, hword, herr⟩
  · refine ⟨rfl, fun h => (by cases h), ?_⟩
    rcases herr with h | h | h
    · cases h
    · exact .inr (.inl h)
    · refine .inr (.inr fun ⟨i, hi, _⟩ => ?_)
      rw [h] at hi
      cases hi
  · obtain ⟨i, rfl, rfl⟩ := hword w rfl
    refine ⟨rfl, fun h => ⟨i, rfl, checkStopAttributes_ok.mp h⟩, ?_⟩
    show (checkStopAttributes i.word).isOk = true ∨ _
    by_cases hattrs : i.attributes = stopNvAttributes
    · rw [checkStopAttributes_ok.mpr hattrs]
      exact .inl rfl
    · refine .inr (.inr fun ⟨i', hi', hattrs'⟩ => ?_)
      cases hi'
      exact hattrs hattrs'

theorem stopCounterOf_be (v : UInt64) : stopCounterOf (be v) = .ok v := by
  have hlen : (be v).length = 8 := length_be v
  rw [stopCounterOf, if_pos hlen, ofBe_be]

/-- `stop_nv_read`. -/
theorem obeys_stopNvRead (hP : P s (.command readArgs)) :
    Obeys (Sem Faulty) P stopNvRead.run
    (fun s' r => s' = s ∧ (∀ v, r = .ok v → valueOf s = some v) ∧
      (r.isOk = true ∨ Faulty ∨ valueOf s = none)) s := by
  refine obeys_tryBind ((obeys_run_shown not_writes_readArgs hP).mono (fun _ _ h => h) ?_)
  rintro s' (e | o) ⟨rfl, hshown⟩
  · obtain ⟨-, herr⟩ := hshown.read rfl
    exact ⟨rfl, fun _ h => (by cases h), herr⟩
  · obtain ⟨hread, -⟩ := hshown.read rfl
    obtain ⟨v, hv, rfl⟩ := hread o rfl
    show s' = s' ∧ (∀ v', stopCounterOf (be v) = .ok v' → _) ∧ _
    rw [stopCounterOf_be]
    exact ⟨rfl, fun v' h => (Except.ok.inj h) ▸ hv, .inl rfl⟩

/-- `stop_nv_increment`, and the first write. -/
theorem obeys_run_increment (hP : P s (.command incrementArgs)) :
    Obeys (Sem Faulty) P stopNvIncrement.run
      (fun s' r => Changed Faulty Incremented s r s') s := by
  refine obeys_tryBind (obeys_perform hP fun r s' hsem => ?_)
  have hchanged : Changed Faulty Incremented s r s' := by
    cases hsem with
    | increment h => exact h
    | define h _ => exact absurd h not_isDefine_incrementArgs
    | shown h _ => exact absurd (.inl rfl) h
  rcases r with e | o
  · exact hchanged
  · exact hchanged

theorem Changed.of_isOk {α β : Type} {change : Option Index → Option Index → Prop}
    {s' : Option Index}
    {r : Except String α} {r' : Except String β} (h : Changed Faulty change s r s')
    (hr : r.isOk = r'.isOk) : Changed Faulty change s r' s' := by
  unfold Changed
  rw [← hr]
  exact h

theorem obeys_ownerAuth (hmeta : ∀ p, P s (.metadata p)) :
    Obeys (Sem Faulty) P (ownerAuth cfg).run (fun s' a => s' = s ∧ (a.isOk = true ∨ Faulty)) s := by
  unfold ownerAuth
  rcases cfg.ownerAuthFile with _ | p
  · exact ⟨rfl, .inl rfl⟩
  · refine obeys_bind (obeys_perform (hmeta p) ?_)
    rintro (e | ⟨⟩) s' ⟨rfl, hr⟩
    · exact ⟨rfl, hr⟩
    · exact ⟨rfl, hr⟩

/-- `run_owner`, of the definition. -/
theorem obeys_runOwner_define (hP : ∀ auth, P s (.command (defineArgs ++ auth)))
    (hmeta : ∀ p, P s (.metadata p)) :
    Obeys (Sem Faulty) P (runOwner cfg defineArgs).run
      (fun s' r => Changed Faulty Defined s r s') s := by
  have hrun : ∀ auth, Obeys (Sem Faulty) P (run (defineArgs ++ auth)).run
      (fun s' r => Changed Faulty Defined s r s') s := by
    intro auth
    refine obeys_perform (hP auth) fun r s' hsem => ?_
    generalize hargs : defineArgs ++ auth = args at hsem
    cases hsem with
    | increment _ => exact absurd ⟨auth, hargs.symm⟩ not_isDefine_incrementArgs
    | define _ h => exact h
    | shown h _ => exact absurd (.inr ⟨auth, hargs.symm⟩) h
  refine obeys_tryBind ((obeys_ownerAuth hmeta).mono (fun _ _ h => h) ?_)
  rintro s' (e | auth) ⟨rfl, hr⟩
  · exact .inr ⟨rfl, rfl, hr.elim (fun h => by cases h) .inl⟩
  · refine obeys_bind ((hrun _).mono (fun _ _ h => h) fun s' r h => h.of_isOk ?_)
    rcases r with e | o <;> rfl

end Obey

end TactiqAttest.StopIndex
