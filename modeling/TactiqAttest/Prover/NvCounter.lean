import TactiqAttest.Bytes.Text
import TactiqAttest.Programs.Results
import TactiqAttest.Programs.Contract
import TactiqAttest.Programs.Interleaving
import Mathlib.Logic.Function.Basic

/-!
# Taking a value from the NV counter

The agent's epoch comes from a TPM NV counter, with the `tpm2` command line tools: it checks the
attributes of the index, increments it, and reads it back.  Each command is atomic in the TPM, and
nothing is held from one to the next, so the functions here are programs that call out, and what
other processes do to the counter happens between their calls.

## When two calls get different values

The comment of `nv_increment_and_read` says that two cycles cannot share a value even if they race.
The value a call returns is the counter at its *read*, and incrementing before reading does not make
it the call's own: two calls that both increment before either reads return the same value
(`race`).  What decides is whether the counter moved between the two reads
(`raced_values_distinct_iff`).
-/

namespace TactiqAttest.Prover

open BigEndian Labelled Programs Prog

/-! ## The index -/

/-- `DEFAULT_NV_COUNTER`. -/
def defaultNvCounter : String := "0x1500016"

/-- One digit of `u32::from_str_radix` with radix 16. -/
def hexDigit (n : ℕ) (c : Char) : Except String ℕ := do
  let d ← Except.ofOption "invalid digit found in string"
    (if '0' ≤ c ∧ c ≤ '9' then some (c.toNat - '0'.toNat)
      else if 'a' ≤ c ∧ c ≤ 'f' then some (c.toNat - 'a'.toNat + 10)
      else if 'A' ≤ c ∧ c ≤ 'F' then some (c.toNat - 'A'.toNat + 10)
      else none)
  Except.ensure (n * 16 + d < 2 ^ 32) "number too large to fit in target type"
  return n * 16 + d

/-- `u32::from_str_radix` with radix 16: digits, after at most one plus sign. -/
def fromStrRadix16 (s : List Char) : Except String ℕ :=
  match s with
  | [] => .error "cannot parse integer from empty string"
  | ['+'] => .error "invalid digit found in string"
  | '+' :: digits => digits.foldlM hexDigit 0
  | digits => digits.foldlM hexDigit 0

/-- The digits of a handle, after its prefix. -/
def stripHexPrefix : List Char → Option (List Char)
  | '0' :: 'x' :: digits => some digits
  | '0' :: 'X' :: digits => some digits
  | _ => none

/-- `parse_handle`: a handle between two bounds, in its canonical spelling. -/
def parseHandle (v : String) (lo hi : ℕ) : Except String String := do
  let digits ← Except.ofOption "handle must be hex with 0x prefix" (stripHexPrefix v.toList)
  let n ← fromStrRadix16 digits
  Except.ensure (lo ≤ n ∧ n ≤ hi) ("outside 0x" ++ Text.hex 8 lo ++ "..0x" ++ Text.hex 8 hi)
  return "0x" ++ Text.hex 0 n

/-- `handle_from_env`, given the value of the variable, if it is set. -/
def handleFromEnv (key : String) (setting : Option String) (default : String) (lo hi : ℕ) :
    Except String String :=
  let v := setting.getD default
  (parseHandle v lo hi).mapError fun e => key ++ "=" ++ v ++ ": " ++ e

/-- `nv_counter`: the index named by `TACTIQ_NV_INDEX`. -/
def nvCounter (setting : Option String) : Except String String :=
  handleFromEnv "TACTIQ_NV_INDEX" setting defaultNvCounter 0x01000000 0x01FFFFFF

/-! ## The commands -/

/-- The commands a counter value is taken with. -/
inductive NvOp
  /-- `tpm2_nvreadpublic`. -/
  | readPublic (nv : String)
  /-- `tpm2_nvincrement`. -/
  | increment (nv : String)
  /-- `tpm2_nvread -o`, and the file it wrote, read back. -/
  | read (nv : String)

/-- What a command answers, or the text of its failure: the attributes in the listing, nothing, the
contents of the file. -/
abbrev NvReply : NvOp → Type
  | .readPublic _ => Except String UInt32
  | .increment _ => Except String Unit
  | .read _ => Except String Bytes

/-- A procedure that runs commands, and stops at the first failure. -/
abbrev Nv := Fallible NvOp NvReply String

def nvReadPublic (nv : String) : Nv UInt32 := ExceptT.mk (perform (NvOp.readPublic nv))

def nvIncrement (nv : String) : Nv Unit := ExceptT.mk (perform (NvOp.increment nv))

def nvRead (nv : String) : Nv Bytes := ExceptT.mk (perform (NvOp.read nv))

/-! ## The attributes -/

def tpmaNvOrderly : UInt32 := (1 : UInt32) <<< 26
def tpmaNvTpmNtMask : UInt32 := (0xF : UInt32) <<< 4
def tpmNtCounter : UInt32 := (0x1 : UInt32) <<< 4
def tpmaNvAuthwrite : UInt32 := (1 : UInt32) <<< 2
def tpmaNvAuthread : UInt32 := (1 : UInt32) <<< 18
def tpmaNvWritten : UInt32 := (1 : UInt32) <<< 29
def counterNvAttributes : UInt32 := tpmNtCounter ||| tpmaNvAuthwrite ||| tpmaNvAuthread

/-- `COUNTER_NV_ATTRIBUTES_ARG`. -/
def counterNvAttributesArg : String := "nt=counter|authread|authwrite"

/-- `recreate_hint`. -/
def recreateHint (nv : String) : String :=
  "Recreate it: tpm2_nvundefine " ++ nv ++ " -C o; tpm2_nvdefine " ++ nv ++ " -C o -a \"" ++
    counterNvAttributesArg ++ "\"; tpm2_nvincrement " ++ nv ++ " -C " ++ nv

/-- `check_counter_attributes`: only the index the epoch scheme was written for.  An orderly counter
can roll back, and an index of another type has no order at all. -/
def checkCounterAttributes (setting : Option String) (attrs : UInt32) : Except String Unit := do
  let nv := match nvCounter setting with
    | .ok nv => nv
    | .error _ => defaultNvCounter
  let shown := "0x" ++ Text.hex 8 attrs.toNat
  Except.ensure (attrs &&& tpmaNvTpmNtMask = tpmNtCounter)
    (nv ++ " is not a counter index (attributes " ++ shown ++ ")")
  Except.ensure (attrs &&& tpmaNvOrderly = 0)
    (nv ++ " is orderly (attributes " ++ shown ++ "): its value can roll " ++
      "back after a power cut, so it cannot carry the epoch. " ++ recreateHint nv)
  Except.ensure (attrs &&& ~~~tpmaNvWritten = counterNvAttributes)
    (nv ++ " has attributes " ++ shown ++ "; the epoch counter must be exactly " ++
      "0x" ++ Text.hex 8 counterNvAttributes.toNat ++
      " (counter, authwrite, authread), plus written. " ++
      "An index from before this version is written by the owner. " ++ recreateHint nv)

/-- `verify_counter`. -/
def verifyCounter (setting : Option String) : Nv Unit := do
  let nv ← ofResult (nvCounter setting)
  let attrs ← nvReadPublic nv
  ofResult (checkCounterAttributes setting attrs)

/-- The value in the file `tpm2_nvread` wrote. -/
def counterOfFile (raw : Bytes) : Except String UInt64 :=
  if raw.length = 8 then .ok (ofBe raw)
  else .error ("counter is " ++ toString raw.length ++ " bytes, expected 8")

/-- `nv_increment_and_read`: advance the counter and return the value it then reads. -/
def nvIncrementAndRead (setting : Option String) : Nv UInt64 := do
  let nv ← ofResult (nvCounter setting)
  nvIncrement nv
  let raw ← nvRead nv
  ofResult (counterOfFile raw)

theorem counterOfFile_ok {raw : Bytes} {v : UInt64} :
    counterOfFile raw = .ok v ↔ raw.length = 8 ∧ raw = be v := by
  unfold counterOfFile
  by_cases h : raw.length = 8
  · rw [if_pos h, Except.ok.injEq]
    refine ⟨fun hv => ⟨h, ?_⟩, fun hv => ?_⟩
    · rw [← hv, be_ofBe h]
    · rw [hv.2, ofBe_be]
  · rw [if_neg h]
    exact ⟨fun hv => (by cases hv), fun hv => absurd hv.1 h⟩

/-! ## The TPM's side -/

/-- The values of the counters, by handle. -/
abbrev Counters := String → UInt64

/-- What a command does.  An increment gives the index a larger value.  A command can fail, and an
increment that is reported as failed may still have been carried out.  A file of the right size
holds the value. -/
inductive Tpm (s : Counters) : Exchange NvOp NvReply → Counters → Prop
  | readPublic {nv : String} {r : Except String UInt32} : Tpm s ⟨.readPublic nv, r⟩ s
  | increment {nv : String} {v : UInt64} {r : Except String Unit} :
      s nv < v → Tpm s ⟨.increment nv, r⟩ (Function.update s nv v)
  | incrementFailed {nv e : String} : Tpm s ⟨.increment nv, .error e⟩ s
  | read {nv : String} {raw : Bytes} :
      (raw.length = 8 → raw = be (s nv)) → Tpm s ⟨.read nv, .ok raw⟩ s
  | readFailed {nv e : String} : Tpm s ⟨.read nv, .error e⟩ s

/-- Other processes can increment the counters too; no counter ever decreases. -/
def Others (s s' : Counters) : Prop := ∀ nv, s nv ≤ s' nv

theorem others_refl (s : Counters) : Others s s := fun _ => UInt64.le_refl _

theorem others_trans {s s' s'' : Counters} (h : Others s s') (h' : Others s' s'') :
    Others s s'' :=
  fun nv => UInt64.le_trans (h nv) (h' nv)

theorem others_update {s : Counters} {nv : String} {v : UInt64} (h : s nv < v) :
    Others s (Function.update s nv v) := by
  intro nv'
  by_cases hnv : nv' = nv
  · rw [hnv, Function.update_self]
    exact UInt64.le_of_lt h
  · rw [Function.update_of_ne hnv]
    exact UInt64.le_refl _

/-- No command makes a counter decrease. -/
theorem Tpm.others {s s' : Counters} {c : Exchange NvOp NvReply} (h : Tpm s c s') :
    Others s s' := by
  cases h with
  | increment hv => exact others_update hv
  | readPublic => exact others_refl s
  | incrementFailed => exact others_refl s
  | read => exact others_refl s
  | readFailed => exact others_refl s

/-- An increment that succeeded gave the index a larger value. -/
theorem Tpm.lt_of_increment {s s' : Counters} {nv : String}
    (h : Tpm s ⟨.increment nv, .ok ()⟩ s') : s nv < s' nv := by
  cases h with
  | increment hv => rwa [Function.update_self]

/-- A read that succeeded, with a file of the right size, gave the value, and changed nothing. -/
theorem Tpm.of_read {s s' : Counters} {nv : String} {raw : Bytes}
    (h : Tpm s ⟨.read nv, .ok raw⟩ s') : s' = s ∧ (raw.length = 8 → raw = be (s nv)) := by
  cases h with
  | read hraw => exact ⟨rfl, hraw⟩

/-! ## What a call does -/

/-- A call that succeeds incremented, then read. -/
theorem yields_nvIncrementAndRead_ok {setting : Option String} {cs : List (Exchange NvOp NvReply)}
    {v : UInt64} :
    (nvIncrementAndRead setting).run.Yields cs (.ok v) ↔
      ∃ nv raw, nvCounter setting = .ok nv ∧ raw.length = 8 ∧ raw = be v ∧
        cs = [⟨.increment nv, .ok ()⟩, ⟨.read nv, .ok raw⟩] := by
  have hinc : ∀ nv cs, (nvIncrement nv).run.Yields cs (.ok ()) ↔
      cs = [⟨.increment nv, .ok ()⟩] := fun nv cs => yields_perform
  have hread : ∀ nv cs raw, (nvRead nv).run.Yields cs (.ok raw) ↔
      cs = [⟨.read nv, .ok raw⟩] := fun nv cs raw => yields_perform
  simp only [nvIncrementAndRead, yields_tryBind_ok, yields_ofResult, hinc, hread,
    counterOfFile_ok]
  refine ⟨fun h => ?_, fun h => ?_⟩
  · obtain ⟨_, _, nv, rfl, ⟨rfl, hnv⟩, _, _, _, rfl, rfl, _, _, raw, rfl, rfl, rfl, hlen, hraw⟩ := h
    exact ⟨nv, raw, hnv, hlen, hraw, rfl⟩
  · obtain ⟨nv, raw, hnv, hlen, hraw, rfl⟩ := h
    exact ⟨[], _, nv, rfl, ⟨rfl, hnv⟩, _, _, (), rfl, rfl, _, _, raw,
      (List.append_nil _).symm, rfl, rfl, hlen, hraw⟩

/-- A call on a good handle: the increment, then the read. -/
theorem run_nvIncrementAndRead {setting : Option String} {nv : String}
    (hnv : nvCounter setting = .ok nv) :
    (nvIncrementAndRead setting).run =
      .call (.increment nv) fun r => match r with
        | .error e => .ret (.error e)
        | .ok () => .call (.read nv) fun r => match r with
          | .error e => .ret (.error e)
          | .ok raw => .ret (counterOfFile raw) := by
  rw [nvIncrementAndRead, hnv]
  refine congrArg (Prog.call (NvOp.increment nv)) (funext fun r => ?_)
  rcases r with e | ⟨⟩
  · rfl
  · refine congrArg (Prog.call (NvOp.read nv)) (funext fun r => ?_)
    rcases r with e | raw
    · rfl
    · rfl

/-- How far a call can have come. -/
theorem calls_of_after {setting : Option String} {nv : String} (hnv : nvCounter setting = .ok nv)
    {cs : List (Exchange NvOp NvReply)} {q : Prog NvOp NvReply (Except String UInt64)}
    (h : (nvIncrementAndRead setting).run.After cs q) :
    cs = [] ∨ (∃ r, cs = [⟨.increment nv, r⟩]) ∨
      ∃ r, cs = [⟨.increment nv, .ok ()⟩, ⟨.read nv, r⟩] := by
  rw [run_nvIncrementAndRead hnv] at h
  rcases after_call.mp h with ⟨hcs, -⟩ | ⟨r, cs₁, hcs, h₁⟩
  · exact .inl hcs
  · rcases r with e | ⟨⟩
    · rw [(after_ret.mp h₁).1] at hcs
      exact .inr (.inl ⟨_, hcs⟩)
    · rcases after_call.mp h₁ with ⟨hcs₁, -⟩ | ⟨r, cs₂, hcs₁, h₂⟩
      · rw [hcs₁] at hcs
        exact .inr (.inl ⟨_, hcs⟩)
      · have hcs₂ : cs₂ = [] := by
          rcases r with e | raw
          · exact (after_ret.mp h₂).1
          · exact (after_ret.mp h₂).1
        rw [hcs₁, hcs₂] at hcs
        exact .inr (.inr ⟨r, hcs⟩)

/-- Nothing is called on a bad handle. -/
theorem calls_of_bad_handle {setting : Option String} {e : String}
    (hnv : nvCounter setting = .error e) {cs : List (Exchange NvOp NvReply)}
    {q : Prog NvOp NvReply (Except String UInt64)}
    (h : (nvIncrementAndRead setting).run.After cs q) : cs = [] := by
  rw [nvIncrementAndRead, hnv] at h
  exact (after_ret.mp h).1

/-- A call that has read a file of the right size returns its value. -/
theorem yields_of_read {setting : Option String} {cs : List (Exchange NvOp NvReply)}
    {q : Prog NvOp NvReply (Except String UInt64)} {nv : String} {raw : Bytes}
    (h : (nvIncrementAndRead setting).run.After cs q) (hlen : raw.length = 8)
    (hmem : ⟨.read nv, .ok raw⟩ ∈ cs) :
    (nvIncrementAndRead setting).run.Yields cs (.ok (ofBe raw)) := by
  rw [yields_nvIncrementAndRead_ok, be_ofBe hlen]
  rcases hnv : nvCounter setting with e | nv'
  · rw [calls_of_bad_handle hnv h] at hmem
    simp at hmem
  · rcases calls_of_after hnv h with hcs | ⟨r, hcs⟩ | ⟨r, hcs⟩
    · simp [hcs] at hmem
    · simp [hcs] at hmem
    · rw [hcs, List.mem_cons, List.mem_singleton] at hmem
      rcases hmem with hmem | hmem
      · cases hmem
      · cases hmem
        exact ⟨nv, raw, rfl, hlen, rfl, hcs⟩

/-! ## Racing calls -/

section Races

variable {ι : Type}

/-- Nothing that happens makes a counter decrease. -/
theorem toNat_le_of_shared (nv : String) (s : Counters) (a : Act ι NvOp NvReply Unit)
    (s' : Counters) (h : Shared Tpm (fun s _ s' => Others s s') s a s') :
    (s nv).toNat ≤ (s' nv).toNat := by
  have hothers : Others s s' := by
    cases h with
    | call hsem => exact hsem.others
    | env henv => exact henv
  exact UInt64.le_iff_toNat_le.mp (hothers nv)

variable [DecidableEq ι]

/-- Calls of `nv_increment_and_read`, one for each `i`, side by side with whatever else uses the
TPM. -/
abbrev Race (setting : Option String) (s : Counters)
    (es : List (Event Counters (Act ι NvOp NvReply Unit))) (t : Counters) : Prop :=
  Interleaving Tpm (fun s _ s' => Others s s')
    (fun _ : ι => (nvIncrementAndRead setting).run) s es t

/-- Call `i` has returned `v`. -/
def Returns (setting : Option String) (es : List (Event Counters (Act ι NvOp NvReply Unit)))
    (i : ι) (v : UInt64) : Prop :=
  (nvIncrementAndRead setting).run.Yields (callsOf i es) (.ok v)

/-- The values returned by different calls are distinct. -/
def DistinctValues (setting : Option String)
    (es : List (Event Counters (Act ι NvOp NvReply Unit))) : Prop :=
  ∀ i j, i ≠ j → ∀ v w, Returns setting es i v → Returns setting es j w → v ≠ w

/-- Here call `i` reads the counter, successfully. -/
def ReadsAt (nv : String) (i : ι) (e : Event Counters (Act ι NvOp NvReply Unit)) : Prop :=
  ∃ raw, raw.length = 8 ∧ e.label = .call i ⟨.read nv, .ok raw⟩

/-- Between the reads of two calls, the counter moved. -/
def MovesBetweenReads (es : List (Event Counters (Act ι NvOp NvReply Unit))) : Prop :=
  ∀ nv i j, i ≠ j → ∀ e m e', ReadsAt nv i e → ReadsAt nv j e' → Before es e m e' →
    ∃ d ∈ m, d.pre nv < d.post nv

variable {setting : Option String} {s t : Counters}
  {es m : List (Event Counters (Act ι NvOp NvReply Unit))}
  {e e' d : Event Counters (Act ι NvOp NvReply Unit)} {i j : ι} {nv : String} {v w : UInt64}

/-- What a call reads is the value at that point, and is what it returns. -/
theorem returns_of_readsAt (h : Race setting s es t) (he : e ∈ es) (hread : ReadsAt nv i e) :
    e.post = e.pre ∧ Returns setting es i (e.pre nv) := by
  obtain ⟨raw, hlen, hlabel⟩ := hread
  obtain ⟨hpost, hraw⟩ := ((h.run.step_of_mem he).sem_of_call hlabel).of_read
  obtain ⟨q, hafter⟩ := h.follows i
  have hyields := yields_of_read hafter hlen (mem_callsOf he hlabel)
  refine ⟨hpost, ?_⟩
  rwa [hraw hlen, ofBe_be] at hyields

/-- A call that returned did read the counter, on the handle of the setting. -/
theorem exists_readsAt (h : Returns setting es i v) :
    ∃ nv, nvCounter setting = .ok nv ∧ ∃ e ∈ es, ReadsAt nv i e := by
  obtain ⟨nv, raw, hnv, hlen, -, hcs⟩ := yields_nvIncrementAndRead_ok.mp h
  have hmem : (⟨.read nv, .ok raw⟩ : Exchange NvOp NvReply) ∈ callsOf i es := by simp [hcs]
  obtain ⟨e, he, hlabel⟩ := exists_mem_of_mem_callsOf hmem
  exact ⟨nv, hnv, e, he, raw, hlen, hlabel⟩

theorem Returns.unique (hv : Returns setting es i v) (hw : Returns setting es i w) : v = w := by
  obtain ⟨nv, raw, -, -, hraw, hcs⟩ := yields_nvIncrementAndRead_ok.mp hv
  obtain ⟨nv', raw', -, -, hraw', hcs'⟩ := yields_nvIncrementAndRead_ok.mp hw
  have hsame : raw = raw' := by
    rw [hcs] at hcs'
    simp at hcs'
    exact hcs'.2
  exact be_inj.mp (by rw [← hraw, hsame, hraw'])

/-- Where the counter moved between two reads, the later read gives a larger value. -/
theorem lt_of_moves (h : Race setting s es t) (he : ReadsAt nv i e) (hb : Before es e m e')
    (hd : d ∈ m) (hmove : d.pre nv < d.post nv) : e.pre nv < e'.pre nv := by
  have hpost := (returns_of_readsAt h hb.mem_left he).1
  have hmono := (h.run.between hb).mono_mem (f := fun s => (s nv).toNat)
    (toNat_le_of_shared nv) hd
  have hlt := UInt64.lt_iff_toNat_lt.mp hmove
  rw [hpost] at hmono
  refine UInt64.lt_iff_toNat_lt.mpr ?_
  omega

/-- The values of racing calls are distinct exactly when the counter moved between any two of their
reads. -/
theorem raced_values_distinct_iff (h : Race setting s es t) :
    DistinctValues setting es ↔ MovesBetweenReads es := by
  refine ⟨fun hdistinct nv i j hij e m e' he he' hb => ?_, fun hmoves i j hij v w hv hw => ?_⟩
  · obtain ⟨hpost, hv⟩ := returns_of_readsAt h hb.mem_left he
    obtain ⟨-, hw⟩ := returns_of_readsAt h hb.mem_right he'
    have hne : e.pre nv ≠ e'.pre nv := hdistinct i j hij _ _ hv hw
    have hrun := h.run.between hb
    rw [hpost] at hrun
    have hle : (e.pre nv).toNat ≤ (e'.pre nv).toNat :=
      hrun.mono (f := fun s => (s nv).toNat) (toNat_le_of_shared nv)
    have hlt : (e.pre nv).toNat < (e'.pre nv).toNat :=
      lt_of_le_of_ne hle fun heq => hne (UInt64.toNat_inj.mp heq)
    obtain ⟨d, hd, hmove⟩ := hrun.exists_lt (f := fun s => (s nv).toNat)
      (toNat_le_of_shared nv) hlt
    exact ⟨d, hd, UInt64.lt_iff_toNat_lt.mpr hmove⟩
  · obtain ⟨nv, hnv, e, he, hread⟩ := exists_readsAt hv
    obtain ⟨nv', hnv', e', he', hread'⟩ := exists_readsAt hw
    obtain rfl : nv = nv' := by
      rw [hnv, Except.ok.injEq] at hnv'
      exact hnv'
    have hval : v = e.pre nv := hv.unique (returns_of_readsAt h he hread).2
    have hval' : w = e'.pre nv := hw.unique (returns_of_readsAt h he' hread').2
    have hne : e ≠ e' := by
      rintro rfl
      obtain ⟨raw, -, hlabel⟩ := hread
      obtain ⟨raw', -, hlabel'⟩ := hread'
      rw [hlabel] at hlabel'
      injection hlabel' with hij'
      exact hij hij'
    rw [hval, hval']
    rcases before_or_before he he' with heq | ⟨m, hb⟩ | ⟨m, hb⟩
    · exact absurd heq hne
    · obtain ⟨d, hd, hmove⟩ := hmoves nv i j hij e m e' hread hread' hb
      exact UInt64.ne_of_lt (lt_of_moves h hread hb hd hmove)
    · obtain ⟨d, hd, hmove⟩ := hmoves nv j i (Ne.symm hij) e' m e hread' hread hb
      exact (UInt64.ne_of_lt (lt_of_moves h hread' hb hd hmove)).symm

end Races

/-! ## A race -/

/-- The counter at some value, everything else at zero. -/
def counterAt (v : UInt64) : Counters := Function.update (fun _ => 0) defaultNvCounter v

/-- Both calls increment, then both read. -/
def race : List (Event Counters (Act Bool NvOp NvReply Unit)) :=
  [⟨counterAt 1, .call false ⟨.increment defaultNvCounter, .ok ()⟩, counterAt 2⟩,
    ⟨counterAt 2, .call true ⟨.increment defaultNvCounter, .ok ()⟩, counterAt 3⟩,
    ⟨counterAt 3, .call false ⟨.read defaultNvCounter, .ok (be (3 : UInt64))⟩, counterAt 3⟩,
    ⟨counterAt 3, .call true ⟨.read defaultNvCounter, .ok (be (3 : UInt64))⟩, counterAt 3⟩]

theorem nvCounter_default : nvCounter none = .ok defaultNvCounter := by decide +kernel

theorem increment_counterAt {v w : UInt64} (h : v < w) :
    Tpm (counterAt v) ⟨.increment defaultNvCounter, .ok ()⟩ (counterAt w) := by
  have hlt : counterAt v defaultNvCounter < w := by
    rwa [counterAt, Function.update_self]
  have hstep := Tpm.increment (r := .ok ()) hlt
  rwa [counterAt, Function.update_idem] at hstep

theorem read_counterAt (v : UInt64) :
    Tpm (counterAt v) ⟨.read defaultNvCounter, .ok (be v)⟩ (counterAt v) :=
  .read fun _ => by rw [counterAt, Function.update_self]

theorem race_returns (i : Bool) : Returns none race i 3 := by
  refine yields_nvIncrementAndRead_ok.mpr ⟨defaultNvCounter, be (3 : UInt64), nvCounter_default,
    length_be _, rfl, ?_⟩
  cases i with
  | false => rfl
  | true => rfl

theorem race_interleaving : Race none (counterAt 1) race (counterAt 3) where
  run := .cons (.call (increment_counterAt (by decide)))
    (.cons (.call (increment_counterAt (by decide)))
    (.cons (.call (read_counterAt 3)) (.cons (.call (read_counterAt 3)) (.nil _))))
  follows i := ⟨_, race_returns i⟩

/-- Two calls that both increment before either reads return the same value. -/
theorem race_values_not_distinct :
    ¬ ∀ (s : Counters) (es : List (Event Counters (Act Bool NvOp NvReply Unit))) (t : Counters),
      Race none s es t → DistinctValues none es := by
  intro h
  exact h _ _ _ race_interleaving false true (by decide) 3 3 (race_returns false)
    (race_returns true) rfl

/-- The counter did not move between their reads. -/
theorem race_reads_unmoved : ¬ MovesBetweenReads race := by
  intro hmoves
  have hdistinct := (raced_values_distinct_iff race_interleaving).mpr hmoves
  exact hdistinct false true (by decide) 3 3 (race_returns false) (race_returns true) rfl

end TactiqAttest.Prover
