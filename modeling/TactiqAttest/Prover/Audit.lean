import TactiqAttest.Bytes.Chars
import TactiqAttest.Files.Staging
import TactiqAttest.Lists.SortDedup
import TactiqAttest.Programs.Obligations

/-!
# The audit directory

The prover keeps its envelopes in a directory, four files each: the message, the quote, its
signature and a tag.  Three procedures work on the directory: `publish_envelope` adds an envelope,
written under `.part` names and renamed; `remove_partials` removes what an interrupted publication
left behind; and `prune_audit` removes the oldest envelopes.

They are programs of file operations.  `publish_envelope` also calls another program, `tpm2_quote`,
which writes two of the files; all that is known of it is that it works on the two names it is
given.

A publication is `Orderly`: it writes under `.part` names only, moves a file to its own envelope
name when it is complete and synced, and the tag when the other three are in every directory that a
power cut may leave.  `Effect` is all that the calls of the three procedures can do to the
directory.
-/

namespace TactiqAttest.Prover

open Files Prog

/-! ## Names -/

/-- The files of an envelope. -/
inductive Ext where
  | msg
  | attest
  | sig
  | tag
  deriving DecidableEq

/-- The extension. -/
def Ext.text : Ext → String
  | msg => "msg"
  | attest => "attest"
  | sig => "sig"
  | tag => "tag"

/-- All four, in the order they are gone through. -/
def Ext.all : List Ext := [.msg, .attest, .sig, .tag]

/-- `matches!(ext, "msg" | "attest" | "sig" | "tag")`. -/
def isEnvelopeExt (ext : List Char) : Bool := (Ext.all.map fun e => e.text.toList).contains ext

/-- The name of a file of an envelope. -/
def fin (stem : String) (e : Ext) : String := stem ++ "." ++ e.text

/-- The name of the file while it is being written. -/
def part (stem : String) (e : Ext) : String := fin stem e ++ ".part"

/-- The name of a file of an interrupted envelope. -/
def isPart (name : String) : Bool :=
  match (Chars.stripSuffix ".part".toList name.toList).bind (Chars.rsplitOnce '.') with
  | some (stem, ext) => isEnvelopeExt ext && !stem.isEmpty && stem.all Char.isDigit
  | none => false

/-! ## Calls -/

/-- What the prover calls: file operations in the audit directory, and `tpm2_quote` with the two
names it is to write. -/
inductive AuditOp where
  | file (op : Files.Op String)
  | quote (attest sig : String)

abbrev AuditReply : AuditOp → Type
  | .file op => Files.Reply op
  | .quote _ _ => Except String Unit

/-- A procedure on the audit directory. -/
abbrev Audit (α : Type) := Fallible AuditOp AuditReply String α

/-- One file operation. -/
def file (op : Files.Op String) : Prog AuditOp AuditReply (Except IoError (Result op)) :=
  perform (AuditOp.file op)

section Programs

variable (out : String)

/-- The path of a file, as it is displayed; `out` is that of the directory. -/
def path (name : String) : String := out ++ "/" ++ name

/-- One file operation; `what` names it in the text of the error. -/
def io (what : String) (op : Files.Op String) : Audit (Result op) := ExceptT.mk do
  return (← file op).mapError fun e => s!"{what}: {e.text}"

/-- `write_synced`. -/
def writeSynced (name : String) (data : Bytes) : Audit Unit := do
  let f ← io s!"create {path out name}" (.create name)
  io s!"write {path out name}" (.write f data)
  io s!"fsync {path out name}" (.sync f)

/-- `sync_file`. -/
def syncFile (name : String) : Audit Unit := do
  let f ← io s!"fsync {path out name}" (.openRead name)
  io s!"fsync {path out name}" (.sync f)

/-- `sync_dir`. -/
def syncDir : Audit Unit := io s!"fsync dir {out}" .syncDir

/-- The loop of `remove_partials`. -/
def removeEntries : List (Except IoError String) → Audit ℕ
  | [] => return 0
  | entry :: entries => do
    let name ← ofResult (entry.mapError fun e => s!"read_dir {out}: {e.text}")
    if isPart name then
      io s!"remove {path out name}" (.remove name)
      return (← removeEntries entries) + 1
    else removeEntries entries

/-- `remove_partials`. -/
def removePartials : Audit ℕ := do
  let entries ← io s!"read_dir {out}" .list
  removeEntries out entries

/-! ## Publishing -/

/-- The callback of `publish_envelope`: `tpm2_quote`, into the two files. -/
def quote (stem : String) : Audit Unit := 
  ExceptT.mk (perform (AuditOp.quote (part stem .attest) (part stem .sig)))

/-- The first half of `publish_envelope`: everything under `.part` names, synced. -/
def stage (stem : String) (msg tag : Bytes) : Audit Unit := do
  writeSynced out (part stem .msg) msg
  quote stem
  syncFile out (part stem .attest)
  syncFile out (part stem .sig)
  writeSynced out (part stem .tag) tag

/-- What `publish_envelope` does when that failed: remove what there is, errors ignored. -/
def cleanup (stem : String) : List Ext → Prog AuditOp AuditReply Unit
  | [] => return ()
  | e :: es => do
    let _ ← file (.remove (part stem e))
    cleanup stem es

/-- One rename of `publish_envelope`. -/
def moveIn (stem : String) (e : Ext) : Audit Unit :=
  io s!"rename {path out (fin stem e)}" (.rename (part stem e) (fin stem e))

/-- The second half of `publish_envelope`: the files under their own names, the tag last. -/
def install (stem : String) : Audit Unit := do
  moveIn out stem .msg
  moveIn out stem .attest
  moveIn out stem .sig
  syncDir out
  moveIn out stem .tag
  syncDir out

/-- `publish_envelope`. -/
def publishEnvelope (stem : String) (msg tag : Bytes) : Audit Unit := ExceptT.mk do
  match ← (stage out stem msg tag).run with
  | .ok () => (install out stem).run
  | .error e =>
    cleanup stem Ext.all
    return .error e

/-! ## Pruning -/

/-- The envelope a name belongs to: its number, and its stem. -/
def stemOf (name : String) : Option (ℕ × String) := do
  let (stem, ext) ← Chars.rsplitOnce '.' name.toList
  if !isEnvelopeExt ext || stem.isEmpty || !stem.all Char.isDigit then none
  else return (← Chars.parseUnsigned (2 ^ 64) stem, String.ofList stem)

/-- The order stems are sorted in: by number, then by text. -/
def stemLe (a b : ℕ × String) : Prop := a.1 < b.1 ∨ a.1 = b.1 ∧ a.2 ≤ b.2

instance : DecidableRel stemLe := fun a b =>
  inferInstanceAs (Decidable (a.1 < b.1 ∨ a.1 = b.1 ∧ a.2 ≤ b.2))

/-- `stems_to_prune`. -/
def stemsToPrune (names : List String) (keep : ℕ) : List String :=
  let stems := (names.filterMap stemOf).sortDedup stemLe
  (stems.take (stems.length - keep)).map Prod.snd

/-- The loops of `prune_audit`: a file that is not there is as good as removed. -/
def pruneFiles : List String → Audit Unit
  | [] => return ()
  | name :: names => do
    ExceptT.mk do
      match ← file (.remove name) with
      | .ok () => return .ok ()
      | .error e =>
        return if e.notFound then .ok () else .error s!"remove {path out name}: {e.text}"
    pruneFiles names

/-- `prune_audit`. -/
def pruneAudit (keep : ℕ) : Audit ℕ := do
  let entries ← io s!"read_dir {out}" .list
  let names := entries.filterMap Except.toOption
  let stems := stemsToPrune names keep
  pruneFiles out (stems.flatMap fun stem => Ext.all.map (fin stem))
  return stems.length

end Programs

/-! ## What the calls do -/

/-- A name of a file that is being written. -/
def IsPartName (n : String) : Prop := ∃ stem e, n = part stem e

/-- A name of a file of an envelope. -/
def IsFinName (n : String) : Prop := ∃ stem e, n = fin stem e

theorem part_ne_fin (stem stem' : String) (e e' : Ext) : part stem e ≠ fin stem' e' := by
  intro h
  -- the two end differently
  have hends := congrArg (fun s : String => s.toList.reverse.take 3) h
  cases e' <;> simp [part, fin, Ext.text, String.toList_append] at hends

theorem isPartName_not_isFinName (n : String) (h : IsPartName n) : ¬ IsFinName n := by
  obtain ⟨stem, e, rfl⟩ := h
  rintro ⟨stem', e', heq⟩
  exact part_ne_fin _ _ _ _ heq

theorem fin_inj {stem stem' : String} {e e' : Ext} :
    fin stem e = fin stem' e' ↔ stem = stem' ∧ e = e' := by
  refine ⟨fun h => ?_, by rintro ⟨rfl, rfl⟩; rfl⟩
  have hlists := congrArg (fun s : String => s.toList.reverse) h
  cases e <;> cases e' <;> simp [fin, Ext.text, String.toList_append] at hlists ⊢
  all_goals exact String.toList_inj.mp hlists

theorem part_inj {stem stem' : String} {e e' : Ext} :
    part stem e = part stem' e' ↔ stem = stem' ∧ e = e' := by
  refine ⟨fun h => ?_, by rintro ⟨rfl, rfl⟩; rfl⟩
  have hlists := congrArg String.toList h
  rw [part, part, String.toList_append, String.toList_append] at hlists
  exact fin_inj.mp (String.toList_inj.mp (List.append_cancel_right hlists))

/-- Moving a file to a name of an envelope does nothing to the others. -/
theorem apply_moveIn (stem : String) (e : Ext) (f : ℕ) (m : Dir String)
    (stem' : String) (e' : Ext) :
    (Update.move (part stem e) (fin stem e) f).apply m (fin stem' e') =
      if stem' = stem ∧ e' = e then some f else m (fin stem' e') := by
  rw [Update.apply]
  split_ifs with heq
  · rw [heq.1, heq.2, Function.update_self]
  · rw [Function.update_of_ne (fun h => heq (fin_inj.mp h)),
      Function.update_of_ne (part_ne_fin stem stem' e e').symm]

variable {Left Good : String → Bytes → Prop} {stem : String} {d d' : Disk String}

variable (Left) in
/-- What a call does.  `tpm2_quote` works on the two names it is given; when it succeeds, it has
left a content in `Left` under each. -/
def AuditSem (d : Disk String) : Exchange AuditOp AuditReply → Disk String → Prop
  | ⟨.file op, r⟩, d' => d.Step op r d'
  | ⟨.quote attest sig, r⟩, d' => Disk.Works (fun n => n = attest ∨ n = sig) d d' ∧
      (r = .ok () → ∀ n, n = attest ∨ n = sig → ∀ f, d'.view n = some f → Left n (d'.data f))

/-- The directory, with complete contents under the names of envelopes. -/
abbrev TidyDir (Good : String → Bytes → Prop) (d : Disk String) : Prop :=
  d.Tidy IsPartName IsFinName Good

variable (Good stem) in
/-- The calls of the publication of an envelope, and of the cleaning up after one: `.part` names are
written and removed; a file is moved to its own envelope name when it is complete and synced, and
the tag when the other three are in every directory that a power cut may leave; the directory is
synced when the three are in it. -/
def Orderly (d : Disk String) : AuditOp → Prop
  | .file (.create n) => IsPartName n
  | .file (.createNew _) => False
  | .file (.write f _) => ∃ n, IsPartName n ∧ d.view n = some f
  | .file (.remove n) => IsPartName n
  | .file (.rename src dst) => ∃ e, src = part stem e ∧ dst = fin stem e ∧
      (∀ f, d.view src = some f → d.synced f = true ∧ Good dst (d.data f)) ∧
      (e = .tag → ∀ m, d.Image m → ∀ e', e' ≠ .tag → m (fin stem e') ≠ none)
  | .file .syncDir => ∀ e, e ≠ .tag → d.view (fin stem e) ≠ none
  | .file _ => True
  | .quote attest sig => attest = part stem .attest ∧ sig = part stem .sig

/-- The calls that clean the directory up: it is listed, and files under names of `P` are
removed. -/
def Removes (P : String → Prop) : AuditOp → Prop
  | .file .list => True
  | .file (.remove n) => P n
  | _ => False

theorem Orderly.safe {op : Files.Op String} (h : Orderly Good stem d (.file op)) :
    d.Safe IsPartName IsFinName Good op := by
  cases op with
  | create n => exact h
  | createNew n => exact h.elim
  | write f b => exact h
  | rename src dst =>
    obtain ⟨e, rfl, rfl, hready, -⟩ := h
    exact ⟨⟨stem, e, rfl⟩, ⟨stem, e, rfl⟩, hready⟩
  | sync f => trivial
  | openRead n => trivial
  | read n => trivial
  | stat n => trivial
  | remove n => trivial
  | syncDir => trivial
  | list => trivial

/-- Such a call keeps the directory tidy. -/
theorem tidy_of_orderly {op : AuditOp} {r : AuditReply op} (hd : TidyDir Good d)
    (hop : Orderly Good stem d op) (hsem : AuditSem Left d ⟨op, r⟩ d') : TidyDir Good d' := by
  cases op with
  | file op => exact hd.step isPartName_not_isFinName hop.safe hsem
  | quote attest sig =>
    obtain ⟨rfl, rfl⟩ := hop
    refine Disk.Tidy.works isPartName_not_isFinName ?_ hd hsem.1
    rintro n (rfl | rfl)
    · exact ⟨stem, .attest, rfl⟩
    · exact ⟨stem, .sig, rfl⟩

theorem tidy_of_removes {P : String → Prop} {op : AuditOp} {r : AuditReply op} (hd : TidyDir Good d)
    (hop : Removes P op) (hsem : AuditSem Left d ⟨op, r⟩ d') : TidyDir Good d' := by
  have hsafe : ∀ fop : Files.Op String, Removes P (.file fop) →
      d.Safe IsPartName IsFinName Good fop := by
    intro fop h
    cases fop with
    | list => trivial
    | remove n => trivial
    | _ => exact h.elim
  cases op with
  | file op => exact hd.step isPartName_not_isFinName (hsafe op hop) hsem
  | quote attest sig => exact hop.elim

/-- What a call can do to the directory: it changes `.part` names only, or moves a file in, or syncs
the directory, or removes a file of an envelope. -/
inductive Effect (d : Disk String) : Exchange AuditOp AuditReply → Disk String → Prop
  | inside {c : Exchange AuditOp AuditReply} {d' : Disk String} (h : d.Within IsPartName d')
      (hc : c ≠ ⟨.file .syncDir, .ok ()⟩) : Effect d c d'
  | moved {stem : String} {e : Ext} {f : ℕ}
      (htag : e = .tag → ∀ m, d.Image m → ∀ e', e' ≠ .tag → m (fin stem e') ≠ none) :
      Effect d ⟨.file (.rename (part stem e) (fin stem e)), .ok ()⟩
        (d.push (.move (part stem e) (fin stem e) f))
  | synced : Effect d ⟨.file .syncDir, .ok ()⟩ d.commit
  | removed {stem : String} {e : Ext} :
      Effect d ⟨.file (.remove (fin stem e)), .ok ()⟩ (d.push (.unlink (fin stem e)))

theorem Orderly.effect {op : AuditOp} {r : AuditReply op} (hop : Orderly Good stem d op)
    (hsem : AuditSem Left d ⟨op, r⟩ d') : Effect d ⟨op, r⟩ d' := by
  cases op with
  | quote attest sig =>
    obtain ⟨rfl, rfl⟩ := hop
    refine .inside (hsem.1.within.mono ?_) (fun h => by cases h)
    rintro n (rfl | rfl)
    · exact ⟨stem, .attest, rfl⟩
    · exact ⟨stem, .sig, rfl⟩
  | file op =>
    cases hsem with
    | made _ => exact .inside (Disk.within_link hop) (fun h => by cases h)
    | emptied _ => exact .inside Disk.within_put (fun h => by cases h)
    | madeNew _ => exact hop.elim
    | written => exact .inside Disk.within_put (fun h => by cases h)
    | cutShort _ _ => exact .inside Disk.within_put (fun h => by cases h)
    | synced => exact .inside Disk.within_flush (fun h => by cases h)
    | renamed _ =>
      obtain ⟨e, rfl, rfl, -, htag⟩ := hop
      exact .moved htag
    | removed _ => exact .inside (Disk.within_unlink hop) (fun h => by cases h)
    | committed => exact .synced
    | opened _ => exact .inside (Disk.Within.refl d) (fun h => by cases h)
    | read _ => exact .inside (Disk.Within.refl d) (fun h => by cases h)
    | found _ => exact .inside (Disk.Within.refl d) (fun h => by cases h)
    | listed _ => exact .inside (Disk.Within.refl d) (fun h => by cases h)
    | failed _ => exact .inside (Disk.Within.refl d) (fun h => by cases h)

/-- Listing and removing a name of one of the two kinds. -/
theorem Removes.effect {P : String → Prop} {op : AuditOp} {r : AuditReply op}
    (hP : ∀ n, P n → IsPartName n ∨ IsFinName n) (hop : Removes P op)
    (hsem : AuditSem Left d ⟨op, r⟩ d') : Effect d ⟨op, r⟩ d' := by
  cases op with
  | quote attest sig => exact hop.elim
  | file op =>
    cases hsem with
    | listed _ => exact .inside (Disk.Within.refl d) (fun h => by cases h)
    | failed _ => exact .inside (Disk.Within.refl d) (fun h => by cases h)
    | @removed n _ =>
      rcases hP n hop with hpart | ⟨stem, e, rfl⟩
      · exact .inside (Disk.within_unlink hpart) (fun h => by cases h)
      · exact .removed
    | _ => exact hop.elim

end TactiqAttest.Prover
