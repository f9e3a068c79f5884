import TactiqAttest.Prover.Agent
import TactiqAttest.Prover.Publish

/-!
# The boot log in the audit directory

`save_boot_log` copies the boot event log into the audit directory, under a name made of its digest.
The directory then holds two kinds of files under names that others read: those of envelopes, and
boot logs.  Both are written under names that end in `.part`.

The discipline of everything that works on this directory is the staging of `Files`, with `IsTemp`
and `IsPublic` for the two kinds of names.  A publication keeps to it (`safe_of_orderly`), and so
does `save_boot_log` (`obeys_storeBootLog`), which leaves the names of envelopes aside.  What the
discipline keeps says of a boot log that its name is its digest.
-/

namespace TactiqAttest.Prover.Agent

open Envelope Files Prog

variable {C : Crypto} {Left : String → Bytes → Prop} {Good : String → Bytes → Prop}
  {d d' : Disk String} {out n stem : String} {data : Bytes}

/-! ## Names -/

/-- A name of a file that is being written. -/
def IsTemp (n : String) : Prop := ".part".toList <:+ n.toList

/-- A name of a boot log. -/
def IsBootLog (n : String) : Prop := ∃ digest : String, n = "boot-" ++ digest ++ ".bios.log"

/-- A name that others read. -/
def IsPublic (n : String) : Prop := IsFinName n ∨ IsBootLog n

theorem isBootLog_bootName (C : Crypto) (data : Bytes) : IsBootLog (bootName C data) := ⟨_, rfl⟩

theorem isTemp_bootPart (n : String) : IsTemp (bootPart n) := by
  rw [IsTemp, bootPart, String.toList_append]
  exact List.suffix_append _ _

theorem isTemp_part (stem : String) (e : Ext) : IsTemp (part stem e) := by
  rw [IsTemp, part, String.toList_append]
  exact List.suffix_append _ _

theorem isTemp_of_isPartName (h : IsPartName n) : IsTemp n := by
  obtain ⟨stem, e, rfl⟩ := h
  exact isTemp_part stem e

/-- The last three characters of a name. -/
def ending (n : String) : List Char := n.toList.reverse.take 3

theorem ending_of_isTemp (h : IsTemp n) : ending n = "tra".toList := by
  obtain ⟨l, hl⟩ := h
  rw [ending, ← hl]
  simp

theorem ending_of_isBootLog (h : IsBootLog n) : ending n = "gol".toList := by
  obtain ⟨digest, rfl⟩ := h
  simp [ending, String.toList_append]

theorem ending_fin (stem : String) (e : Ext) :
    ending (fin stem e) ≠ "tra".toList ∧ ending (fin stem e) ≠ "gol".toList := by
  cases e <;> simp [ending, fin, Ext.text, String.toList_append]

theorem not_isBootLog_of_isFinName (h : IsFinName n) : ¬ IsBootLog n := by
  obtain ⟨stem, e, rfl⟩ := h
  exact fun hboot => (ending_fin stem e).2 (ending_of_isBootLog hboot)

theorem not_isBootLog_of_isTemp (h : IsTemp n) : ¬ IsBootLog n := by
  intro hboot
  have hend := ending_of_isTemp h
  rw [ending_of_isBootLog hboot] at hend
  exact absurd hend (by decide)

theorem isTemp_not_isPublic (n : String) (h : IsTemp n) : ¬ IsPublic n := by
  rintro (⟨stem, e, rfl⟩ | hboot)
  · exact (ending_fin stem e).1 (ending_of_isTemp h)
  · exact not_isBootLog_of_isTemp h hboot

/-! ## The discipline -/

variable (C) in
/-- What may be under a public name: under that of a boot log, a log that is not empty and not too
large, with the digest that is in the name. -/
def Whole (n : String) (b : Bytes) : Prop :=
  IsBootLog n → n = bootName C b ∧ b ≠ [] ∧ b.length ≤ bootLogMax

theorem whole_of_isFinName {b : Bytes} (h : IsFinName n) : Whole C n b := fun hboot =>
  absurd hboot (not_isBootLog_of_isFinName h)

variable (C) in
/-- The directory, with whole files under public names. -/
abbrev TidyAll (d : Disk String) : Prop := d.Tidy IsTemp IsPublic (Whole C)

variable (C) in
/-- A call that keeps to the discipline, moves nothing to a name of an envelope, and removes no boot
log. -/
def Aside (d : Disk String) : AuditOp → Prop
  | .file op => d.Safe IsTemp IsPublic (Whole C) op ∧
      (∀ src dst, op = .rename src dst → ¬ IsFinName dst) ∧ ∀ n, op = .remove n → ¬ IsBootLog n
  | .quote _ _ => False

/-- The directory is tidy as far as envelopes go. -/
theorem tidyDir_of_tidyAll (hd : TidyAll C d) : TidyDir (fun _ _ => True) d :=
  ⟨hd.bound, hd.unaliased, fun n f hn hf m hm n' hf' =>
      hd.temp n f (isTemp_of_isPartName hn) hf m hm n' hf',
    fun m hm n f hn hf => ⟨(hd.good m hm n f (.inl hn) hf).1, trivial⟩⟩

/-- A publication keeps to the discipline. -/
theorem safe_of_orderly {op : Files.Op String} (h : Orderly Good stem d (.file op)) :
    d.Safe IsTemp IsPublic (Whole C) op := by
  cases op with
  | create n => exact isTemp_of_isPartName h
  | createNew n => exact h.elim
  | write f b =>
    obtain ⟨n, hn, hview⟩ := h
    exact ⟨n, isTemp_of_isPartName hn, hview⟩
  | rename src dst =>
    obtain ⟨e, rfl, rfl, hready, -⟩ := h
    exact ⟨isTemp_part _ _, .inl ⟨stem, e, rfl⟩, fun f hf =>
      ⟨(hready f hf).1, whole_of_isFinName ⟨stem, e, rfl⟩⟩⟩
  | _ => trivial

/-- Listing, and removing files that are not boot logs. -/
theorem aside_of_removes {P : String → Prop} {op : AuditOp} (hP : ∀ n, P n → ¬ IsBootLog n)
    (h : Removes P op) : Aside C d op := by
  cases op with
  | quote attest sig => exact h.elim
  | file op =>
    cases op with
    | list => exact ⟨trivial, by simp, by simp⟩
    | remove n =>
      refine ⟨trivial, by simp, ?_⟩
      rintro n' ⟨⟩
      exact hP n h
    | _ => exact h.elim

/-! ## Saving a boot log -/

/-- A log to be saved has been read, is not empty and not too large. -/
theorem bootLogOf_some {src : String} {read : Except IoError (Except String Bytes)}
    (h : bootLogOf src read = .ok (some data)) :
    read = .ok (.ok data) ∧ data ≠ [] ∧ data.length ≤ bootLogMax := by
  rcases read with e | e | b
  · rw [bootLogOf] at h
    split_ifs at h
    cases h
  · cases h
  · rw [bootLogOf] at h
    split_ifs at h with hlen hempty
    · cases h
    · obtain rfl := Option.some.inj (Except.ok.inj h)
      exact ⟨rfl, hempty, Nat.le_of_not_lt hlen⟩

/-- One file operation. -/
theorem obeys_aside {what : String} {op : Files.Op String}
    {Q : Disk String → Except String (Result op) → Prop} (hd : TidyAll C d)
    (hsafe : d.Safe IsTemp IsPublic (Whole C) op)
    (hname : ∀ src dst, op = .rename src dst → ¬ IsFinName dst) (hkeep : ∀ n, op ≠ .remove n)
    (hok : ∀ a d', TidyAll C d' → d.Step op (.ok a) d' → Q d' (.ok a))
    (herr : ∀ text d', Q d' (.error text)) :
    Obeys (AuditSem Left) (Aside C) (io what op).run Q d := by
  refine ⟨⟨hsafe, hname, fun n h => absurd h (hkeep n)⟩, fun r d' hstep => ?_⟩
  rcases r with err | a
  · exact herr _ d'
  · exact hok a d' (hd.step isTemp_not_isPublic hsafe hstep) hstep

/-- A file is written under a temporary name and synced, or the procedure fails. -/
theorem obeys_writeSynced_aside {Q : Disk String → Except String Unit → Prop} (hn : IsTemp n)
    (hd : TidyAll C d) (herr : ∀ text d', Q d' (.error text))
    (hok : ∀ f d', TidyAll C d' → d'.view n = some f → d'.synced f = true → d'.data f = data →
      Q d' (.ok ())) :
    Obeys (AuditSem Left) (Aside C) (writeSynced out n data).run Q d := by
  refine obeys_tryBind (obeys_aside hd hn (by simp) (by simp) (fun f d₁ hd₁ hcreate => ?_) herr)
  -- the file is there and empty
  have hempty : d₁.view n = some f ∧ d₁.data f = [] := by
    cases hcreate with
    | made _ => exact ⟨by rw [Disk.view_make, Function.update_self], Function.update_self _ _ _⟩
    | emptied hf => exact ⟨hf, Function.update_self _ _ _⟩
  obtain ⟨hview, hdata⟩ := hempty
  refine obeys_tryBind (obeys_aside hd₁ ⟨n, hn, hview⟩ (by simp) (by simp)
    (fun _ d₂ hd₂ hwrite => ?_) herr)
  obtain rfl : d₂ = d₁.put f (d₁.data f ++ data) := by
    cases hwrite
    rfl
  refine obeys_aside hd₂ trivial (by simp) (by simp) (fun _ d₃ hd₃ hsync => ?_) herr
  obtain rfl : d₃ = (d₁.put f (d₁.data f ++ data)).flush f := by
    cases hsync
    rfl
  refine hok f _ hd₃ hview (Function.update_self _ _ _) ?_
  exact (Function.update_self _ _ _).trans (by rw [hdata, List.nil_append])

variable (C) in
/-- The log is saved: whatever a power cut leaves, it is under its name, and on the disk. -/
def Saved (d : Disk String) (data : Bytes) : Prop :=
  ∀ m, d.Image m → ∃ f, m (bootName C data) = some f ∧ d.synced f = true ∧ d.data f = data

/-- **Saving a log keeps to the discipline**; when it returns a path the log is saved, and when it
returns none a log was under that name already. -/
theorem obeys_storeBootLog (hne : data ≠ []) (hlen : data.length ≤ bootLogMax) (hd : TidyAll C d) :
    Obeys (AuditSem Left) (Aside C) (storeBootLog C out data).run
      (fun d' result => ∀ saved, result = .ok saved →
        (saved = none ∧ d' = d ∧ d.view (bootName C data) ≠ none) ∨
          (saved = some (path out (bootName C data)) ∧ Saved C d' data)) d := by
  have herr : ∀ (text : String) (d' : Disk String) (saved : Option String),
      (Except.error text : Except String (Option String)) = .ok saved →
        (saved = none ∧ d' = d ∧ d.view (bootName C data) ≠ none) ∨
          (saved = some (path out (bootName C data)) ∧ Saved C d' data) := fun _ _ _ h => by cases h
  refine obeys_tryBind (x := ExceptT.lift (file (.stat (bootName C data))))
    ⟨⟨trivial, by simp, by simp⟩, fun r d₀ hstat => ?_⟩
  rcases r with err | ⟨⟩
  swap
  · obtain ⟨rfl, hthere⟩ : d₀ = d ∧ d.view (bootName C data) ≠ none := by
      cases hstat with
      | found h => exact ⟨rfl, h⟩
    intro saved h
    cases h
    exact .inl ⟨rfl, rfl, hthere⟩
  obtain rfl : d₀ = d := by
    cases hstat with
    | failed _ => rfl
  refine obeys_tryBind (obeys_writeSynced_aside (isTemp_bootPart _) hd
    (fun text d' => herr text d') ?_)
  intro f d₁ hd₁ hview hsync hdata
  have hready : ∀ f', d₁.view (bootPart (bootName C data)) = some f' → f = f' := fun f' hf' =>
    Option.some_inj.mp (hview.symm.trans hf')
  have hrename : d₁.Safe IsTemp IsPublic (Whole C)
      (.rename (bootPart (bootName C data)) (bootName C data)) := by
    refine ⟨isTemp_bootPart _, .inr (isBootLog_bootName C data), fun f' hf' => ?_⟩
    obtain rfl := hready f' hf'
    exact ⟨hsync, fun _ => hdata.symm ▸ ⟨rfl, hne, hlen⟩⟩
  have hname : ∀ src dst, Files.Op.rename (bootPart (bootName C data)) (bootName C data) =
      .rename src dst → ¬ IsFinName dst := by
    rintro src dst ⟨⟩ hfin
    exact not_isBootLog_of_isFinName hfin (isBootLog_bootName C data)
  refine obeys_tryBind (obeys_aside hd₁ hrename hname (by simp) (fun _ d₂ hd₂ hstep => ?_)
    (fun text d' => herr text d'))
  obtain rfl : d₂ = d₁.push (.move (bootPart (bootName C data)) (bootName C data) f) := by
    cases hstep with
    | renamed hf' => rw [hready _ hf']
  refine obeys_tryBind (obeys_aside hd₂ trivial (by simp) (by simp) (fun _ d₃ hd₃ hcommit => ?_)
    (fun text d' => herr text d'))
  cases hcommit
  intro saved h
  cases h
  refine .inr ⟨rfl, fun m hm => ⟨f, ?_, hsync, hdata⟩⟩
  rw [Disk.image_commit.mp hm, Disk.view_push, Update.apply, Function.update_self]

/-- Removing what interrupted saves left. -/
theorem removeBootParts_removes (entries : List (Except IoError String)) :
    Obeys (AuditSem Left) (fun _ => Removes IsTemp) (removeBootParts out entries).run
      (fun _ _ => True) d := by
  induction entries generalizing d with
  | nil => trivial
  | cons entry entries ih =>
    refine obeys_tryBind (obeys_ofResult ?_)
    rcases entry with err | name
    · trivial
    show Obeys _ _ (ExceptT.run (if isBootPart name then _ else _)) _ _
    split_ifs with hpart
    · have htemp : IsTemp name := by
        have hsuffix := (Bool.and_eq_true _ _ ▸ hpart : _ ∧ _).2
        have hlog := List.isSuffixOf_iff_suffix.mp hsuffix
        exact List.IsSuffix.trans (by decide) hlog
      refine obeys_tryBind (obeys_bind ⟨htemp, fun r d' _ => ?_⟩)
      rcases r with err | ⟨⟩
      · trivial
      · exact ih
    · exact ih

/-- The first part of `save_boot_log`. -/
theorem bootParts_removes :
    Obeys (AuditSem Left) (fun _ => Removes IsTemp)
      (do
        let entries ← io s!"read_dir {out}" .list
        removeBootParts out entries : Audit Unit).run (fun _ _ => True) d := by
  refine obeys_tryBind (obeys_bind ⟨trivial, fun r d' _ => ?_⟩)
  rcases r with err | entries
  · trivial
  · exact removeBootParts_removes entries

end TactiqAttest.Prover.Agent
