import TactiqAttest.Prover.Publish
import TactiqAttest.Runs.Labelled

/-!
# Runs of the prover on the audit directory

The prover runs one job after another on the audit directory.  Between any two calls it may be
killed, and power may be cut.  `Live` is a step of this.

`Kept` holds throughout every run that starts with a directory without envelopes (`kept_of_run`):
the directory is tidy, with the contents that the publications of the run wrote (`Written`), and
what runs obeys the discipline of its job.  From it:

* `envelope_files_complete`: what is under a name of an envelope is complete, and after a
  publication has returned, it is there for good, until pruning removes it;
* `tagged_envelope_whole`: as long as pruning removes nothing of an envelope whose tag is there, a
  tag comes with the other three files.
-/

namespace TactiqAttest.Prover

open Files Prog Labelled

/-! ## The prover and its directory -/

/-- What the prover does in the audit directory. -/
inductive Job where
  | removePartials
  | publish (stem : String) (msg tag : Bytes)
  | prune (keep : ℕ)

/-- What a job returns. -/
abbrev Job.Value : Job → Type
  | .publish _ _ _ => Unit
  | .removePartials | .prune _ => ℕ

/-- The procedure. -/
def Job.program (out : String) : (j : Job) → Prog AuditOp AuditReply (Except String j.Value)
  | .removePartials => (Prover.removePartials out).run
  | .publish stem msg tag => (publishEnvelope out stem msg tag).run
  | .prune keep => (pruneAudit out keep).run

/-- The directory, and what is left to do of the job that is running. -/
structure AuditWorld where
  disk : Disk String
  running : Option ((j : Job) × Prog AuditOp AuditReply (Except String j.Value))

/-- What happens. -/
inductive Happening where
  | start (j : Job)
  | call (c : Exchange AuditOp AuditReply)
  | finish (j : Job) (result : Except String j.Value)
  | kill
  | cut

/-- One step: a job starts, makes a call or returns; the prover is killed; power is cut. -/
inductive Live (out : String) : AuditWorld → Happening → AuditWorld → Prop
  | start (d : Disk String) (j : Job) :
      Live out ⟨d, none⟩ (.start j) ⟨d, some ⟨j, j.program out⟩⟩
  | call {d d' : Disk String} {j : Job} {op : AuditOp} {r : AuditReply op}
      {next : AuditReply op → Prog AuditOp AuditReply (Except String j.Value)}
      (h : AuditSem (fun _ _ => True) d ⟨op, r⟩ d') :
      Live out ⟨d, some ⟨j, .call op next⟩⟩ (.call ⟨op, r⟩) ⟨d', some ⟨j, next r⟩⟩
  | finish (d : Disk String) (j : Job) (result : Except String j.Value) :
      Live out ⟨d, some ⟨j, .ret result⟩⟩ (.finish j result) ⟨d, none⟩
  | kill (w : AuditWorld) : Live out w .kill ⟨w.disk, none⟩
  | cut {w : AuditWorld} {d' : Disk String} (h : w.disk.Cut d') : Live out w .cut ⟨d', none⟩

/-- The transitions of a run. -/
abbrev Events := List (Event AuditWorld Happening)

/-- A directory that has never held an envelope. -/
structure Fresh (d : Disk String) : Prop where
  bound : ∀ m, d.Image m → ∀ n f, m n = some f → f < d.next
  unaliased : ∀ m, d.Image m → ∀ n n' f, m n = some f → m n' = some f → n = n'
  none : ∀ m, d.Image m → ∀ n, IsPartName n ∨ IsFinName n → m n = none

theorem fresh_empty : Fresh Disk.empty := by
  constructor
  · intro m hm n f hf
    rw [Disk.image_empty hm n] at hf
    cases hf
  · intro m hm n n' f hf
    rw [Disk.image_empty hm n] at hf
    cases hf
  · intro m hm n _
    exact Disk.image_empty hm n

/-! ## What the publications of a run wrote -/

/-- A job is started. -/
def Starts (es : Events) (j : Job) : Prop := ∃ ev ∈ es, ev.label = .start j

/-- A publication of the envelope calls `tpm2_quote` with success, and this is under a name then. -/
def Quoted (es : Events) (stem n : String) (b : Bytes) : Prop :=
  ∃ ev ∈ es, ∃ msg tag p, ev.pre.running = some ⟨.publish stem msg tag, p⟩ ∧
    ev.label = .call ⟨.quote (part stem .attest) (part stem .sig), .ok ()⟩ ∧
    ∃ f, ev.post.disk.view n = some f ∧ ev.post.disk.data f = b

/-- The bytes a publication wrote as a file of the envelope: its message, its tag, or what the
successful quote left. -/
def Written (es : Events) (stem : String) : Ext → Bytes → Prop
  | .msg, b => ∃ tag, Starts es (.publish stem b tag)
  | .tag, b => ∃ msg, Starts es (.publish stem msg b)
  | .attest, b => Quoted es stem (part stem .attest) b
  | .sig, b => Quoted es stem (part stem .sig) b

/-- The same by name. -/
def WrittenAs (es : Events) (n : String) (b : Bytes) : Prop :=
  ∃ stem e, n = fin stem e ∧ Written es stem e b

/-- What successful quotes of the run left. -/
def LeftBy (es : Events) (n : String) (b : Bytes) : Prop :=
  ∃ stem e, n = part stem e ∧ Quoted es stem n b

theorem writtenAs_fin {es : Events} {stem : String} {e : Ext} {b : Bytes} :
    WrittenAs es (fin stem e) b ↔ Written es stem e b := by
  constructor
  · rintro ⟨stem', e', heq, h⟩
    obtain ⟨rfl, rfl⟩ := fin_inj.mp heq
    exact h
  · exact fun h => ⟨stem, e, rfl, h⟩

/-! ## What is kept -/

/-- What the discipline of a job allows. -/
def Allowed (Good : String → Bytes → Prop) : Job → Disk String → AuditOp → Prop
  | .publish stem _ _, d, op => Orderly Good stem d op
  | .removePartials, _, op => Removes IsPartName op
  | .prune _, _, op => Removes IsFinName op

/-- What holds when a job returns. -/
def Done : (j : Job) → Disk String → Except String j.Value → Prop
  | .publish stem _ _, d, result => result = .ok () → ∀ m, d.Image m → ∀ e, m (fin stem e) ≠ none
  | .removePartials, _, _ | .prune _, _, _ => True

/-- What holds throughout a run with these transitions. -/
structure Kept (es : Events) (w : AuditWorld) : Prop where
  tidy : TidyDir (WrittenAs es) w.disk
  started : ∀ j p, w.running = some ⟨j, p⟩ → Starts es j
  obeys : ∀ j p, w.running = some ⟨j, p⟩ →
    Obeys (AuditSem (LeftBy es)) (Allowed (WrittenAs es) j) p (Done j) w.disk

variable {Left Good : String → Bytes → Prop} {out : String} {es : Events} {d d' : Disk String}
  {w w' : AuditWorld} {a : Happening} {j : Job}

theorem contents_of_starts {stem : String} {msg tag : Bytes}
    (h : Starts es (.publish stem msg tag)) : Contents (LeftBy es) (WrittenAs es) stem msg tag := by
  have hleft : ∀ e b, LeftBy es (part stem e) b → Quoted es stem (part stem e) b := by
    rintro e b ⟨stem', e', heq, hq⟩
    obtain ⟨rfl, rfl⟩ := part_inj.mp heq
    exact hq
  constructor
  · exact writtenAs_fin.mpr ⟨tag, h⟩
  · exact fun b hb => writtenAs_fin.mpr (hleft .attest b hb)
  · exact fun b hb => writtenAs_fin.mpr (hleft .sig b hb)
  · exact writtenAs_fin.mpr ⟨msg, h⟩

/-- Every job keeps to its discipline. -/
theorem program_obeys (hstart : Starts es j) (hd : TidyDir (WrittenAs es) d) :
    Obeys (AuditSem (LeftBy es)) (Allowed (WrittenAs es) j) (j.program out) (Done j) d := by
  cases j with
  | removePartials => exact removePartials_removes
  | publish stem msg tag => exact publish_orderly (contents_of_starts hstart) hd
  | prune keep => exact pruneAudit_removes keep

theorem Allowed.tidy {op : AuditOp} {r : AuditReply op} (h : Allowed Good j d op)
    (hd : TidyDir Good d) (hsem : AuditSem Left d ⟨op, r⟩ d') : TidyDir Good d' := by
  cases j with
  | removePartials => exact tidy_of_removes hd h hsem
  | publish stem msg tag => exact tidy_of_orderly hd h hsem
  | prune keep => exact tidy_of_removes hd h hsem

theorem Allowed.effect {op : AuditOp} {r : AuditReply op} (h : Allowed Good j d op)
    (hsem : AuditSem Left d ⟨op, r⟩ d') : Effect d ⟨op, r⟩ d' := by
  cases j with
  | removePartials => exact Removes.effect (fun _ hn => .inl hn) h hsem
  | publish stem msg tag => exact Orderly.effect h hsem
  | prune keep => exact Removes.effect (fun _ hn => .inr hn) h hsem

/-- What a successful quote of the run leaves is what successful quotes of the run left. -/
theorem sem_of_mem {op : AuditOp} {r : AuditReply op}
    {next : AuditReply op → Prog AuditOp AuditReply (Except String j.Value)} {w' : AuditWorld}
    (hmem : ⟨⟨d, some ⟨j, .call op next⟩⟩, .call ⟨op, r⟩, w'⟩ ∈ es) (h : Allowed Good j d op)
    (hsem : AuditSem (fun _ _ => True) d ⟨op, r⟩ w'.disk) :
    AuditSem (LeftBy es) d ⟨op, r⟩ w'.disk := by
  cases op with
  | file op => exact hsem
  | quote attest sig =>
    cases j with
    | removePartials => exact h.elim
    | prune keep => exact h.elim
    | publish stem msg tag =>
      obtain ⟨rfl, rfl⟩ := h
      refine ⟨hsem.1, ?_⟩
      rintro rfl n hn f hf
      have hquoted : Quoted es stem n (w'.disk.data f) :=
        ⟨_, hmem, msg, tag, _, rfl, rfl, f, hf, rfl⟩
      rcases hn with rfl | rfl
      · exact ⟨stem, .attest, rfl, hquoted⟩
      · exact ⟨stem, .sig, rfl, hquoted⟩

/-- Nothing is running. -/
theorem kept_idle (hd : TidyDir (WrittenAs es) w.disk) (hidle : w.running = none) : Kept es w := by
  refine ⟨hd, ?_, ?_⟩
  · intro j p hp
    rw [hidle] at hp
    cases hp
  · intro j p hp
    rw [hidle] at hp
    cases hp

theorem Kept.step (h : Kept es w) (hstep : Live out w a w') (hmem : ⟨w, a, w'⟩ ∈ es) :
    Kept es w' := by
  cases hstep with
  | start d j =>
    have hstart : Starts es j := ⟨_, hmem, rfl⟩
    refine ⟨h.tidy, ?_, ?_⟩
    · rintro j p ⟨⟩
      exact hstart
    · rintro j p ⟨⟩
      exact program_obeys hstart h.tidy
  | call hsem =>
    have hobeys := h.obeys _ _ rfl
    have hsem := sem_of_mem hmem hobeys.1 hsem
    refine ⟨hobeys.1.tidy h.tidy hsem, ?_, ?_⟩
    · rintro j p ⟨⟩
      exact h.started _ _ rfl
    · rintro j p ⟨⟩
      exact hobeys.call hsem
  | finish d j result => exact kept_idle h.tidy rfl
  | kill w => exact kept_idle h.tidy rfl
  | cut hcut => exact kept_idle (h.tidy.cut hcut) rfl

variable {s t : AuditWorld}

/-- **What is kept holds throughout every run** that starts with a directory without envelopes. -/
theorem kept_of_run (hfresh : Fresh s.disk) (hidle : s.running = none)
    (hrun : Run (Live out) s es t) : Kept es t ∧ ∀ ev ∈ es, Kept es ev.pre ∧ Kept es ev.post := by
  refine hrun.invariant_mem (fun ev hev hstep h => h.step hstep hev) (kept_idle ?_ hidle)
  exact Disk.Tidy.of_none hfresh.bound hfresh.unaliased hfresh.none

/-- What one step can do to the directory. -/
theorem Kept.cases (h : Kept es w) (hstep : Live out w a w') :
    w'.disk = w.disk ∨ (∃ c, a = .call c ∧ Effect w.disk c w'.disk) ∨ w.disk.Cut w'.disk := by
  cases hstep with
  | start d j => exact .inl rfl
  | call hsem => exact .inr (.inl ⟨_, rfl, (h.obeys _ _ rfl).1.effect hsem⟩)
  | finish d j result => exact .inl rfl
  | kill w => exact .inl rfl
  | cut hcut => exact .inr (.inr hcut)

/-! ## What stays in the directory -/

/-- What is in every directory that a power cut may leave stays so, unless it is removed. -/
theorem Effect.keeps {c : Exchange AuditOp AuditReply} {stem : String} {e : Ext}
    (h : Effect d c d') (hremove : c ≠ ⟨.file (.remove (fin stem e)), .ok ()⟩)
    (hall : ∀ m, d.Image m → m (fin stem e) ≠ none) :
    ∀ m, d'.Image m → m (fin stem e) ≠ none := by
  intro m hm
  cases h with
  | inside hwithin _ =>
    obtain ⟨m', hm', heq⟩ := hwithin.image hm
    rw [heq _ fun hpart => isPartName_not_isFinName _ hpart ⟨stem, e, rfl⟩]
    exact hall m' hm'
  | moved _ =>
    rcases Disk.image_push.mp hm with hm | ⟨m', hm', rfl⟩
    · exact hall m hm
    · rw [apply_moveIn]
      split_ifs
      · exact Option.some_ne_none _
      · exact hall m' hm'
  | synced =>
    rw [Disk.image_commit.mp hm]
    exact hall _ (Disk.image_view d)
  | @removed stem' e' =>
    have hne : fin stem e ≠ fin stem' e' := fun heq => hremove (by rw [heq])
    rcases Disk.image_push.mp hm with hm | ⟨m', hm', rfl⟩
    · exact hall m hm
    · rw [Update.apply, Function.update_of_ne hne]
      exact hall m' hm'

theorem Kept.keeps {stem : String} {e : Ext} (h : Kept es w) (hstep : Live out w a w')
    (hremove : a ≠ .call ⟨.file (.remove (fin stem e)), .ok ()⟩)
    (hall : ∀ m, w.disk.Image m → m (fin stem e) ≠ none) :
    ∀ m, w'.disk.Image m → m (fin stem e) ≠ none := by
  rcases h.cases hstep with heq | ⟨c, rfl, heff⟩ | hcut
  · rwa [heq]
  · exact heff.keeps (fun hc => hremove (by rw [hc])) hall
  · intro m hm
    rw [(hcut.image.2 m).mp hm]
    exact hall _ hcut.image.1

/-! ## Running a job -/

/-- The calls of a job that has just been started are steps of the prover. -/
theorem run_of_calls (out : String) {cs : List (Exchange AuditOp AuditReply)}
    {p q : Prog AuditOp AuditReply (Except String j.Value)} (hafter : After p cs q)
    (hperf : Performs (AuditSem fun _ _ => True) d cs d') :
    ∃ es, Run (Live out) ⟨d, some ⟨j, p⟩⟩ es ⟨d', some ⟨j, q⟩⟩ ∧
      es.map Event.label = cs.map .call := by
  induction hafter generalizing d with
  | here p =>
    cases hperf
    exact ⟨[], .nil _, rfl⟩
  | @call op next r cs q _ ih =>
    rcases hperf with _ | ⟨hsem, hperf⟩
    obtain ⟨es, hrun, hlabels⟩ := ih hperf
    exact ⟨_, .cons (.call hsem) hrun, by simp [hlabels]⟩

theorem run_of_start (out : String) {cs : List (Exchange AuditOp AuditReply)}
    {q : Prog AuditOp AuditReply (Except String j.Value)} (hafter : After (j.program out) cs q)
    (hperf : Performs (AuditSem fun _ _ => True) d cs d') :
    ∃ es, Run (Live out) ⟨d, none⟩ es ⟨d', some ⟨j, q⟩⟩ ∧
      es.map Event.label = .start j :: cs.map .call := by
  obtain ⟨es, hrun, hlabels⟩ := run_of_calls out hafter hperf
  exact ⟨_, .cons (.start d j) hrun, by simp [hlabels]⟩

/-- Calls that do not fail; `tpm2_quote` writes one byte to each of its files. -/
def sampleMachine (d : Disk String) : (op : AuditOp) → AuditReply op × Disk String
  | .file op => d.serve op
  | .quote attest sig =>
    if d.view attest = none ∧ (d.make attest).view sig = none then
      (.ok (), (((d.make attest).put d.next [1]).make sig).put (d.next + 1) [2])
    else (.error "the files exist", d)

theorem sampleMachine_possible (d : Disk String) (op : AuditOp) :
    AuditSem (fun _ _ => True) d ⟨op, (sampleMachine d op).1⟩ (sampleMachine d op).2 := by
  cases op with
  | file op => exact d.step_serve op
  | quote attest sig =>
    rw [sampleMachine]
    split_ifs with h
    · refine ⟨?_, fun _ _ _ _ _ => trivial⟩
      refine .make (.inl rfl) h.1 (.put (.inl rfl) ?_ (.make (.inr rfl) h.2 (.put (.inr rfl) ?_
        (.none _))))
      · rw [Disk.view_make, Function.update_self]
      · rw [Disk.view_make, Function.update_self]
        rfl
    · exact ⟨.none d, fun h => by cases h⟩

/-- An envelope is published in an empty directory. -/
def samplePublished : List (Exchange AuditOp AuditReply) × Disk String ×
    Prog AuditOp AuditReply (Except String Unit) :=
  runFor sampleMachine 17 (publishEnvelope "audit" "1" [7] [8]).run Disk.empty

theorem samplePublished_done : samplePublished.2.2 = .ret (.ok ()) := by rfl

theorem sample_run : ∃ es, Run (Live "audit") ⟨Disk.empty, none⟩ es
      ⟨samplePublished.2.1, some ⟨.publish "1" [7] [8], .ret (.ok ())⟩⟩ ∧
    es.map Event.label = .start (.publish "1" [7] [8]) :: samplePublished.1.map .call := by
  obtain ⟨hafter, hperf⟩ := runFor_possible sampleMachine_possible 17
    (publishEnvelope "audit" "1" [7] [8]).run Disk.empty
  have hafter : After (Job.program "audit" (.publish "1" [7] [8])) samplePublished.1
      (.ret (.ok ())) := samplePublished_done ▸ hafter
  exact run_of_start "audit" hafter hperf

/-- **What is under a name of an envelope is complete**, and once a publication has returned without
an error, each of its files is there and complete whenever power is cut, until it is removed. -/
theorem envelope_files_complete (hfresh : Fresh s.disk) (hidle : s.running = none)
    (hrun : Run (Live out) s es t) :
    (∀ stem e f, t.disk.view (fin stem e) = some f → Written es stem e (t.disk.data f)) ∧
    ∀ l r w w' stem msg tag,
      es = l ++ ⟨w, .finish (.publish stem msg tag) (.ok ()), w'⟩ :: r →
      ∀ e, (∀ ev ∈ r, ev.label ≠ .call ⟨.file (.remove (fin stem e)), .ok ()⟩) →
      ∀ d', t.disk.Cut d' → ∃ f, d'.view (fin stem e) = some f ∧ Written es stem e (d'.data f) := by
  have hcomplete : ∀ d : Disk String, TidyDir (WrittenAs es) d → ∀ stem e f,
      d.view (fin stem e) = some f → Written es stem e (d.data f) := fun d hd stem e f hf =>
    writtenAs_fin.mp (hd.good _ (Disk.image_view d) _ f ⟨stem, e, rfl⟩ hf).2
  obtain ⟨hkept, hall⟩ := kept_of_run hfresh hidle hrun
  refine ⟨hcomplete t.disk hkept.tidy, ?_⟩
  rintro l r w w' stem msg tag rfl e hremove d' hcut
  obtain ⟨-, hfinish, hrest⟩ := hrun.around
  -- when the publication returned, the file was in every image
  have hthen : ∀ m, w'.disk.Image m → m (fin stem e) ≠ none := by
    have hw := (hall ⟨w, .finish (.publish stem msg tag) (.ok ()), w'⟩ (by simp)).1
    cases hfinish with
    | finish d _ _ => exact fun m hm => hw.obeys _ _ rfl rfl m hm e
  have hnow := (hrest.invariant_mem (I := fun v => ∀ m, v.disk.Image m → m (fin stem e) ≠ none)
    (fun ev hev hstep => (hall ev (by simp [hev])).1.keeps hstep (hremove ev hev)) hthen).1
  obtain ⟨f, hf⟩ := Option.ne_none_iff_exists'.mp (hnow _ hcut.image.1)
  exact ⟨f, hf, hcomplete d' (hkept.tidy.cut hcut) stem e f hf⟩

theorem envelope_files_complete_sample : ∃ es t, Run (Live "audit") ⟨Disk.empty, none⟩ es t ∧
    ∀ e d', t.disk.Cut d' → ∃ f, d'.view (fin "1" e) = some f ∧ Written es "1" e (d'.data f) := by
  obtain ⟨es, hrun, -⟩ := sample_run
  have hfinish : Run (Live "audit") _ [_] _ :=
    .cons (.finish samplePublished.2.1 (.publish "1" [7] [8]) (.ok ())) (.nil _)
  have hrun := Run.append_iff.mpr ⟨_, hrun, hfinish⟩
  refine ⟨_, _, hrun, fun e d' hcut => ?_⟩
  have hnone : ∀ ev ∈ ([] : Events), ev.label ≠ .call ⟨.file (.remove (fin "1" e)), .ok ()⟩ :=
    fun _ hev => by cases hev
  exact (envelope_files_complete fresh_empty rfl hrun).2 _ [] _ _ "1" [7] [8] rfl e hnone d' hcut

/-! ## Tagged envelopes -/

/-- A tag comes with the other files in every directory that a power cut may leave, and it is there
now if it is in one of these. -/
structure Whole (d : Disk String) : Prop where
  rest : ∀ m, d.Image m → ∀ stem, m (fin stem .tag) ≠ none → ∀ e, m (fin stem e) ≠ none
  now : ∀ m, d.Image m → ∀ stem, m (fin stem .tag) ≠ none → d.view (fin stem .tag) ≠ none

theorem Whole.inside (h : Whole d) (hwithin : d.Within IsPartName d') : Whole d' := by
  have hfin : ∀ stem e, ¬ IsPartName (fin stem e) := fun stem e hpart =>
    isPartName_not_isFinName _ hpart ⟨stem, e, rfl⟩
  constructor
  · intro m hm stem htag e
    obtain ⟨m', hm', heq⟩ := hwithin.image hm
    rw [heq _ (hfin stem _)] at htag ⊢
    exact h.rest m' hm' stem htag e
  · intro m hm stem htag
    obtain ⟨m', hm', heq⟩ := hwithin.image hm
    rw [heq _ (hfin stem _)] at htag
    rw [hwithin.view (hfin stem _)]
    exact h.now m' hm' stem htag

/-- A file is moved in, the tag when the other three are there whatever is lost. -/
theorem Whole.moved {stem : String} {e : Ext} {f : ℕ} (h : Whole d)
    (htag : e = .tag → ∀ m, d.Image m → ∀ e', e' ≠ .tag → m (fin stem e') ≠ none) :
    Whole (d.push (.move (part stem e) (fin stem e) f)) := by
  have hview : ∀ stem', d.view (fin stem' .tag) ≠ none →
      (d.push (.move (part stem e) (fin stem e) f)).view (fin stem' .tag) ≠ none := by
    intro stem' hold
    rw [Disk.view_push, apply_moveIn]
    split_ifs
    · exact Option.some_ne_none f
    · exact hold
  constructor
  · intro m hm stem' hin e'
    rcases Disk.image_push.mp hm with hm | ⟨m', hm', rfl⟩
    · exact h.rest m hm stem' hin e'
    · rw [apply_moveIn] at hin ⊢
      split_ifs with hmoved
      · exact Option.some_ne_none f
      split_ifs at hin with hismoved
      · obtain ⟨rfl, rfl⟩ := hismoved
        exact htag rfl m' hm' e' fun he' => hmoved ⟨rfl, he'⟩
      · exact h.rest m' hm' stem' hin e'
  · intro m hm stem' hin
    rcases Disk.image_push.mp hm with hm | ⟨m', hm', rfl⟩
    · exact hview stem' (h.now m hm stem' hin)
    · rw [apply_moveIn] at hin
      split_ifs at hin with hismoved
      · obtain ⟨rfl, rfl⟩ := hismoved
        exact view_moveIn (.inl rfl)
      · exact hview stem' (h.now m' hm' stem' hin)

/-- A file is removed of an envelope whose tag is not there. -/
theorem Whole.removed {stem : String} {e : Ext} (h : Whole d)
    (htag : d.view (fin stem .tag) = none) : Whole (d.push (.unlink (fin stem e))) := by
  -- no image has the tag, so removing a file of the envelope does nothing to the others
  have hold : ∀ m, (d.push (.unlink (fin stem e))).Image m → ∀ stem', m (fin stem' .tag) ≠ none →
      ∃ m', d.Image m' ∧ m' (fin stem' .tag) ≠ none ∧
      ∀ e', m (fin stem' e') = m' (fin stem' e') := by
    intro m hm stem' hin
    rcases Disk.image_push.mp hm with hm | ⟨m', hm', rfl⟩
    · exact ⟨m, hm, hin, fun _ => rfl⟩
    have hin' : m' (fin stem' .tag) ≠ none := by
      by_cases heq : fin stem' .tag = fin stem e
      · rw [Update.apply, heq, Function.update_self] at hin
        exact absurd rfl hin
      · rwa [Update.apply, Function.update_of_ne heq] at hin
    have hne : stem' ≠ stem := by
      rintro rfl
      exact h.now m' hm' stem' hin' htag
    exact ⟨m', hm', hin', fun e' => Function.update_of_ne (fun heq => hne (fin_inj.mp heq).1) _ _⟩
  constructor
  · intro m hm stem' hin e'
    obtain ⟨m', hm', hin', heq⟩ := hold m hm stem' hin
    rw [heq e']
    exact h.rest m' hm' stem' hin' e'
  · intro m hm stem' hin
    obtain ⟨m', hm', hin', -⟩ := hold m hm stem' hin
    have hview := h.now m' hm' stem' hin'
    have hne : fin stem' .tag ≠ fin stem e := by
      intro heq
      rw [(fin_inj.mp heq).1] at hview
      exact hview htag
    rwa [Disk.view_push, Update.apply, Function.update_of_ne hne]

theorem Whole.effect {c : Exchange AuditOp AuditReply} (h : Whole d) (heff : Effect d c d')
    (hprune : ∀ stem e, c = ⟨.file (.remove (fin stem e)), .ok ()⟩ →
      d.view (fin stem .tag) = none) : Whole d' := by
  cases heff with
  | inside hwithin _ => exact h.inside hwithin
  | moved htag => exact h.moved htag
  | synced =>
    constructor
    · intro m hm
      rw [Disk.image_commit.mp hm]
      exact h.rest _ (Disk.image_view d)
    · intro m hm stem hin
      rwa [Disk.image_commit.mp hm] at hin
  | removed => exact h.removed (hprune _ _ rfl)

theorem Whole.cut (h : Whole d) (hcut : d.Cut d') : Whole d' := by
  obtain ⟨himage, hall⟩ := hcut.image
  constructor
  · intro m hm
    rw [(hall m).mp hm]
    exact h.rest _ himage
  · intro m hm stem hin
    rwa [(hall m).mp hm] at hin

/-- **A tag comes with the other files**, in every run that removes nothing of an envelope whose tag
is there. -/
theorem tagged_envelope_whole (hfresh : Fresh s.disk) (hidle : s.running = none)
    (hrun : Run (Live out) s es t)
    (hprune : ∀ ev ∈ es, ∀ stem e, ev.label = .call ⟨.file (.remove (fin stem e)), .ok ()⟩ →
      ev.pre.disk.view (fin stem .tag) = none)
    (stem : String) (htag : t.disk.view (fin stem .tag) ≠ none) (e : Ext) :
    t.disk.view (fin stem e) ≠ none := by
  obtain ⟨-, hall⟩ := kept_of_run hfresh hidle hrun
  have hwhole : Whole t.disk := by
    refine (hrun.invariant_mem (I := fun w => Whole w.disk) (fun ev hev hstep h => ?_) ?_).1
    · rcases (hall ev hev).1.cases hstep with heq | ⟨c, hc, heff⟩ | hcut
      · rwa [heq]
      · exact h.effect heff fun stem e heq => hprune ev hev stem e (by rw [hc, heq])
      · exact h.cut hcut
    · constructor
      · exact fun m hm stem hin => absurd (hfresh.none m hm _ (.inr ⟨stem, .tag, rfl⟩)) hin
      · exact fun m hm stem hin => absurd (hfresh.none m hm _ (.inr ⟨stem, .tag, rfl⟩)) hin
  exact hwhole.rest _ (Disk.image_view _) stem htag e

/-- The call removes a file. -/
def isRemove : AuditOp → Bool
  | .file (.remove _) => true
  | _ => false

/-- The sample run removes nothing that it has published. -/
theorem sample_removes_nothing {stem : String} {e : Ext} :
    ⟨.file (.remove (fin stem e)), .ok ()⟩ ∉ samplePublished.1 := by
  have hall : samplePublished.1.all fun c => !isRemove c.1 := by rfl
  intro hmem
  have hremove := List.all_eq_true.mp hall _ hmem
  cases hremove

theorem tagged_envelope_whole_sample : ∃ es t, Run (Live "audit") ⟨Disk.empty, none⟩ es t ∧
    t.disk.view (fin "1" .tag) ≠ none ∧ ∀ e, t.disk.view (fin "1" e) ≠ none := by
  obtain ⟨es, hrun, hlabels⟩ := sample_run
  refine ⟨es, _, hrun, by decide +kernel, ?_⟩
  refine tagged_envelope_whole fresh_empty rfl hrun (fun ev hev stem e hev' => ?_) "1"
    (by decide +kernel)
  have hlabel := hlabels ▸ List.mem_map_of_mem (f := Event.label) hev
  rw [hev', List.mem_cons] at hlabel
  rcases hlabel with hlabel | hlabel
  · cases hlabel
  · obtain ⟨c, hc, heq⟩ := List.mem_map.mp hlabel
    cases heq
    exact absurd hc sample_removes_nothing

/-- The names in the directory after the sample run. -/
def sampleNames : List (Except IoError String) :=
  [.ok "1.msg", .ok "1.attest", .ok "1.sig", .ok "1.tag"]

theorem sample_lists : samplePublished.2.1.Lists sampleNames := by
  have hview : samplePublished.2.1.view = replay [.link "1.msg.part" 0, .link "1.attest.part" 1,
      .link "1.sig.part" 2, .link "1.tag.part" 3, .move "1.msg.part" "1.msg" 0,
      .move "1.attest.part" "1.attest" 1, .move "1.sig.part" "1.sig" 2,
      .move "1.tag.part" "1.tag" 3] (fun _ => none) := by rfl
  refine ⟨by simp [sampleNames], ?_, fun n hn => .inl ?_⟩
  · rw [hview]
    simp [sampleNames, replay, Update.apply, Function.update]
  · rw [hview] at hn
    by_contra hnot
    simp [sampleNames, replay, Update.apply, Function.update] at hn hnot
    grind

/-- Pruning removes the message of an envelope while its tag is there. -/
theorem pruned_envelope_not_whole : ¬ ∀ (out : String) (es : Events) (s t : AuditWorld),
    Fresh s.disk → s.running = none → Run (Live out) s es t →
    ∀ stem, t.disk.view (fin stem .tag) ≠ none → ∀ e, t.disk.view (fin stem e) ≠ none := by
  intro hclaim
  obtain ⟨es, hpublish, -⟩ := sample_run
  have hfinish : Run (Live "audit") _ [_] _ :=
    .cons (.finish samplePublished.2.1 (.publish "1" [7] [8]) (.ok ())) (.nil _)
  -- all envelopes are to be removed, the message first
  have hafter : After (Job.program "audit" (.prune 0))
      [⟨.file .list, .ok sampleNames⟩, ⟨.file (.remove "1.msg"), .ok ()⟩] _ :=
    .call (.call (.here _))
  have hperf : Performs (AuditSem fun _ _ => True) samplePublished.2.1
      [⟨.file .list, .ok sampleNames⟩, ⟨.file (.remove "1.msg"), .ok ()⟩]
      (samplePublished.2.1.push (.unlink "1.msg")) :=
    .cons (.listed sample_lists) (.cons (.removed (by decide +kernel)) (.nil _))
  obtain ⟨es', hprune, -⟩ := run_of_start "audit" hafter hperf
  have hrun := Run.append_iff.mpr ⟨_, Run.append_iff.mpr ⟨_, hpublish, hfinish⟩, hprune⟩
  refine hclaim "audit" _ _ _ fresh_empty rfl hrun "1" ?_ .msg ?_
  · decide +kernel
  · decide +kernel

end TactiqAttest.Prover
