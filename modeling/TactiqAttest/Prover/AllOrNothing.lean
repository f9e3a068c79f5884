import TactiqAttest.Prover.AuditRuns

/-!
# What an interrupted publication leaves

A publication renames its message, its quote and its signature one after the other, and syncs the
directory after the third.  `Progress` says where the three are in between: until the directory has
been synced, a file of the envelope is in place exactly when its rename is among the changes that
reached the disk; from then on all three are.  `Progress.call` is the step and `progress_of_publish`
the run.

Hence `allOrNothing_iff`: an interrupted publication leaves all three files or no file of the
envelope exactly when the directory had been synced, or all three renames survive, or none.
`publication_torn` is a publication of which one survives.
-/

namespace TactiqAttest.Prover

open Files Prog Labelled

/-- The message, the quote and the signature are there, or no file of the envelope is. -/
def AllOrNothing (d : Disk String) (stem : String) : Prop :=
  (∀ e, e ≠ .tag → d.view (fin stem e) ≠ none) ∨ ∀ e, d.view (fin stem e) = none

/-- The rename of a file of the envelope is among the changes. -/
def Moved (stem : String) (us : List (Update String)) (e : Ext) : Prop :=
  ∃ f, Update.move (part stem e) (fin stem e) f ∈ us

/-- The directory has been synced. -/
def DirSynced (cs : List (Exchange AuditOp AuditReply)) : Prop := ⟨.file .syncDir, .ok ()⟩ ∈ cs

/-- The prover stops: it is killed or returns, and all its changes are there, or power is cut, and
`us` of them are. -/
def Stops (d : Disk String) (us : List (Update String)) (d' : Disk String) : Prop :=
  (d' = d ∧ us = d.pending) ∨ d.CutTo us d'

/-- Where the files of the envelope are while it is published. -/
structure Progress (stem : String) (d : Disk String) (cs : List (Exchange AuditOp AuditReply)) :
    Prop where
  before : ¬ DirSynced cs → ∀ us, us.Sublist d.pending → ∀ e,
    replay us d.saved (fin stem e) ≠ none ↔ e ≠ .tag ∧ Moved stem us e
  after : DirSynced cs → ∀ m, d.Image m → ∀ e, e ≠ .tag → m (fin stem e) ≠ none

variable {Left Good : String → Bytes → Prop} {stem : String} {d d' : Disk String}
  {cs : List (Exchange AuditOp AuditReply)} {e e' : Ext} {us us' : List (Update String)} {f : ℕ}

theorem dirSynced_append {c : Exchange AuditOp AuditReply} :
    DirSynced (cs ++ [c]) ↔ DirSynced cs ∨ c = ⟨.file .syncDir, .ok ()⟩ := by
  rw [DirSynced, List.mem_append, List.mem_singleton, eq_comm (a := c)]
  rfl

theorem moved_append : Moved stem (us ++ us') e ↔ Moved stem us e ∨ Moved stem us' e := by
  simp only [Moved, List.mem_append, exists_or]

theorem moved_singleton :
    Moved stem [.move (part stem e') (fin stem e') f] e ↔ e = e' := by
  simp only [Moved, List.mem_singleton, Update.move.injEq, part_inj, fin_inj]
  simp

/-- Nothing has been published: no file of the envelope can be in place, and none is moved. -/
theorem progress_start (hnone : ∀ m, d.Image m → ∀ e, m (fin stem e) = none) :
    Progress stem d [] := by
  refine ⟨fun _ us hus e => ⟨fun h => absurd (hnone _ ⟨us, hus, rfl⟩ e) h, ?_⟩, fun h => by cases h⟩
  rintro ⟨-, f, hf⟩
  -- the rename alone would put the file in place
  have himage : d.Image (replay [.move (part stem e) (fin stem e) f] d.saved) :=
    ⟨_, List.singleton_sublist.mpr (hus.subset hf), rfl⟩
  have hin := hnone _ himage e
  rw [replay, List.foldl_cons, List.foldl_nil, apply_moveIn, if_pos ⟨rfl, rfl⟩] at hin
  cases hin

/-- Changes of `.part` names only. -/
theorem Progress.inside {c : Exchange AuditOp AuditReply} (h : Progress stem d cs)
    (hwithin : d.Within IsPartName d') (hc : c ≠ ⟨.file .syncDir, .ok ()⟩) :
    Progress stem d' (cs ++ [c]) := by
  have hfin : ∀ e, ¬ IsPartName (fin stem e) := fun e hpart =>
    isPartName_not_isFinName _ hpart ⟨stem, e, rfl⟩
  have hiff : DirSynced (cs ++ [c]) ↔ DirSynced cs := dirSynced_append.trans (or_iff_left hc)
  constructor
  · intro hbefore us hus e
    obtain ⟨us₀, us₁, rfl, hus₀, hkeep, hreplay⟩ := hwithin.survivors hus
    have hnot : ¬ Moved stem us₁ e := by
      rintro ⟨f, hf⟩
      have happly := hkeep _ hf (fun _ => none) _ (hfin e)
      rw [apply_moveIn, if_pos ⟨rfl, rfl⟩] at happly
      cases happly
    rw [hreplay _ (hfin e), h.before (fun hs => hbefore (hiff.mpr hs)) us₀ hus₀ e, moved_append,
      or_iff_left hnot]
  · intro hafter m hm e he
    obtain ⟨m', hm', heq⟩ := hwithin.image hm
    rw [heq _ (hfin e)]
    exact h.after (hiff.mp hafter) m' hm' e he

/-- A file is moved in. -/
theorem Progress.moved (h : Progress stem d cs)
    (htag : e = .tag → ∀ m, d.Image m → ∀ e', e' ≠ .tag → m (fin stem e') ≠ none) :
    Progress stem (d.push (.move (part stem e) (fin stem e) f))
      (cs ++ [⟨.file (.rename (part stem e) (fin stem e)), .ok ()⟩]) := by
  have hiff : DirSynced (cs ++ [⟨.file (.rename (part stem e) (fin stem e)), .ok ()⟩]) ↔
      DirSynced cs := dirSynced_append.trans (or_iff_left fun heq => by cases heq)
  constructor
  · intro hbefore us hus e'
    have hbefore : ¬ DirSynced cs := fun hs => hbefore (hiff.mpr hs)
    -- the tag is not moved before the directory is synced: with all changes lost there is no
    -- message
    have hne : e ≠ .tag := by
      intro he
      have hmsg := htag he d.saved ⟨[], List.nil_sublist _, rfl⟩ .msg (by simp)
      obtain ⟨-, f', hf'⟩ := (h.before hbefore [] (List.nil_sublist _) .msg).mp hmsg
      cases hf'
    obtain ⟨us₀, us₁, rfl, hus₀, hus₁⟩ := List.sublist_append_iff.mp hus
    have hold := h.before hbefore us₀ hus₀ e'
    rcases List.sublist_singleton.mp hus₁ with rfl | rfl
    · rwa [List.append_nil]
    · rw [moved_append, moved_singleton, replay, List.foldl_append, List.foldl_cons, List.foldl_nil,
        apply_moveIn]
      split_ifs with heq
      · obtain rfl := heq.2
        simp [hne]
      · have hne' : e' ≠ e := fun heq' => heq ⟨rfl, heq'⟩
        rw [or_iff_left hne']
        exact hold
  · intro hafter m hm e' he'
    have hkeep : Effect d ⟨.file (.rename (part stem e) (fin stem e)), .ok ()⟩ _ :=
      .moved (f := f) htag
    exact hkeep.keeps (fun heq => by cases heq)
      (fun m hm => h.after (hiff.mp hafter) m hm e' he') m hm

/-- The directory is synced with the three files in it. -/
theorem Progress.synced (hin : ∀ e, e ≠ .tag → d.view (fin stem e) ≠ none) :
    Progress stem d.commit (cs ++ [⟨.file .syncDir, .ok ()⟩]) := by
  refine ⟨fun h => absurd (dirSynced_append.mpr (.inr rfl)) h, fun _ m hm e he => ?_⟩
  rw [Disk.image_commit.mp hm]
  exact hin e he

/-- A call of the publication. -/
theorem Progress.call {op : AuditOp} {r : AuditReply op} (h : Progress stem d cs)
    (hop : Orderly Good stem d op) (hsem : AuditSem Left d ⟨op, r⟩ d') :
    Progress stem d' (cs ++ [⟨op, r⟩]) := by
  have heffect := hop.effect hsem
  cases heffect with
  | inside hwithin hc => exact h.inside hwithin hc
  | @moved stem' e f htag =>
    obtain ⟨e', hpart, -⟩ := hop
    obtain ⟨rfl, rfl⟩ := part_inj.mp hpart
    exact h.moved htag
  | synced => exact .synced hop
  | removed => exact absurd ⟨_, _, rfl⟩ (isPartName_not_isFinName _ hop)

/-! ## Whole publications -/

variable {out : String} {es : Events} {s w : AuditWorld} {d₀ d₁ d₂ : Disk String}
  {msg tag : Bytes} {cs' : List (Exchange AuditOp AuditReply)}
  {q : Prog AuditOp AuditReply (Except String Unit)}
  {q' : Prog AuditOp AuditReply (Except String ℕ)}

/-- Before an envelope is published there is no file of it, whatever power cuts leave. -/
theorem none_of_not_starts (hkept : Kept es w ∧ ∀ ev ∈ es, Kept es ev.pre ∧ Kept es ev.post)
    (hnew : ∀ msg tag, ¬ Starts es (.publish stem msg tag)) :
    ∀ m, w.disk.Image m → ∀ e, m (fin stem e) = none := by
  have hquoted : ∀ n b, ¬ Quoted es stem n b := by
    rintro n b ⟨ev, hev, msg, tag, p, hrun, -⟩
    exact hnew msg tag ((hkept.2 ev hev).1.started _ p hrun)
  intro m hm e
  by_contra hin
  obtain ⟨f, hf⟩ := Option.ne_none_iff_exists'.mp hin
  have hwritten := writtenAs_fin.mp (hkept.1.tidy.good m hm _ f ⟨stem, e, rfl⟩ hf).2
  cases e with
  | msg =>
    obtain ⟨tag, hstart⟩ := hwritten
    exact hnew _ tag hstart
  | attest => exact hquoted _ _ hwritten
  | sig => exact hquoted _ _ hwritten
  | tag =>
    obtain ⟨msg, hstart⟩ := hwritten
    exact hnew msg _ hstart

/-- At every point of a publication. -/
theorem progress_of_publish (htidy : TidyDir (fun _ _ => True) d₀)
    (hnone : ∀ m, d₀.Image m → ∀ e, m (fin stem e) = none)
    (hafter : After (publishEnvelope out stem msg tag).run cs q)
    (hperf : Performs (AuditSem fun _ _ => True) d₀ cs d) : Progress stem d cs := by
  have hcontents : Contents (fun _ _ => True) (fun _ _ => True) stem msg tag :=
    ⟨trivial, fun _ _ => trivial, fun _ _ => trivial, trivial⟩
  have horderly : Obeys (AuditSem fun _ _ => True) (Orderly (fun _ _ => True) stem)
      (publishEnvelope out stem msg tag).run _ d₀ := publish_orderly hcontents htidy
  refine (horderly.withHistory []).invariant (I := fun s => Progress stem s.1 s.2) ?_
    (progress_start hnone) hafter (hperf.withHistory [])
  rintro ⟨d, cs⟩ op r ⟨d', cs'⟩ h hop ⟨hsem, heq⟩
  obtain rfl : cs' = cs ++ [⟨op, r⟩] := heq
  exact h.call hop hsem

/-- Removing partials leaves the names of envelopes alone. -/
theorem view_of_removePartials (hafter : After (removePartials out).run cs q')
    (hperf : Performs (AuditSem fun _ _ => True) d cs d') :
    ∀ e, d'.view (fin stem e) = d.view (fin stem e) := by
  have hremoves : Obeys (AuditSem fun _ _ => True) (fun _ => Removes IsPartName)
      (removePartials out).run (fun _ _ => True) d := removePartials_removes
  refine hremoves.invariant (I := fun d' => ∀ e, d'.view (fin stem e) = d.view (fin stem e))
    ?_ (fun _ => rfl) hafter hperf
  intro d₁ op r d₂ h hop hsem e
  rw [← h e]
  have heffect := Removes.effect (fun _ hn => .inl hn) hop hsem
  cases heffect with
  | inside hwithin _ =>
    exact hwithin.view fun hpart => isPartName_not_isFinName _ hpart ⟨stem, e, rfl⟩
  | moved _ => exact hop.elim
  | synced => exact hop.elim
  | removed => exact absurd ⟨_, _, rfl⟩ (isPartName_not_isFinName _ hop)

/-- **When a publication is all or nothing.**  A publication of a new envelope stops at some point,
and the next cycle removes what is partial.  Then all three files are there or no file of the
envelope is, exactly when the directory had been synced, or all three renames survive, or none. -/
theorem allOrNothing_iff (hfresh : Fresh s.disk) (hidle : s.running = none)
    (hrun : Run (Live out) s es ⟨d₀, none⟩) (hnew : ∀ msg tag, ¬ Starts es (.publish stem msg tag))
    (hafter : After (publishEnvelope out stem msg tag).run cs q)
    (hperf : Performs (AuditSem fun _ _ => True) d₀ cs d) (hstop : Stops d us d₁)
    (hafter' : After (removePartials out).run cs' q')
    (hperf' : Performs (AuditSem fun _ _ => True) d₁ cs' d₂) :
    AllOrNothing d₂ stem ↔
      DirSynced cs ∨ (∀ e, e ≠ .tag → Moved stem us e) ∨ ∀ e, e ≠ .tag → ¬ Moved stem us e := by
  have hkept := kept_of_run hfresh hidle hrun
  have hprogress := progress_of_publish (hkept.1.tidy.mono fun _ _ _ => trivial)
    (none_of_not_starts hkept hnew) hafter hperf
  obtain ⟨hus, hview⟩ : us.Sublist d.pending ∧ d₁.view = replay us d.saved := by
    rcases hstop with ⟨rfl, rfl⟩ | ⟨data, hus, -⟩
    · exact ⟨List.Sublist.refl _, rfl⟩
    · exact ⟨hus, rfl⟩
  have hthere : ∀ e, d₂.view (fin stem e) = replay us d.saved (fin stem e) := fun e => by
    rw [view_of_removePartials hafter' hperf' e, hview]
  unfold AllOrNothing
  simp only [hthere]
  by_cases hsynced : DirSynced cs
  · exact iff_of_true (.inl fun e he => hprogress.after hsynced _ ⟨us, hus, rfl⟩ e he)
      (.inl hsynced)
  · have hplace := hprogress.before hsynced us hus
    rw [or_iff_right hsynced]
    refine or_congr (forall_congr' fun e => forall_congr' fun he => ?_) (forall_congr' fun e => ?_)
    · rw [hplace e, and_iff_right he]
    · rw [← not_iff_not, ← ne_eq, hplace e, Classical.not_imp, not_not]

/-! ## A publication of which one file survives -/

/-- The first publication in an empty directory, up to the three renames. -/
def sampleRenamed : List (Exchange AuditOp AuditReply) × Disk String ×
    Prog AuditOp AuditReply (Except String Unit) :=
  runFor sampleMachine 14 (publishEnvelope "audit" "1" [7] [8]).run Disk.empty

/-- Of its changes the four new files and the first rename survive. -/
def sampleSurvivors : List (Update String) := sampleRenamed.2.1.pending.take 5

/-- The disk after the power cut. -/
def sampleTorn : Disk String :=
  ⟨replay sampleSurvivors sampleRenamed.2.1.saved, [], sampleRenamed.2.1.data, fun _ => true,
    sampleRenamed.2.1.next⟩

/-- The next cycle removes the partial files. -/
def sampleSwept : List (Exchange AuditOp AuditReply) :=
  [⟨.file .list, .ok [.ok "1.msg", .ok "1.attest.part", .ok "1.sig.part", .ok "1.tag.part"]⟩,
    ⟨.file (.remove "1.attest.part"), .ok ()⟩, ⟨.file (.remove "1.sig.part"), .ok ()⟩,
    ⟨.file (.remove "1.tag.part"), .ok ()⟩]

/-- The disk then. -/
def sampleLeft : Disk String :=
  ((sampleTorn.push (.unlink "1.attest.part")).push (.unlink "1.sig.part")).push
    (.unlink "1.tag.part")

theorem sampleTorn_swept : After (removePartials "audit").run sampleSwept (.ret (.ok 3)) ∧
    Performs (AuditSem fun _ _ => True) sampleTorn sampleSwept sampleLeft := by
  have hview : sampleTorn.view = replay [.link "1.msg.part" 0, .link "1.attest.part" 1,
      .link "1.sig.part" 2, .link "1.tag.part" 3, .move "1.msg.part" "1.msg" 0]
      (fun _ => none) := by
    rfl
  have hlists : sampleTorn.Lists
      [.ok "1.msg", .ok "1.attest.part", .ok "1.sig.part", .ok "1.tag.part"] := by
    refine ⟨by simp, ?_, fun n hn => .inl ?_⟩
    · rw [hview]
      simp [replay, Update.apply, Function.update]
    · rw [hview] at hn
      by_contra hnot
      simp [replay, Update.apply, Function.update] at hn hnot
      grind
  refine ⟨.call (.call (.call (.call (.here _)))), .cons (.listed hlists) ?_⟩
  exact .cons (.removed (by decide +kernel)) (.cons (.removed (by decide +kernel))
    (.cons (.removed (by decide +kernel)) (.nil _)))

theorem sampleRenamed_possible :
    After (publishEnvelope "audit" "1" [7] [8]).run sampleRenamed.1 sampleRenamed.2.2 ∧
      Performs (AuditSem fun _ _ => True) Disk.empty sampleRenamed.1 sampleRenamed.2.1 :=
  runFor_possible sampleMachine_possible 14 _ _

theorem sampleTorn_stops : Stops sampleRenamed.2.1 sampleSurvivors sampleTorn :=
  .inr ⟨_, List.take_sublist 5 _, fun _ _ => rfl⟩

theorem not_starts_nil {j : Job} : ¬ Starts [] j := by
  rintro ⟨ev, hev, -⟩
  cases hev

theorem allOrNothing_iff_sample : AllOrNothing sampleLeft "1" ↔ DirSynced sampleRenamed.1 ∨
    (∀ e, e ≠ .tag → Moved "1" sampleSurvivors e) ∨
    ∀ e, e ≠ .tag → ¬ Moved "1" sampleSurvivors e :=
  allOrNothing_iff (s := ⟨Disk.empty, none⟩) fresh_empty rfl (.nil _) (fun _ _ => not_starts_nil)
    sampleRenamed_possible.1 sampleRenamed_possible.2 sampleTorn_stops sampleTorn_swept.1
    sampleTorn_swept.2

/-- Power is cut after the three renames, the first one survives, and the next cycle removes what is
partial: the message is there without its quote. -/
theorem publication_torn : ¬ ∀ (out stem : String) (msg tag : Bytes) (s : AuditWorld) (es : Events)
    (d₀ d d₁ d₂ : Disk String) (cs cs' : List (Exchange AuditOp AuditReply))
    (us : List (Update String)) (q : Prog AuditOp AuditReply (Except String Unit)) (removed : ℕ),
    Fresh s.disk → s.running = none → Run (Live out) s es ⟨d₀, none⟩ →
    (∀ msg tag, ¬ Starts es (.publish stem msg tag)) →
    After (publishEnvelope out stem msg tag).run cs q →
    Performs (AuditSem fun _ _ => True) d₀ cs d → Stops d us d₁ →
    After (removePartials out).run cs' (.ret (.ok removed)) →
    Performs (AuditSem fun _ _ => True) d₁ cs' d₂ → AllOrNothing d₂ stem := by
  intro hclaim
  obtain ⟨hafter, hperf⟩ := sampleRenamed_possible
  obtain ⟨hafter', hperf'⟩ := sampleTorn_swept
  rcases hclaim "audit" "1" [7] [8] ⟨Disk.empty, none⟩ [] _ _ _ _ _ _ _ _ 3 fresh_empty rfl
    (.nil _) (fun _ _ => not_starts_nil) hafter hperf sampleTorn_stops hafter' hperf'
    with hall | hnothing
  · exact hall .attest (by simp) (by decide +kernel)
  · exact absurd (hnothing .msg) (by decide +kernel)

end TactiqAttest.Prover
