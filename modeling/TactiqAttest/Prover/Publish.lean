import TactiqAttest.Prover.Audit

/-!
# What the procedures of the audit directory do

`publish_orderly`, `removePartials_removes` and `pruneAudit_removes` say which calls the three
procedures make, and in which states: those of a publication are `Orderly`, and the other two only
list the directory and remove files, under `.part` names the one and under names of envelopes the
other.

A publication is followed step by step: `obeys_stage` leaves all four files ready under their
`.part` names, and `obeys_install` moves them in.  When it returns without an error, the four names
are in every directory that a power cut may leave.
-/

namespace TactiqAttest.Prover

open Files Prog

variable {Left Good : String → Bytes → Prop} {stem : String} {d d' : Disk String}
  {out n : String} {data msg tag : Bytes} {e : Ext}

/-! ## Steps of a publication -/

/-- One file operation. -/
theorem obeys_io {what : String} {op : Files.Op String}
    {Q : Disk String → Except String (Result op) → Prop} (hd : TidyDir Good d)
    (hop : Orderly Good stem d (.file op))
    (hok : ∀ a d', TidyDir Good d' → d.Step op (.ok a) d' → Q d' (.ok a))
    (herr : ∀ text d', TidyDir Good d' → Q d' (.error text)) :
    Obeys (AuditSem Left) (Orderly Good stem) (io what op).run Q d := by
  refine ⟨hop, fun r d' hstep => ?_⟩
  have hd' := tidy_of_orderly hd hop hstep
  rcases r with err | a
  · exact herr _ d' hd'
  · exact hok a d' hd' hstep

/-- A file is written and synced, or the procedure fails. -/
theorem obeys_writeSynced {Q : Disk String → Except String Unit → Prop} (hn : IsPartName n)
    (hd : TidyDir Good d) (herr : ∀ text d', TidyDir Good d' → Q d' (.error text))
    (hok : ∀ f d', TidyDir Good d' → d.Leaves (· = n) d' → d'.view n = some f →
      d'.synced f = true → d'.data f = data → Q d' (.ok ())) :
    Obeys (AuditSem Left) (Orderly Good stem) (writeSynced out n data).run Q d := by
  refine obeys_tryBind (obeys_io hd hn (fun f d₁ hd₁ hcreate => ?_) herr)
  -- the file is there and empty
  have hempty : d.Leaves (· = n) d₁ ∧ d₁.view n = some f ∧ d₁.data f = [] := by
    cases hcreate with
    | made _ =>
      exact ⟨hd.leaves_make rfl, by rw [Disk.view_make, Function.update_self],
        Function.update_self _ _ _⟩
    | emptied hf => exact ⟨hd.leaves_put rfl hf, hf, Function.update_self _ _ _⟩
  obtain ⟨hleaves, hview, hdata⟩ := hempty
  refine obeys_tryBind (obeys_io hd₁ ⟨n, hn, hview⟩ (fun _ d₂ hd₂ hwrite => ?_) herr)
  obtain rfl : d₂ = d₁.put f (d₁.data f ++ data) := by
    cases hwrite
    rfl
  refine obeys_io hd₂ trivial (fun _ d₃ hd₃ hsync => ?_) herr
  obtain rfl : d₃ = (d₁.put f (d₁.data f ++ data)).flush f := by
    cases hsync
    rfl
  refine hok f _ hd₃ ?_ hview (Function.update_self _ _ _) ?_
  · exact (hleaves.trans (hd₁.leaves_put rfl hview)).trans Disk.leaves_flush
  · exact (Function.update_self _ _ _).trans (by rw [hdata, List.nil_append])

/-- A file another program wrote is synced, or the procedure fails. -/
theorem obeys_syncFile {Q : Disk String → Except String Unit → Prop} (hd : TidyDir Good d)
    (herr : ∀ text d', TidyDir Good d' → Q d' (.error text))
    (hok : ∀ f, d.view n = some f → TidyDir Good (d.flush f) → Q (d.flush f) (.ok ())) :
    Obeys (AuditSem Left) (Orderly Good stem) (syncFile out n).run Q d := by
  refine obeys_tryBind (obeys_io hd trivial (fun f d₁ hd₁ hopen => ?_) herr)
  obtain ⟨rfl, hview⟩ : d₁ = d ∧ d.view n = some f := by
    cases hopen with
    | opened hview => exact ⟨rfl, hview⟩
  refine obeys_io hd₁ trivial (fun _ d₂ hd₂ hsync => ?_) herr
  obtain rfl : d₂ = d₁.flush f := by
    cases hsync
    rfl
  exact hok f hview hd₂

variable (Good) in
/-- A file of the envelope is complete and synced under its `.part` name. -/
def Ready (d : Disk String) (stem : String) (e : Ext) : Prop :=
  ∃ f, d.view (part stem e) = some f ∧ d.synced f = true ∧ Good (fin stem e) (d.data f)

theorem Ready.leaves {P : String → Prop} (h : Ready Good d stem e) (hleaves : d.Leaves P d')
    (hP : ¬ P (part stem e)) : Ready Good d' stem e := by
  obtain ⟨f, hview, hsync, hgood⟩ := h
  obtain ⟨hview', hfile⟩ := hleaves _ hP
  obtain ⟨hdata, hsync'⟩ := hfile f hview
  exact ⟨f, hview'.trans hview, hsync' hsync, by rwa [hdata]⟩

/-- The contents of an envelope: what its message and tag are, and what a successful `tpm2_quote`
may have left. -/
structure Contents (Left Good : String → Bytes → Prop) (stem : String) (msg tag : Bytes) :
    Prop where
  msg : Good (fin stem .msg) msg
  attest : ∀ b, Left (part stem .attest) b → Good (fin stem .attest) b
  sig : ∀ b, Left (part stem .sig) b → Good (fin stem .sig) b
  tag : Good (fin stem .tag) tag

/-- Staging ends with all four files ready, or fails. -/
theorem obeys_stage {Q : Disk String → Except String Unit → Prop}
    (hc : Contents Left Good stem msg tag) (hd : TidyDir Good d)
    (herr : ∀ text d', TidyDir Good d' → Q d' (.error text))
    (hok : ∀ d', TidyDir Good d' → (∀ e, Ready Good d' stem e) → Q d' (.ok ())) :
    Obeys (AuditSem Left) (Orderly Good stem) (stage out stem msg tag).run Q d := by
  have hpart : ∀ e, IsPartName (part stem e) := fun e => ⟨stem, e, rfl⟩
  refine obeys_tryBind (obeys_writeSynced (hpart .msg) hd herr ?_)
  rintro f d₁ hd₁ - hview hsync hdata
  have hmsg : Ready Good d₁ stem .msg := ⟨f, hview, hsync, hdata ▸ hc.msg⟩
  have hquote : Orderly Good stem d₁ (.quote (part stem .attest) (part stem .sig)) := ⟨rfl, rfl⟩
  refine obeys_tryBind ⟨hquote, fun r d₂ hsem => ?_⟩
  have hd₂ : TidyDir Good d₂ := tidy_of_orderly hd₁ hquote hsem
  rcases r with text | ⟨⟩
  · exact herr text d₂ hd₂
  obtain ⟨hworks, hleft⟩ := hsem
  have hmsg : Ready Good d₂ stem .msg := by
    refine hmsg.leaves (hd₁.leaves_works isPartName_not_isFinName ?_ hworks) (by simp [part_inj])
    rintro n (rfl | rfl)
    · exact hpart .attest
    · exact hpart .sig
  refine obeys_tryBind (obeys_syncFile hd₂ herr fun fa hfa hd₃ => ?_)
  have hattest : Ready Good (d₂.flush fa) stem .attest :=
    ⟨fa, hfa, Function.update_self _ _ _, hc.attest _ (hleft rfl _ (.inl rfl) fa hfa)⟩
  refine obeys_tryBind (obeys_syncFile hd₃ herr fun fs hfs hd₄ => ?_)
  have hsig : Ready Good ((d₂.flush fa).flush fs) stem .sig :=
    ⟨fs, hfs, Function.update_self _ _ _, hc.sig _ (hleft rfl _ (.inr rfl) fs hfs)⟩
  refine obeys_writeSynced (hpart .tag) hd₄ herr fun ft d₅ hd₅ hleaves hview hsync hdata => ?_
  -- what was ready stays ready while the tag is written
  have hflush : ∀ {d : Disk String} {f : ℕ} {e : Ext}, Ready Good d stem e →
      Ready Good (d.flush f) stem e :=
      fun h => h.leaves (Disk.leaves_flush (P := fun _ => False)) id
  refine hok d₅ hd₅ fun e => ?_
  cases e with
  | msg => exact (hflush (hflush hmsg)).leaves hleaves (by simp [part_inj])
  | attest => exact (hflush hattest).leaves hleaves (by simp [part_inj])
  | sig => exact hsig.leaves hleaves (by simp [part_inj])
  | tag => exact ⟨ft, hview, hsync, hdata ▸ hc.tag⟩

/-- One rename. -/
theorem obeys_moveIn {Q : Disk String → Except String Unit → Prop} (hd : TidyDir Good d)
    (hready : Ready Good d stem e)
    (htag : e = .tag → ∀ m, d.Image m → ∀ e', e' ≠ .tag → m (fin stem e') ≠ none)
    (herr : ∀ text d', TidyDir Good d' → Q d' (.error text))
    (hok : ∀ f d', d' = d.push (.move (part stem e) (fin stem e) f) → TidyDir Good d' →
      Q d' (.ok ())) :
    Obeys (AuditSem Left) (Orderly Good stem) (moveIn out stem e).run Q d := by
  obtain ⟨f, hview, hsync, hgood⟩ := hready
  have hop : Orderly Good stem d (.file (.rename (part stem e) (fin stem e))) := by
    refine ⟨e, rfl, rfl, fun f' hf' => ?_, htag⟩
    obtain rfl : f = f' := Option.some_inj.mp (hview.symm.trans hf')
    exact ⟨hsync, hgood⟩
  refine obeys_io hd hop (fun _ d' hd' hstep => ?_) herr
  cases hstep with
  | renamed _ => exact hok _ _ rfl hd'

/-- After a rename the file is in, and those that were are still. -/
theorem view_moveIn {f : ℕ} {e' : Ext} (h : e' = e ∨ d.view (fin stem e') ≠ none) :
    (d.push (.move (part stem e) (fin stem e) f)).view (fin stem e') ≠ none := by
  rw [Disk.view_push, apply_moveIn]
  split_ifs with heq
  · exact Option.some_ne_none f
  · exact h.resolve_left fun he => heq ⟨rfl, he⟩

/-- What is ready stays ready while another file is moved in. -/
theorem Ready.moveIn {f : ℕ} {e' : Ext} (h : Ready Good d stem e') (hne : e' ≠ e) :
    Ready Good (d.push (.move (part stem e) (fin stem e) f)) stem e' := by
  refine h.leaves (Disk.leaves_move (P := fun n => n = part stem e ∨ n = fin stem e)
    (.inl rfl) (.inr rfl)) ?_
  rintro (heq | heq)
  · exact hne (part_inj.mp heq).2
  · exact part_ne_fin _ _ _ _ heq

/-- Installing ends with all four names in every directory that a power cut may leave, or fails. -/
theorem obeys_install (hd : TidyDir Good d) (hready : ∀ e, Ready Good d stem e) :
    Obeys (AuditSem Left) (Orderly Good stem) (install out stem).run
      (fun d result => result = .ok () → ∀ m, d.Image m → ∀ e, m (fin stem e) ≠ none) d := by
  have herr : ∀ text (d' : Disk String), TidyDir Good d' →
      (Except.error text : Except String Unit) = .ok () →
        ∀ m, d'.Image m → ∀ e, m (fin stem e) ≠ none := fun _ _ _ h => by cases h
  refine obeys_tryBind (obeys_moveIn hd (hready .msg) (by simp) herr ?_)
  rintro f₁ d₁ rfl hd₁
  refine obeys_tryBind (obeys_moveIn hd₁ ((hready .attest).moveIn (by simp)) (by simp) herr ?_)
  rintro f₂ d₂ rfl hd₂
  refine obeys_tryBind (obeys_moveIn hd₂ (((hready .sig).moveIn (by simp)).moveIn (by simp))
    (by simp) herr ?_)
  rintro f₃ d₃ rfl hd₃
  have htag := (((hready .tag).moveIn (f := f₁) (e := .msg) (by simp)).moveIn (f := f₂)
    (e := .attest) (by simp)).moveIn (f := f₃) (e := .sig) (by simp)
  set d₂ := (d.push (.move (part stem .msg) (fin stem .msg) f₁)).push
    (.move (part stem .attest) (fin stem .attest) f₂)
  set d₃ := d₂.push (.move (part stem .sig) (fin stem .sig) f₃)
  have hthree : ∀ e, e ≠ .tag → d₃.view (fin stem e) ≠ none := by
    intro e he
    cases e with
    | msg => exact view_moveIn (.inr (view_moveIn (.inr (view_moveIn (.inl rfl)))))
    | attest => exact view_moveIn (.inr (view_moveIn (.inl rfl)))
    | sig => exact view_moveIn (.inl rfl)
    | tag => exact absurd rfl he
  refine obeys_tryBind (obeys_io hd₃ hthree (fun _ d₄ hd₄ hsync => ?_) herr)
  obtain rfl : d₄ = d₃.commit := by
    cases hsync
    rfl
  -- the three are on the disk now
  refine obeys_tryBind (obeys_moveIn hd₄ htag ?_ herr ?_)
  · intro _ m hm e he
    rw [Disk.image_commit.mp hm]
    exact hthree e he
  rintro f₄ d₅ rfl hd₅
  set d₅ := d₃.commit.push (.move (part stem .tag) (fin stem .tag) f₄)
  have hfour : ∀ e, d₅.view (fin stem e) ≠ none := fun e =>
    view_moveIn ((eq_or_ne e .tag).imp_right (hthree e))
  refine obeys_io hd₅ (fun e _ => hfour e) (fun _ d₆ hd₆ hsync _ m hm e => ?_) herr
  obtain rfl : d₆ = d₅.commit := by
    cases hsync
    rfl
  rw [Disk.image_commit.mp hm]
  exact hfour e

/-- Cleaning up removes `.part` names, whatever happens. -/
theorem obeys_cleanup {Q : Disk String → Unit → Prop} (es : List Ext) (hd : TidyDir Good d)
    (hQ : ∀ d', TidyDir Good d' → Q d' ()) :
    Obeys (AuditSem Left) (Orderly Good stem) (cleanup stem es) Q d := by
  induction es generalizing d with
  | nil => exact hQ d hd
  | cons e es ih =>
    have hop : Orderly Good stem d (.file (.remove (part stem e))) := ⟨stem, e, rfl⟩
    exact ⟨hop, fun r d' hstep => ih (tidy_of_orderly hd hop hstep)⟩

/-! ## The three procedures -/

/-- **A publication is orderly**, and when it returns without an error its four names are in every
directory that a power cut may leave. -/
theorem publish_orderly (hc : Contents Left Good stem msg tag) (hd : TidyDir Good d) :
    Obeys (AuditSem Left) (Orderly Good stem) (publishEnvelope out stem msg tag).run
      (fun d result => result = .ok () → ∀ m, d.Image m → ∀ e, m (fin stem e) ≠ none) d := by
  refine obeys_bind (obeys_stage hc hd (fun text d' hd' => ?_) fun d' hd' hready => ?_)
  · exact obeys_bind (obeys_cleanup Ext.all hd' fun _ _ h => by cases h)
  · exact obeys_install hd' hready

/-- A name that looks like that of a file of an interrupted envelope is a `.part` name. -/
theorem isPartName_of_isPart (h : isPart n = true) : IsPartName n := by
  unfold isPart at h
  split at h
  · rename_i stem ext hcut
    obtain ⟨rest, hrest, hsplit⟩ := Option.bind_eq_some_iff.mp hcut
    have hn : stem ++ '.' :: ext ++ ".part".toList = n.toList := by
      rw [Chars.append_of_rsplitOnce hsplit, Chars.append_of_stripSuffix hrest]
    obtain ⟨e, hext⟩ : ∃ e : Ext, e.text.toList = ext := by
      simp only [Bool.and_eq_true] at h
      obtain ⟨e, -, hext⟩ := List.mem_map.mp (List.contains_iff_mem.mp h.1.1)
      exact ⟨e, hext⟩
    refine ⟨String.ofList stem, e, String.toList_inj.mp ?_⟩
    rw [← hn, ← hext]
    simp [part, fin, String.toList_append]
  · cases h

theorem removeEntries_removes (entries : List (Except IoError String)) :
    Obeys (AuditSem Left) (fun _ => Removes IsPartName) (removeEntries out entries).run
      (fun _ _ => True) d := by
  induction entries generalizing d with
  | nil => trivial
  | cons entry entries ih =>
    refine obeys_tryBind (obeys_ofResult ?_)
    rcases entry with err | name
    · trivial
    show Obeys _ _ (ExceptT.run (if isPart name then _ else _)) _ _
    split_ifs with hpart
    · refine obeys_tryBind (obeys_bind ⟨isPartName_of_isPart hpart, fun r d' _ => ?_⟩)
      rcases r with err | ⟨⟩
      · trivial
      · exact obeys_tryBind (ih.mono (fun _ _ h => h) (by rintro s (_ | _) _ <;> trivial))
    · exact ih

/-- **Removing partials removes `.part` names.** -/
theorem removePartials_removes :
    Obeys (AuditSem Left) (fun _ => Removes IsPartName) (removePartials out).run
      (fun _ _ => True) d := by
  refine obeys_tryBind (obeys_bind ⟨trivial, fun r d' _ => ?_⟩)
  rcases r with err | entries
  · trivial
  · exact removeEntries_removes entries

theorem pruneFiles_removes {names : List String} (hnames : ∀ n ∈ names, IsFinName n) :
    Obeys (AuditSem Left) (fun _ => Removes IsFinName) (pruneFiles out names).run
      (fun _ _ => True) d := by
  induction names generalizing d with
  | nil => trivial
  | cons n names ih =>
    rw [List.forall_mem_cons] at hnames
    refine obeys_tryBind (obeys_bind ⟨hnames.1, fun r d' _ => ?_⟩)
    rcases r with err | ⟨⟩
    · refine obeys_pure (obeys_pure ?_)
      split_ifs
      · exact ih hnames.2
      · trivial
    · exact ih hnames.2

/-- **Pruning removes names of envelopes.** -/
theorem pruneAudit_removes (keep : ℕ) :
    Obeys (AuditSem Left) (fun _ => Removes IsFinName) (pruneAudit out keep).run
      (fun _ _ => True) d := by
  refine obeys_tryBind (obeys_bind ⟨trivial, fun r d' _ => ?_⟩)
  rcases r with err | entries
  · trivial
  refine obeys_tryBind ((pruneFiles_removes ?_).mono (fun _ _ h => h)
    (by rintro s (_ | _) _ <;> trivial))
  intro n hn
  obtain ⟨stem, -, hn⟩ := List.mem_flatMap.mp hn
  obtain ⟨e, -, rfl⟩ := List.mem_map.mp hn
  exact ⟨stem, e, rfl⟩

end TactiqAttest.Prover
