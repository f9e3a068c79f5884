import Mathlib.Data.Set.Card
import TactiqAttest.Prover.AuditRuns
import TactiqAttest.Prover.CounterAlloc
import TactiqAttest.Prover.Stems

/-!
# Publishing, then pruning

After each envelope the prover prunes its directory.  `pruneAudit_returns` says what a pruning
leaves when it returns: the listed stems lose their oldest, and nothing else changes.  What was not
listed is not counted, and `prune_audit` drops the entries of the listing that failed.

* `notMem_stemsToPrune`: the envelope just published is not pruned, if it is the newest.
* `encard_left_le_iff`: at most `keep` envelopes are left exactly if there were no more before, or
  all of them were listed.
-/

namespace TactiqAttest.Prover

open Files Prog

section Lemmas

variable {Left : String → Bytes → Prop} {out s : String} {d d' : Disk String} {msg tag : Bytes}
  {names : List String} {keep k : ℕ} {e : Ext} {entries : List (Except IoError String)}

/-! ## A publication -/

/-- One file operation, wherever it is made. -/
theorem obeys_anyIo {what : String} {op : Files.Op String}
    {Q : Disk String → Except String (Result op) → Prop}
    (hok : ∀ a d', d.Step op (.ok a) d' → Q d' (.ok a)) (herr : ∀ text d', Q d' (.error text)) :
    Obeys (AuditSem Left) (fun _ _ => True) (io what op).run Q d := by
  refine ⟨trivial, fun r d' hstep => ?_⟩
  rcases r with err | a
  · exact herr _ d'
  · exact hok a d' hstep

/-- One rename: the file is in, and those that were are still. -/
theorem obeys_anyMoveIn {Q : Disk String → Except String Unit → Prop}
    (hok : ∀ d', (∀ e', e' = e ∨ d.view (fin s e') ≠ none → d'.view (fin s e') ≠ none) →
      Q d' (.ok ())) (herr : ∀ text d', Q d' (.error text)) :
    Obeys (AuditSem Left) (fun _ _ => True) (moveIn out s e).run Q d := by
  refine obeys_anyIo (fun _ d' hstep => hok d' fun e' he' => ?_) herr
  cases hstep with
  | renamed _ => exact view_moveIn he'

/-- Wherever a publication starts: when it returns without an error, its four files are there. -/
theorem publish_present :
    Obeys (AuditSem Left) (fun _ _ => True) (publishEnvelope out s msg tag).run
      (fun d result => result = .ok () → ∀ e, d.view (fin s e) ≠ none) d := by
  have herr (text : String) (d' : Disk String) : (Except.error text : Except String Unit) = .ok () →
      ∀ e, d'.view (fin s e) ≠ none := fun h => by cases h
  refine obeys_bind (obeys_of_forall (fun _ _ => trivial) ?_)
  rintro d₀ (text | ⟨⟩)
  · exact obeys_bind (obeys_of_forall (fun _ _ => trivial) fun d' _ => herr text d')
  refine obeys_tryBind (obeys_anyMoveIn (fun d₁ h₁ => ?_) herr)
  refine obeys_tryBind (obeys_anyMoveIn (fun d₂ h₂ => ?_) herr)
  refine obeys_tryBind (obeys_anyMoveIn (fun d₃ h₃ => ?_) herr)
  refine obeys_tryBind (obeys_anyIo (fun _ d₄ hsync => ?_) herr)
  obtain rfl : d₄ = d₃.commit := by
    cases hsync
    rfl
  refine obeys_tryBind (obeys_anyMoveIn (fun d₅ h₅ => ?_) herr)
  refine obeys_anyIo (fun _ d₆ hsync _ e => ?_) herr
  obtain rfl : d₆ = d₅.commit := by
    cases hsync
    rfl
  cases e with
  | msg => exact h₅ _ (.inr (h₃ _ (.inr (h₂ _ (.inr (h₁ _ (.inl rfl)))))))
  | attest => exact h₅ _ (.inr (h₃ _ (.inr (h₂ _ (.inl rfl)))))
  | sig => exact h₅ _ (.inr (h₃ _ (.inl rfl)))
  | tag => exact h₅ _ (.inl rfl)

/-! ## A pruning -/

/-- The files of some envelopes are gone, and nothing else. -/
def Without (d : Disk String) (gone : List String) (d' : Disk String) : Prop :=
  ∀ n, d'.view n = if n ∈ gone then none else d.view n

/-- The loops of `prune_audit`. -/
theorem pruneFiles_without :
    Obeys (AuditSem Left) (fun _ _ => True) (pruneFiles out names).run
      (fun d' result => result = .ok () → Without d names d') d := by
  induction names generalizing d with
  | nil => exact fun _ n => by simp
  | cons name names ih =>
    -- once `name` is gone, the rest of the loop removes the others
    have hrest (d₁ : Disk String) (h₁ : Without d [name] d₁) :
        Obeys (AuditSem Left) (fun _ _ => True) (pruneFiles out names).run
          (fun d' result => result = .ok () → Without d (name :: names) d') d₁ := by
      refine (ih (d := d₁)).mono (fun _ _ h => h) fun d' result h hok n => ?_
      rw [h hok n, h₁ n]
      by_cases hn : n = name <;> by_cases hmem : n ∈ names <;> simp [hn, hmem]
    refine obeys_tryBind (obeys_bind ⟨trivial, fun r d₁ (hstep : d.Step (.remove name) r d₁) => ?_⟩)
    cases hstep with
    | removed _ =>
      refine hrest _ fun n => ?_
      rw [Disk.view_push, Update.apply, Function.update_apply]
      simp
    | failed habsent =>
      refine obeys_pure (obeys_pure ?_)
      split_ifs with hnotFound
      · refine hrest d fun n => ?_
        by_cases hn : n = name
        · simp [hn, habsent name rfl hnotFound]
        · simp [hn]
      · exact fun h => by cases h

/-- The calls of a pruning whose listing is `entries`. -/
def ListedAs (Left : String → Bytes → Prop) (entries : List (Except IoError String))
    (d : Disk String) (c : Exchange AuditOp AuditReply) (d' : Disk String) : Prop :=
  AuditSem Left d c d' ∧ ∀ l, c = ⟨.file .list, .ok l⟩ → l = entries

/-- The names that were listed. -/
def listedNames (entries : List (Except IoError String)) : List String :=
  entries.filterMap Except.toOption

theorem mem_listedNames {n : String} : n ∈ listedNames entries ↔ .ok n ∈ entries := by
  rw [listedNames, List.mem_filterMap]
  constructor
  · rintro ⟨entry, hentry, h⟩
    cases entry with
    | error err => cases h
    | ok name =>
      cases h
      exact hentry
  · exact fun h => ⟨_, h, rfl⟩

/-- The files of the stems that are pruned. -/
def prunedFiles (names : List String) (keep : ℕ) : List String :=
  (stemsToPrune names keep).flatMap fun s => Ext.all.map (fin s)

theorem mem_prunedFiles : fin s e ∈ prunedFiles names keep ↔ s ∈ stemsToPrune names keep := by
  rw [prunedFiles, List.mem_flatMap]
  constructor
  · rintro ⟨s₁, hs₁, hmem⟩
    obtain ⟨e', -, heq⟩ := List.mem_map.mp hmem
    rwa [← (fin_inj.mp heq).1]
  · exact fun h => ⟨s, h, List.mem_map.mpr ⟨e, by cases e <;> decide, rfl⟩⟩

/-- **A pruning that returns** has removed the oldest of the stems that were listed, and nothing
else. -/
theorem pruneAudit_returns
    (h : Prog.Returns (ListedAs Left entries) (pruneAudit out keep).run d (.ok k) d') :
    d.Lists entries ∧ Without d (prunedFiles (listedNames entries) keep) d' := by
  have hobeys : Obeys (ListedAs Left entries) (fun _ _ => True) (pruneAudit out keep).run
      (fun d' result => result = .ok k →
        d.Lists entries ∧ Without d (prunedFiles (listedNames entries) keep) d') d := by
    refine obeys_tryBind (obeys_bind ⟨trivial, fun r d₁ hstep => ?_⟩)
    obtain ⟨hstep, hlisted⟩ := hstep
    rcases r with err | l
    · exact fun h => by cases h
    obtain rfl := hlisted l rfl
    obtain ⟨rfl, hlists⟩ : d₁ = d ∧ d.Lists l := by
      cases hstep with
      | listed hlists => exact ⟨rfl, hlists⟩
    have hfiles : Obeys (AuditSem Left) (fun _ _ => True)
        (pruneFiles out (prunedFiles (listedNames l) keep)).run
        (fun d' result => result = .ok () → Without d₁ (prunedFiles (listedNames l) keep) d') d₁ :=
      pruneFiles_without
    refine obeys_tryBind ((hfiles.restrict fun _ _ _ h => h.1).mono (fun _ _ h => h) ?_)
    rintro d₂ (text | ⟨⟩) hwithout
    · exact fun h => by cases h
    · exact fun _ => ⟨hlists, hwithout rfl⟩
  exact hobeys.of_returns h rfl

/-- The loops of `prune_audit` do not list. -/
theorem only_pruneFiles : (pruneFiles out names).run.Only fun op => op ≠ .file .list := by
  induction names with
  | nil => trivial
  | cons name names ih =>
    refine Only.tryBind (Only.bind (only_perform (by simp)) fun r => ?_) fun _ => ih
    rcases r with err | ⟨⟩
    · exact only_pure _
    · exact only_pure _

/-- Every pruning that returns has had its listing. -/
theorem exists_listedAs (h : Prog.Returns (AuditSem Left) (pruneAudit out keep).run d (.ok k) d') :
    ∃ entries, Prog.Returns (ListedAs Left entries) (pruneAudit out keep).run d (.ok k) d' := by
  obtain ⟨cs, hyields, hperf⟩ := h
  obtain ⟨r, rest, rfl, hrest⟩ := yields_call.mp hyields
  rcases r with err | l
  · cases (yields_ret.mp hrest).2
  refine ⟨l, _, hyields, hperf.and_of_forall ?_⟩
  have honly : ∀ c ∈ rest, c.1 ≠ .file .list := by
    refine Only.of_after (P := fun op => op ≠ .file .list) ?_ hrest
    exact only_pruneFiles.tryBind fun _ => only_pure _
  intro c hc l' hl'
  rcases List.mem_cons.mp hc with rfl | hc
  · cases hl'
    rfl
  · exact absurd (congrArg Sigma.fst hl') (honly c hc)

/-! ## What is left -/

/-- A stem of which there is a file. -/
def StemIn (d : Disk String) (s : String) : Prop := IsStem s ∧ ∃ e, d.view (fin s e) ≠ none

/-- What is listed is there. -/
theorem stemIn_of_listed (hlists : d.Lists entries) (h : s ∈ stemsOf (listedNames entries)) :
    StemIn d s := by
  obtain ⟨hstem, e, hmem⟩ := mem_stemsOf.mp h
  exact ⟨hstem, e, hlists.2.1 _ (mem_listedNames.mp hmem)⟩

/-- The stems left are those that were there and are not pruned. -/
theorem stemIn_without (h : Without d (prunedFiles names keep) d') :
    StemIn d' s ↔ StemIn d s ∧ s ∉ stemsToPrune names keep := by
  have hview (e : Ext) : d'.view (fin s e) ≠ none ↔
      d.view (fin s e) ≠ none ∧ s ∉ stemsToPrune names keep := by
    rw [h, ite_ne_left_iff, mem_prunedFiles]
    simp
    tauto
  unfold StemIn
  simp only [hview]
  tauto

/-- The envelope just published is not pruned: a pruned one is not newer than some that is kept. -/
theorem notMem_stemsToPrune {counter : UInt64} (hkeep : 1 ≤ keep)
    (hnewest : ∀ s ∈ stemsOf names, s ≠ stem counter → stemValue s < counter.toNat) :
    stem counter ∉ stemsToPrune names keep := by
  intro hmem
  obtain ⟨-, hsub, -, hle⟩ := stemsToPrune_spec names keep
  have hpos : 0 < (keptStems names keep).card := by
    have hstems : 0 < (stemsOf names).card := Finset.card_pos.mpr ⟨_, hsub _ hmem⟩
    rw [card_keptStems]
    omega
  obtain ⟨kept, hkept⟩ := Finset.card_pos.mp hpos
  obtain ⟨hkept, hnot⟩ := mem_keptStems.mp hkept
  have hvalue : stemValue (stem counter) = counter.toNat := ofDigitChars_stem counter
  have hlt := hnewest kept hkept fun heq => hnot (heq ▸ hmem)
  have hge := hle _ hmem kept hkept hnot
  omega

/-- What is listed and kept is left. -/
theorem keptStems_subset (hlists : d.Lists entries)
    (h : Without d (prunedFiles (listedNames entries) keep) d') :
    (keptStems (listedNames entries) keep : Set String) ⊆ {s | StemIn d' s} := by
  intro s hs
  obtain ⟨hs, hnot⟩ := mem_keptStems.mp (Finset.mem_coe.mp hs)
  exact (stemIn_without h).mpr ⟨stemIn_of_listed hlists hs, hnot⟩

/-- Where no more were listed than are kept, nothing is pruned. -/
theorem notMem_stemsToPrune_of_card_le (h : (stemsOf names).card ≤ keep) :
    s ∉ stemsToPrune names keep := by
  intro hpruned
  have hsame : keptStems names keep = stemsOf names := by
    refine Finset.eq_of_subset_of_card_le Finset.sdiff_subset ?_
    rw [card_keptStems, min_eq_left h]
  have hmem := (stemsToPrune_spec names keep).2.1 s hpruned
  rw [← hsame] at hmem
  exact (mem_keptStems.mp hmem).2 hpruned

/-- **How many are left**: at most `keep`, exactly if there were no more before or all were
listed. -/
theorem encard_left_le_iff (hlists : d.Lists entries)
    (h : Without d (prunedFiles (listedNames entries) keep) d') :
    {s | StemIn d' s}.encard ≤ keep ↔
      {s | StemIn d s}.encard ≤ keep ∨ ∀ s, StemIn d s → s ∈ stemsOf (listedNames entries) := by
  set names := listedNames entries
  have hcard : (keptStems names keep : Set String).encard =
      ((min (stemsOf names).card keep : ℕ) : ℕ∞) := by
    rw [Set.encard_coe_eq_coe_finsetCard, card_keptStems]
  constructor
  · intro hle
    rcases Nat.lt_or_ge keep (stemsOf names).card with hmany | hfew
    · -- those kept are all there is
      have heq : (keptStems names keep : Set String) = {s | StemIn d' s} := by
        refine (Finset.finite_toSet _).eq_of_subset_of_encard_le (keptStems_subset hlists h) ?_
        rw [hcard, min_eq_right hmany.le]
        exact hle
      refine .inr fun s hs => ?_
      by_cases hpruned : s ∈ stemsToPrune names keep
      · exact (stemsToPrune_spec names keep).2.1 s hpruned
      · have hmem : s ∈ {s | StemIn d' s} := (stemIn_without h).mpr ⟨hs, hpruned⟩
        rw [← heq] at hmem
        exact (mem_keptStems.mp (Finset.mem_coe.mp hmem)).1
    · refine .inl (le_trans (Set.encard_le_encard fun s hs => ?_) hle)
      exact (stemIn_without h).mpr ⟨hs, notMem_stemsToPrune_of_card_le hfew⟩
  · rintro (hfew | hall)
    · exact le_trans (Set.encard_le_encard fun s hs => ((stemIn_without h).mp hs).1) hfew
    · have hsubset : {s | StemIn d' s} ⊆ (keptStems names keep : Set String) := by
        intro s hs
        obtain ⟨hs, hnot⟩ := (stemIn_without h).mp hs
        exact Finset.mem_coe.mpr (mem_keptStems.mpr ⟨hall s hs, hnot⟩)
      refine le_trans (Set.encard_le_encard hsubset) ?_
      rw [hcard]
      exact_mod_cast min_le_right _ _

end Lemmas

/-- **Pruning keeps the newest envelopes.**  Of the stems in a list of names all but the newest
`keep` are pruned, whatever the other names.  After a publication and a pruning, at most `keep` are
left exactly if there were no more before the pruning, or each of them was listed; and the envelope
published is whole if it is the newest. -/
theorem publish_then_prune (Left : String → Bytes → Prop) (keep : ℕ) :
    (∀ names, (stemsToPrune names keep).Nodup ∧
      (∀ s ∈ stemsToPrune names keep, s ∈ stemsOf names) ∧
      (stemsOf names \ (stemsToPrune names keep).toFinset).card = min (stemsOf names).card keep ∧
      (∀ r ∈ stemsToPrune names keep, ∀ k ∈ stemsOf names, k ∉ stemsToPrune names keep →
        stemValue r ≤ stemValue k) ∧
      ∀ names', (∀ s, IsStem s → ((∃ e, fin s e ∈ names') ↔ ∃ e, fin s e ∈ names)) →
        stemsToPrune names' keep = stemsToPrune names keep) ∧
    ∀ (out : String) (counter : UInt64) (msg tag : Bytes) (d d₁ d₂ : Disk String)
      (k : ℕ), 1 ≤ keep →
      Prog.Returns (AuditSem Left) (publishEnvelope out (stem counter) msg tag).run d (.ok ()) d₁ →
      Prog.Returns (AuditSem Left) (pruneAudit out keep).run d₁ (.ok k) d₂ →
      (∃ entries, Prog.Returns (ListedAs Left entries) (pruneAudit out keep).run d₁ (.ok k) d₂) ∧
      (∀ entries, Prog.Returns (ListedAs Left entries) (pruneAudit out keep).run d₁ (.ok k) d₂ →
        ({s | StemIn d₂ s}.encard ≤ keep ↔
          {s | StemIn d₁ s}.encard ≤ keep ∨ ∀ s, StemIn d₁ s → ∃ e, .ok (fin s e) ∈ entries)) ∧
      ((∀ s, StemIn d₁ s → s ≠ stem counter → stemValue s < counter.toNat) →
        ∀ e, d₂.view (fin (stem counter) e) ≠ none) := by
  constructor
  · intro names
    obtain ⟨hnodup, hsub, hcard, hle⟩ := stemsToPrune_spec names keep
    refine ⟨hnodup, hsub, hcard, hle, fun names' hsame => stemsToPrune_congr ?_ keep⟩
    ext s
    rw [mem_stemsOf, mem_stemsOf]
    exact and_congr_right (hsame s)
  · intro out counter msg tag d d₁ d₂ k hkeep hpublish hprune
    obtain ⟨listing, hlisted⟩ := exists_listedAs hprune
    refine ⟨⟨listing, hlisted⟩, fun entries hprune => ?_, fun hnewest e => ?_⟩
    · obtain ⟨hlists, hwithout⟩ := pruneAudit_returns hprune
      rw [encard_left_le_iff hlists hwithout]
      refine or_congr_right (forall₂_congr fun s hs => ?_)
      rw [mem_stemsOf]
      simp only [mem_listedNames, hs.1, true_and]
    · obtain ⟨hlists, hwithout⟩ := pruneAudit_returns hlisted
      have hthere := publish_present.of_returns hpublish rfl e
      have hkept := notMem_stemsToPrune hkeep fun s hs =>
        hnewest s (stemIn_of_listed hlists hs)
      rw [hwithout, if_neg fun hmem => hkept (mem_prunedFiles.mp hmem)]
      exact hthere

/-! ## A listing that fails -/

namespace FailedListing

/-- Envelope 4 is there. -/
def before : Disk String := (runFor sampleMachine 17
  (publishEnvelope "audit" (stem 4) [7] [8]).run Disk.empty).2.1

/-- Envelope 5 is published. -/
def published : List (Exchange AuditOp AuditReply) × Disk String ×
    Prog AuditOp AuditReply (Except String Unit) :=
  runFor sampleMachine 17 (publishEnvelope "audit" (stem 5) [7] [8]).run before

/-- The listing fails before its first entry. -/
def entries : List (Except IoError String) := [.error ⟨false, "Input/output error"⟩]

theorem publish_returns : Prog.Returns (AuditSem fun _ _ => True)
    (publishEnvelope "audit" (stem 5) [7] [8]).run before (.ok ()) published.2.1 :=
  returns_of_runFor sampleMachine_possible (by rfl)

theorem lists_entries (d : Disk String) : d.Lists entries := by
  refine ⟨by decide, fun n hn => ?_, fun n _ => .inr ⟨_, List.mem_cons_self⟩⟩
  cases List.mem_singleton.mp hn

theorem prune_returns : Prog.Returns (ListedAs (fun _ _ => True) entries)
    (pruneAudit "audit" 1).run published.2.1 (.ok 0) published.2.1 := by
  refine ⟨[⟨.file .list, .ok entries⟩], .call (.here _),
    .cons ⟨.listed (lists_entries _), ?_⟩ (.nil _)⟩
  rintro l ⟨⟩
  rfl

theorem stemIn_published : StemIn published.2.1 (stem 4) ∧ StemIn published.2.1 (stem 5) :=
  ⟨⟨by decide, .tag, by decide +kernel⟩, ⟨by decide, .tag, by decide +kernel⟩⟩

end FailedListing

/-- At that run, the two sides of the equivalence are both false. -/
theorem publish_then_prune_failedListing :
    ¬ {s | StemIn FailedListing.published.2.1 s}.encard ≤ (1 : ℕ) ↔
      ¬ ({s | StemIn FailedListing.published.2.1 s}.encard ≤ (1 : ℕ) ∨
        ∀ s, StemIn FailedListing.published.2.1 s →
          ∃ e, .ok (fin s e) ∈ FailedListing.entries) :=
  not_congr (((publish_then_prune _ _).2 _ _ _ _ _ _ _ _ le_rfl FailedListing.publish_returns
    (FailedListing.prune_returns.mono fun _ _ _ h => h.1)).2.1 _ FailedListing.prune_returns)

/-- The pruning returns without an error, and leaves two envelopes where one is to be kept. -/
theorem failedListing_unbounded :
    ∃ d d₁ d₂ : Disk String,
      Prog.Returns (AuditSem fun _ _ => True) (publishEnvelope "audit" (stem 5) [7] [8]).run d
        (.ok ()) d₁ ∧
      Prog.Returns (AuditSem fun _ _ => True) (pruneAudit "audit" 1).run d₁ (.ok 0) d₂ ∧
      ¬ {s | StemIn d₂ s}.encard ≤ (1 : ℕ) := by
  refine ⟨_, _, _, FailedListing.publish_returns,
    FailedListing.prune_returns.mono fun _ _ _ h => h.1, ?_⟩
  obtain ⟨hfour, hfive⟩ := FailedListing.stemIn_published
  have hpair : ({stem 4, stem 5} : Set String) ⊆ {s | StemIn FailedListing.published.2.1 s} := by
    rintro s (rfl | rfl)
    · exact hfour
    · exact hfive
  have htwo : ({stem 4, stem 5} : Set String).encard = 2 := by
    refine Set.encard_pair fun h => ?_
    exact absurd (stem_injective h) (by decide)
  intro hle
  have hbound := le_trans (Set.encard_le_encard hpair) hle
  rw [htwo] at hbound
  exact absurd hbound (by decide)

end TactiqAttest.Prover
