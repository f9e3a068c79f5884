import TactiqAttest.Appraise.Appraisal

/-!
# What a bundle presents

Gate 3 sees of a bundle the kinds it presents, as a list that `presented_kinds` collects from the
sections.  Nothing depends on more than which kinds are in the list: not on their order or
repetition in the bundle, not on the bodies, and not on the sections of unknown tags.

`verdict_by_kinds` says so of two envelopes, and what the verdict is when the state is recognised.
-/

namespace TactiqAttest.Appraise

open Envelope

/-- A section of the kind is there. -/
def Presents (ss : List Section) (kind : EvidenceKind) : Prop :=
  ∃ s ∈ ss, EvidenceKind.fromTag s.tag = some kind

/-- The same known tags are there. -/
def SameKnownTags (ss ss' : List Section) : Prop :=
  ∀ tag, (EvidenceKind.fromTag tag).isSome = true →
    ((∃ s ∈ ss, s.tag = tag) ↔ ∃ s ∈ ss', s.tag = tag)

variable {ss ss' : List Section} {kind : EvidenceKind}
  {out presented presented' : List EvidenceKind} {auth auth' : Authenticated} {refs : ReferenceSet}

/-! ## The kinds -/

/-- One turn of the loop of `presented_kinds`. -/
def kindsStep (out : List EvidenceKind) (s : Section) : List EvidenceKind :=
  match EvidenceKind.fromTag s.tag with
  | some kind => if out.contains kind then out else out ++ [kind]
  | none => out

theorem kindsOf_eq : kindsOf ss = ss.foldl kindsStep [] := rfl

/-- The kind of the section is in the list afterwards, and what was before. -/
theorem mem_kindsStep {s : Section} :
    kind ∈ kindsStep out s ↔ kind ∈ out ∨ EvidenceKind.fromTag s.tag = some kind := by
  unfold kindsStep
  rcases EvidenceKind.fromTag s.tag with _ | k
  · simp
  · simp only [List.contains_iff_mem, Option.some_inj]
    split_ifs with hk
    · refine ⟨Or.inl, ?_⟩
      rintro (h | rfl)
      · exact h
      · exact hk
    · rw [List.mem_append, List.mem_singleton, eq_comm (a := k)]

/-- The loop collects the kinds that are there. -/
theorem mem_kindsOf : kind ∈ kindsOf ss ↔ Presents ss kind := by
  have hloop : ∀ out, kind ∈ ss.foldl kindsStep out ↔ kind ∈ out ∨ Presents ss kind := by
    unfold Presents
    induction ss with
    | nil => simp
    | cons s ss ih =>
      intro out
      rw [List.foldl_cons, ih, mem_kindsStep, List.exists_mem_cons_iff, or_assoc]
  rw [kindsOf_eq, hloop]
  simp

/-- The same known tags are the same kinds. -/
theorem SameKnownTags.presents_iff (h : SameKnownTags ss ss') :
    Presents ss kind ↔ Presents ss' kind := by
  have htags : ∀ ss, Presents ss kind ↔
      ∃ tag, EvidenceKind.fromTag tag = some kind ∧ ∃ s ∈ ss, s.tag = tag := by
    intro ss
    constructor
    · rintro ⟨s, hs, htag⟩
      exact ⟨s.tag, htag, s, hs, rfl⟩
    · rintro ⟨_, htag, s, hs, rfl⟩
      exact ⟨s, hs, htag⟩
  rw [htags, htags]
  refine exists_congr fun tag => and_congr_right fun htag => h tag ?_
  rw [htag]
  rfl

/-! ## The verdict -/

/-- Gate 3 asks of the list only what is in it. -/
theorem gate3_congr {attested : AttestedState} (h : ∀ k, k ∈ presented ↔ k ∈ presented') :
    gate3 attested presented refs = gate3 attested presented' refs := by
  have hmissing : (fun k => !presented.contains k) = fun k => !presented'.contains k := by
    funext k
    rw [Bool.eq_iff_iff]
    simp [h k]
  unfold gate3
  rw [hmissing]

/-- With a recognised state, the verdict accepts when nothing is missing. -/
theorem appraise_accept_iff_presents (hparse : parseBundle auth.evidence = .ok ss)
    (h : refs.Recognises auth) :
    appraise auth refs = .accept ↔ ∀ k ∈ refs.requiredEvidence, Presents ss k := by
  rw [appraise_of_parse hparse, gate3_of_recognises h]
  rcases hfind : refs.requiredEvidence.find? fun k => !(kindsOf ss).contains k with _ | k
  · simp only [List.find?_eq_none, Bool.not_eq_true', Bool.not_eq_false, List.contains_iff_mem,
      mem_kindsOf] at hfind
    exact iff_of_true rfl hfind
  · have hmissing : ¬ Presents ss k := by simpa [mem_kindsOf] using List.find?_some hfind
    refine iff_of_false (by simp [Verdict.accept, Verdict.reject]) fun hall => ?_
    exact hmissing (hall k (List.mem_of_find?_eq_some hfind))

/-- With a recognised state and something missing, the verdict is about the first that is. -/
theorem appraise_first_missing (hparse : parseBundle auth.evidence = .ok ss)
    (h : refs.Recognises auth) (hmissing : ¬ ∀ k ∈ refs.requiredEvidence, Presents ss k) :
    ∃ before k after, refs.requiredEvidence = before ++ k :: after ∧ (∀ j ∈ before, Presents ss j) ∧
      ¬ Presents ss k ∧ appraise auth refs = .reject (.evidenceMissing k) := by
  rw [appraise_of_parse hparse, gate3_of_recognises h]
  rcases hfind : refs.requiredEvidence.find? fun k => !(kindsOf ss).contains k with _ | k
  · simp only [List.find?_eq_none, Bool.not_eq_true', Bool.not_eq_false, List.contains_iff_mem,
      mem_kindsOf] at hfind
    exact absurd hfind hmissing
  · obtain ⟨hk, before, after, hsplit, hbefore⟩ := List.find?_eq_some_iff_append.mp hfind
    have hno : ¬ Presents ss k := by simpa [mem_kindsOf] using hk
    have hall : ∀ j ∈ before, Presents ss j := by simpa [mem_kindsOf] using hbefore
    exact ⟨before, k, after, hsplit, hall, hno, rfl⟩

/-- **The verdict depends on a bundle only through the known kinds it presents**; and when the state
is recognised, it accepts exactly if every required kind is presented, and else names the first in
the profile's order that is not. -/
theorem verdict_by_kinds (refs : ReferenceSet)
    (hsame : auth' = { auth with evidence := auth'.evidence })
    (hparse : parseBundle auth.evidence = .ok ss) (hparse' : parseBundle auth'.evidence = .ok ss')
    (htags : SameKnownTags ss ss') :
    appraise auth refs = appraise auth' refs ∧
      (refs.Recognises auth →
        (appraise auth refs = .accept ↔ ∀ k ∈ refs.requiredEvidence, Presents ss k) ∧
        ((∃ k ∈ refs.requiredEvidence, ¬ Presents ss k) →
          ∃ before k after, refs.requiredEvidence = before ++ k :: after ∧
            (∀ j ∈ before, Presents ss j) ∧ ¬ Presents ss k ∧
            appraise auth refs = .reject (.evidenceMissing k))) := by
  refine ⟨?_, fun h => ⟨appraise_accept_iff_presents hparse h, fun hmissing => ?_⟩⟩
  · have hstate : AttestedState.fromAuthenticated auth = .fromAuthenticated auth' := by
      rw [hsame]
      rfl
    rw [appraise_of_parse hparse, appraise_of_parse hparse', hstate]
    exact gate3_congr fun k => mem_kindsOf.trans (htags.presents_iff.trans mem_kindsOf.symm)
  · obtain ⟨k, hk, hno⟩ := hmissing
    exact appraise_first_missing hparse h fun hall => hno (hall k hk)

/-! ### Two bundles of one kind -/

def gpuSections : List Section := [⟨tagGpuAttest, [1]⟩, ⟨0x8000, []⟩, ⟨tagGpuAttest, [2, 3]⟩]

def gpuSections' : List Section := [⟨0x8001, [9]⟩, ⟨tagGpuAttest, []⟩]

/-- An envelope with this bundle. -/
def sampleEnvelope (ss : List Section) : Authenticated :=
  { RogueSample.authenticated with evidence := ss.flatMap Section.frame }

/-- The state is recognised, and two kinds are required. -/
def sampleProfile : ReferenceSet where
  expectedSelection := .fromCanonical RogueSample.selection
  allowed := [RogueSample.authenticated.pcrHash]
  requiredEvidence := [.gpuAttest, .cpuTee]

/-- The two get one verdict, and it does not accept. -/
theorem verdict_by_kinds_gpu :
    appraise (sampleEnvelope gpuSections) sampleProfile =
        appraise (sampleEnvelope gpuSections') sampleProfile ∧
      appraise (sampleEnvelope gpuSections) sampleProfile ≠ .accept := by
  have hparse : parseBundle (sampleEnvelope gpuSections).evidence = .ok gpuSections :=
    parseBundle_ok.mpr ⟨by decide, rfl⟩
  have hparse' : parseBundle (sampleEnvelope gpuSections').evidence = .ok gpuSections' :=
    parseBundle_ok.mpr ⟨by decide, rfl⟩
  have htags : SameKnownTags gpuSections gpuSections' := by
    intro tag htag
    have hknown : tag ≠ 0x8000 ∧ tag ≠ 0x8001 := by
      constructor
      · rintro rfl
        exact absurd htag (by decide)
      · rintro rfl
        exact absurd htag (by decide)
    simp [gpuSections, gpuSections', hknown.1.symm, hknown.2.symm]
  have hrecognised : sampleProfile.Recognises (sampleEnvelope gpuSections) :=
    ⟨rfl, List.mem_singleton.mpr rfl⟩
  have hrest : sampleEnvelope gpuSections' =
      { sampleEnvelope gpuSections with evidence := (sampleEnvelope gpuSections').evidence } := rfl
  obtain ⟨hsame, hverdict⟩ := verdict_by_kinds sampleProfile hrest hparse hparse' htags
  refine ⟨hsame, fun haccept => ?_⟩
  obtain ⟨s, hs, hkind⟩ := (hverdict hrecognised).1.mp haccept .cpuTee (by simp [sampleProfile])
  have hnone : ∀ s ∈ gpuSections, EvidenceKind.fromTag s.tag ≠ some .cpuTee := by decide
  exact hnone s hs hkind

end TactiqAttest.Appraise
