import Mathlib.Data.Finset.Card
import Mathlib.Data.String.Basic
import TactiqAttest.Prover.Audit

/-!
# Which envelopes are pruned

`stems_to_prune` looks at the names in the audit directory and gives back the stems of the oldest
envelopes.  A stem is a string of digits for a number of 64 bits (`IsStem`), and a name belongs to
it if it is the stem with one of the four extensions.

* `stemOf_eq_some`: what the code takes for the name of an envelope.
* `stemsOf`: the stems of a directory, a set of strings.
* `stemsToPrune_spec`: all stems but the newest `keep` of them are pruned, and the other names do
  not matter.
-/

namespace TactiqAttest.Prover

/-! ## Stems -/

/-- The number of a stem. -/
def stemValue (s : String) : ℕ := Nat.ofDigitChars 10 s.toList 0

/-- Digits, at least one, for a number of 64 bits. -/
def IsStem (s : String) : Prop :=
  s.toList ≠ [] ∧ (∀ c ∈ s.toList, c.isDigit = true) ∧ stemValue s < 2 ^ 64

theorem isStem_iff_all {s : String} :
    s.toList ≠ [] ∧ s.toList.all Char.isDigit = true ∧ stemValue s < 2 ^ 64 ↔ IsStem s := by
  rw [IsStem, List.all_eq_true]

instance : DecidablePred IsStem := fun _ => decidable_of_iff _ isStem_iff_all

/-- The stems of a list of names. -/
def stemsOf (names : List String) : Finset String :=
  ((names.filterMap stemOf).map Prod.snd).toFinset

variable {s name : String} {n keep : ℕ} {names names' : List String} {e : Ext}

theorem isEnvelopeExt_iff {ext : List Char} :
    isEnvelopeExt ext = true ↔ ∃ e : Ext, ext = e.text.toList := by
  rw [isEnvelopeExt, List.contains_iff_mem, List.mem_map]
  constructor
  · rintro ⟨e, -, rfl⟩
    exact ⟨e, rfl⟩
  · rintro ⟨e, rfl⟩
    exact ⟨e, by cases e <;> decide, rfl⟩

theorem dot_notMem_text : '.' ∉ e.text.toList := by
  cases e <;> decide

/-- A name is cut at its last dot. -/
theorem rsplitOnce_fin : Chars.rsplitOnce '.' (fin s e).toList =
    some (s.toList, e.text.toList) := by
  have htext : (fin s e).toList = s.toList ++ '.' :: e.text.toList := by
    rw [fin, String.toList_append, String.toList_append, List.append_assoc]
    rfl
  rw [htext, Chars.rsplitOnce_append dot_notMem_text]

theorem plus_notMem_of_digits {cs : List Char} (h : ∀ c ∈ cs, c.isDigit = true) : '+' ∉ cs :=
  fun hmem => absurd (h _ hmem) (by decide)

/-- **The names of envelopes**, and the stem and the number of each. -/
theorem stemOf_eq_some :
    stemOf name = some (n, s) ↔ IsStem s ∧ n = stemValue s ∧ ∃ e, name = fin s e := by
  constructor
  · intro h
    obtain ⟨⟨stem, ext⟩, hcut, h⟩ := Option.bind_eq_some_iff.mp h
    dsimp only at h
    split_ifs at h with hbad
    obtain ⟨value, hvalue, h⟩ := Option.bind_eq_some_iff.mp h
    obtain ⟨rfl, rfl⟩ := Prod.mk.inj (Option.some_inj.mp h)
    simp only [Bool.or_eq_true, Bool.not_eq_true', not_or, Bool.not_eq_false, List.isEmpty_iff,
      List.all_eq_true] at hbad
    obtain ⟨⟨hext, hne⟩, hdigits⟩ := hbad
    obtain ⟨e, rfl⟩ := isEnvelopeExt_iff.mp hext
    obtain ⟨-, -, hnumber, hlt⟩ :=
      (Chars.parseUnsigned_eq_some (plus_notMem_of_digits hdigits)).mp hvalue
    have hstem : (String.ofList stem).toList = stem := String.toList_ofList
    refine ⟨⟨by rwa [hstem], by rwa [hstem], ?_⟩, ?_, e, String.toList_inj.mp ?_⟩
    · rwa [stemValue, hstem, hnumber]
    · rw [stemValue, hstem, hnumber]
    · rw [← Chars.append_of_rsplitOnce hcut, fin, String.toList_append, String.toList_append, hstem,
        List.append_assoc]
      rfl
  · rintro ⟨⟨hne, hdigits, hlt⟩, rfl, e, rfl⟩
    have hparse : Chars.parseUnsigned (2 ^ 64) s.toList = some (stemValue s) :=
      (Chars.parseUnsigned_eq_some (plus_notMem_of_digits hdigits)).mpr ⟨hne, hdigits, rfl, hlt⟩
    have hgood : ¬ (!isEnvelopeExt e.text.toList || s.toList.isEmpty ||
        !s.toList.all Char.isDigit) = true := by
      simp only [Bool.or_eq_true, Bool.not_eq_true', not_or, Bool.not_eq_false, List.isEmpty_iff,
        List.all_eq_true]
      exact ⟨⟨isEnvelopeExt_iff.mpr ⟨e, rfl⟩, hne⟩, hdigits⟩
    refine Option.bind_eq_some_iff.mpr ⟨_, rsplitOnce_fin, ?_⟩
    dsimp only
    rw [if_neg hgood, hparse, String.ofList_toList]
    rfl

theorem mem_stemsOf : s ∈ stemsOf names ↔ IsStem s ∧ ∃ e, fin s e ∈ names := by
  rw [stemsOf, List.mem_toFinset, List.mem_map]
  constructor
  · rintro ⟨⟨n, s⟩, hmem, rfl⟩
    obtain ⟨name, hname, hstem⟩ := List.mem_filterMap.mp hmem
    obtain ⟨hs, -, e, rfl⟩ := stemOf_eq_some.mp hstem
    exact ⟨hs, e, hname⟩
  · rintro ⟨hs, e, hmem⟩
    exact ⟨(stemValue s, s), List.mem_filterMap.mpr ⟨_, hmem, stemOf_eq_some.mpr ⟨hs, rfl, e, rfl⟩⟩,
      rfl⟩

/-! ## The order -/

instance : Std.Antisymm stemLe where
  antisymm a b hab hba := by
    rcases hab with hlt | ⟨heq, hle⟩ <;> rcases hba with hlt' | ⟨heq', hle'⟩
    · omega
    · omega
    · omega
    · exact Prod.ext heq (le_antisymm hle hle')

instance : Std.Total stemLe where
  total a b := by
    rcases lt_trichotomy a.1 b.1 with hlt | heq | hgt
    · exact .inl (.inl hlt)
    · exact (le_total a.2 b.2).imp (fun h => .inr ⟨heq, h⟩) fun h => .inr ⟨heq.symm, h⟩
    · exact .inr (.inl hgt)

instance : IsTrans (ℕ × String) stemLe where
  trans a b c hab hbc := by
    rcases hab with hlt | ⟨heq, hle⟩ <;> rcases hbc with hlt' | ⟨heq', hle'⟩
    · exact .inl (hlt.trans hlt')
    · exact .inl (heq' ▸ hlt)
    · exact .inl (heq ▸ hlt')
    · exact .inr ⟨heq.trans heq', hle.trans hle'⟩

theorem fst_le_of_stemLe {a b : ℕ × String} (h : stemLe a b) : a.1 ≤ b.1 := by
  rcases h with hlt | ⟨heq, -⟩
  · exact hlt.le
  · exact heq.le

/-! ## What is pruned -/

/-- The stems with their numbers, the oldest first. -/
def sortedStems (names : List String) : List (ℕ × String) :=
  (names.filterMap stemOf).sortDedup stemLe

theorem mem_sortedStems : (n, s) ∈ sortedStems names ↔ n = stemValue s ∧ s ∈ stemsOf names := by
  rw [sortedStems, List.mem_sortDedup, mem_stemsOf, List.mem_filterMap]
  constructor
  · rintro ⟨name, hname, hstem⟩
    obtain ⟨hs, hn, e, rfl⟩ := stemOf_eq_some.mp hstem
    exact ⟨hn, hs, e, hname⟩
  · rintro ⟨hn, hs, e, hmem⟩
    exact ⟨_, hmem, stemOf_eq_some.mpr ⟨hs, hn, e, rfl⟩⟩

/-- The stems in this order, each once. -/
theorem map_sortedStems (names : List String) :
    ((sortedStems names).map Prod.snd).Nodup ∧
      ((sortedStems names).map Prod.snd).toFinset = stemsOf names := by
  constructor
  · refine List.Nodup.map_on ?_ ((List.pairwise_sortDedup stemLe _).imp And.right)
    rintro ⟨n, s⟩ hs ⟨n', s'⟩ hs' rfl
    rw [(mem_sortedStems.mp hs).1, (mem_sortedStems.mp hs').1]
  · ext s
    rw [List.mem_toFinset, List.mem_map]
    constructor
    · rintro ⟨⟨n, s⟩, hs, rfl⟩
      exact (mem_sortedStems.mp hs).2
    · exact fun hs => ⟨(stemValue s, s), mem_sortedStems.mpr ⟨rfl, hs⟩, rfl⟩

theorem stemsToPrune_eq : stemsToPrune names keep =
    ((sortedStems names).take ((sortedStems names).length - keep)).map Prod.snd := rfl

/-- **All stems but the newest `keep` are pruned.** -/
theorem stemsToPrune_spec (names : List String) (keep : ℕ) :
    (stemsToPrune names keep).Nodup ∧ (∀ s ∈ stemsToPrune names keep, s ∈ stemsOf names) ∧
      (stemsOf names \ (stemsToPrune names keep).toFinset).card = min (stemsOf names).card keep ∧
      ∀ r ∈ stemsToPrune names keep, ∀ k ∈ stemsOf names, k ∉ stemsToPrune names keep →
        stemValue r ≤ stemValue k := by
  obtain ⟨hnodup, hstems⟩ := map_sortedStems names
  set excess := (sortedStems names).length - keep
  have hprune : stemsToPrune names keep = ((sortedStems names).map Prod.snd).take excess := by
    rw [stemsToPrune_eq, ← List.map_take]
  have hkept : (stemsOf names \ (stemsToPrune names keep).toFinset) =
      (((sortedStems names).map Prod.snd).drop excess).toFinset := by
    have hsplit := List.take_append_drop excess ((sortedStems names).map Prod.snd)
    have hdisjoint := List.disjoint_of_nodup_append (hsplit.symm ▸ hnodup)
    ext s
    rw [Finset.mem_sdiff, List.mem_toFinset, List.mem_toFinset, hprune, ← hstems, List.mem_toFinset]
    nth_rewrite 1 [← hsplit]
    rw [List.mem_append]
    exact ⟨fun h => h.1.resolve_left h.2, fun h => ⟨.inr h, fun h' => hdisjoint h' h⟩⟩
  have hcard : (stemsOf names).card = (sortedStems names).length := by
    rw [← hstems, List.toFinset_card_of_nodup hnodup, List.length_map]
  refine ⟨hprune ▸ hnodup.sublist (List.take_sublist _ _), fun s hs => ?_, ?_,
    fun r hr k hk hnot => ?_⟩
  · rw [hprune] at hs
    rw [← hstems, List.mem_toFinset]
    exact List.mem_of_mem_take hs
  · rw [hkept, List.toFinset_card_of_nodup (hnodup.sublist (List.drop_sublist _ _)),
      List.length_drop, List.length_map, hcard]
    omega
  · -- in the sorted list, what is taken stands before what is left
    have hk : k ∈ ((sortedStems names).map Prod.snd).drop excess := by
      have hmem : k ∈ stemsOf names \ (stemsToPrune names keep).toFinset :=
        Finset.mem_sdiff.mpr ⟨hk, fun h => hnot (List.mem_toFinset.mp h)⟩
      rwa [hkept, List.mem_toFinset] at hmem
    rw [hprune, ← List.map_take] at hr
    rw [← List.map_drop] at hk
    obtain ⟨⟨m, r⟩, hrmem, rfl⟩ := List.mem_map.mp hr
    obtain ⟨⟨n, k⟩, hkmem, rfl⟩ := List.mem_map.mp hk
    have hsorted : (sortedStems names).Pairwise stemLe :=
      (List.pairwise_sortDedup stemLe _).imp And.left
    rw [← List.take_append_drop excess (sortedStems names)] at hsorted
    have hle := fst_le_of_stemLe ((List.pairwise_append.mp hsorted).2.2 _ hrmem _ hkmem)
    rwa [(mem_sortedStems.mp (List.mem_of_mem_take hrmem)).1,
      (mem_sortedStems.mp (List.mem_of_mem_drop hkmem)).1] at hle

/-- The stems that are left. -/
def keptStems (names : List String) (keep : ℕ) : Finset String :=
  stemsOf names \ (stemsToPrune names keep).toFinset

theorem mem_keptStems : s ∈ keptStems names keep ↔
    s ∈ stemsOf names ∧ s ∉ stemsToPrune names keep := by
  rw [keptStems, Finset.mem_sdiff, List.mem_toFinset]

theorem card_keptStems : (keptStems names keep).card = min (stemsOf names).card keep :=
  (stemsToPrune_spec names keep).2.2.1

/-- Names that are not those of envelopes do not matter. -/
theorem stemsToPrune_congr (h : stemsOf names' = stemsOf names) (keep : ℕ) :
    stemsToPrune names' keep = stemsToPrune names keep := by
  have hsorted : sortedStems names' = sortedStems names := by
    refine List.eq_sortDedup (List.pairwise_sortDedup stemLe _) ?_
    rintro ⟨n, s⟩
    have hmem : (n, s) ∈ sortedStems names' ↔ (n, s) ∈ sortedStems names := by
      rw [mem_sortedStems, mem_sortedStems, h]
    rw [hmem, sortedStems, List.mem_sortDedup]
  rw [stemsToPrune_eq, stemsToPrune_eq, hsorted]

end TactiqAttest.Prover
