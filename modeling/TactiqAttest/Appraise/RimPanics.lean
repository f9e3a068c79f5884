import TactiqAttest.Appraise.Rim

/-!
# Where reading a RIM panics

`reference_from_rim` compares the keys of `pcr.values` with the selection as numbers, and looks the
values up by the selected numbers written in decimal.  A key with a leading zero or a plus sign
passes the comparison and is then not found: `&values[&i.to_string()]` panics.

* `KeysMatch rim`: what has to hold for the lookups to be reached.
* `found_iff_canonical`: then they all succeed exactly if every key is written in decimal.
* `panics_iff`: the first selected PCR whose key is misspelt panics, unless a smaller one is
  refused.
-/

namespace TactiqAttest.Appraise

open Envelope

/-! ## What can be read -/

/-- The values of one PCR are such that the loop takes them, slots apart. -/
def Readable : Json → Prop
  | .array list => list ≠ [] ∧ ∀ x ∈ list, ∃ d, Writes x d
  | .object map => map ≠ [] ∧ ∀ field ∈ map, ∃ d, Writes field.2 d
  | _ => False

/-- The slots the values of a PCR are keyed by. -/
def slotsIn : Json → Option (List String)
  | .object map => some (map.map Prod.fst)
  | _ => none

/-- The keys of `pcr.values` are the selection, as numbers: what is checked before the first
lookup. -/
structure KeysMatch (rim : Json) : Prop where
  format : (rim.get "format").bind Json.asStr = some rimFormat
  bank : ((rim.get "pcr").bind fun pcr => pcr.get "bank").bind Json.asStr = some "sha256"
  selection : ∃ list, ((rim.get "pcr").bind fun pcr => pcr.get "selection").bind Json.asArray =
    some list ∧ list ≠ [] ∧ ∀ v ∈ list, ∃ n : UInt64, v.asU64 = some n ∧ n.toNat ≤ 23
  values : (((rim.get "pcr").bind fun pcr => pcr.get "values").bind Json.asObject).isSome
  keys : ∃ keys, List.Forall₂ (fun field k => Chars.parseUnsigned 256 field.1.toList = some k)
    (valuesOf rim) keys ∧ keys.Nodup ∧ ∀ i, i ∈ keys ↔ i ∈ pcrsOf rim

/-- PCR `i` has a key that is not its number in decimal. -/
def Misspelt (values : List (String × Json)) (i : ℕ) : Prop :=
  ∃ field ∈ values, Chars.parseUnsigned 256 field.1.toList = some i ∧ field.1 ≠ toString i

/-- The values of a PCR are found and taken, with these slots if they are keyed by slot. -/
def Taken (values : List (String × Json)) (names : List String) (i : ℕ) : Prop :=
  ∃ v, values.lookup (toString i) = some v ∧ Readable v ∧ ∀ s, slotsIn v = some s → s = names

section Lemmas

variable {C : Crypto} {debug : String → String} {rim v : Json} {what : String} {i : ℕ}
  {values : List (String × Json)} {selection keys : List ℕ} {slots : Option (List String)}

/-! ## One PCR -/

/-- A list of results exists if there is one for each element. -/
theorem exists_mapM_eq_ok {ε α β : Type} {l : List α} {f : α → Except ε β} :
    (∃ bs, l.mapM f = .ok bs) ↔ ∀ a ∈ l, ∃ b, f a = .ok b := by
  simp only [Except.mapM_eq_ok]
  induction l with
  | nil => simp
  | cons a l ih =>
    rw [List.forall_mem_cons, ← ih]
    constructor
    · rintro ⟨_, _ | ⟨hb, hbs⟩⟩
      exact ⟨⟨_, hb⟩, _, hbs⟩
    · rintro ⟨⟨b, hb⟩, bs, hbs⟩
      exact ⟨b :: bs, .cons hb hbs⟩

/-- A list that fails fails at one of its elements. -/
theorem exists_of_mapM_eq_error {ε α β : Type} {l : List α} {f : α → Except ε β} {e : ε}
    (h : l.mapM f = .error e) : ∃ a ∈ l, f a = .error e := by
  induction l with
  | nil => cases h
  | cons a l ih =>
    rw [List.mapM_cons, Except.bind_eq_error] at h
    rcases h with ha | ⟨b, -, h⟩
    · exact ⟨a, List.mem_cons_self, ha⟩
    · rw [Except.bind_eq_error] at h
      rcases h with hl | ⟨bs, -, h⟩
      · obtain ⟨a', ha', hf⟩ := ih hl
        exact ⟨a', List.mem_cons_of_mem _ ha', hf⟩
      · cases h

theorem exists_agreeOnSlots {names : List String} :
    (∃ s, agreeOnSlots debug what names slots = .ok s) ↔ ∀ t, slots = some t → t = names := by
  cases slots with
  | none => simp [agreeOnSlots]
  | some t =>
    rw [agreeOnSlots]
    split_ifs with h
    · simp [h]
    · simp [h]

/-- The slots read are those the values are keyed by. -/
theorem names_of_forall₂ {map : List (String × Json)} {m : List (String × PcrHash)}
    (h : List.Forall₂ (fun field entry => entry.1 = field.1 ∧ Writes field.2 entry.2) map m) :
    m.map Prod.fst = map.map Prod.fst := by
  induction h with
  | nil => rfl
  | cons hentry _ ih => rw [List.map_cons, List.map_cons, hentry.1, ih]

/-- One turn of the loop goes through if the values can be read and name the slots known so far. -/
theorem exists_readPcr :
    (∃ r, readPcr debug i v slots = .ok r) ↔
      Readable v ∧ ∀ s t, slotsIn v = some s → slots = some t → t = s := by
  cases v with
  | array list =>
    have hread : (∃ ds, (list.mapM fun x => digest debug x s!"RIM PCR {i}") = .ok ds) ↔
        ∀ x ∈ list, ∃ d, Writes x d := by simp only [exists_mapM_eq_ok, digest_ok]
    simp only [readPcr, Except.bind_eq_ok, Except.mapError_eq_ok, Except.pure_eq_ok,
      Except.ensure_eq_ok, Readable, slotsIn, ← hread]
    constructor
    · rintro ⟨-, -, hne, ds, hds, -⟩
      exact ⟨⟨hne, ds, hds⟩, by simp⟩
    · rintro ⟨⟨hne, ds, hds⟩, -⟩
      exact ⟨_, (), hne, ds, hds, rfl⟩
  | object map =>
    have hslots (what : String) : (∃ m, (map.mapM fun field =>
        (field.1, ·) <$> digest debug field.2 s!"{what} slot {field.1}") = .ok m) ↔
        ∀ field ∈ map, ∃ d, Writes field.2 d := by
      rw [exists_mapM_eq_ok]
      refine forall₂_congr fun field _ => ?_
      simp only [Except.map_eq_ok, digest_ok]
      constructor
      · rintro ⟨_, d, hd, -⟩
        exact ⟨d, hd⟩
      · rintro ⟨d, hd⟩
        exact ⟨_, d, hd, rfl⟩
    have hread := hslots s!"RIM PCR {i}"
    simp only [readPcr, Except.bind_eq_ok, Except.mapError_eq_ok, Except.pure_eq_ok,
      Except.ensure_eq_ok, Readable, slotsIn, ← hread]
    constructor
    · rintro ⟨-, m, hm, -, hne, s, hs, -⟩
      have hnames := names_of_forall₂ (forall₂_of_readSlots hm)
      rw [hnames] at hne hs
      refine ⟨⟨fun h => hne (by rw [h]; rfl), m, hm⟩, fun s' t hs' ht => ?_⟩
      rw [← Option.some_inj.mp hs']
      exact exists_agreeOnSlots.mp ⟨s, hs⟩ t ht
    · rintro ⟨⟨hne, m, hm⟩, hagree⟩
      have hnames := names_of_forall₂ (forall₂_of_readSlots hm)
      obtain ⟨s, hs⟩ : ∃ s, agreeOnSlots debug s!"RIM PCR {i}" (map.map Prod.fst) slots = .ok s :=
        exists_agreeOnSlots.mpr fun t ht => hagree _ t rfl ht
      refine ⟨_, m, hm, (), ?_, s, by rwa [hnames], rfl⟩
      rw [hnames]
      exact fun h => hne (List.map_eq_nil_iff.mp h)
  | null => simp [readPcr, Readable]
  | bool b => simp [readPcr, Readable]
  | number n => simp [readPcr, Readable]
  | string s => simp [readPcr, Readable]

/-- A turn of the loop leaves the slots its PCR names, or those known before. -/
theorem slots_of_readPcr {p : PcrValues} {slots' : Option (List String)}
    (h : readPcr debug i v slots = .ok (p, slots')) : slots' = (slotsIn v).or slots := by
  obtain ⟨hread, hslots, hfirst⟩ := readPcr_ok h
  cases p with
  | any ds =>
    obtain ⟨list, rfl, -⟩ := hread
    rcases hfirst with rfl | ⟨-, m, hm⟩
    · rfl
    · cases hm
  | bySlot m =>
    obtain ⟨map, rfl, hmap⟩ := hread
    show slots' = some (map.map Prod.fst)
    rw [← names_of_forall₂ hmap]
    exact hslots

theorem agreeOnSlots_ne_panic {names : List String} :
    agreeOnSlots debug what names slots ≠ .error .panic := by
  cases slots with
  | none => simp [agreeOnSlots]
  | some t =>
    rw [agreeOnSlots]
    split_ifs <;> simp

/-- A turn of the loop does not panic by itself. -/
theorem readPcr_ne_panic : readPcr debug i v slots ≠ .error .panic := by
  cases v with
  | array list =>
    simp [readPcr, Except.bind_eq_error, Except.ensure_eq_error, Except.mapError_eq_error, pure,
      Except.pure]
  | object map =>
    simp [readPcr, Except.bind_eq_error, Except.ensure_eq_error, Except.mapError_eq_error, pure,
      Except.pure, agreeOnSlots_ne_panic]
  | null => simp [readPcr]
  | bool b => simp [readPcr]
  | number n => simp [readPcr]
  | string s => simp [readPcr]

/-! ## The loop -/

/-- **Where the loop panics**: at a PCR that is not found, once those before it were all taken. -/
theorem readPcrs_eq_panic :
    readPcrs debug values selection slots = .error .panic ↔
      ∃ pre i post, selection = pre ++ i :: post ∧ values.lookup (toString i) = none ∧
        ∃ names, (∀ t, slots = some t → t = names) ∧ ∀ j ∈ pre, Taken values names j := by
  induction selection generalizing slots with
  | nil => simp [readPcrs]
  | cons i selection ih =>
    rw [readPcrs, Except.bind_eq_error, Except.ofOption_eq_error]
    constructor
    · rintro (⟨hnone, -⟩ | ⟨v, hv, h⟩)
      · exact ⟨[], i, selection, rfl, hnone, slots.getD [], by rintro t rfl; rfl, by simp⟩
      · rw [Except.ofOption_eq_ok] at hv
        rcases Except.bind_eq_error.mp h with h | ⟨⟨p, slots'⟩, hp, h⟩
        · exact absurd h readPcr_ne_panic
        · rcases Except.bind_eq_error.mp h with h | ⟨_, _, h⟩
          · obtain ⟨pre, k, post, rfl, hnone, names, hnames, hpre⟩ := ih.mp h
            obtain ⟨hread, hagree⟩ := exists_readPcr.mp ⟨_, hp⟩
            obtain rfl := slots_of_readPcr hp
            refine ⟨i :: pre, k, post, rfl, hnone, names, fun t ht => ?_, ?_⟩
            · rcases hs : slotsIn v with _ | s
              · exact hnames t (by rw [hs, ht]; rfl)
              · rw [hagree s t hs ht]
                exact hnames s (by rw [hs]; rfl)
            · refine List.forall_mem_cons.mpr ⟨⟨v, hv, hread, fun s hs => ?_⟩, hpre⟩
              exact hnames s (by rw [hs]; rfl)
          · cases h
    · rintro ⟨pre, k, post, hselection, hnone, names, hnames, hpre⟩
      cases pre with
      | nil =>
        obtain ⟨rfl, rfl⟩ := List.cons.inj hselection
        exact .inl ⟨hnone, rfl⟩
      | cons j pre =>
        obtain ⟨rfl, rfl⟩ := List.cons.inj hselection
        obtain ⟨⟨v, hv, hread, hslots⟩, hpre⟩ := List.forall_mem_cons.mp hpre
        obtain ⟨⟨p, slots'⟩, hp⟩ : ∃ r, readPcr debug i v slots = .ok r :=
          exists_readPcr.mpr ⟨hread, fun s t hs ht => (hnames t ht).trans (hslots s hs).symm⟩
        refine .inr ⟨v, Except.ofOption_eq_ok.mpr hv, Except.bind_eq_error.mpr (.inr ⟨_, hp, ?_⟩)⟩
        refine Except.bind_eq_error.mpr (.inl (ih.mpr ⟨pre, k, post, rfl, hnone, names, ?_, hpre⟩))
        intro t ht
        rw [slots_of_readPcr hp] at ht
        rcases hs : slotsIn v with _ | s
        · exact hnames t (by rwa [hs] at ht)
        · rw [hs] at ht
          rw [← Option.some_inj.mp ht]
          exact hslots s hs

/-! ## After the loop -/

/-- In a slot that is gone through, a PCR that was read has its column. -/
theorem exists_column {p : PcrValues} {slot : Option String} (hslot : slot ∈ slotNames slots)
    (hp : SlotsOf slots p) : ∃ col, column slot p = .ok col := by
  cases p with
  | any ds => exact ⟨ds, rfl⟩
  | bySlot m =>
    obtain rfl : slots = some (m.map Prod.fst) := hp
    obtain ⟨s, hs, rfl⟩ := List.mem_map.mp hslot
    obtain ⟨entry, hentry, rfl⟩ := List.mem_map.mp hs
    obtain ⟨d, hd⟩ : ∃ d, m.lookup entry.1 = some d := by
      rcases hlookup : m.lookup entry.1 with _ | d
      · have hne := List.lookup_eq_none_iff.mp hlookup entry hentry
        simp at hne
      · exact ⟨d, rfl⟩
    exact ⟨[d], by rw [column, hd]; rfl⟩

/-- Once the loop is through, so are the composites. -/
theorem exists_composites {perPcr : List PcrValues} (h : ∀ p ∈ perPcr, SlotsOf slots p) :
    ∃ composites, (slotNames slots).mapM (slotComposites C perPcr) = .ok composites := by
  refine exists_mapM_eq_ok.mpr fun slot hslot => ?_
  obtain ⟨columns, hcolumns⟩ := exists_mapM_eq_ok.mpr fun p hp => exists_column hslot (h p hp)
  exact ⟨_, Except.bind_eq_ok.mpr ⟨columns, hcolumns, rfl⟩⟩

/-! ## Before the loop -/

/-- What the sorted keys have to be. -/
theorem insertionSort_eq_sortDedup {l : List ℕ} :
    keys.insertionSort (· ≤ ·) = l.sortDedup (· ≤ ·) ↔ keys.Nodup ∧ ∀ i, i ∈ keys ↔ i ∈ l := by
  have hperm : (keys.insertionSort (· ≤ ·)).Perm keys := List.perm_insertionSort _ _
  constructor
  · intro h
    refine ⟨hperm.nodup_iff.mp ?_, fun i => ?_⟩
    · rw [h]
      exact (List.pairwise_sortDedup (· ≤ ·) l).imp fun hlt => hlt.2
    · rw [← List.mem_insertionSort (· ≤ ·), h, List.mem_sortDedup]
  · rintro ⟨hnodup, hmem⟩
    refine List.eq_sortDedup ?_ fun i => (List.mem_insertionSort _).trans (hmem i)
    exact (List.pairwise_insertionSort (· ≤ ·) keys).and (hperm.nodup_iff.mpr hnodup)

theorem rimPcr_ok_iff {pcr : Json} :
    rimPcr debug rim = .ok pcr ↔ (rim.get "format").bind Json.asStr = some rimFormat ∧
      rim.get "pcr" = some pcr ∧ (pcr.get "bank").bind Json.asStr = some "sha256" := by
  simp only [rimPcr, Except.bind_eq_ok, Except.ofOption_eq_ok, Except.pure_eq_ok,
    Except.ensure_eq_ok]
  constructor
  · rintro ⟨-, hformat, pcr, hpcr, -, hbank, rfl⟩
    exact ⟨hformat, hpcr, hbank⟩
  · rintro ⟨hformat, hpcr, hbank⟩
    exact ⟨(), hformat, pcr, hpcr, (), hbank, rfl⟩

/-- An index of the selection: a number up to 23. -/
theorem selectionIndex_iff {n : ℕ} :
    (v.asU64.map UInt64.toNat).filter (· ≤ 23) = some n ↔
      v.asU64.map UInt64.toNat = some n ∧ n ≤ 23 := by
  rw [Option.filter_eq_some_iff, decide_eq_true_iff]

theorem selectionIndices_iff {list : List Json} {indices : List ℕ} :
    List.Forall₂ (fun v n => (v.asU64.map UInt64.toNat).filter (· ≤ 23) = some n) list indices ↔
      indices = list.filterMap (fun v => v.asU64.map UInt64.toNat) ∧
        ∀ v ∈ list, ∃ n : UInt64, v.asU64 = some n ∧ n.toNat ≤ 23 := by
  simp only [selectionIndex_iff]
  induction list generalizing indices with
  | nil => simp
  | cons v list ih =>
    simp only [List.forall₂_cons_left_iff, ih, List.forall_mem_cons]
    constructor
    · rintro ⟨n, _, ⟨hv, hle⟩, ⟨rfl, hlist⟩, rfl⟩
      obtain ⟨m, hm, rfl⟩ := Option.map_eq_some_iff.mp hv
      rw [List.filterMap_cons_some (f := fun v : Json => v.asU64.map UInt64.toNat) hv]
      exact ⟨rfl, ⟨m, hm, hle⟩, hlist⟩
    · rintro ⟨rfl, ⟨m, hm, hle⟩, hlist⟩
      have hv : v.asU64.map UInt64.toNat = some m.toNat := by rw [hm]; rfl
      rw [List.filterMap_cons_some (f := fun v : Json => v.asU64.map UInt64.toNat) hv]
      exact ⟨m.toNat, _, ⟨hv, hle⟩, ⟨rfl, hlist⟩, rfl⟩

/-- The selection is made of what is listed, if each listed index is one. -/
theorem rimSelection_ok_iff {pcr : Json} (hpcr : rim.get "pcr" = some pcr) :
    rimSelection pcr = .ok selection ↔ selection = (pcrsOf rim).sortDedup (· ≤ ·) ∧
      ∃ list, (pcr.get "selection").bind Json.asArray = some list ∧ list ≠ [] ∧
        ∀ v ∈ list, ∃ n : UInt64, v.asU64 = some n ∧ n.toNat ≤ 23 := by
  simp only [rimSelection, Except.bind_eq_ok, Except.ofOption_eq_ok, Except.pure_eq_ok,
    Except.ensure_eq_ok, Except.mapM_eq_ok, selectionIndices_iff]
  have hpcrs {list : List Json} (hlist : (pcr.get "selection").bind Json.asArray = some list) :
      pcrsOf rim = list.filterMap fun v => v.asU64.map UInt64.toNat := by
    rw [pcrsOf, hpcr]
    simp only [Option.bind_some, hlist, Option.getD_some]
  constructor
  · rintro ⟨list, hlist, _, ⟨rfl, hall⟩, -, hne, rfl⟩
    refine ⟨by rw [hpcrs hlist], list, hlist, ?_, hall⟩
    rintro rfl
    exact hne rfl
  · rintro ⟨rfl, list, hlist, hne, hall⟩
    refine ⟨list, hlist, _, ⟨rfl, hall⟩, (), ?_, by rw [hpcrs hlist]⟩
    obtain ⟨v, hv⟩ := List.exists_mem_of_ne_nil list hne
    obtain ⟨n, hn, -⟩ := hall v hv
    exact List.ne_nil_of_mem (List.mem_sortDedup.mpr
      (List.mem_filterMap.mpr ⟨v, hv, Option.map_eq_some_iff.mpr ⟨n, hn, rfl⟩⟩))

theorem rimValues_ok_iff {pcr : Json} :
    rimValues debug pcr selection = .ok values ↔
      (pcr.get "values").bind Json.asObject = some values ∧
        ∃ keys, List.Forall₂ (fun field k => Chars.parseUnsigned 256 field.1.toList = some k)
          values keys ∧ keys.insertionSort (· ≤ ·) = selection := by
  simp only [rimValues, Except.bind_eq_ok, Except.ofOption_eq_ok, Except.pure_eq_ok,
    Except.ensure_eq_ok, Except.mapM_eq_ok]
  constructor
  · rintro ⟨values, hvalues, keys, hkeys, -, heq, rfl⟩
    exact ⟨hvalues, keys, hkeys, heq⟩
  · rintro ⟨hvalues, keys, hkeys, heq⟩
    exact ⟨values, hvalues, keys, hkeys, (), heq, rfl⟩

variable (debug) in
/-- The checks before the loop, together. -/
theorem keysMatch_iff :
    KeysMatch rim ↔ ∃ pcr, rimPcr debug rim = .ok pcr ∧
      rimSelection pcr = .ok ((pcrsOf rim).sortDedup (· ≤ ·)) ∧
      rimValues debug pcr ((pcrsOf rim).sortDedup (· ≤ ·)) = .ok (valuesOf rim) := by
  constructor
  · rintro ⟨hformat, hbank, ⟨list, hlist, hne, hall⟩, hvalues, keys, hkeys, hsame⟩
    obtain ⟨pcr, hpcr, hbank⟩ := Option.bind_eq_some_iff.mp (Option.bind_assoc .. ▸ hbank)
    rw [hpcr, Option.bind_some] at hlist hvalues
    refine ⟨pcr, rimPcr_ok_iff.mpr ⟨hformat, hpcr, hbank⟩,
      (rimSelection_ok_iff hpcr).mpr ⟨rfl, list, hlist, hne, hall⟩,
      rimValues_ok_iff.mpr ⟨?_, keys, hkeys, insertionSort_eq_sortDedup.mpr hsame⟩⟩
    obtain ⟨fields, hfields⟩ := Option.isSome_iff_exists.mp hvalues
    rw [valuesOf, hpcr, Option.bind_some, hfields]
    rfl
  · rintro ⟨pcr, hpcr, hselection, hvalues⟩
    obtain ⟨hformat, hpcr, hbank⟩ := rimPcr_ok_iff.mp hpcr
    obtain ⟨-, list, hlist, hne, hall⟩ := (rimSelection_ok_iff hpcr).mp hselection
    obtain ⟨hfields, keys, hkeys, hsame⟩ := rimValues_ok_iff.mp hvalues
    exact {
      format := hformat
      bank := by rw [hpcr, Option.bind_some, hbank]
      selection := ⟨list, by rw [hpcr, Option.bind_some, hlist], hne, hall⟩
      values := by rw [hpcr, Option.bind_some, hfields]; rfl
      keys := ⟨keys, hkeys, insertionSort_eq_sortDedup.mp hsame⟩ }

theorem rimPcr_ne_panic : rimPcr debug rim ≠ .error .panic := by
  simp [rimPcr, Except.bind_eq_error, Except.ensure_eq_error, Except.ofOption_eq_error, pure,
    Except.pure]

theorem rimSelection_ne_panic {pcr : Json} : rimSelection pcr ≠ .error .panic := by
  intro h
  simp only [rimSelection, Except.bind_eq_error, Except.ensure_eq_error, Except.ofOption_eq_error,
    reduceCtorEq, and_false, false_or, exists_false, or_false, pure, Except.pure] at h
  obtain ⟨list, -, h⟩ := h
  obtain ⟨v, -, hv⟩ := exists_of_mapM_eq_error h
  cases (Except.ofOption_eq_error.mp hv).2

theorem rimValues_ne_panic {pcr : Json} : rimValues debug pcr selection ≠ .error .panic := by
  intro h
  simp only [rimValues, Except.bind_eq_error, Except.ensure_eq_error, Except.ofOption_eq_error,
    reduceCtorEq, and_false, false_or, exists_false, or_false, pure, Except.pure] at h
  obtain ⟨list, -, h⟩ := h
  obtain ⟨v, -, hv⟩ := exists_of_mapM_eq_error h
  cases (Except.ofOption_eq_error.mp hv).2

/-- **Where reading a RIM panics**: in the loop, and only there. -/
theorem referenceOfRim_eq_panic :
    referenceOfRim C debug rim = .error .panic ↔ KeysMatch rim ∧
      readPcrs debug (valuesOf rim) ((pcrsOf rim).sortDedup (· ≤ ·)) none = .error .panic := by
  rw [keysMatch_iff debug, referenceOfRim]
  constructor
  · intro h
    rcases Except.bind_eq_error.mp h with h | ⟨pcr, hpcr, h⟩
    · exact absurd h rimPcr_ne_panic
    rcases Except.bind_eq_error.mp h with h | ⟨selection, hselection, h⟩
    · exact absurd h rimSelection_ne_panic
    rcases Except.bind_eq_error.mp h with h | ⟨values, hvalues, h⟩
    · exact absurd h rimValues_ne_panic
    have hget := (rimPcr_ok_iff.mp hpcr).2.1
    obtain ⟨rfl, -⟩ := (rimSelection_ok_iff hget).mp hselection
    obtain rfl := rimValues_ok hget hvalues
    refine ⟨⟨pcr, hpcr, hselection, hvalues⟩, ?_⟩
    rcases Except.bind_eq_error.mp h with h | ⟨⟨perPcr, slots⟩, hloop, h⟩
    · exact h
    -- past the loop, every slot has its composites
    · obtain ⟨-, hslots, -⟩ := readPcrs_ok hloop
      obtain ⟨composites, hcomposites⟩ := exists_composites (C := C) hslots
      rcases Except.bind_eq_error.mp h with h | ⟨_, _, h⟩
      · rw [hcomposites] at h
        cases h
      · cases h
  · rintro ⟨⟨pcr, hpcr, hselection, hvalues⟩, h⟩
    simp only [Except.bind_eq_error]
    exact .inr ⟨pcr, hpcr, .inr ⟨_, hselection, .inr ⟨_, hvalues, .inl h⟩⟩⟩

theorem referenceFromRim_of_ok {fromStr : String → Except String Json} {rimJson : String}
    (h : fromStr rimJson = .ok rim) :
    referenceFromRim C fromStr debug rimJson = referenceOfRim C debug rim := by
  rw [referenceFromRim, h]
  rfl

/-! ## The spelling of the keys -/

/-- What is checked of the keys, as numbers. -/
abbrev KeysAre (values : List (String × Json)) (keys : List ℕ) : Prop :=
  List.Forall₂ (fun field k => Chars.parseUnsigned 256 field.1.toList = some k) values keys

theorem mem_keys_iff (h : KeysAre values keys) :
    i ∈ keys ↔ ∃ field ∈ values, Chars.parseUnsigned 256 field.1.toList = some i := by
  induction h with
  | nil => simp
  | cons hfield _ ih => rw [List.mem_cons, List.exists_mem_cons_iff, hfield, Option.some_inj, ih,
      eq_comm]

/-- Every key is a number. -/
theorem exists_key {field : String × Json} (h : KeysAre values keys) (hfield : field ∈ values) :
    ∃ k, Chars.parseUnsigned 256 field.1.toList = some k := by
  induction h with
  | nil => cases hfield
  | cons hhead _ ih =>
    rcases List.mem_cons.mp hfield with rfl | hfield
    · exact ⟨_, hhead⟩
    · exact ih hfield

/-- A PCR has one key. -/
theorem key_unique {f g : String × Json} (h : KeysAre values keys) (hnodup : keys.Nodup)
    (hf : f ∈ values) (hg : g ∈ values) (hfi : Chars.parseUnsigned 256 f.1.toList = some i)
    (hgi : Chars.parseUnsigned 256 g.1.toList = some i) : f = g := by
  induction h with
  | nil => cases hf
  | @cons field k values keys hk hrest ih =>
    obtain ⟨hnot, hnodup⟩ := List.nodup_cons.mp hnodup
    -- the key in front is not among the rest
    have hother {e : String × Json} (he : e ∈ values)
        (hei : Chars.parseUnsigned 256 e.1.toList = some i) : k ≠ i := by
      rintro rfl
      exact hnot ((mem_keys_iff hrest).mpr ⟨e, he, hei⟩)
    rcases List.mem_cons.mp hf with hfhead | hf <;> rcases List.mem_cons.mp hg with hghead | hg
    · rw [hfhead, hghead]
    · exact absurd (Option.some_inj.mp (hk.symm.trans (hfhead ▸ hfi))) (hother hg hgi)
    · exact absurd (Option.some_inj.mp (hk.symm.trans (hghead ▸ hgi))) (hother hf hfi)
    · exact ih hnodup hf hg

theorem parseUnsigned_toString {k : ℕ} :
    Chars.parseUnsigned 256 (toString k).toList = if k < 256 then some k else none := by
  have hdigits : (toString k).toList = Nat.toDigits 10 k := String.toList_ofList
  rw [hdigits, Chars.parseUnsigned_toDigits]

/-- Where the keys match, the misspelt PCRs are the selected ones that are not found. -/
theorem misspelt_iff (h : KeysMatch rim) :
    Misspelt (valuesOf rim) i ↔ i ∈ pcrsOf rim ∧ (valuesOf rim).lookup (toString i) = none := by
  obtain ⟨keys, hkeys, hnodup, hmem⟩ := h.keys
  rw [← hmem, mem_keys_iff hkeys, List.lookup_eq_none_iff]
  constructor
  · rintro ⟨f, hf, hfi, hne⟩
    refine ⟨⟨f, hf, hfi⟩, fun g hg => ?_⟩
    rw [bne_iff_ne]
    intro heq
    have hgi : Chars.parseUnsigned 256 g.1.toList = some i := by
      rw [← heq, parseUnsigned_toString, if_pos (Chars.parseUnsigned_lt hfi)]
    exact hne (key_unique hkeys hnodup hf hg hfi hgi ▸ heq.symm)
  · rintro ⟨⟨f, hf, hfi⟩, hnone⟩
    exact ⟨f, hf, hfi, fun heq => bne_iff_ne.mp (hnone f hf) heq.symm⟩

/-- Where the keys match, all lookups succeed exactly if every key is a number in decimal. -/
theorem found_iff_canonical (h : KeysMatch rim) :
    (∀ i ∈ pcrsOf rim, ((valuesOf rim).lookup (toString i)).isSome) ↔
      ∀ field ∈ valuesOf rim, ∃ k : ℕ, field.1 = toString k := by
  constructor
  · intro hfound field hfield
    obtain ⟨keys, hkeys, -, hmem⟩ := h.keys
    obtain ⟨k, hk⟩ := exists_key hkeys hfield
    refine ⟨k, by_contra fun hne => ?_⟩
    obtain ⟨hselected, hnone⟩ := (misspelt_iff h).mp ⟨field, hfield, hk, hne⟩
    have hsome := hfound k hselected
    rw [hnone] at hsome
    cases hsome
  · intro hcanonical i hi
    by_contra hnot
    obtain ⟨f, hf, hfi, hne⟩ := (misspelt_iff h).mpr
      ⟨hi, Option.not_isSome_iff_eq_none.mp hnot⟩
    obtain ⟨k, hk⟩ := hcanonical f hf
    rw [hk, parseUnsigned_toString] at hfi
    split_ifs at hfi
    rw [Option.some_inj.mp hfi] at hk
    exact hne hk

end Lemmas

/-! ## The panic -/

/-- A selected PCR is misspelt, and the selected PCRs before it are all taken, those keyed by slot
with the same slots. -/
def ReachesMisspelt (rim : Json) : Prop :=
  KeysMatch rim ∧ ∃ i, Misspelt (valuesOf rim) i ∧
    ∃ names, ∀ j ∈ pcrsOf rim, j < i → Taken (valuesOf rim) names j

/-- The loop goes through the selection in ascending order. -/
theorem sortDedup_eq_append {l pre post : List ℕ} {i : ℕ}
    (h : l.sortDedup (· ≤ ·) = pre ++ i :: post) (j : ℕ) : j ∈ pre ↔ j ∈ l ∧ j < i := by
  have hasc : (pre ++ i :: post).Pairwise (· < ·) := by
    rw [← h]
    exact (List.pairwise_sortDedup (· ≤ ·) l).imp fun hlt => lt_of_le_of_ne hlt.1 hlt.2
  obtain ⟨-, hpost, hlt⟩ := List.pairwise_append.mp hasc
  rw [← List.mem_sortDedup (r := (· ≤ ·)) (l := l), h, List.mem_append, List.mem_cons]
  constructor
  · exact fun hj => ⟨.inl hj, hlt j hj i List.mem_cons_self⟩
  · rintro ⟨hj | rfl | hj, hji⟩
    · exact hj
    · exact absurd hji (lt_irrefl _)
    · exact absurd hji (lt_asymm ((List.pairwise_cons.mp hpost).1 j hj))

/-- **Where reading a RIM panics**: at the first selected PCR whose key is misspelt, if the ones
before it are taken.  Once the keys match as numbers, the lookups all succeed exactly if every key
is a number in decimal. -/
theorem panics_iff (C : Crypto) (fromStr : String → Except String Json) (debug : String → String)
    (rimJson : String) :
    (referenceFromRim C fromStr debug rimJson ≠ .error .panic ↔
      ∀ rim, fromStr rimJson = .ok rim → ¬ ReachesMisspelt rim) ∧
    ∀ rim, fromStr rimJson = .ok rim → KeysMatch rim →
      ((∀ i ∈ pcrsOf rim, ((valuesOf rim).lookup (toString i)).isSome) ↔
        ∀ field ∈ valuesOf rim, ∃ k : ℕ, field.1 = toString k) := by
  refine ⟨?_, fun rim _ h => found_iff_canonical h⟩
  have hreaches (rim : Json) : referenceOfRim C debug rim = .error .panic ↔
      ReachesMisspelt rim := by
    rw [referenceOfRim_eq_panic, ReachesMisspelt, readPcrs_eq_panic]
    refine and_congr_right fun h => ?_
    constructor
    · rintro ⟨pre, i, post, hsplit, hnone, names, -, htaken⟩
      have hi : i ∈ pcrsOf rim := by
        rw [← List.mem_sortDedup (r := (· ≤ ·)), hsplit]
        simp
      refine ⟨i, (misspelt_iff h).mpr ⟨hi, hnone⟩, names, fun j hj hji => ?_⟩
      exact htaken j ((sortDedup_eq_append hsplit j).mpr ⟨hj, hji⟩)
    · rintro ⟨i, hmisspelt, names, htaken⟩
      obtain ⟨hi, hnone⟩ := (misspelt_iff h).mp hmisspelt
      obtain ⟨pre, post, hsplit⟩ :=
        List.append_of_mem (List.mem_sortDedup (r := (· ≤ ·)).mpr hi)
      refine ⟨pre, i, post, hsplit, hnone, names, by simp, fun j hj => ?_⟩
      obtain ⟨hj, hji⟩ := (sortDedup_eq_append hsplit j).mp hj
      exact htaken j hj hji
  rcases hparse : fromStr rimJson with e | rim
  · simp [referenceFromRim, hparse, Except.mapError, Except.bind_eq_error]
  · simp only [referenceFromRim_of_ok hparse, ne_eq, hreaches, Except.ok.injEq, forall_eq']

namespace LeadingZero

def rimJson : String :=
  "\x7b\"format\":\"tactiq-rim/1\",\"pcr\":\x7b\"bank\":\"sha256\",\"selection\":[7]," ++
    "\"values\":\x7b\"07\":[\"" ++ String.ofList (List.replicate 64 '1') ++ "\"]\x7d\x7d\x7d"

def rim : Json :=
  .object [("format", .string "tactiq-rim/1"),
    ("pcr", .object [("bank", .string "sha256"), ("selection", .array [.number (some 7)]),
      ("values", .object [("07", .array [.string (String.ofList (List.replicate 64 '1'))])])])]

/-- `serde_json::from_str`, on this document. -/
def fromStr (s : String) : Except String Json :=
  if s = rimJson then .ok rim else .error "expected value at line 1 column 1"

theorem pcrsOf_rim : pcrsOf rim = [7] := rfl

theorem readPcrs_eq : readPcrs id (valuesOf rim) ((pcrsOf rim).sortDedup (· ≤ ·)) none =
    .error .panic := by
  rfl

end LeadingZero

/-- A RIM that selects PCR 7 and gives its values under `07`: the number is the selected one, and
the lookup of `7` panics. -/
theorem leadingZero_panics :
    LeadingZero.fromStr LeadingZero.rimJson = .ok LeadingZero.rim ∧
      KeysMatch LeadingZero.rim ∧
      (valuesOf LeadingZero.rim).lookup (toString 7) = none ∧
      referenceFromRim (.ofTable []) LeadingZero.fromStr id LeadingZero.rimJson =
        .error .panic := by
  have hmatch : KeysMatch LeadingZero.rim := {
    format := rfl
    bank := rfl
    selection := ⟨_, rfl, by simp, by simp [Json.asU64]⟩
    values := rfl
    keys := ⟨[7], .cons (by decide) .nil, by simp, fun i => by rw [LeadingZero.pcrsOf_rim]⟩ }
  have hparse : LeadingZero.fromStr LeadingZero.rimJson = .ok LeadingZero.rim := if_pos rfl
  refine ⟨hparse, hmatch, by decide, ?_⟩
  rw [referenceFromRim_of_ok hparse, referenceOfRim_eq_panic]
  exact ⟨hmatch, LeadingZero.readPcrs_eq⟩

end TactiqAttest.Appraise
