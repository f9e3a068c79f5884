import TactiqAttest.Appraise.Appraisal
import TactiqAttest.Bytes.Bitmap
import TactiqAttest.Bytes.Chars
import TactiqAttest.Lists.SortDedup

/-!
# Reference sets from a RIM

`reference_from_rim`, from `attest-appraise`.  A RIM gives for every selected PCR its legitimate
values: a list of them, or one for each boot slot.  An envelope carries one digest over all the
values together, so the reference set has to be every digest a device can legitimately present: for
each slot, every choice of one value per PCR.

What a RIM *says* is `Explains`: value `d` of PCR `i` is legitimate in a slot.  `mem_allowed` is
what the code makes of it: the reference set holds exactly the digests of the states that one slot
explains, all PCRs together.
-/

namespace TactiqAttest.Appraise

open Envelope

abbrev PcrHash := List.Vector UInt8 32

/-! ## JSON -/

/-- A JSON value as `serde_json` keeps it.  A number is what `as_u64` makes of it; the fields of an
object are in the order of their names, each name once. -/
inductive Json where
  | null
  | bool (b : Bool)
  | number (asU64 : Option UInt64)
  | string (s : String)
  | array (l : List Json)
  | object (fields : List (String × Json))

namespace Json

/-- `as_str`. -/
def asStr : Json → Option String
  | .string s => some s
  | _ => none

/-- `as_u64`. -/
def asU64 : Json → Option UInt64
  | .number n => n
  | _ => none

/-- `as_array`. -/
def asArray : Json → Option (List Json)
  | .array l => some l
  | _ => none

/-- `as_object`. -/
def asObject : Json → Option (List (String × Json))
  | .object fields => some fields
  | _ => none

/-- `get`: a field of an object. -/
def get (v : Json) (name : String) : Option Json := v.asObject.bind fun fields => fields.lookup name

end Json

/-- How reading a RIM ends when it does not give a reference set: with an error, or with the panic
of an index that is not there. -/
inductive Halt where
  | err (text : String)
  | panic
  deriving DecidableEq

/-! ## Reading the values of one PCR -/

/-- `digest`: a value, as 64 hexadecimal digits. -/
def digest (debug : String → String) (v : Json) (what : String) : Except String PcrHash := do
  let s ← Except.ofOption s!"{what}: not a string" v.asStr
  Except.ensure (s.utf8ByteSize = 64 ∧ s.toList.all Chars.isHexDigit = true)
    s!"{what}: {debug s} is not 64 hex digits"
  Except.ofOption s!"{what}: invalid digit found in string" (Chars.hexVector 32 s.toList)

/-- The values of one PCR. -/
inductive PcrValues where
  | any (ds : List PcrHash)
  | bySlot (m : List (String × PcrHash))

/-- The order hashes are sorted in. -/
def hashLe (a b : PcrHash) : Prop := a.toList ≤ b.toList

instance : DecidableRel hashLe := fun a b => inferInstanceAs (Decidable (a.toList ≤ b.toList))

section Read

variable (debug : String → String)

/-- `{:?}` of a list of names. -/
def debugNames (names : List String) : String := "[" ++ ", ".intercalate (names.map debug) ++ "]"

/-- `{:?}` of a list of PCR indices. -/
def debugIndices (indices : List ℕ) : String :=
  "[" ++ ", ".intercalate (indices.map toString) ++ "]"

/-- `{:?}` of a string that may be missing. -/
def debugOption : Option String → String
  | none => "None"
  | some s => "Some(" ++ debug s ++ ")"

/-- The names of the slots, after one more PCR that is keyed by slot: the first such PCR fixes
them. -/
def agreeOnSlots (what : String) (names : List String) :
    Option (List String) → Except Halt (List String)
  | none => .ok names
  | some s =>
    if s = names then .ok s
    else .error (.err
      s!"{what}: slots {debugNames debug names}, another PCR names {debugNames debug s}")

/-- One turn of the loop over the selection: the values of PCR `i`, and the slots known so far. -/
def readPcr (i : ℕ) (v : Json) (slots : Option (List String)) :
    Except Halt (PcrValues × Option (List String)) :=
  let what := s!"RIM PCR {i}"
  match v with
  | .array list => do
    Except.ensure (list ≠ []) (.err s!"{what}: empty value set")
    let ds ← (list.mapM fun x => digest debug x what).mapError .err
    return (.any (ds.sortDedup hashLe), slots)
  | .object map => do
    let m ← (map.mapM fun field =>
      (field.1, ·) <$> digest debug field.2 s!"{what} slot {field.1}").mapError .err
    let names := m.map Prod.fst
    Except.ensure (names ≠ []) (.err s!"{what}: no slots")
    let slots ← agreeOnSlots debug what names slots
    return (.bySlot m, some slots)
  | _ => .error (.err s!"{what}: neither a list nor a per-slot object")

/-- The loop over the selection. -/
def readPcrs (values : List (String × Json)) :
    List ℕ → Option (List String) → Except Halt (List PcrValues × Option (List String))
  | [], slots => .ok ([], slots)
  | i :: selection, slots => do
    let v ← Except.ofOption .panic (values.lookup (toString i))
    let (p, slots) ← readPcr debug i v slots
    let (perPcr, slots) ← readPcrs values selection slots
    return (p :: perPcr, slots)

/-! ## Reading the whole -/

/-- `RIM_FORMAT`. -/
def rimFormat : String := "tactiq-rim/1"

/-- The PCR section, in a format and a bank that are understood. -/
def rimPcr (rim : Json) : Except Halt Json := do
  let format := (rim.get "format").bind Json.asStr
  Except.ensure (format = some rimFormat)
    (.err s!"RIM format {debugOption debug format}, expected {debug rimFormat}")
  let pcr ← Except.ofOption (.err "RIM has no pcr section") (rim.get "pcr")
  let bank := (pcr.get "bank").bind Json.asStr
  Except.ensure (bank = some "sha256")
    (.err s!"RIM bank {debugOption debug bank}, expected \"sha256\"")
  return pcr

/-- The selection: the listed indices, in ascending order. -/
def rimSelection (pcr : Json) : Except Halt (List ℕ) := do
  let list ← Except.ofOption (.err "RIM pcr.selection is not a list")
    ((pcr.get "selection").bind Json.asArray)
  let indices ← list.mapM fun v =>
    Except.ofOption (.err "RIM pcr.selection: index not in 0..=23")
      ((v.asU64.map UInt64.toNat).filter (· ≤ 23))
  let selection := indices.sortDedup (· ≤ ·)
  Except.ensure (selection ≠ []) (.err "RIM pcr.selection is empty")
  return selection

/-- The values, whose names must be the selection. -/
def rimValues (pcr : Json) (selection : List ℕ) : Except Halt (List (String × Json)) := do
  let values ← Except.ofOption (.err "RIM pcr.values is not an object")
    ((pcr.get "values").bind Json.asObject)
  let keys ← values.mapM fun field =>
    Except.ofOption (.err s!"RIM pcr.values: key {debug field.1} is not a PCR index")
      (Chars.parseUnsigned 256 field.1.toList)
  let keys := keys.insertionSort (· ≤ ·)
  Except.ensure (keys = selection)
    (.err (s!"RIM pcr.values names PCRs {debugIndices keys}, " ++
      s!"selection is {debugIndices selection}"))
  return values

end Read

/-! ## The composites -/

/-- The candidate values of one PCR in a slot. -/
def column (slot : Option String) : PcrValues → Except Halt (List PcrHash)
  | .any ds => .ok ds
  | .bySlot m =>
    match slot with
    | some s => (fun d => [d]) <$> Except.ofOption .panic (m.lookup s)
    | none => .error .panic

/-- The cartesian product of the columns, each combination concatenated. -/
def combos (columns : List (List PcrHash)) : List Bytes :=
  columns.foldl (fun combos col => combos.flatMap fun pre => col.map fun d => pre ++ d.toList) [[]]

/-- The slots to go through: those named, or one without a name. -/
def slotNames : Option (List String) → List (Option String)
  | some s => s.map some
  | none => [none]

section Reference

variable (C : Crypto)

/-- The composites of one slot. -/
def slotComposites (perPcr : List PcrValues) (slot : Option String) :
    Except Halt (List PcrHash) := do
  let columns ← perPcr.mapM (column slot)
  return (combos columns).map C.sha256

/-- `reference_from_rim`, from the parsed text on. -/
def referenceOfRim (debug : String → String) (rim : Json) : Except Halt ReferenceSet := do
  let pcr ← rimPcr debug rim
  let selection ← rimSelection pcr
  let values ← rimValues debug pcr selection
  let (perPcr, slots) ← readPcrs debug values selection none
  let composites ← (slotNames slots).mapM (slotComposites C perPcr)
  return { expectedSelection := ⟨tpmAlgSha256, Bitmap.ofIndices 3 selection⟩
           allowed := composites.flatten.sortDedup hashLe
           requiredEvidence := [] }

/-- `reference_from_rim`.  `fromStr` is `serde_json::from_str`, with the text of its error. -/
def referenceFromRim (fromStr : String → Except String Json) (debug : String → String)
    (rimJson : String) : Except Halt ReferenceSet := do
  let rim ← (fromStr rimJson).mapError fun e => .err s!"RIM is not JSON: {e}"
  referenceOfRim C debug rim

end Reference

/-! ## What a RIM says -/

/-- The PCRs a RIM selects. -/
def pcrsOf (rim : Json) : List ℕ :=
  ((((rim.get "pcr").bind fun pcr => pcr.get "selection").bind Json.asArray).getD []).filterMap
    fun v => v.asU64.map UInt64.toNat

/-- What a RIM says about the values of its PCRs. -/
def valuesOf (rim : Json) : List (String × Json) :=
  (((rim.get "pcr").bind fun pcr => pcr.get "values").bind Json.asObject).getD []

/-- A JSON value is a hash, in hexadecimal. -/
def Writes (v : Json) (d : PcrHash) : Prop :=
  ∃ s, v.asStr = some s ∧ (s.utf8ByteSize = 64 ∧ s.toList.all Chars.isHexDigit = true) ∧
    Chars.hexVector 32 s.toList = some d

/-- The values of a PCR, as a RIM gives them, make `d` legitimate in a slot: `d` is in the list, or
it is the slot's own value. -/
def ValueExplains (slot : Option String) (d : PcrHash) : Json → Prop
  | .array list => ∃ x ∈ list, Writes x d
  | .object map => ∃ s x, slot = some s ∧ map.lookup s = some x ∧ Writes x d
  | _ => False

/-- `d` is a legitimate value of PCR `i` in a slot. -/
def Explains (values : List (String × Json)) (slot : Option String) (i : ℕ) (d : PcrHash) : Prop :=
  ∃ v, values.lookup (toString i) = some v ∧ ValueExplains slot d v

/-! ## What was read of one PCR -/

section Lemmas

variable {C : Crypto} {debug : String → String} {v : Json} {d : PcrHash} {what : String}
  {i : ℕ} {p : PcrValues} {slot : Option String}

theorem digest_ok : digest debug v what = .ok d ↔ Writes v d := by
  unfold digest Writes
  simp only [Except.bind_eq_ok, Except.ofOption_eq_ok, Except.ensure_eq_ok]
  constructor
  · rintro ⟨s, hs, -, hhex, hd⟩
    exact ⟨s, hs, hhex, hd⟩
  · rintro ⟨s, hs, hhex, hd⟩
    exact ⟨s, hs, (), hhex, hd⟩

/-- A hash is written in one way only. -/
theorem Writes.unique {d' : PcrHash} (h : Writes v d) (h' : Writes v d') : d = d' := by
  obtain ⟨s, hs, -, hd⟩ := h
  obtain ⟨s', hs', -, hd'⟩ := h'
  rw [hs] at hs'
  obtain rfl := Option.some_inj.mp hs'
  rw [hd] at hd'
  exact Option.some_inj.mp hd'

/-- What was read of one PCR is what the RIM gives for it. -/
def ReadOf (v : Json) : PcrValues → Prop
  | .any ds => ∃ list, v = .array list ∧ ∀ d, d ∈ ds ↔ ∃ x ∈ list, Writes x d
  | .bySlot m => ∃ map, v = .object map ∧
      List.Forall₂ (fun field entry => entry.1 = field.1 ∧ Writes field.2 entry.2) map m

/-- The slots are those of a PCR that is keyed by slot. -/
def SlotsOf (names : Option (List String)) : PcrValues → Prop
  | .any _ => True
  | .bySlot m => names = some (m.map Prod.fst)

/-- Before any PCR was keyed by slot, none is. -/
theorem SlotsOf.of_none {names : Option (List String)} (h : SlotsOf none p) : SlotsOf names p := by
  cases p with
  | any ds => trivial
  | bySlot m => cases h

/-- A list of hashes, read. -/
theorem mem_of_readList {list : List Json} {ds : List PcrHash}
    (h : (list.mapM fun x => digest debug x what) = .ok ds) :
    d ∈ ds ↔ ∃ x ∈ list, Writes x d := by
  have hall := Except.mapM_eq_ok.mp h
  simp only [digest_ok] at hall
  clear h
  induction hall with
  | nil => simp
  | @cons x e list ds hx _ ih =>
    rw [List.mem_cons, List.exists_mem_cons_iff]
    exact or_congr ⟨fun h => h ▸ hx, fun h => h.unique hx⟩ ih

/-- The values of the slots, read. -/
theorem forall₂_of_readSlots {map : List (String × Json)} {m : List (String × PcrHash)}
    (h : (map.mapM fun field => (field.1, ·) <$> digest debug field.2 s!"{what} slot {field.1}") =
      .ok m) :
    List.Forall₂ (fun field entry => entry.1 = field.1 ∧ Writes field.2 entry.2) map m := by
  refine (Except.mapM_eq_ok.mp h).imp fun field entry hentry => ?_
  obtain ⟨d, hd, rfl⟩ := Except.map_eq_ok.mp hentry
  exact ⟨rfl, digest_ok.mp hd⟩

theorem agreeOnSlots_ok {names s : List String} {slots : Option (List String)}
    (h : agreeOnSlots debug what names slots = .ok s) :
    s = names ∧ (slots = none ∨ slots = some names) := by
  cases slots with
  | none =>
    cases h
    exact ⟨rfl, .inl rfl⟩
  | some t =>
    rw [agreeOnSlots] at h
    split_ifs at h with heq
    cases h
    exact ⟨heq, .inr (congrArg some heq)⟩

/-- One turn of the loop: the slots stay as they are, or this PCR is the first to name them. -/
theorem readPcr_ok {slots slots' : Option (List String)}
    (h : readPcr debug i v slots = .ok (p, slots')) :
    ReadOf v p ∧ SlotsOf slots' p ∧ (slots' = slots ∨ slots = none ∧ ∃ m, p = .bySlot m) := by
  cases v with
  | array list =>
    simp only [readPcr, Except.bind_eq_ok, Except.mapError_eq_ok, Except.pure_eq_ok,
      Prod.mk.injEq] at h
    obtain ⟨-, -, ds, hds, rfl, rfl⟩ := h
    refine ⟨⟨list, rfl, fun d => ?_⟩, trivial, .inl rfl⟩
    rw [List.mem_sortDedup, mem_of_readList hds]
  | object map =>
    simp only [readPcr, Except.bind_eq_ok, Except.mapError_eq_ok, Except.pure_eq_ok,
      Prod.mk.injEq] at h
    obtain ⟨m, hm, -, -, s, hs, rfl, rfl⟩ := h
    obtain ⟨rfl, hslots⟩ := agreeOnSlots_ok hs
    refine ⟨⟨map, rfl, forall₂_of_readSlots hm⟩, rfl, ?_⟩
    rcases hslots with hnone | hsome
    · exact .inr ⟨hnone, m, rfl⟩
    · exact .inl hsome.symm
  | null => cases h
  | bool b => cases h
  | number n => cases h
  | string s => cases h

/-- The whole loop: every PCR of the selection is there and was read, and the slots are those of the
PCRs that are keyed by slot. -/
theorem readPcrs_ok {values : List (String × Json)} {selection : List ℕ} {perPcr : List PcrValues}
    {slots slots' : Option (List String)}
    (h : readPcrs debug values selection slots = .ok (perPcr, slots')) :
    List.Forall₂ (fun i p => ∃ v, values.lookup (toString i) = some v ∧ ReadOf v p)
      selection perPcr ∧ (∀ p ∈ perPcr, SlotsOf slots' p) ∧
      (slots' = slots ∨ slots = none ∧ ∃ m, .bySlot m ∈ perPcr) := by
  induction selection generalizing perPcr slots with
  | nil =>
    cases h
    exact ⟨.nil, by simp, .inl rfl⟩
  | cons i selection ih =>
    simp only [readPcrs, Except.bind_eq_ok, Except.ofOption_eq_ok, Except.pure_eq_ok,
      Prod.mk.injEq, Prod.exists] at h
    obtain ⟨v, hv, p, slots₁, hp, perPcr, slots₂, hrest, rfl, rfl⟩ := h
    obtain ⟨hread, hslots, hfirst⟩ := readPcr_ok hp
    obtain ⟨hall, hslotsAll, hlater⟩ := ih hrest
    refine ⟨.cons ⟨v, hv, hread⟩ hall, ?_, ?_⟩
    · intro q hq
      rcases List.mem_cons.mp hq with rfl | hq
      · rcases hlater with heq | ⟨hnone, -⟩
        · rwa [heq]
        · exact SlotsOf.of_none (hnone ▸ hslots)
      · exact hslotsAll q hq
    · rcases hfirst with rfl | ⟨hnone, m, rfl⟩
      · refine hlater.imp_right fun ⟨hnone, m, hm⟩ => ⟨hnone, m, List.mem_cons_of_mem _ hm⟩
      · exact .inr ⟨hnone, m, List.mem_cons_self⟩

/-! ## The candidates of a slot -/

theorem lookup_of_forall₂ {map : List (String × Json)} {m : List (String × PcrHash)}
    (h : List.Forall₂ (fun field entry => entry.1 = field.1 ∧ Writes field.2 entry.2) map m)
    {s : String} :
    (∀ d, m.lookup s = some d → ∃ x, map.lookup s = some x ∧ Writes x d) ∧
      ∀ x, map.lookup s = some x → ∃ d, m.lookup s = some d ∧ Writes x d := by
  induction h with
  | nil => simp
  | @cons field entry map m hentry _ ih =>
    obtain ⟨name, x⟩ := field
    obtain ⟨name', d⟩ := entry
    obtain ⟨rfl, hwrites⟩ := hentry
    rw [List.lookup_cons, List.lookup_cons]
    rcases hname : s == name' with _ | _
    · exact ih
    · refine ⟨fun d' hd' => ⟨x, rfl, ?_⟩, fun x' hx' => ⟨d, rfl, ?_⟩⟩
      · rwa [← Option.some_inj.mp hd']
      · rwa [← Option.some_inj.mp hx']

/-- The candidates of a PCR in a slot are the values the RIM makes legitimate there. -/
theorem mem_column {col : List PcrHash} (hread : ReadOf v p) (h : column slot p = .ok col) :
    d ∈ col ↔ ValueExplains slot d v := by
  cases p with
  | any ds =>
    obtain ⟨list, rfl, hds⟩ := hread
    cases h
    exact hds d
  | bySlot m =>
    obtain ⟨map, rfl, hmap⟩ := hread
    cases slot with
    | none => cases h
    | some s =>
      obtain ⟨e, he, rfl⟩ := Except.map_eq_ok.mp h
      obtain ⟨x, hx, hwrites⟩ := (lookup_of_forall₂ hmap).1 e (Except.ofOption_eq_ok.mp he)
      rw [List.mem_singleton]
      constructor
      · rintro rfl
        exact ⟨s, x, rfl, hx, hwrites⟩
      · rintro ⟨s', x', hs, hx', hwrites'⟩
        obtain rfl := Option.some_inj.mp hs
        rw [hx] at hx'
        obtain rfl := Option.some_inj.mp hx'
        exact hwrites'.unique hwrites

/-- **The cartesian product**: one value from each column, concatenated in order. -/
theorem mem_combos {columns : List (List PcrHash)} {c : Bytes} :
    c ∈ combos columns ↔
      ∃ ds, List.Forall₂ (fun d col => d ∈ col) ds columns ∧ c = ds.flatMap fun d => d.toList := by
  have hfold : ∀ (columns : List (List PcrHash)) (pres : List Bytes),
      c ∈ columns.foldl
          (fun combos col => combos.flatMap fun pre => col.map fun d => pre ++ d.toList) pres ↔
        ∃ pre ∈ pres, ∃ ds, List.Forall₂ (fun d col => d ∈ col) ds columns ∧
          c = pre ++ ds.flatMap fun d => d.toList := by
    intro columns
    induction columns with
    | nil => simp [List.forall₂_nil_right_iff]
    | cons col columns ih =>
      intro pres
      rw [List.foldl_cons, ih]
      constructor
      · rintro ⟨pre, hpre, ds, hds, rfl⟩
        obtain ⟨pre, hmem, hpre⟩ := List.mem_flatMap.mp hpre
        obtain ⟨d, hd, rfl⟩ := List.mem_map.mp hpre
        exact ⟨pre, hmem, d :: ds, .cons hd hds, by rw [List.flatMap_cons, List.append_assoc]⟩
      · rintro ⟨pre, hpre, _, _ | ⟨hd, hds⟩, rfl⟩
        refine ⟨_, List.mem_flatMap.mpr ⟨pre, hpre, List.mem_map.mpr ⟨_, hd, rfl⟩⟩, _, hds, ?_⟩
        rw [List.flatMap_cons, List.append_assoc]
  rw [combos, hfold]
  simp

/-! ## The composites of a RIM -/

variable {values : List (String × Json)} {selection : List ℕ} {perPcr : List PcrValues}
  {slots : Option (List String)} {ds : List PcrHash} {c : PcrHash}

/-- The PCRs of the selection are there, and were read. -/
abbrev Reads (values : List (String × Json)) (selection : List ℕ) (perPcr : List PcrValues) :
    Prop :=
  List.Forall₂ (fun i p => ∃ v, values.lookup (toString i) = some v ∧ ReadOf v p) selection perPcr

/-- `ds` are legitimate values of the PCRs of the selection, all in one slot. -/
abbrev ExplainsAll (values : List (String × Json)) (slot : Option String) (selection : List ℕ)
    (ds : List PcrHash) : Prop :=
  List.Forall₂ (Explains values slot) selection ds

theorem explains_iff (hv : values.lookup (toString i) = some v) :
    Explains values slot i d ↔ ValueExplains slot d v := by
  refine ⟨fun ⟨v', hv', h⟩ => ?_, fun h => ⟨v, hv, h⟩⟩
  rw [hv] at hv'
  obtain rfl := Option.some_inj.mp hv'
  exact h

/-- One value from each column of a slot is a list of values the slot explains. -/
theorem forall₂_columns {columns : List (List PcrHash)} (hread : Reads values selection perPcr)
    (h : List.Forall₂ (fun p col => column slot p = .ok col) perPcr columns) :
    List.Forall₂ (fun d col => d ∈ col) ds columns ↔ ExplainsAll values slot selection ds := by
  induction hread generalizing columns ds with
  | nil =>
    cases h
    rw [List.forall₂_nil_right_iff, ExplainsAll, List.forall₂_nil_left_iff]
  | cons hp hread ih =>
    obtain ⟨v, hv, hp⟩ := hp
    rcases h with _ | ⟨hcol, hcols⟩
    rw [List.forall₂_cons_right_iff, ExplainsAll, List.forall₂_cons_left_iff]
    constructor
    · rintro ⟨d, ds, hd, hds, rfl⟩
      exact ⟨d, ds, (explains_iff hv).mpr ((mem_column hp hcol).mp hd), (ih hcols).mp hds, rfl⟩
    · rintro ⟨d, ds, hd, hds, rfl⟩
      exact ⟨d, ds, (mem_column hp hcol).mpr ((explains_iff hv).mp hd), (ih hcols).mpr hds, rfl⟩

/-- The composites of a slot are the digests of what it explains. -/
theorem mem_slotComposites {hashes : List PcrHash} (hread : Reads values selection perPcr)
    (h : slotComposites C perPcr slot = .ok hashes) :
    c ∈ hashes ↔ ∃ ds, ExplainsAll values slot selection ds ∧
      c = C.sha256 (ds.flatMap fun d => d.toList) := by
  unfold slotComposites at h
  obtain ⟨columns, hcolumns, hret⟩ := Except.bind_eq_ok.mp h
  obtain rfl := Except.pure_eq_ok.mp hret
  rw [List.mem_map]
  constructor
  · rintro ⟨b, hb, rfl⟩
    obtain ⟨ds, hds, rfl⟩ := mem_combos.mp hb
    exact ⟨ds, (forall₂_columns hread (Except.mapM_eq_ok.mp hcolumns)).mp hds, rfl⟩
  · rintro ⟨ds, hds, rfl⟩
    refine ⟨_, mem_combos.mpr ⟨ds, ?_, rfl⟩, rfl⟩
    exact (forall₂_columns hread (Except.mapM_eq_ok.mp hcolumns)).mpr hds

/-- Where no PCR is keyed by slot, the slot does not matter. -/
theorem explains_noSlot (hread : Reads values selection perPcr) (hno : ∀ p ∈ perPcr, SlotsOf none p)
    (h : ExplainsAll values slot selection ds) : ExplainsAll values none selection ds := by
  induction hread generalizing ds with
  | nil =>
    cases h
    exact .nil
  | @cons i p selection perPcr hp _ ih =>
    obtain ⟨v, hv, hp⟩ := hp
    rcases h with _ | ⟨hd, hds⟩
    refine .cons ?_ (ih (fun q hq => hno q (List.mem_cons_of_mem _ hq)) hds)
    rw [explains_iff hv] at hd ⊢
    cases p with
    | any _ =>
      obtain ⟨list, rfl, -⟩ := hp
      exact hd
    | bySlot m => exact absurd (hno _ List.mem_cons_self) (by simp [SlotsOf])

/-- A slot that explains a PCR keyed by slot is one of that PCR's. -/
theorem exists_slot {m : List (String × PcrHash)} (hread : Reads values selection perPcr)
    (hm : .bySlot m ∈ perPcr) (h : ExplainsAll values slot selection ds) :
    ∃ s ∈ m.map Prod.fst, slot = some s := by
  induction hread generalizing ds with
  | nil => exact absurd hm List.not_mem_nil
  | cons hp _ ih =>
    obtain ⟨v, hv, hp⟩ := hp
    rcases h with _ | ⟨hd, hds⟩
    rcases List.mem_cons.mp hm with rfl | hm
    · obtain ⟨map, rfl, hmap⟩ := hp
      obtain ⟨s, x, rfl, hx, -⟩ := (explains_iff hv).mp hd
      obtain ⟨d, hd, -⟩ := (lookup_of_forall₂ hmap).2 x hx
      obtain ⟨l, r, rfl, -⟩ := List.lookup_eq_some_iff.mp hd
      exact ⟨s, by simp, rfl⟩
    · exact ih hm hds

/-- The composites of all slots together. -/
theorem mem_flatten_slotComposites {names : List (Option String)} {composites : List (List PcrHash)}
    (hread : Reads values selection perPcr)
    (h : names.mapM (slotComposites C perPcr) = .ok composites) :
    c ∈ composites.flatten ↔ ∃ slot ∈ names, ∃ ds, ExplainsAll values slot selection ds ∧
      c = C.sha256 (ds.flatMap fun d => d.toList) := by
  have hall := Except.mapM_eq_ok.mp h
  clear h
  induction hall with
  | nil => simp
  | cons hslot _ ih =>
    rw [List.flatten_cons, List.mem_append, List.exists_mem_cons_iff,
      mem_slotComposites hread hslot]
    exact or_congr_right ih

/-- The slots gone through are all that can explain anything. -/
theorem exists_slotName (hread : Reads values selection perPcr)
    (hslots : ∀ p ∈ perPcr, SlotsOf slots p)
    (hnamed : slots = none ∨ ∃ m, .bySlot m ∈ perPcr) :
    (∃ slot ∈ slotNames slots, ExplainsAll values slot selection ds) ↔
      ∃ slot, ExplainsAll values slot selection ds := by
  refine ⟨fun ⟨slot, _, h⟩ => ⟨slot, h⟩, fun ⟨slot, h⟩ => ?_⟩
  rcases hnamed with rfl | ⟨m, hm⟩
  · exact ⟨none, List.mem_singleton.mpr rfl, explains_noSlot hread hslots h⟩
  · obtain ⟨s, hs, rfl⟩ := exists_slot hread hm h
    have hnames : slots = some (m.map Prod.fst) := hslots _ hm
    exact ⟨some s, by rw [hnames]; exact List.mem_map_of_mem hs, h⟩

/-! ## The reference set of a RIM -/

theorem rimPcr_ok {rim pcr : Json} (h : rimPcr debug rim = .ok pcr) : rim.get "pcr" = some pcr := by
  simp only [rimPcr, Except.bind_eq_ok, Except.ofOption_eq_ok, Except.pure_eq_ok] at h
  obtain ⟨-, -, pcr, hpcr, -, -, rfl⟩ := h
  exact hpcr

/-- The selection: what the RIM lists, each index once, in ascending order. -/
theorem rimSelection_ok {rim pcr : Json} (hpcr : rim.get "pcr" = some pcr)
    (h : rimSelection pcr = .ok selection) :
    selection ≠ [] ∧ selection.Pairwise (· < ·) ∧ (∀ i ∈ selection, i ≤ 23) ∧
      ∀ i, i ∈ selection ↔ i ∈ pcrsOf rim := by
  simp only [rimSelection, Except.bind_eq_ok, Except.ofOption_eq_ok, Except.pure_eq_ok,
    Except.ensure_eq_ok, Except.mapM_eq_ok] at h
  obtain ⟨list, hlist, indices, hindices, -, hne, rfl⟩ := h
  have hpcrs : pcrsOf rim = list.filterMap fun v => v.asU64.map UInt64.toNat := by
    rw [pcrsOf, hpcr]
    simp only [Option.bind_some, hlist, Option.getD_some]
  have hall : indices = pcrsOf rim ∧ ∀ i ∈ indices, i ≤ 23 := by
    rw [hpcrs]
    clear hlist hne hpcrs
    induction hindices with
    | nil => simp
    | cons hv _ ih =>
      obtain ⟨hv, hle⟩ := Option.filter_eq_some_iff.mp hv
      rw [List.filterMap_cons_some (f := fun v : Json => v.asU64.map UInt64.toNat) hv,
        List.forall_mem_cons]
      exact ⟨congrArg _ ih.1, by simpa using hle, ih.2⟩
  refine ⟨hne, ?_, fun i hi => hall.2 i (List.mem_sortDedup.mp hi), fun i => ?_⟩
  · exact (List.pairwise_sortDedup (· ≤ ·) indices).imp fun h => lt_of_le_of_ne h.1 h.2
  · rw [List.mem_sortDedup, hall.1]

theorem rimValues_ok {rim pcr : Json} (hpcr : rim.get "pcr" = some pcr)
    (h : rimValues debug pcr selection = .ok values) : values = valuesOf rim := by
  simp only [rimValues, Except.bind_eq_ok, Except.ofOption_eq_ok, Except.pure_eq_ok] at h
  obtain ⟨values, hvalues, -, -, -, -, rfl⟩ := h
  rw [valuesOf, hpcr]
  simp only [Option.bind_some, hvalues, Option.getD_some]

/-- **The reference set of a RIM**: the selection it lists, and the digests of the states that one
slot explains. -/
theorem referenceOfRim_ok {rim : Json} {refs : ReferenceSet}
    (h : referenceOfRim C debug rim = .ok refs) :
    ∃ selection : List ℕ, selection ≠ [] ∧ selection.Pairwise (· < ·) ∧ (∀ i ∈ selection, i ≤ 23) ∧
      (∀ i, i ∈ selection ↔ i ∈ pcrsOf rim) ∧
      refs.expectedSelection = ⟨tpmAlgSha256, Bitmap.ofIndices 3 selection⟩ ∧
      refs.requiredEvidence = [] ∧
      ∀ c, c ∈ refs.allowed ↔ ∃ slot ds, ExplainsAll (valuesOf rim) slot selection ds ∧
        c = C.sha256 (ds.flatMap fun d => d.toList) := by
  simp only [referenceOfRim, Except.bind_eq_ok, Except.pure_eq_ok, Prod.exists] at h
  obtain ⟨pcr, hpcr, selection, hselection, values, hvalues, perPcr, slots, hloop, composites,
    hcomposites, rfl⟩ := h
  have hpcr := rimPcr_ok hpcr
  obtain ⟨hne, hasc, hle, hmem⟩ := rimSelection_ok hpcr hselection
  obtain rfl := rimValues_ok hpcr hvalues
  obtain ⟨hread, hslots, hnamed⟩ := readPcrs_ok hloop
  refine ⟨selection, hne, hasc, hle, hmem, rfl, rfl, fun c => ?_⟩
  rw [List.mem_sortDedup, mem_flatten_slotComposites hread hcomposites]
  constructor
  · rintro ⟨slot, -, ds, hds, rfl⟩
    exact ⟨slot, ds, hds, rfl⟩
  · rintro ⟨slot, ds, hds, rfl⟩
    obtain ⟨slot, hslot, hds⟩ :=
      (exists_slotName hread hslots (hnamed.imp_right And.right)).mpr ⟨slot, hds⟩
    exact ⟨slot, hslot, ds, hds, rfl⟩

end Lemmas

end TactiqAttest.Appraise
