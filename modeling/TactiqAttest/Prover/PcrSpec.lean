import TactiqAttest.Bytes.Bitmap
import TactiqAttest.Bytes.Chars
import TactiqAttest.Programs.Results

/-!
# PCR selection strings

`parse_pcr_spec` of `attest-tpm`: from the tpm2-tools selection string that the PCRs are read and
quoted with, the algorithm id and the bitmap that the envelope declares.  It refuses what the
envelope could not express.

`parsePcrSpec_spelling` is the direction a caller needs that starts from a set of PCRs: spelled in
ascending order, a non-empty set parses to its own bitmap.
-/

namespace TactiqAttest.Prover

/-- The algorithms a selection may name, with their TCG ids. -/
def pcrAlgId (name : String) : Option UInt16 :=
  match name with
  | "sha1" => some 0x0004
  | "sha256" => some 0x000B
  | "sha384" => some 0x000C
  | "sha512" => some 0x000D
  | _ => none

/-- One turn of the loop of `parse_pcr_spec`: an index above the last one. -/
def parsePcrIndex (spec : String) (last : Option ℕ) (tok : List Char) : Except String ℕ := do
  let tok := Chars.trim tok
  Except.ensure (tok ≠ []) s!"pcr spec `{spec}`: empty PCR index"
  let n ← Except.ofOption s!"pcr spec `{spec}`: bad PCR index `{String.ofList tok}`"
    (Chars.parseUnsigned 256 tok)
  Except.ensure (n ≤ 23) s!"pcr spec `{spec}`: PCR {n} out of range 0..=23"
  match last with
  | some p =>
    Except.ensure (p < n)
      s!"pcr spec `{spec}`: PCR indices must be strictly ascending (got {n} after {p})"
    return n
  | none => return n

/-- The loop of `parse_pcr_spec`: the bitmap, and the last index there was. -/
def parsePcrIndices (spec : String) :
    List (List Char) → List.Vector UInt8 3 → Option ℕ →
      Except String (List.Vector UInt8 3 × Option ℕ)
  | [], bitmap, last => .ok (bitmap, last)
  | tok :: toks, bitmap, last => do
    let n ← parsePcrIndex spec last tok
    parsePcrIndices spec toks (Bitmap.setBit bitmap n) (some n)

/-- `parse_pcr_spec`. -/
def parsePcrSpec (spec : String) : Except String (UInt16 × List.Vector UInt8 3) := do
  Except.ensure ('+' ∉ spec.toList)
    s!"pcr spec `{spec}`: multi-bank selection cannot be encoded in the envelope"
  match spec.toList.span (· != ':') with
  | (_, []) => .error s!"pcr spec `{spec}`: expected `<alg>:<pcr,...>`"
  | (alg, _ :: list) =>
    let name := String.ofList (Chars.trim alg)
    let algId ← Except.ofOption s!"pcr spec `{spec}`: unknown algorithm `{name}`" (pcrAlgId name)
    let (bitmap, last) ← parsePcrIndices spec (list.splitOn ',') (Bitmap.empty 3) none
    Except.ensure last.isSome s!"pcr spec `{spec}`: no PCRs selected"
    return (algId, bitmap)

/-! ## Spelling a selection -/

/-- The sha256 selection of a list of PCRs. -/
def pcrSpelling (indices : List ℕ) : String :=
  "sha256:" ++ String.intercalate "," (indices.map toString)

variable {indices : List ℕ} {spec : String}

theorem toList_pcrSpelling :
    (pcrSpelling indices).toList =
      "sha256".toList ++ ':' :: [','].intercalate (indices.map (Nat.toDigits 10)) := by
  have hdigits : (indices.map toString).map String.toList = indices.map (Nat.toDigits 10) := by
    rw [List.map_map]
    exact List.map_congr_left fun n _ => Nat.toList_repr
  rw [pcrSpelling, String.toList_append, String.toList_intercalate, hdigits]
  rfl

/-- Above the last index, a decimal index parses to itself. -/
theorem parsePcrIndex_toDigits {last : Option ℕ} {n : ℕ} (hn : n ≤ 23)
    (hlast : ∀ p, last = some p → p < n) :
    parsePcrIndex spec last (Nat.toDigits 10 n) = .ok n := by
  have hparse : Chars.parseUnsigned 256 (Nat.toDigits 10 n) = some n := by
    rw [Chars.parseUnsigned_toDigits, if_pos (by omega)]
  unfold parsePcrIndex
  simp only [Chars.trim_toDigits, hparse, Except.bind_eq_ok, Except.ensure_eq_ok,
    Except.ofOption_eq_ok]
  refine ⟨(), Nat.toDigits_ne_nil, n, rfl, (), hn, ?_⟩
  cases last with
  | none => rfl
  | some p => exact Except.bind_eq_ok.mpr ⟨(), Except.ensure_eq_ok.mpr (hlast p rfl), rfl⟩

/-- Ascending indices set their bits, one after the other. -/
theorem parsePcrIndices_toDigits {last : Option ℕ} (bitmap : List.Vector UInt8 3)
    (hasc : indices.Pairwise (· < ·)) (hle : ∀ i ∈ indices, i ≤ 23)
    (hlast : ∀ p, last = some p → ∀ i ∈ indices, p < i) :
    parsePcrIndices spec (indices.map (Nat.toDigits 10)) bitmap last =
      .ok (indices.foldl Bitmap.setBit bitmap, indices.foldl (fun _ i => some i) last) := by
  induction indices generalizing bitmap last with
  | nil => rfl
  | cons n indices ih =>
    rw [List.pairwise_cons] at hasc
    have hn : parsePcrIndex spec last (Nat.toDigits 10 n) = .ok n :=
      parsePcrIndex_toDigits (hle n List.mem_cons_self) fun p hp => hlast p hp n List.mem_cons_self
    refine Except.bind_eq_ok.mpr ⟨n, hn, ?_⟩
    refine ih _ hasc.2 (fun i hi => hle i (List.mem_cons_of_mem _ hi)) ?_
    intro p hp i hi
    obtain rfl := Option.some_inj.mp hp
    exact hasc.1 i hi

/-- The characters of a spelling: no plus sign anywhere, and one colon, after the algorithm. -/
theorem isDigit_of_mem_spelling {c : Char}
    (h : c ∈ [','].intercalate (indices.map (Nat.toDigits 10))) : c = ',' ∨ c.isDigit = true := by
  induction indices with
  | nil => simp at h
  | cons n indices ih =>
    rcases indices with _ | ⟨m, indices⟩
    · simp only [List.map_cons, List.map_nil, List.intercalate_singleton] at h
      exact .inr (Chars.isDigit_of_mem_toDigits h)
    · rw [List.map_cons, List.map_cons, List.intercalate_cons_cons, ← List.map_cons] at h
      rcases List.mem_append.mp h with h | h
      · rcases List.mem_append.mp h with h | h
        · exact .inr (Chars.isDigit_of_mem_toDigits h)
        · exact .inl (List.mem_singleton.mp h)
      · exact ih h

/-- **A set of PCRs, spelled in ascending order, parses to its bitmap.** -/
theorem parsePcrSpec_spelling (hne : indices ≠ []) (hasc : indices.Pairwise (· < ·))
    (hle : ∀ i ∈ indices, i ≤ 23) :
    parsePcrSpec (pcrSpelling indices) = .ok (0x000B, Bitmap.ofIndices 3 indices) := by
  have hplus : '+' ∉ (pcrSpelling indices).toList := by
    rw [toList_pcrSpelling, List.mem_append, List.mem_cons]
    rintro (h | h | h)
    · exact absurd h (by decide)
    · exact absurd h (by decide)
    · exact absurd (isDigit_of_mem_spelling h) (by decide)
  have hspan : (pcrSpelling indices).toList.span (· != ':') =
      ("sha256".toList, ':' :: [','].intercalate (indices.map (Nat.toDigits 10))) := by
    rw [toList_pcrSpelling]
    rfl
  have hsplit : ([','].intercalate (indices.map (Nat.toDigits 10))).splitOn ',' =
      indices.map (Nat.toDigits 10) := by
    refine List.splitOn_intercalate ',' ?_ (by simpa using hne)
    intro l hl
    obtain ⟨n, -, rfl⟩ := List.mem_map.mp hl
    exact fun hmem => absurd (Chars.isDigit_of_mem_toDigits hmem) (by decide)
  have hname : String.ofList (Chars.trim "sha256".toList) = "sha256" := by decide
  have hindices : parsePcrIndices (pcrSpelling indices) (indices.map (Nat.toDigits 10))
      (Bitmap.empty 3) none =
      .ok (Bitmap.ofIndices 3 indices, indices.foldl (fun _ i => some i) none) :=
    parsePcrIndices_toDigits _ hasc hle (by simp)
  have hlast : (indices.foldl (fun _ i => some i) (none : Option ℕ)).isSome = true := by
    obtain ⟨init, i, rfl⟩ := (List.eq_nil_or_concat indices).resolve_left hne
    simp
  unfold parsePcrSpec
  refine Except.bind_eq_ok.mpr ⟨(), Except.ensure_eq_ok.mpr hplus, ?_⟩
  simp only [hspan, hname, hsplit, hindices]
  refine Except.bind_eq_ok.mpr ⟨0x000B, rfl, ?_⟩
  exact Except.bind_eq_ok.mpr ⟨_, rfl,
    Except.bind_eq_ok.mpr ⟨(), Except.ensure_eq_ok.mpr hlast, rfl⟩⟩

end TactiqAttest.Prover
