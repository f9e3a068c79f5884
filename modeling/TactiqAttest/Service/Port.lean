import TactiqAttest.Programs.Interaction
import TactiqAttest.Bytes.BigEndian

/-!
# What the service talks to

The stop service reaches outside in two directions: to the TPM (`StopTpm`), and to the files the
operator's release is kept in (`ReleaseStore`).  Both are calls of its programs here.  Each TPM
command is one call, and so is the reading of one file; a release is two files, so somebody can
replace one of them between the two reads.
-/

namespace TactiqAttest.Service

open Prog

/-- Why a file could not be read. -/
inductive FileError
  /-- It does not exist. -/
  | notFound
  /-- Anything else, with its text. -/
  | other (text : String)

/-- The calls of the service. -/
inductive Op
  /-- `read_counter`. -/
  | readCounter
  /-- `increment`. -/
  | increment
  /-- `certify`. -/
  | certify (qualifying : List.Vector UInt8 32)
  /-- `pcr_read`. -/
  | pcrRead (spec : String)
  /-- `quote`. -/
  | quote (qualifying : List.Vector UInt8 32) (spec : String)
  /-- Open a file and read it, up to a number of bytes. -/
  | readFile (path : String) (atMost : ℕ)
  deriving DecidableEq

/-- What a call answers, or the text of its failure.  A signed statement comes with its
signature. -/
abbrev Reply : Op → Type
  | .readCounter => Except String UInt64
  | .increment => Except String Unit
  | .certify _ => Except String (Bytes × Bytes)
  | .pcrRead _ => Except String Bytes
  | .quote _ _ => Except String (Bytes × Bytes)
  | .readFile _ _ => Except FileError Bytes

instance (op : Op) : Inhabited (Reply op) where
  default := match op with
    | .readCounter => .error ""
    | .increment => .error ""
    | .certify _ => .error ""
    | .pcrRead _ => .error ""
    | .quote _ _ => .error ""
    | .readFile _ _ => .error .notFound

/-- A procedure of the service, failing with a text. -/
abbrev Stop := Fallible Op Reply String

def readCounter : Stop UInt64 := ExceptT.mk (perform Op.readCounter)

def increment : Stop Unit := ExceptT.mk (perform Op.increment)

def certify (qualifying : List.Vector UInt8 32) : Stop (Bytes × Bytes) :=
  ExceptT.mk (perform (Op.certify qualifying))

def pcrRead (spec : String) : Stop Bytes := ExceptT.mk (perform (Op.pcrRead spec))

def quote (qualifying : List.Vector UInt8 32) (spec : String) : Stop (Bytes × Bytes) :=
  ExceptT.mk (perform (Op.quote qualifying spec))

/-- `ReleaseStore`: how the operator's release is read, as record and signature, if there is one. -/
abbrev ReleaseStore := Stop (Option (Bytes × Bytes))

/-- What `read_bounded` makes of the attempt to read one byte more than the limit. -/
def boundedFile (path : String) (limit : ℕ) : Except FileError Bytes → Except String (Option Bytes)
  | .error .notFound => .ok none
  | .error (.other text) => .error ("read " ++ path ++ ": " ++ text)
  | .ok buf =>
    if buf.length > limit then .error (path ++ ": more than " ++ toString limit ++ " bytes")
    else .ok (some buf)

/-- `read_bounded`: the whole file if it exists and is not too long. -/
def readBounded (path : String) (limit : ℕ) : Stop (Option Bytes) :=
  ExceptT.mk (boundedFile path limit <$> perform (Op.readFile path (limit + 1)))

theorem yields_readBounded {path : String} {limit : ℕ} {cs : List (Exchange Op Reply)}
    {out : Except String (Option Bytes)} :
    (readBounded path limit).run.Yields cs out ↔
      ∃ r, cs = [⟨.readFile path (limit + 1), r⟩] ∧ boundedFile path limit r = out := by
  show Yields (.call (Op.readFile path (limit + 1))
    fun r => .ret (boundedFile path limit r)) cs out ↔ _
  rw [yields_call]
  refine exists_congr fun r => ⟨fun ⟨cs', hcs, hret⟩ => ?_, fun ⟨hcs, hout⟩ => ?_⟩
  · obtain ⟨rfl, hout⟩ := yields_ret.mp hret
    exact ⟨hcs, hout⟩
  · exact ⟨[], hcs, yields_ret.mpr ⟨rfl, hout⟩⟩

theorem boundedFile_some {path : String} {limit : ℕ} {r : Except FileError Bytes} {buf : Bytes} :
    boundedFile path limit r = .ok (some buf) ↔ r = .ok buf ∧ buf.length ≤ limit := by
  rcases r with (_ | text) | buf'
  · exact ⟨fun h => (by cases h), fun h => (by cases h.1)⟩
  · exact ⟨fun h => (by cases h), fun h => (by cases h.1)⟩
  · rw [boundedFile]
    by_cases hlen : buf'.length > limit
    · rw [if_pos hlen]
      refine ⟨fun h => (by cases h), fun ⟨h, hle⟩ => ?_⟩
      cases h
      omega
    · rw [if_neg hlen]
      refine ⟨fun h => ?_, fun ⟨h, hle⟩ => by cases h; rfl⟩
      cases h
      exact ⟨rfl, by omega⟩

end TactiqAttest.Service
