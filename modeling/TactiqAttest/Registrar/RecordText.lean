import TactiqAttest.Bytes.JsonText
import TactiqAttest.Registrar.Record

/-!
# Registration files as text

What `serde_json` makes of a record and of a pending state: their fields in order, under the names
they have in the source, without the optional fields that are absent.  `Record.ofEntries_entries`
and `Pending.ofEntries_entries` read them back.  So there are functions with what the code relies
on, `recordFiles` and `pendingFiles`.
-/

namespace TactiqAttest.Registrar

open JsonText

/-! ## Fields -/

/-- A field that is left out when it is absent. -/
def optional {α : Type} (key : String) (value : α → Value) (v : Option α) : List Entry :=
  (v.map fun a => (key, value a)).toList

/-- The text that a value is. -/
def asText : Value → Option String
  | .text s => some s
  | _ => none

/-- The number that a value is. -/
def asNumber : Value → Option UInt64
  | .number n => if n < 2 ^ 64 then some (UInt64.ofNat n) else none
  | _ => none

/-- The flag that a value is. -/
def asFlag : Value → Option Bool
  | .flag b => some b
  | _ => none

variable {α : Type} (es : List Entry)

/-- A field that has to be there. -/
def required (key : String) (read : Value → Option α) : Option α := (es.lookup key).bind read

/-- A field that may be absent. -/
def allowed (key : String) (read : Value → Option α) : Option (Option α) :=
  (es.lookup key).elim (some none) fun v => (read v).map some

/-! ## Records -/

/-- The fields of a record. -/
def Record.entries (r : Record) : List Entry :=
  [("format", .text r.format), ("device_id", .text r.deviceId), ("registrar", .text r.registrar),
    ("chain_checked_utc", .text r.chainCheckedUtc),
    ("chain_checked_unix", .number r.chainCheckedUnix.toNat),
    ("registered_utc", .text r.registeredUtc), ("ek_nv_index", .text r.ekNvIndex),
    ("ek_certificate", .text r.ekCertificate),
    ("intermediate_certificate", .text r.intermediateCertificate),
    ("root_sha256", .text r.rootSha256), ("chain_check", .text r.chainCheck),
    ("revocation_checked", .flag r.revocationChecked)] ++
  optional "revocation_check" .text r.revocationCheck ++
  optional "ek_crl" .text r.ekCrl ++
  optional "ek_crl_this_update_utc" .text r.ekCrlThisUpdateUtc ++
  optional "ek_crl_next_update_utc" .text r.ekCrlNextUpdateUtc ++
  optional "intermediate_crl" .text r.intermediateCrl ++
  optional "intermediate_crl_this_update_utc" .text r.intermediateCrlThisUpdateUtc ++
  optional "intermediate_crl_next_update_utc" .text r.intermediateCrlNextUpdateUtc ++
  [("ak_public", .text r.akPublic), ("ak_name", .text r.akName),
    ("credential_blob", .text r.credentialBlob), ("secret_sha256", .text r.secretSha256)] ++
  optional "signed" .flag r.signed

/-- The record that has these fields. -/
def Record.ofEntries : Option Record := do
  let format ← required es "format" asText
  let deviceId ← required es "device_id" asText
  let registrar ← required es "registrar" asText
  let chainCheckedUtc ← required es "chain_checked_utc" asText
  let chainCheckedUnix ← required es "chain_checked_unix" asNumber
  let registeredUtc ← required es "registered_utc" asText
  let ekNvIndex ← required es "ek_nv_index" asText
  let ekCertificate ← required es "ek_certificate" asText
  let intermediateCertificate ← required es "intermediate_certificate" asText
  let rootSha256 ← required es "root_sha256" asText
  let chainCheck ← required es "chain_check" asText
  let revocationChecked ← required es "revocation_checked" asFlag
  let revocationCheck ← allowed es "revocation_check" asText
  let ekCrl ← allowed es "ek_crl" asText
  let ekCrlThisUpdateUtc ← allowed es "ek_crl_this_update_utc" asText
  let ekCrlNextUpdateUtc ← allowed es "ek_crl_next_update_utc" asText
  let intermediateCrl ← allowed es "intermediate_crl" asText
  let intermediateCrlThisUpdateUtc ← allowed es "intermediate_crl_this_update_utc" asText
  let intermediateCrlNextUpdateUtc ← allowed es "intermediate_crl_next_update_utc" asText
  let akPublic ← required es "ak_public" asText
  let akName ← required es "ak_name" asText
  let credentialBlob ← required es "credential_blob" asText
  let secretSha256 ← required es "secret_sha256" asText
  let signed ← allowed es "signed" asFlag
  return ⟨format, deviceId, registrar, chainCheckedUtc, chainCheckedUnix, registeredUtc, ekNvIndex,
    ekCertificate, intermediateCertificate, rootSha256, chainCheck, revocationChecked,
    revocationCheck, ekCrl, ekCrlThisUpdateUtc, ekCrlNextUpdateUtc, intermediateCrl,
    intermediateCrlThisUpdateUtc, intermediateCrlNextUpdateUtc, akPublic, akName, credentialBlob,
    secretSha256, signed⟩

/-! ## Pending states -/

/-- The fields of a pending state. -/
def Pending.entries (p : Pending) : List Entry :=
  [("format", .text p.format), ("device_id", .text p.deviceId), ("registrar", .text p.registrar),
    ("chain_checked_unix", .number p.chainCheckedUnix.toNat),
    ("ek_certificate", .text p.ekCertificate),
    ("intermediate_certificate", .text p.intermediateCertificate),
    ("root_sha256", .text p.rootSha256), ("ek_crl", .text p.ekCrl),
    ("ek_crl_this_update_unix", .number p.ekCrlThisUpdateUnix.toNat),
    ("ek_crl_next_update_unix", .number p.ekCrlNextUpdateUnix.toNat),
    ("intermediate_crl", .text p.intermediateCrl),
    ("intermediate_crl_this_update_unix", .number p.intermediateCrlThisUpdateUnix.toNat),
    ("intermediate_crl_next_update_unix", .number p.intermediateCrlNextUpdateUnix.toNat),
    ("ak_public", .text p.akPublic), ("ak_name", .text p.akName),
    ("credential_blob", .text p.credentialBlob), ("secret", .text p.secret)]

/-- The pending state that has these fields. -/
def Pending.ofEntries : Option Pending := do
  let format ← required es "format" asText
  let deviceId ← required es "device_id" asText
  let registrar ← required es "registrar" asText
  let chainCheckedUnix ← required es "chain_checked_unix" asNumber
  let ekCertificate ← required es "ek_certificate" asText
  let intermediateCertificate ← required es "intermediate_certificate" asText
  let rootSha256 ← required es "root_sha256" asText
  let ekCrl ← required es "ek_crl" asText
  let ekCrlThisUpdateUnix ← required es "ek_crl_this_update_unix" asNumber
  let ekCrlNextUpdateUnix ← required es "ek_crl_next_update_unix" asNumber
  let intermediateCrl ← required es "intermediate_crl" asText
  let intermediateCrlThisUpdateUnix ← required es "intermediate_crl_this_update_unix" asNumber
  let intermediateCrlNextUpdateUnix ← required es "intermediate_crl_next_update_unix" asNumber
  let akPublic ← required es "ak_public" asText
  let akName ← required es "ak_name" asText
  let credentialBlob ← required es "credential_blob" asText
  let secret ← required es "secret" asText
  return ⟨format, deviceId, registrar, chainCheckedUnix, ekCertificate, intermediateCertificate,
    rootSha256, ekCrl, ekCrlThisUpdateUnix, ekCrlNextUpdateUnix, intermediateCrl,
    intermediateCrlThisUpdateUnix, intermediateCrlNextUpdateUnix, akPublic, akName, credentialBlob,
    secret⟩

/-! ## Reading back -/

variable {es : List Entry} {key : String}

@[simp] theorem asText_text (s : String) : asText (.text s) = some s := rfl

@[simp] theorem asFlag_flag (b : Bool) : asFlag (.flag b) = some b := rfl

@[simp] theorem asNumber_toNat (n : UInt64) : asNumber (.number n.toNat) = some n := by
  rw [asNumber, if_pos n.toNat_lt, UInt64.ofNat_toNat]

theorem lookup_optional {k : String} {value : α → Value} {v : Option α} :
    (optional k value v).lookup key = if key = k then v.map value else none := by
  cases v with
  | none => simp [optional]
  | some a =>
    by_cases h : key = k
    · subst h
      simp [optional]
    · have hne : (key == k) = false := beq_eq_false_iff_ne.mpr h
      simp [optional, List.lookup_cons, hne, h]

/-- An optional field reads back, whether it is there or not. -/
theorem elim_map {value : α → Value} {read : Value → Option α} (h : ∀ a, read (value a) = some a)
    (v : Option α) : (v.map value).elim (some none) (fun x => (read x).map some) = some v := by
  cases v with
  | none => rfl
  | some a => rw [Option.map_some, Option.elim_some, h, Option.map_some]

theorem Record.ofEntries_entries (r : Record) : Record.ofEntries r.entries = some r := by
  simp [Record.ofEntries, Record.entries, required, allowed, List.lookup_cons, List.lookup_append,
    lookup_optional, elim_map asText_text, elim_map asFlag_flag]

theorem Pending.ofEntries_entries (p : Pending) : Pending.ofEntries p.entries = some p := by
  simp [Pending.ofEntries, Pending.entries, required, List.lookup_cons]

/-! ## Files -/

theorem IsBlank.lt {b : UInt8} (h : IsBlank b) : b.toNat < 0x80 := by
  rcases h with rfl | rfl | rfl | rfl <;> decide

open Classical in
/-- Writing values as objects, and reading them back, blanks after them or not. -/
noncomputable def Json.ofEntries (entries : α → List Entry) (ofEntries : List Entry → Option α)
    (h : ∀ a, ofEntries (entries a) = some a) : Json α where
  toVecPretty a := objectBytes (entries a)
  fromSlice b :=
    if hb : ∃ es blanks, (∀ x ∈ blanks, IsBlank x) ∧ b = objectBytes es ++ blanks then
      Except.ofOption "missing field" (ofEntries hb.choose)
    else .error "expected value"
  fromSlice_toVecPretty a blanks hblanks := by
    have hb : ∃ es rest, (∀ x ∈ rest, IsBlank x) ∧
        objectBytes (entries a) ++ blanks = objectBytes es ++ rest := ⟨_, blanks, hblanks, rfl⟩
    obtain ⟨rest, hrest, heq⟩ := hb.choose_spec
    have hchoose := objectBytes_append_inj (fun x hx => (hblanks x hx).lt)
      (fun x hx => (hrest x hx).lt) heq
    rw [dif_pos hb, ← hchoose, h]
    rfl

/-- The files of records. -/
noncomputable def recordFiles : Json Record := .ofEntries _ _ Record.ofEntries_entries

/-- The files of pending states. -/
noncomputable def pendingFiles : Json Pending := .ofEntries _ _ Pending.ofEntries_entries

end TactiqAttest.Registrar
