import TactiqAttest.Registrar.Registration

/-!
# What a record says twice

Some fields of a record can be worked out from others: the name from the AK public area, the digest
from the root, the dates from the revocation lists, and the time in UTC from the time in seconds.
`consistent_iff`: in a record of format 2 that `verify` accepts all of these agree, exactly if the
last one does.  `verify` compares the others; that one it prints, as the time at which chain and
lists were judged, but judges at the seconds.
-/

namespace TactiqAttest.Registrar

open Envelope Files Prog

variable {K : Crates} {o : Opts} {w w' : World} {record : Record}
  {recordBytes rootDer akPublic : Bytes} {recordPath rootPath : String}

/-- The two dates of a revocation list are those in the list. -/
def RestatesCrl (P : Pki) (list thisUpdate nextUpdate : Option String) : Prop :=
  ∃ text der crl next, list = some text ∧ Hex.decode text = .ok der ∧ P.crlFromDer der = .ok crl ∧
    crl.nextUpdate = some next ∧ thisUpdate = some (utc crl.thisUpdate.unix) ∧
    nextUpdate = some (utc next.unix)

/-- What a record says twice, it says alike. -/
structure Consistent (K : Crates) (record : Record) (rootDer : Bytes) : Prop where
  akName : ∃ akPublic p name, Hex.decode record.akPublic = .ok akPublic ∧
    EccPublic.parseTpm2b akPublic = .ok p ∧ p.name K.crypto = .ok name ∧
    record.akName = Hex.encode name.toList
  rootSha256 : record.rootSha256 = Hex.encode (K.crypto.sha256 rootDer).toList
  ekCrl : RestatesCrl K.pki record.ekCrl record.ekCrlThisUpdateUtc record.ekCrlNextUpdateUtc
  intermediateCrl : RestatesCrl K.pki record.intermediateCrl record.intermediateCrlThisUpdateUtc
    record.intermediateCrlNextUpdateUtc
  chainChecked : record.chainCheckedUtc = utc record.chainCheckedUnix

/-! ## What is compared -/

theorem checkAk_ok {name : List.Vector UInt8 34} (h : checkAk K akPublic = .ok name) :
    ∃ p, EccPublic.parseTpm2b akPublic = .ok p ∧ p.name K.crypto = .ok name := by
  unfold checkAk at h
  simp only [Except.bind_eq_ok] at h
  obtain ⟨_, -, p, hp, hname⟩ := h
  exact ⟨p, hp, hname⟩

theorem restatesCrl_of_check {P : Pki} {text : String} {der : Bytes} {subject issuer : Certificate}
    {key : P.PublicKey} {now : Duration} {what : String} {checked : Crl.Checked}
    (hdecode : Hex.decode text = .ok der)
    (hcheck : Crl.check P der subject issuer key now what = .ok checked) :
    RestatesCrl P (some text) (some (utc checked.thisUpdateUnix))
      (some (utc checked.nextUpdateUnix)) := by
  obtain ⟨crl, next, hcurrent, -, -⟩ := Crl.check_ok.mp hcheck
  obtain rfl := hcurrent.checked
  exact ⟨text, der, crl, next, rfl, hdecode, hcurrent.parsed, hcurrent.nextUpdate, rfl, rfl⟩

/-- **An accepted record is consistent exactly if its time in UTC is its time in seconds.** -/
theorem Judged.consistent_iff_utc (h : Judged K record rootDer akPublic) :
    Consistent K record rootDer ↔ record.chainCheckedUtc = utc record.chainCheckedUnix := by
  refine ⟨Consistent.chainChecked, fun hutc => ?_⟩
  obtain ⟨name, hname, hencode⟩ := h.name
  obtain ⟨p, hp, hpname⟩ := checkAk_ok hname
  obtain ⟨ekDer, intDer, chain, ec, ic, -, -, -, hcrls⟩ := h.chain
  obtain ⟨ekHex, ekCrl, intHex, intCrl, hekHex, hekCrl, hintHex, hintCrl, hchecked⟩ := hcrls.checked
  unfold Crl.checkChain at hchecked
  simp only [Except.bind_eq_ok, Except.pure_eq_ok, Prod.mk.injEq] at hchecked
  obtain ⟨ek, -, int, -, root, -, intKey, -, rootKey, -, _, hek, _, hint, rfl, rfl⟩ := hchecked
  constructor
  case akName => exact ⟨akPublic, p, name, h.ak, hp, hpname, hencode.symm⟩
  case rootSha256 => exact h.root.symm
  case ekCrl =>
    rw [hekHex, hcrls.ekThis, hcrls.ekNext]
    exact restatesCrl_of_check hekCrl hek
  case intermediateCrl =>
    rw [hintHex, hcrls.intThis, hcrls.intNext]
    exact restatesCrl_of_check hintCrl hint
  case chainChecked => exact hutc

/-- The time in UTC can be any text. -/
theorem Judged.withUtc (h : Judged K record rootDer akPublic) (text : String) :
    Judged K { record with chainCheckedUtc := text } rootDer akPublic := by
  obtain ⟨ekDer, intDer, chain, ec, ic, hek, hint, hchain, hcrls⟩ := h.chain
  exact ⟨h.root, ⟨ekDer, intDer, chain, ec, ic, hek, hint, hchain, hcrls.checked, hcrls.ekThis,
    hcrls.ekNext, hcrls.intThis, hcrls.intNext⟩, h.ak, h.name, h.blob, h.secret⟩

/-! ## The example's record -/

def sampleGiven : Given :=
  ⟨sampleEk, sampleInt, sampleRoot, sampleAk, sampleEkCrl, sampleIntCrl⟩

def sampleSecret : List.Vector UInt8 32 := .replicate 32 0x11

/-- The record of a registration begun on 2026-10-01. -/
noncomputable def sampleRecord (e : Examined sampleCrates) (blob : Bytes) : Record :=
  recordOf sampleCrates
    (pendingOf "bench-01" "bench" sampleGiven (.fromSecs 1790812800) e sampleSecret.toList blob)
    1790812900 sampleSecret.toList

def sampleVerify : Opts := opts ["--record", "record.json", "--root", "root.der"]

/-- A record and the root it names. -/
def recordWorld (recordBytes : Bytes) : World :=
  ⟨ofFiles [("record.json", recordBytes), ("root.der", sampleRoot)], []⟩

theorem holds_record (recordBytes : Bytes) :
    (recordWorld recordBytes).disk.Holds "record.json" recordBytes := ⟨0, rfl, rfl⟩

theorem holds_root (recordBytes : Bytes) :
    (recordWorld recordBytes).disk.Holds "root.der" sampleRoot := ⟨1, rfl, rfl⟩

theorem sampleVerify_paths : sampleVerify.get "record" = .ok "record.json" ∧
    sampleVerify.get "root" = .ok "root.der" ∧ sampleVerify.opt "sig" = none ∧
    sampleVerify.opt "release-root" = none ∧ sampleVerify.opt "emit-ak" = none := by
  decide +kernel

/-- The record verifies, whatever its time in UTC. -/
theorem verify_sampleRecord (text : String) : ∃ record, record.format = recordFormat ∧
    record.chainCheckedUnix = 1790812800 ∧ record.chainCheckedUtc = text ∧
    sampleCrates.recordJson.fromSlice (recordFiles.toVecPretty record) = .ok record ∧
    ∃ w', Returns (Sem True) (cmdVerify sampleCrates sampleVerify).run
      (recordWorld (recordFiles.toVecPretty record)) (.ok ()) w' := by
  have hok : (do
      let e ← examine sampleCrates sampleGiven (.fromSecs 1790812800)
      MakeCred.makeCredentialWithSeed sampleCredential e.chain.ekPublic e.name.toList
        sampleSecret.toList (List.Vector.replicate 32 0x22).toList (.replicate 32 0x33)).isOk =
        true := by
    decide +kernel
  obtain ⟨blob, hblob⟩ := Except.isOk_eq_true.mp hok
  obtain ⟨e, hexamined, hcredential⟩ := Except.bind_eq_ok.mp hblob
  have hjudged : Judged sampleCrates { sampleRecord e blob with chainCheckedUtc := text } sampleRoot
      sampleAk :=
    (recordOf_judged hexamined hcredential 1790812900).withUtc text
  have hread := recordFiles.fromSlice_toVecPretty
    { sampleRecord e blob with chainCheckedUtc := text } [] (fun _ h => by cases h)
  rw [List.append_nil] at hread
  obtain ⟨hrecord, hroot, hsig, hrelease, hemit⟩ := sampleVerify_paths
  obtain ⟨⟨w', hreturns⟩, -⟩ := verifies_of_judged (K := sampleCrates) hread
    ((checkFormat_v2 rfl).mpr ⟨rfl, rfl, rfl⟩)
    (show validateId "bench-01" = .ok () by decide +kernel)
    hjudged sampleVerify (recordWorld _) ⟨_, hrecord, holds_record _⟩ ⟨_, hroot, holds_root _⟩ hsig
    hrelease fun path hpath => by rw [hemit] at hpath; cases hpath
  exact ⟨_, rfl, rfl, rfl, hread, w', hreturns.mono fun _ _ _ hstep => ⟨hstep.1, fun _ => trivial⟩⟩

/-! ## What `verify` accepts -/

/-- **A record of format 2 that `verify` accepts is consistent exactly if its time in UTC is its
time in seconds.** -/
theorem consistent_iff (hverify : Returns (Sem True) (cmdVerify K o).run w (.ok ()) w')
    (hrecordPath : o.get "record" = .ok recordPath)
    (hrecordFile : w.disk.Holds recordPath recordBytes)
    (hrootPath : o.get "root" = .ok rootPath) (hrootFile : w.disk.Holds rootPath rootDer)
    (hparsed : K.recordJson.fromSlice recordBytes = .ok record)
    (hformat : record.format = recordFormat) :
    Consistent K record rootDer ↔ record.chainCheckedUtc = utc record.chainCheckedUnix := by
  obtain ⟨recordBytes', rootDer', record', v2, akPublic, haccepted⟩ :=
    cmdVerify_obeys.of_returns hverify rfl
  -- the files it read are the files named
  obtain ⟨path, hpath, hholds⟩ := haccepted.recordFile
  obtain rfl : recordPath = path := Except.ok.inj (hrecordPath.symm.trans hpath)
  obtain rfl := hrecordFile.unique hholds
  obtain ⟨path', hpath', hholds'⟩ := haccepted.rootFile
  obtain rfl : rootPath = path' := Except.ok.inj (hrootPath.symm.trans hpath')
  obtain rfl := hrootFile.unique hholds'
  obtain rfl : record = record' := Except.ok.inj (hparsed.symm.trans haccepted.parsed)
  obtain ⟨rfl, -, -⟩ := (checkFormat_v2 hformat).mp haccepted.format
  exact (judge_ok.mp haccepted.judged).consistent_iff_utc

/-- A record with the right time in UTC is consistent. -/
theorem consistent_sample : ∃ record, record.chainCheckedUtc = "2026-10-01T00:00:00Z" ∧
    Consistent sampleCrates record sampleRoot := by
  obtain ⟨record, hformat, hunix, hutc, hread, w', hreturns⟩ :=
    verify_sampleRecord "2026-10-01T00:00:00Z"
  obtain ⟨hrecord, hroot, -⟩ := sampleVerify_paths
  refine ⟨record, hutc, (consistent_iff hreturns hrecord (holds_record _) hroot (holds_root _) hread
    hformat).mpr ?_⟩
  rw [hutc, hunix]
  decide +kernel

/-- One that says that the chain was judged ten years later is accepted as well, and is not. -/
theorem accepted_not_consistent : ∃ record w', record.format = recordFormat ∧
    record.chainCheckedUnix = 1790812800 ∧ record.chainCheckedUtc = "2036-10-01T00:00:00Z" ∧
    sampleCrates.recordJson.fromSlice (recordFiles.toVecPretty record) = .ok record ∧
    Returns (Sem True) (cmdVerify sampleCrates sampleVerify).run
      (recordWorld (recordFiles.toVecPretty record)) (.ok ()) w' ∧
    ¬ Consistent sampleCrates record sampleRoot := by
  obtain ⟨record, hformat, hunix, hutc, hread, w', hreturns⟩ :=
    verify_sampleRecord "2036-10-01T00:00:00Z"
  refine ⟨record, w', hformat, hunix, hutc, hread, hreturns, fun h => ?_⟩
  have hsame := h.chainChecked
  rw [hutc, hunix] at hsame
  exact absurd hsame (by decide +kernel)

end TactiqAttest.Registrar
