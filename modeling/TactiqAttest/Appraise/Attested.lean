import TactiqAttest.Appraise.AkRule
import TactiqAttest.Appraise.RimAgreement
import TactiqAttest.Programs.Sequential
import TactiqAttest.Prover.AgentLife

/-!
# What the agent attests, the verifier authenticates

The agent reads the PCRs with one command and has them quoted with another, and the key that signs
is the one at its handle; the verifier has the public area that was recorded when the device was
provisioned.  `attested_accepted_iff` puts the two ends together, for a TPM that attests what it is
asked to: whenever a cycle of the agent returns, in whatever life the device has had, the envelope
is on the disk, and gate 1 accepts it exactly if no PCR of the selection changed between the two
commands.
-/

open BigEndian

namespace TactiqAttest.Appraise

open Envelope Files Prog Programs Prover Prover.Agent Labelled

/-- A device as the agent finds it: its id and the recorded public area in the keys directory; and
in its TPM, the key at the handle, the PCRs when they are read and when they are quoted, and what it
answers when it is asked to quote some qualifying data. -/
structure Platform where
  idFile : Bytes
  recorded : Bytes
  area : Bytes
  read : ℕ → PcrHash
  quoted : ℕ → PcrHash
  attest : List.Vector UInt8 32 → Quote
  sign : List.Vector UInt8 32 → Bytes

section

variable {C : Crypto} {fromAffine : (x y : Bytes) → Except String C.VerifyingKey} (t : Platform)
  (indices : List ℕ)

variable (C fromAffine) in
/-- What is attested is the qualifying data and the PCRs, and the key at the handle has signed
it. -/
structure Platform.Attests (qd : List.Vector UInt8 32) : Prop where
  wire : (t.attest qd).Wire
  extraData : (t.attest qd).extraData = qd.toList
  banks : (t.attest qd).pcrBanks.iter = [(tpmAlgSha256, (Bitmap.ofIndices 3 indices).toList)]
  digest : (t.attest qd).pcrDigest = (C.sha256 (pcrState indices t.quoted)).toList
  signed : ∃ key, AkKey.fromTpm2bPublic fromAffine t.area = .ok key ∧
    C.Verifies key.vk (t.attest qd).bytes (t.sign qd)

variable (C fromAffine) in
/-- What a command that succeeds answers on this device. -/
def Platform.Answered : Exchange Op Reply → Device → Prop
  | ⟨.keys (.file (.read n)), reply⟩, _ => ∀ b, reply = .ok b →
      (n = "device_id" → b = t.idFile) ∧ (n = "ak.pub" → b = t.recorded)
  | ⟨.handlePublic _ _, reply⟩, _ => ∀ b, reply = .ok b → b = t.area
  | ⟨.pcrRead _ _, reply⟩, _ => ∀ b, reply = .ok b → b = pcrState indices t.read
  | ⟨.quote _ _ qd attest sig, reply⟩, d => reply = .ok () → t.Attests C fromAffine indices qd ∧
      (∀ f, d.audit.view attest = some f → d.audit.data f = (t.attest qd).bytes) ∧
      ∀ f, d.audit.view sig = some f → d.audit.data f = t.sign qd
  | _, _ => True

variable (C fromAffine) in
/-- What a call does on this device. -/
def Platform.Sem (d : Device) (c : Exchange Op Reply) (d' : Device) : Prop :=
  Agent.Sem d c d' ∧ t.Answered C fromAffine indices c d'

/-- A file is on the disk under this name, in a directory that a power cut may leave. -/
def Holds (d : Device) (m : Dir String) (n : String) (b : Bytes) : Prop :=
  ∃ f, m n = some f ∧ d.audit.synced f = true ∧ d.audit.data f = b

end

variable {C : Crypto} {fromAffine : (x y : Bytes) → Except String C.VerifyingKey} {t : Platform}
  {indices : List ℕ} {cfg : Provision.Config} {out spec nv id : String} {s : Recalled}
  {alloc alloc' : CounterAlloc} {counter : UInt64} {alg : UInt16} {bitmap : List.Vector UInt8 3}

variable (fromAffine t indices) in
/-- What the agent keeps to on any device, it keeps to on this one. -/
theorem Platform.obeys {α : Type} {P : Recalled → Op → Prop} {p : Prog Op Reply α}
    {Q : Recalled → α → Prop} (h : Obeys (withHistory Agent.Sem) P p Q s) :
    Obeys (withHistory (t.Sem C fromAffine indices)) P p Q s :=
  h.restrict fun _ _ _ hcall => ⟨hcall.1.1, hcall.2⟩

/-! ## The cycle -/

variable (C fromAffine t indices cfg spec) in
/-- What the checks of a cycle have found. -/
structure Found (id : String) (alg : UInt16) (bitmap : List.Vector UInt8 3) : Prop where
  id : Provision.idOfFile (Provision.deviceIdPath cfg) t.idFile = .ok id
  selection : parsePcrSpec spec = .ok (alg, bitmap)
  key : sameAk C cfg t.recorded t.area = .ok ()

theorem found_of_checked {cs : History} (h : Checked C cfg spec cs id alg bitmap)
    (hcs : ∀ c ∈ cs, ∃ d, t.Answered C fromAffine indices c d) :
    Found C t cfg spec id alg bitmap := by
  obtain ⟨raw, hraw, hid⟩ := h.identity
  obtain ⟨akh, -, recorded, area, -, -, -, hrecorded, harea, hsame⟩ := h.key
  obtain ⟨_, hraw⟩ := hcs _ hraw
  obtain ⟨_, hrecorded⟩ := hcs _ hrecorded
  obtain ⟨_, harea⟩ := hcs _ harea
  obtain rfl := (hraw raw rfl).1 rfl
  obtain rfl := (hrecorded recorded rfl).2 rfl
  obtain rfl := harea area rfl
  exact ⟨hid, h.selection, hsame⟩

/-! ## The envelope -/

section Envelope

variable {msg : Bytes} {qd : List.Vector UInt8 32}

variable (C fromAffine t indices) in
/-- The contents of the files of an envelope. -/
structure Content (msg tag : Bytes) (qd : List.Vector UInt8 32) (stem n : String) (b : Bytes) :
    Prop where
  msg : n = fin stem .msg → b = msg
  attest : n = fin stem .attest → b = (t.attest qd).bytes ∧ t.Attests C fromAffine indices qd
  sig : n = fin stem .sig → b = t.sign qd
  tag : n = fin stem .tag → b = tag

variable (C fromAffine t indices) in
/-- What a quote of some qualifying data leaves under the two names. -/
def Quoted (qd : List.Vector UInt8 32) (stem n : String) (b : Bytes) : Prop :=
  (n = part stem .attest → b = (t.attest qd).bytes ∧ t.Attests C fromAffine indices qd) ∧
    (n = part stem .sig → b = t.sign qd)

theorem contents_of_quoted {msg tag : Bytes} {stem : String} :
    Contents (Quoted C fromAffine t indices qd stem)
      (Content C fromAffine t indices msg tag qd stem)
      stem msg tag := by
  have hne : ∀ {e e' : Ext}, e ≠ e' → fin stem e ≠ fin stem e' := fun he h => he (fin_inj.mp h).2
  constructor
  · exact ⟨fun _ => rfl, fun h => absurd h (hne (by simp)), fun h => absurd h (hne (by simp)),
      fun h => absurd h (hne (by simp))⟩
  · exact fun b hb => ⟨fun h => absurd h (hne (by simp)), fun _ => hb.1 rfl,
      fun h => absurd h (hne (by simp)), fun h => absurd h (hne (by simp))⟩
  · exact fun b hb => ⟨fun h => absurd h (hne (by simp)), fun h => absurd h (hne (by simp)),
      fun _ => hb.2 rfl, fun h => absurd h (hne (by simp))⟩
  · exact ⟨fun h => absurd h (hne (by simp)), fun h => absurd h (hne (by simp)),
      fun h => absurd h (hne (by simp)), fun _ => rfl⟩

variable (C fromAffine t indices) in
/-- The envelope is on the disk, whatever a power cut leaves. -/
def OnDisk (msg tag : Bytes) (qd : List.Vector UInt8 32) (stem : String) (d : Device) : Prop :=
  t.Attests C fromAffine indices qd ∧ ∀ m, d.audit.Image m → Holds d m (fin stem .msg) msg ∧
    Holds d m (fin stem .attest) (t.attest qd).bytes ∧ Holds d m (fin stem .sig) (t.sign qd) ∧
    Holds d m (fin stem .tag) tag

theorem onDisk_of_tidy {msg tag : Bytes} {stem : String} {d : Device}
    (htidy : TidyDir (Content C fromAffine t indices msg tag qd stem) d.audit)
    (hall : ∀ m, d.audit.Image m → ∀ e, m (fin stem e) ≠ none) :
    OnDisk C fromAffine t indices msg tag qd stem d := by
  have hfile : ∀ m, d.audit.Image m → ∀ e, ∃ f, m (fin stem e) = some f ∧ d.audit.synced f = true ∧
      Content C fromAffine t indices msg tag qd stem (fin stem e) (d.audit.data f) := by
    intro m hm e
    obtain ⟨f, hf⟩ := Option.ne_none_iff_exists'.mp (hall m hm e)
    exact ⟨f, hf, htidy.good m hm _ f ⟨stem, e, rfl⟩ hf⟩
  refine ⟨?_, fun m hm => ⟨?_, ?_, ?_, ?_⟩⟩
  · obtain ⟨f, -, -, hcontent⟩ := hfile _ (Disk.image_view _) .attest
    exact (hcontent.attest rfl).2
  · obtain ⟨f, hf, hsync, hcontent⟩ := hfile m hm .msg
    exact ⟨f, hf, hsync, hcontent.msg rfl⟩
  · obtain ⟨f, hf, hsync, hcontent⟩ := hfile m hm .attest
    exact ⟨f, hf, hsync, (hcontent.attest rfl).1⟩
  · obtain ⟨f, hf, hsync, hcontent⟩ := hfile m hm .sig
    exact ⟨f, hf, hsync, hcontent.sig rfl⟩
  · obtain ⟨f, hf, hsync, hcontent⟩ := hfile m hm .tag
    exact ⟨f, hf, hsync, hcontent.tag rfl⟩

/-- The publication, on this device, where nothing is under the names of the envelope. -/
theorem obeys_publish_content {tag : Bytes} {stem : String} (hqd : qualifyingData C msg = .ok qd)
    (htidy : TidyDir (Content C fromAffine t indices msg tag qd stem) s.1.audit) :
    Obeys (withHistory (t.Sem C fromAffine indices)) (fun _ _ => True)
      (onAudit (quoteMessage C cfg spec msg) (publishEnvelope out stem msg tag)).run
      (fun s' result => result = .ok () →
        OnDisk C fromAffine t indices msg tag qd stem s'.1) s := by
  have horderly : Obeys (AuditSem (Quoted C fromAffine t indices qd stem))
      (Orderly (Content C fromAffine t indices msg tag qd stem) stem)
      (publishEnvelope out stem msg tag).run
      _ s.1.audit := publish_orderly contents_of_quoted htidy
  have hpublish := horderly.keeping (fun _ _ _ _ hd hop hsem => tidy_of_orderly hd hop hsem) htidy
  refine (obeys_interpret (fun s : Recalled => s.1.audit) (fun _ => True) ?_ trivial hpublish).mono
    (fun _ _ h => h) fun s' result h hok => onDisk_of_tidy h.2.1 (h.2.2 hok)
  rintro s' (op | ⟨attest, sig⟩) - ⟨-, horderly⟩
  · refine obeys_perform trivial ?_
    intro r s'' hcall
    exact ⟨trivial, hcall.1.1.2⟩
  · obtain ⟨rfl, rfl⟩ := horderly
    unfold auditCall quoteMessage
    rw [hqd]
    refine obeys_tryBind (obeys_ofResult ?_)
    refine obeys_tryBind (obeys_ofResult ?_)
    rcases Provision.akHandle cfg with e | akh
    · exact ⟨trivial, .none _, fun h => by cases h⟩
    refine obeys_perform trivial ?_
    rintro r s'' ⟨⟨hsem, hanswered⟩, -⟩
    refine ⟨trivial, hsem.2, ?_⟩
    rintro rfl n hn f hf
    obtain ⟨hattests, hattest, hsig⟩ := hanswered rfl
    rcases hn with rfl | rfl
    · exact ⟨fun _ => ⟨hattest f hf, hattests⟩, fun h => absurd (part_inj.mp h).2 (by simp)⟩
    · exact ⟨fun h => absurd (part_inj.mp h).2 (by simp), fun _ => hsig f hf⟩

/-- Nothing is under names that have not been used. -/
theorem tidy_content {tag : Bytes} (hs : Numbered C nv s)
    (hnone : ∀ e, ¬ Used s.2 (fin (stem counter) e)) :
    TidyDir (Content C fromAffine t indices msg tag qd (stem counter)) s.1.audit := by
  have hd := tidyDir_of_tidyAll hs.tidy
  refine ⟨hd.bound, hd.unaliased, hd.temp, fun m hm n f hn hf => ⟨(hd.good m hm n f hn hf).1, ?_⟩⟩
  have hused : Used s.2 n := hs.used m hm n hn (hf ▸ Option.some_ne_none f)
  have hfree : ∀ e, n ≠ fin (stem counter) e := fun e h => hnone e (h ▸ hused)
  exact ⟨fun h => absurd h (hfree .msg), fun h => absurd h (hfree .attest),
    fun h => absurd h (hfree .sig), fun h => absurd h (hfree .tag)⟩

variable (C fromAffine t indices) in
/-- The envelope of a counter value, made of what was found and read. -/
def Emitted (id : String) (alg : UInt16) (bitmap : List.Vector UInt8 3)
    (counter : UInt64) (d : Device) : Prop :=
  ∃ qd, qualifyingData C (message C id alg bitmap counter (pcrState indices t.read)) = .ok qd ∧
    OnDisk C fromAffine t indices (message C id alg bitmap counter (pcrState indices t.read))
      (Agent.tag id counter) qd (stem counter) d

/-- A message has qualifying data. -/
theorem exists_qualifyingData {pcrs : Bytes} : ∃ qd,
    qualifyingData C (message C id alg bitmap counter pcrs) = .ok qd := by
  let m : AttestationMessage := ⟨padDeviceId (Chars.utf8 id.toList), counter,
    encodePcrSelection alg bitmap, C.sha256 pcrs, C.sha256 []⟩
  have hm : message C id alg bitmap counter pcrs = m.bytes := rfl
  exact ⟨_, by rw [hm, qualifyingData_bytes]⟩

/-- What a cycle emits, on this device. -/
theorem obeys_emit_content (hs : Numbered C nv s) (hnone : ∀ e, ¬ Used s.2 (fin (stem counter) e)) :
    Obeys (withHistory (t.Sem C fromAffine indices)) (fun _ _ => True)
      (emit C cfg out spec id alg bitmap counter).run
      (fun s' result => ∀ counter', result = .ok counter' →
        counter' = counter ∧ Emitted C fromAffine t indices id alg bitmap counter s'.1) s := by
  have hquiet : (perform (Op.pcrRead spec s!"{cfg.work}/pcrs.bin") :
      Prog Op Reply (Except String Bytes)).Only Quiet := only_perform trivial
  have hread : Obeys (withHistory (t.Sem C fromAffine indices)) (fun _ _ => True)
      (perform (Op.pcrRead spec s!"{cfg.work}/pcrs.bin"))
      (fun _ reply => ∀ b, reply = .ok b → b = pcrState indices t.read) s :=
    obeys_perform trivial fun r s' hcall => hcall.1.2
  refine obeys_tryBind (((t.obeys fromAffine indices (obeys_quiet hquiet hs)).and hread).mono
    (fun _ _ _ => trivial) ?_)
  rintro s₁ (e | pcrs) ⟨⟨hs₁, hmoves⟩, hpcrs⟩
  · exact fun _ h => by cases h
  obtain rfl := hpcrs pcrs rfl
  refine obeys_tryBind (obeys_ofResult ?_)
  rcases Except.ensure
    ((message C id alg bitmap counter (pcrState indices t.read)).length = msgLen) _
    with e | ⟨⟩
  · exact fun _ h => by cases h
  obtain ⟨qd, hqd⟩ : ∃ qd, qualifyingData C
      (message C id alg bitmap counter (pcrState indices t.read)) = .ok qd := exists_qualifyingData
  have hnone₁ : ∀ e, ¬ Used s₁.2 (fin (stem counter) e) := fun e hused =>
    hnone e (hmoves.used _ ⟨stem counter, e, rfl⟩ hused)
  refine obeys_tryBind ((obeys_publish_content hqd (tidy_content hs₁ hnone₁)).mono
    (fun _ _ h => h) ?_)
  rintro s₂ (e | ⟨⟩) hdisk
  · exact fun _ h => by cases h
  · intro counter' h
    cases h
    exact ⟨rfl, qd, hqd, hdisk rfl⟩

/-- A file operation that succeeds. -/
theorem mem_of_io {what : String} {op : Files.Op String} {a : Files.Result op}
    {cs : List (Exchange AuditOp AuditReply)} (h : (io what op).run.Yields cs (.ok a)) :
    ⟨.file op, .ok a⟩ ∈ cs := by
  obtain ⟨cs₁, cs₂, reply, rfl, hcall, hret⟩ := yields_bind.mp h
  obtain rfl := yields_perform.mp hcall
  obtain ⟨rfl, hreply⟩ := yields_pure.mp hret
  rcases reply with e | b
  · cases hreply
  · cases hreply
    exact List.mem_cons_self

/-- A publication that succeeds has moved every file to its name. -/
theorem moves_of_publish {tag : Bytes} {stem : String} {cs : List (Exchange AuditOp AuditReply)}
    (h : (publishEnvelope out stem msg tag).run.Yields cs (.ok ())) (e : Ext) :
    ⟨.file (.rename (part stem e) (fin stem e)), .ok ()⟩ ∈ cs := by
  obtain ⟨cs₁, cs₂, text | ⟨⟩, rfl, -, hrest⟩ := yields_bind.mp h
  · -- what could not be staged is an error
    obtain ⟨cs₃, cs₄, -, rfl, -, hret⟩ := yields_bind.mp hrest
    cases (yields_pure.mp hret).2
  obtain ⟨cs₃, cs₄, ⟨⟩, rfl, hmsg, hrest⟩ := yields_tryBind_ok.mp hrest
  obtain ⟨cs₅, cs₆, ⟨⟩, rfl, hattest, hrest⟩ := yields_tryBind_ok.mp hrest
  obtain ⟨cs₇, cs₈, ⟨⟩, rfl, hsig, hrest⟩ := yields_tryBind_ok.mp hrest
  obtain ⟨cs₉, cs₁₀, ⟨⟩, rfl, -, hrest⟩ := yields_tryBind_ok.mp hrest
  obtain ⟨cs₁₁, cs₁₂, ⟨⟩, rfl, htag, -⟩ := yields_tryBind_ok.mp hrest
  cases e with
  | msg => simp [mem_of_io hmsg]
  | attest => simp [mem_of_io hattest]
  | sig => simp [mem_of_io hsig]
  | tag => simp [mem_of_io htag]

/-- So has the making of an envelope, under the counter value it returns. -/
theorem moves_of_emit {cs : History} {counter' : UInt64}
    (h : (emit C cfg out spec id alg bitmap counter').run.Yields cs (.ok counter)) :
    counter' = counter ∧
      ∀ e, ⟨.audit (.rename (part (stem counter) e) (fin (stem counter) e)), .ok ()⟩ ∈ cs := by
  obtain ⟨cs₁, cs₂, pcrs, rfl, -, hrest⟩ := yields_tryBind_ok.mp h
  obtain ⟨⟨⟩, -, hrest⟩ := yields_ofResult_bind.mp hrest
  obtain ⟨cs₃, cs₄, ⟨⟩, rfl, hpublish, hret⟩ := yields_tryBind_ok.mp hrest
  obtain rfl : counter' = counter := Except.ok.inj (yields_pure.mp hret).2
  obtain ⟨cs, hcs, hanswers⟩ := yields_interpret.mp hpublish
  refine ⟨rfl, fun e => ?_⟩
  obtain ⟨l, m, r, rfl, hm⟩ := hanswers.of_mem (moves_of_publish hcs e)
  obtain rfl := yields_perform.mp hm
  simp

/-- The parts of a cycle that returns a counter value. -/
theorem parts_of_cmdAttest {cs : History}
    (h : (cmdAttest C cfg out spec alloc).Yields cs (alloc', .ok counter)) :
    ∃ found taken emitted id alg bitmap, cs = found ++ taken ++ emitted ∧
      (checks C cfg out spec).run.Yields found (.ok (id, alg, bitmap)) ∧
      ((alloc.next cfg.nvIndex).interpret nvCall).Yields taken (alloc', .ok counter) ∧
      (emit C cfg out spec id alg bitmap counter).run.Yields emitted (.ok counter) := by
  obtain ⟨found, rest, result, rfl, hchecks, hrest⟩ := yields_bind.mp h
  rcases result with e | ⟨id, alg, bitmap⟩
  · cases congrArg Prod.snd (yields_pure.mp hrest).2
  obtain ⟨taken, rest, ⟨alloc₁, result⟩, rfl, hnext, hrest⟩ := yields_bind.mp hrest
  rcases result with e | counter'
  · cases congrArg Prod.snd (yields_pure.mp hrest).2
  obtain ⟨emitted, rest, result, rfl, hemit, hret⟩ := yields_bind.mp hrest
  obtain ⟨rfl, hresult⟩ := yields_pure.mp hret
  obtain ⟨rfl, rfl⟩ := Prod.mk.inj hresult
  obtain ⟨rfl, -⟩ := moves_of_emit hemit
  exact ⟨found, taken, emitted, id, alg, bitmap, by simp, hchecks, hnext, hemit⟩

/-- A cycle that keeps to the discipline, and returns a counter value, has found what it asks for,
and has emitted the envelope of that value: the discipline does not let it move a file to a name
that has been used. -/
theorem emitted_of_returns {d : Device} (hs : Numbered C nv s)
    (hobeys : Obeys (withHistory Agent.Sem) (Allowed C nv) (cmdAttest C cfg out spec alloc)
      (fun _ _ => True) s)
    (hreturns : Returns (t.Sem C fromAffine indices) (cmdAttest C cfg out spec alloc) s.1
      (alloc', .ok counter) d) :
    ∃ id alg bitmap, Found C t cfg spec id alg bitmap ∧
      Emitted C fromAffine t indices id alg bitmap counter d := by
  obtain ⟨d₀, past⟩ := s
  obtain ⟨cs, hyields, hperf⟩ := hreturns
  have hsem : Performs Agent.Sem d₀ cs d := hperf.mono fun _ _ _ h => h.1
  obtain ⟨found, taken, emitted, id, alg, bitmap, rfl, hchecks, hnext, hemit⟩ :=
    parts_of_cmdAttest hyields
  obtain ⟨d₁, hbefore, hrest⟩ := Performs.append_iff.mp hperf
  have hnumbered : Numbered C nv (d₁, past ++ (found ++ taken)) := by
    obtain ⟨p, hafter, -⟩ := after_append.mp hyields
    exact hobeys.invariant (fun _ _ _ _ hI hop hsem => Numbered.call hI hop hsem) hs hafter
      ((hbefore.mono fun _ _ _ h => h.1).withHistory past)
  -- the names it moves its files to have not been used
  have hnone : ∀ e, ¬ Used (past ++ (found ++ taken)) (fin (stem counter) e) := by
    rintro e ⟨src, hused⟩
    obtain ⟨l, r, rfl⟩ := List.append_of_mem ((moves_of_emit hemit).2 e)
    rw [← List.append_assoc] at hyields hsem
    obtain ⟨m, hallowed⟩ := hobeys.exists_allowed hyields hsem
    refine (hallowed.2.1 _ _ rfl ⟨_, _, rfl⟩).1 ⟨src, ?_⟩
    exact (List.mem_append.mp hused).elim (List.mem_append_left _) fun h =>
      List.mem_append_right _ (List.mem_append_left _ h)
  have hfound : Found C t cfg spec id alg bitmap := by
    obtain ⟨d₂, hchecked, -⟩ := Performs.append_iff.mp hbefore
    have hanswered : ∀ c ∈ found, ∃ m, t.Answered C fromAffine indices c m := fun c hc =>
      (hchecked.of_mem hc).elim fun _ ⟨m, hcall⟩ => ⟨m, hcall.2⟩
    exact found_of_checked (checked_of_yields hchecks) hanswered
  have hend := (obeys_emit_content hnumbered hnone).after hemit (hrest.withHistory _)
  exact ⟨id, alg, bitmap, hfound, (hend counter rfl).2⟩

end Envelope

/-! ## Gate 1 -/

/-- The recorded key is the one at the handle. -/
theorem recorded_eq {a b : Bytes} (hsame : sameAk C cfg a b = .ok ())
    (hcoll : C.CollisionFreeOn {a.drop 2, b.drop 2}) : a = b := by
  obtain ⟨n, ha, hb⟩ := sameAk_ok.mp hsame
  obtain ⟨hnamed, hname⟩ := nameOf_ok.mp ha
  obtain ⟨hnamed', hname'⟩ := nameOf_ok.mp hb
  have hdigest := List.append_cancel_left (hname.symm.trans hname')
  exact hnamed.eq_of_drop hnamed'
    (hcoll (Set.mem_insert _ _) (Set.mem_insert_of_mem _ rfl)
      (List.Vector.toList_injective hdigest))

/-- States of the same PCRs are the same when all of their values are. -/
theorem pcrState_inj {v v' : ℕ → PcrHash} :
    pcrState indices v = pcrState indices v' ↔ ∀ i ∈ indices, v i = v' i := by
  rw [pcrState_eq, pcrState_eq, ← List.map_inj_left]
  constructor
  · exact fun h => flatMap_toList_inj (by rw [List.length_map, List.length_map]) h
  · exact fun h => by rw [h]

/-- Gate 1, on an envelope of this device: the quote is of the PCRs in the message exactly if none
of them changed. -/
theorem authenticate_emitted {qd : List.Vector UInt8 32} {key : AkKey C}
    {entryFor : List.Vector UInt8 deviceIdLen → Option (TrustEntry C)}
    (hqd : qualifyingData C (message C id tpmAlgSha256 (Bitmap.ofIndices 3 indices) counter
      (pcrState indices t.read)) = .ok qd)
    (hattests : t.Attests C fromAffine indices qd)
    (hkey : AkKey.fromTpm2bPublic fromAffine t.area = .ok key) (hle : ∀ i ∈ indices, i < 24)
    (hcoll : C.CollisionFreeOn {pcrState indices t.read, pcrState indices t.quoted})
    (hentry : entryFor (padDeviceId (Chars.utf8 id.toList)) = some (.ak key)) :
    (∃ auth, authenticateEnvelope C (message C id tpmAlgSha256 (Bitmap.ofIndices 3 indices) counter
        (pcrState indices t.read)) (some (t.attest qd).bytes) (t.sign qd) [] entryFor = .ok auth) ↔
      ∀ i ∈ indices, t.read i = t.quoted i := by
  obtain ⟨key', hkey', hsigned⟩ := hattests.signed
  obtain rfl : key = key' := Except.ok.inj (hkey.symm.trans hkey')
  rw [← pcrState_inj]
  constructor
  · rintro ⟨auth, hauth⟩
    obtain ⟨m, -, ⟨hm, -⟩, -, -, -, q, hq, ⟨-, hcovers⟩, -⟩ :=
      (Presented.authenticate_ok_iff (e := ⟨_, some _, _, [], entryFor⟩)).mp hauth
    -- the digest of the quote is that of the message
    obtain rfl : t.attest qd = q := Except.ok.inj
      ((Quote.parse_ok.mpr ⟨hattests.wire, rfl⟩).symm.trans hq)
    let m' : AttestationMessage := ⟨padDeviceId (Chars.utf8 id.toList), counter,
      encodePcrSelection tpmAlgSha256 (Bitmap.ofIndices 3 indices),
      C.sha256 (pcrState indices t.read), C.sha256 []⟩
    have hm' : m = m' := AttestationMessage.bytes_injective (hm.symm.trans rfl)
    have hdigest := hattests.digest.symm.trans hcovers.2
    rw [hm'] at hdigest
    exact (hcoll (Set.mem_insert_of_mem _ rfl) (Set.mem_insert _ _)
      (List.Vector.toList_injective hdigest)).symm
  · intro hstate
    have hquote : HonestQuote C (message C id tpmAlgSha256 (Bitmap.ofIndices 3 indices) counter
        (pcrState indices t.read)) indices (pcrState indices t.read) (t.attest qd) := by
      refine ⟨hattests.wire, ⟨qd, hqd, hattests.extraData⟩, ⟨_, hattests.banks, fun i hi => ?_⟩, ?_⟩
      · exact Bitmap.hasBit_ofIndices hle i
      · rw [hattests.digest, hstate]
    exact ⟨_, authenticate_honest hle hentry hquote hsigned⟩

/-- What is authenticated is in the message. -/
theorem authenticated_of_message {attest : Bytes} {sig : Bytes} {pcrs : Bytes}
    {auth : Authenticated} {entryFor : List.Vector UInt8 deviceIdLen → Option (TrustEntry C)}
    (hauth : authenticateEnvelope C (message C id alg bitmap counter pcrs)
      (some attest) sig [] entryFor =
      .ok auth) :
    auth.deviceId = padDeviceId (Chars.utf8 id.toList) ∧ auth.counter = counter ∧
      auth.pcrSelection = encodePcrSelection alg bitmap ∧ auth.pcrHash = C.sha256 pcrs ∧
      auth.binding = .tpmQuote := by
  obtain ⟨m, -, ⟨hm, -⟩, -, -, -, -, -, -, rfl⟩ :=
    (Presented.authenticate_ok_iff (e := ⟨_, some _, _, [], entryFor⟩)).mp hauth
  let m' : AttestationMessage := ⟨padDeviceId (Chars.utf8 id.toList), counter,
    encodePcrSelection alg bitmap, C.sha256 pcrs, C.sha256 []⟩
  obtain rfl : m = m' := AttestationMessage.bytes_injective (hm.symm.trans rfl)
  exact ⟨rfl, rfl, rfl, rfl, rfl⟩

variable (C cfg out spec) in
/-- The agent process that is running is about to make a cycle, with this allocator. -/
def AtCycle (alloc : CounterAlloc) (w : Machine) : Prop :=
  ∃ p k, w.running = some ⟨p, cmdAttest C cfg out spec alloc >>= k⟩

/-- An `attest` that has been started. -/
theorem atCycle_attest {s : Device} :
    AtCycle C cfg out spec .new ⟨s, some ⟨.attest spec, (Process.attest spec).program C cfg out⟩⟩ :=
  ⟨.attest spec, pure, by rw [bind_pure]; rfl⟩

/-- A `run` that goes on. -/
theorem atCycle_run {s : Device} {bootLog : String} {keep turns n : ℕ} :
    AtCycle C cfg out spec alloc
      ⟨s, some ⟨.run spec bootLog keep turns, runCycles C cfg out spec keep (n + 1) alloc⟩⟩ :=
  ⟨.run spec bootLog keep turns, _, by rw [runCycles, cycle, bind_assoc]⟩

/-- **What the agent attests, the verifier authenticates.**  After any life of the device, let a
cycle of the agent, its first or a later one, return a counter value, on a TPM that attests what it
is asked to.  Then the four files of the envelope are on the disk, whatever a power cut leaves; and
gate 1 accepts it, for a verifier that has the recorded key for this device, exactly if no PCR of
the selection, which is one of the sha256 bank, changed between their reading and the quote.  What
it accepts is a quote of this device, with this counter value and these PCRs. -/
theorem attested_accepted_iff {w w' : Machine} {es : Lifetime} {d : Device} {key : AkKey C}
    (hblank : Blank w.state) (hidle : w.running = none) (hrun : Run (Life C cfg out) w es w')
    (hcycle : AtCycle C cfg out spec alloc w')
    (hreturns : Returns (t.Sem C fromAffine indices) (cmdAttest C cfg out spec alloc) w'.state
      (alloc', .ok counter) d)
    (hspec : parsePcrSpec spec = .ok (tpmAlgSha256, Bitmap.ofIndices 3 indices))
    (hle : ∀ i ∈ indices, i < 24) (hkey : AkKey.fromTpm2bPublic fromAffine t.recorded = .ok key)
    (hkeys : C.CollisionFreeOn {t.recorded.drop 2, t.area.drop 2})
    (hcoll : C.CollisionFreeOn {pcrState indices t.read, pcrState indices t.quoted}) :
    ∃ id msg attest sig, Provision.idOfFile (Provision.deviceIdPath cfg) t.idFile = .ok id ∧
      (∀ m, d.audit.Image m → Holds d m (fin (stem counter) .msg) msg ∧
        Holds d m (fin (stem counter) .attest) attest ∧ Holds d m (fin (stem counter) .sig) sig ∧
        Holds d m (fin (stem counter) .tag) (Agent.tag id counter)) ∧
      ∀ entryFor : List.Vector UInt8 deviceIdLen → Option (TrustEntry C),
        entryFor (padDeviceId (Chars.utf8 id.toList)) = some (.ak key) →
        ((∃ auth, authenticateEnvelope C msg (some attest) sig [] entryFor = .ok auth) ↔
          ∀ i ∈ indices, t.read i = t.quoted i) ∧
        ∀ auth, authenticateEnvelope C msg (some attest) sig [] entryFor = .ok auth →
          auth.deviceId = padDeviceId (Chars.utf8 id.toList) ∧ auth.counter = counter ∧
          auth.pcrSelection = encodePcrSelection tpmAlgSha256 (Bitmap.ofIndices 3 indices) ∧
          auth.pcrHash = C.sha256 (pcrState indices t.read) ∧ auth.binding = .tpmQuote := by
  obtain ⟨nv, hnv⟩ := exists_isIndex cfg.nvIndex
  have hdisciplined := (disciplined_of_life hnv hblank hidle hrun).1
  obtain ⟨p, k, hrunning⟩ := hcycle
  have hobeys := (hdisciplined.obeys p _ hrunning).of_bind.mono (fun _ _ h => h)
    fun _ _ _ => trivial
  obtain ⟨id, alg, bitmap, hfound, qd, hqd, hattests, hdisk⟩ :=
    emitted_of_returns hdisciplined.state hobeys hreturns
  cases hspec.symm.trans hfound.selection
  rw [recorded_eq hfound.key hkeys] at hkey
  exact ⟨id, _, _, _, hfound.id, hdisk, fun entryFor hentry =>
    ⟨authenticate_emitted hqd hattests hkey hle hcoll hentry, fun auth => authenticated_of_message⟩⟩

/-! ### A cycle after one that was killed -/

namespace SlotSample

/-- The public area of the key. -/
def keyFields : EccPublic :=
  { sampleKey 0 with x := (key.drop 1).take 32, y := key.drop 33 }

def area : Bytes := tpm2b (keyFields.layout 0 0 0)

/-- The counter value of the first envelope: the counter stands at 41, and 42 is taken by a process
that is killed. -/
def first : UInt64 := (43 : UInt64) <<< 24

/-- Its message. -/
def firstMsg : Bytes :=
  message (.ofTable []) "device-A" tpmAlgSha256 (Bitmap.ofIndices 3 [1, 8]) first
    (pcrState [1, 8] v)

/-- What the TPM answers, with the PCRs at their values. -/
def attest (qd : List.Vector UInt8 32) : Quote := { quote with extraData := qd.toList }

def firstQd : List.Vector UInt8 32 := Sha256.hash firstMsg

/-- The signature over the quote of the message. -/
def firstSig : Bytes :=
  encode 36 0x30450221009c6b583f6322691a3ff2513ac57dd28132814e2cb53c05c540c1152ddb36f6 ++
    encode 35 0x65022047fffe6057a9383fe41192da1eaeece7608cff66e8d28d7b075c852bbce6dc57

def firstCrypto : Crypto := .ofTable [(key, (attest firstQd).bytes, firstSig)]

/-- `VerifyingKey::from_affine_coordinates`, for the point of the key: its encoding. -/
def affine (x y : Bytes) : Except String firstCrypto.VerifyingKey := .ok (0x04 :: (x ++ y) : Bytes)

def platform : Platform := ⟨Text.ascii "device-A\n", area, area, v, v, attest, fun _ => firstSig⟩

/-- The TPM, as the agent's calls see it. -/
def chip : Sample.Chip :=
  ⟨area, pcrState [1, 8] v, fun qd => qd = firstQd, (attest firstQd).bytes, firstSig⟩

/-- What a call may do. -/
def Does (s : Sample.State) (c : Exchange Op Reply) (s' : Sample.State) : Prop :=
  platform.Sem firstCrypto affine [1, 8] (Sample.device s) c (Sample.device s')

theorem exists_key : ∃ k, AkKey.fromTpm2bPublic affine area = .ok k ∧ k.vk = key := by
  have h : ((AkKey.fromTpm2bPublic affine area).toOption.map fun k => (k.vk : Bytes)) =
      some key := by
    decide +kernel
  obtain ⟨k, hk, hvk⟩ := Option.map_eq_some_iff.mp h
  rcases hresult : AkKey.fromTpm2bPublic affine area with e | k'
  · rw [hresult] at hk
    cases hk
  · rw [hresult] at hk
    cases hk
    exact ⟨k, rfl, hvk⟩

theorem wire_attest (qd : List.Vector UInt8 32) : (attest qd).Wire := by
  refine { honest_quote.wire with extra := ?_ }
  show qd.toList.length < 65536
  rw [List.Vector.toList_length]
  decide

theorem digest_attest (qd : List.Vector UInt8 32) :
    (attest qd).pcrDigest = (firstCrypto.sha256 (pcrState [1, 8] v)).toList := rfl

theorem attests_first : platform.Attests firstCrypto affine [1, 8] firstQd := by
  obtain ⟨k, hk, hvk⟩ := exists_key
  refine ⟨wire_attest firstQd, rfl, rfl, digest_attest firstQd, k, hk, ?_⟩
  have hder : firstSig.head? = some 0x30 := by decide +kernel
  refine ⟨firstSig, ?_, ?_⟩
  · simp [Crypto.decodeSignature, firstCrypto, Crypto.ofTable, platform, hder]
  · rw [hvk]
    simp [firstCrypto, Crypto.ofTable, platform]

/-- The two files of a quote, as `answer` makes them. -/
theorem quote_files {d : Disk String} {attest sig : String} {b b' : Bytes}
    (hne : attest ≠ sig) {f : ℕ} :
    let d' := (((d.make attest).put d.next b).make sig).put (d.next + 1) b'
    (d'.view attest = some f → d'.data f = b) ∧ (d'.view sig = some f → d'.data f = b') := by
  intro d'
  have hview : d'.view = Function.update (Function.update d.view attest (some d.next)) sig
      (some (d.next + 1)) := by
    show ((((d.make attest).put d.next b).make sig).put (d.next + 1) b').view = _
    rw [Disk.view_put, Disk.view_make, Disk.view_put, Disk.view_make]
    rfl
  rw [hview, Function.update_self, Function.update_of_ne hne, Function.update_self]
  constructor
  · intro hf
    obtain rfl := Option.some_inj.mp hf
    show Function.update (Function.update
      (Function.update (Function.update d.data d.next []) d.next b)
      (d.next + 1) []) (d.next + 1) b' d.next = b
    have hold : d.next ≠ d.next + 1 := (Nat.lt_succ_self _).ne
    rw [Function.update_of_ne hold, Function.update_of_ne hold, Function.update_self]
  · intro hf
    obtain rfl := Option.some_inj.mp hf
    exact Function.update_self _ _ _

/-- Its answers are those of the platform. -/
theorem does_answer (s : Sample.State) (op : Op) :
    Does s ⟨op, (Sample.answer chip s op).1⟩ (Sample.answer chip s op).2 := by
  refine ⟨Sample.answer_possible chip s op, ?_⟩
  cases op with
  | keys op =>
    cases op with
    | file op =>
      cases op with
      | read n =>
        intro b hb
        obtain rfl := Except.ok.inj hb
        refine ⟨fun h => if_pos h, fun h => if_neg ?_⟩
        rw [h]
        decide
      | _ => trivial
    | _ => trivial
  | handlePublic h p =>
    intro b hb
    exact (Except.ok.inj hb).symm
  | pcrRead spec p =>
    intro b hb
    exact (Except.ok.inj hb).symm
  | quote h spec qd attest sig =>
    rw [Sample.answer]
    split_ifs with hfree
    · obtain ⟨hqd, hattest, hsig⟩ := hfree
      obtain rfl : qd = firstQd := of_decide_eq_true hqd
      have hne : attest ≠ sig := by
        rintro rfl
        rw [Disk.view_make, Function.update_self] at hsig
        cases hsig
      exact fun _ => ⟨attests_first, fun f hf => (quote_files hne).1 hf,
        fun f hf => (quote_files hne).2 hf⟩
    · exact fun h => by cases h
  | _ => trivial

/-- What is left of a process, and what it leaves. -/
abbrev Course := List (Exchange Op Reply) × Sample.State × Prog Op Reply
    (CounterAlloc × Except String UInt64)

/-- A process that is killed when it has taken a counter value and read the PCRs. -/
def killed : Course :=
  runFor (Sample.answer chip) 13 (cmdAttest firstCrypto Sample.config "audit" "sha256:1,8" .new)
    (fun _ => 41, none)

theorem killed_possible :
    (cmdAttest firstCrypto Sample.config "audit" "sha256:1,8" .new).After killed.1 killed.2.2 ∧
      Performs Agent.Sem Sample.start.state killed.1 (Sample.device killed.2.1) := by
  obtain ⟨hafter, hperf⟩ := runFor_possible (Sample.answer_possible chip) 13
    (cmdAttest firstCrypto Sample.config "audit" "sha256:1,8" .new) (fun _ => 41, none)
  change After _ killed.1 killed.2.2 at hafter
  change Performs _ _ killed.1 killed.2.1 at hperf
  exact ⟨hafter, hperf.map (g := Sample.device) fun _ _ _ h => h⟩

/-- The next one. -/
def cycle (s : Sample.State) : Course :=
  runFor (Sample.answer chip) 50 (cmdAttest firstCrypto Sample.config "audit" "sha256:1,8" .new) s

theorem cycle_result :
    ((cycle killed.2.1).2.2.result.bind fun r => r.2.toOption) = some first := by decide +kernel

/-- A cycle that comes to its end returns. -/
theorem returns_cycle {s : Sample.State} {counter : UInt64}
    (hresult : ((cycle s).2.2.result.bind fun r => r.2.toOption) = some counter) :
    ∃ alloc' d, Returns (platform.Sem firstCrypto affine [1, 8])
      (cmdAttest firstCrypto Sample.config "audit" "sha256:1,8" .new) (Sample.device s)
      (alloc', .ok counter) d := by
  obtain ⟨⟨alloc', result⟩, hret, hresult⟩ := Option.bind_eq_some_iff.mp hresult
  rcases result with e | counter'
  · cases hresult
  obtain rfl := Option.some_inj.mp hresult
  obtain ⟨cs, hyields, hperf⟩ := returns_of_runFor does_answer hret
  exact ⟨alloc', _, cs, hyields, hperf.map (g := Sample.device) fun _ _ _ h => h⟩

/-- An `attest` that is killed, after any of its calls, and started again. -/
theorem run_restarted {d d' : Device} {cs : History}
    {q : Prog Op Reply (CounterAlloc × Except String UInt64)}
    (hafter : (cmdAttest C cfg out spec .new).After cs q) (hperf : Performs Agent.Sem d cs d') :
    ∃ es : Lifetime, Run (Life C cfg out) ⟨d, none⟩ es
        ⟨d', some ⟨.attest spec, (Process.attest spec).program C cfg out⟩⟩ ∧
      ∃ e ∈ es, e.label = .kill := by
  obtain ⟨es, hrun, -⟩ : ∃ es : Lifetime, Run (Life C cfg out)
      ⟨d, some ⟨.attest spec, (Process.attest spec).program C cfg out⟩⟩ es
      ⟨d', some ⟨.attest spec, q⟩⟩ ∧ _ := run_of_performs hafter hperf
  refine ⟨_, .cons (.start _ (.attest spec)) (Run.append_iff.mpr ⟨_, hrun,
    .cons (.kill _) (.cons (.start _ (.attest spec)) (.nil _))⟩), ?_⟩
  exact ⟨_, List.mem_cons_of_mem _ (List.mem_append_right _ List.mem_cons_self), rfl⟩

end SlotSample

/-- The first envelope of a device, whose PCRs do not change, is accepted: a process that was killed
has taken the counter value before. -/
theorem attested_accepted_iff_first : ∃ (es : Lifetime) (w : Machine) (d : Device)
    (key : AkKey SlotSample.firstCrypto) (msg attest sig : Bytes) (auth : Authenticated),
      Run (Life SlotSample.firstCrypto Sample.config "audit") Sample.start es w ∧
      (∃ e ∈ es, e.label = .kill) ∧
      (∀ m, d.audit.Image m → Holds d m (fin (stem SlotSample.first) .msg) msg) ∧
      authenticateEnvelope SlotSample.firstCrypto msg (some attest) sig []
      (fun _ => some (.ak key)) =
        .ok auth ∧ auth.counter = SlotSample.first := by
  obtain ⟨hafter, hperf⟩ := SlotSample.killed_possible
  obtain ⟨es, hrun, hkill⟩ := SlotSample.run_restarted hafter hperf
  obtain ⟨alloc', d, hreturns⟩ := SlotSample.returns_cycle SlotSample.cycle_result
  obtain ⟨key, hkey, -⟩ := SlotSample.exists_key
  have hspelling : pcrSpelling [1, 8] = "sha256:1,8" := by decide +kernel
  have hspec : parsePcrSpec "sha256:1,8" = .ok (tpmAlgSha256, Bitmap.ofIndices 3 [1, 8]) := by
    rw [← hspelling]
    exact parsePcrSpec_spelling (by decide) (by decide) (by decide)
  have hkeys : SlotSample.firstCrypto.CollisionFreeOn
      {SlotSample.platform.recorded.drop 2, SlotSample.platform.area.drop 2} :=
    Set.injOn_pair.mpr fun _ => rfl
  have hcoll : SlotSample.firstCrypto.CollisionFreeOn
      {pcrState [1, 8] SlotSample.platform.read, pcrState [1, 8] SlotSample.platform.quoted} :=
    Set.injOn_pair.mpr fun _ => rfl
  obtain ⟨id, msg, attest, sig, -, hdisk, hgate⟩ :=
    attested_accepted_iff Sample.blank_start rfl hrun
    atCycle_attest hreturns hspec (by decide) hkey hkeys hcoll
  obtain ⟨haccepted, hcarries⟩ := hgate (fun _ => some (.ak key)) rfl
  obtain ⟨auth, hauth⟩ := haccepted.mpr fun _ _ => rfl
  exact ⟨es, _, d, key, msg, attest, sig, auth, hrun, hkill, fun m hm => (hdisk m hm).1, hauth,
    (hcarries auth hauth).2.1⟩

end TactiqAttest.Appraise
