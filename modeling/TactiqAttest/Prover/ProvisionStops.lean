import TactiqAttest.Prover.Provision

/-!
# What an interrupted provisioning leaves

`cmd_provision` can be stopped at any point, by a kill or by a power cut.  A device that then has
both files looks provisioned; `LooksRight` says that it is, with the id and with the public area.

`Stage` says what is on the disk after each call: no `device_id` until it is created, and from then
on the complete `ak.pub` in the directory on the disk, and in `device_id` a part of the id until
that is written, then the id.  `stops_right_iff` is what follows: the device is right after every
way it can restart exactly when `device_id` has not been created, or the id is written and, where
power is cut, the contents of both files are on the disk.  `empty_id` is a device that looks
provisioned with an empty `device_id`.
-/

namespace TactiqAttest.Prover.Provision

open Envelope Files Prog

/-! ## Ids and files -/

theorem validateId_ok {id : String} :
    validateId id = .ok () ↔ Chars.utf8 id.toList ≠ [] ∧
      (Chars.utf8 id.toList).length ≤ deviceIdLen ∧
      ∀ b ∈ Chars.utf8 id.toList, Text.isGraphic b = true := by
  unfold validateId
  dsimp only
  constructor
  · intro h
    split_ifs at h with hempty hlong hall
    exact ⟨by simpa using hempty, Nat.le_of_not_lt hlong, by simpa using hall⟩
  · rintro ⟨hne, hlen, hall⟩
    rw [if_neg (by simpa using hne), if_neg (Nat.not_lt.mpr hlen), if_neg (by simpa using hall)]

/-- A file of printable ASCII, with a newline at the end or without, reads as that id, if it is
one. -/
theorem idOfFile_graphic {path : String} {bs newline : Bytes}
    (h : ∀ b ∈ bs, Text.isGraphic b = true) (hnewline : ∀ b ∈ newline, b = 0x0A) :
    idOfFile path (bs ++ newline) =
      (validateId (String.ofList (Chars.ofAscii bs))).map fun _ =>
        String.ofList (Chars.ofAscii bs) := by
  have hascii : ∀ b ∈ bs ++ newline, b.toNat < 0x80 := by
    intro b hb
    rcases List.mem_append.mp hb with hb | hb
    · exact Text.lt_of_isGraphic (h b hb)
    · rw [hnewline b hb]
      decide
  unfold idOfFile
  rw [Chars.utf8Valid_of_ascii hascii, Chars.lossy_of_ascii hascii, Chars.trim_ofAscii h hnewline]
  rcases hvalid : validateId (String.ofList (Chars.ofAscii bs)) with e | ⟨⟩
  · simp only [Except.ensure, if_true, hvalid]
    rfl
  · simp only [Except.ensure, if_true, hvalid]
    rfl

/-- The file of a valid id reads as the id. -/
theorem idOfFile_id {path id : String} {newline : Bytes} (hid : validateId id = .ok ())
    (hnewline : ∀ b ∈ newline, b = 0x0A) :
    idOfFile path (Chars.utf8 id.toList ++ newline) = .ok id := by
  have hgraphic := (validateId_ok.mp hid).2.2
  rw [idOfFile_graphic hgraphic hnewline,
    Chars.ofAscii_utf8 fun b hb => Text.lt_of_isGraphic (hgraphic b hb), String.ofList_toList, hid]
  rfl

/-- A part of it does not. -/
theorem idOfFile_part {path id : String} {part : Bytes} (hid : validateId id = .ok ())
    (hpart : part <+: Chars.utf8 id.toList) (hne : part ≠ Chars.utf8 id.toList) :
    idOfFile path part ≠ .ok id := by
  have hgraphic : ∀ b ∈ part, Text.isGraphic b = true := fun b hb =>
    (validateId_ok.mp hid).2.2 b (hpart.subset hb)
  intro hread
  have hmap : idOfFile path (part ++ []) = (validateId (String.ofList (Chars.ofAscii part))).map
      fun _ => String.ofList (Chars.ofAscii part) := idOfFile_graphic hgraphic (by simp)
  rw [List.append_nil, hread] at hmap
  rcases hvalid : validateId (String.ofList (Chars.ofAscii part)) with e | ⟨⟩
  · rw [hvalid] at hmap
    cases hmap
  · rw [hvalid] at hmap
    have heq : id = String.ofList (Chars.ofAscii part) := Except.ok.inj hmap
    have hascii : Chars.utf8 (Chars.ofAscii part) = part :=
      Chars.utf8_ofAscii fun b hb => Text.lt_of_isGraphic (hgraphic b hb)
    rw [heq, String.toList_ofList, hascii] at hne
    exact hne rfl

/-! ## What a restart finds -/

/-- The answers of a disk without faults. -/
def onDisk (d : Disk String) : (op : Op) → Reply op
  | .file op => (d.serve op).1
  | .createDirAll _ | .setMode _ _ | .metadata _ | .readPublic _ => .ok ()
  | .command _ => .ok []

/-- The device is not taken for provisioned, or it is, with this id and this public area. -/
def LooksRight (cfg : Config) (id : String) (pub : Bytes) (d : Disk String) : Prop :=
  inspect.eval (onDisk d) = .complete →
    (readId cfg).run.eval (onDisk d) = .ok id ∧ ∃ f, d.view "ak.pub" = some f ∧ d.data f = pub

variable {cfg : Config} {id : String} {pub : Bytes} {d d' d₀ : Disk String} {f : ℕ}
  {cs : List (Exchange Op Reply)}

theorem eval_pathExists {n : String} :
    (pathExists n).eval (onDisk d) = (d.view n).isSome := by
  rw [pathExists, eval_bind, eval_perform, eval_pure, onDisk, Disk.serve]
  rcases d.view n with _ | f <;> rfl

theorem eval_inspect : inspect.eval (onDisk d) = .complete ↔
    d.view "device_id" ≠ none ∧ d.view "ak.pub" ≠ none := by
  simp only [inspect, eval_bind, eval_pathExists, eval_pure]
  rcases d.view "device_id" with _ | f <;> rcases d.view "ak.pub" with _ | g <;> simp

theorem eval_readId (h : d.view "device_id" = some f) :
    (readId cfg).run.eval (onDisk d) = idOfFile (deviceIdPath cfg) (d.data f) := by
  have hserve : (d.serve (.read "device_id")).1 = .ok (d.data f) := by
    rw [Disk.serve, h]
  rw [readId, ExceptT.run_bind, eval_bind]
  simp only [io, ExceptT.run_mk, eval_bind, eval_perform, eval_pure, onDisk, hserve]
  rfl

/-! ## Up to where the TPM is ready -/

theorem only_ofResult {α : Type} {x : Except String α} :
    (ofResult x : Procedure α).run.Only Idle := only_pure x

theorem only_io {what : String} {op : Files.Op String} (h : Idle (.file op)) :
    (io what op).run.Only Idle := Only.bind (only_perform h) fun _ => only_pure _

theorem only_run {args : List String} : (run args).run.Only Idle := only_perform trivial

theorem only_runAnyhow {args : List String} : (runAnyhow args).run.Only Idle :=
  only_run.bind fun _ => only_pure _

theorem only_runOwner {args : List String} : (runOwner cfg args).run.Only Idle := by
  refine Only.tryBind ?_ fun auth => only_run.bind fun _ => only_pure _
  unfold ownerAuth
  split
  · exact only_pure _
  · exact Only.bind (only_perform trivial) fun _ => only_pure _

theorem only_createAk : (createAk cfg).run.Only Idle := by
  have hek : (createEk cfg).run.Only Idle :=
    only_run.tryBind fun _ => only_runAnyhow.tryBind fun _ => only_pure _
  refine hek.tryBind fun ek => only_run.tryBind fun _ => only_runAnyhow.tryBind fun _ => ?_
  exact only_ofResult.tryBind fun h => only_runOwner.tryBind fun _ => only_runAnyhow

theorem only_nvDefine : (nvDefine cfg).run.Only Idle :=
  only_ofResult.tryBind fun _ => only_runOwner.tryBind fun _ => only_run.tryBind
    fun _ => only_pure _

theorem only_requireAbsent : (requireAbsent cfg).run.Only Idle := by
  have hexists : ∀ n, (pathExists n).Only Idle := fun n =>
    Only.bind (only_perform trivial) fun _ => only_pure _
  refine Only.bind ((hexists _).bind fun _ => (hexists _).bind fun _ => only_pure _) fun p => ?_
  cases p with
  | complete =>
    have hread : Idle (.file (.read "device_id")) := trivial
    exact Only.bind ((only_io hread).tryBind fun _ => only_ofResult) fun _ => only_pure _
  | absent => exact only_pure _
  | incomplete haveId haveKey => exact only_pure _

/-- Before `ak.pub` is written nothing is done to the directory. -/
theorem only_prepare : (prepare cfg id).run.Only Idle := by
  refine only_ofResult.tryBind fun _ => ?_
  refine Only.tryBind (Only.bind (only_perform trivial) fun _ => only_pure _) fun _ => ?_
  refine Only.tryBind (Only.bind (only_perform trivial) fun _ => only_pure _) fun _ => ?_
  refine only_requireAbsent.tryBind fun _ => only_ofResult.tryBind fun h => ?_
  have hfree : (requireFree h).run.Only Idle :=
    (only_run.tryBind fun _ => only_pure _).tryBind fun _ => only_ofResult
  refine hfree.tryBind fun _ => only_createAk.tryBind fun _ => only_ofResult.tryBind fun nv => ?_
  refine Only.tryBind (only_run.tryBind fun _ => only_pure _) fun defined => ?_
  split
  · exact only_nvDefine
  · exact only_pure _

/-! ## The discipline -/

/-- The keys directory. -/
abbrev TidyKeys (d : Disk String) : Prop :=
  d.Tidy (fun n => n = "ak.pub" ∨ n = "device_id") (fun _ => False) (fun _ _ => True)

variable (id pub) in
/-- The calls of provisioning: `ak.pub` is written while there is no `device_id`; that is created
when the complete `ak.pub` is in the directory on the disk; and the id, then the end of the line,
are written to it. -/
def Ordered (d : Disk String) : Op → Prop
  | .readPublic _ => ∀ m, d.Image m → m "device_id" = none
  | .file (.createNew n) => n = "device_id" ∧ validateId id = .ok () ∧
      ∃ f, (∀ m, d.Image m → m "ak.pub" = some f) ∧ d.data f = pub
  | .file (.write f b) => d.view "device_id" = some f ∧
      (d.data f = [] ∧ b = Chars.utf8 id.toList ∨ d.data f = Chars.utf8 id.toList ∧ b = [0x0A])
  | .file (.sync _) | .file .syncDir | .file (.stat _) | .file (.read _) => True
  | .file _ => False
  | _ => True

theorem ordered_of_idle {op : Op} (h : Idle op) : Ordered id pub d op := by
  cases op with
  | file op => cases op <;> trivial
  | readPublic handle => exact h.elim
  | _ => trivial

theorem tidy_of_ordered {op : Op} {r : Reply op} (hd : TidyKeys d) (hop : Ordered id pub d op)
    (hsem : Sem pub d ⟨op, r⟩ d') : TidyKeys d' := by
  have hsep : ∀ n : String, n = "ak.pub" ∨ n = "device_id" → ¬ False := fun _ _ h => h
  cases op with
  | file op =>
    refine hd.step hsep ?_ hsem
    cases op with
    | createNew n => exact .inr hop.1
    | write f b => exact ⟨_, .inr rfl, hop.1⟩
    | create n => exact hop.elim
    | rename src dst => exact hop.elim
    | _ => trivial
  | readPublic handle => exact hd.works hsep (fun _ hn => .inl hn) hsem.1
  | createDirAll path => exact (show d' = d from hsem) ▸ hd
  | setMode name mode => exact (show d' = d from hsem) ▸ hd
  | metadata path => exact (show d' = d from hsem) ▸ hd
  | command args => exact (show d' = d from hsem) ▸ hd

/-- A file operation of provisioning. -/
theorem obeys_io {what : String} {op : Files.Op String}
    {Q : Disk String → Except String (Result op) → Prop} (hd : TidyKeys d)
    (hop : Ordered id pub d (.file op))
    (hok : ∀ a d', TidyKeys d' → d.Step op (.ok a) d' → Q d' (.ok a))
    (herr : ∀ text d', Q d' (.error text)) :
    Obeys (Sem pub) (Ordered id pub) (io what op).run Q d := by
  refine ⟨hop, fun r d' hstep => ?_⟩
  rcases r with err | a
  · exact herr _ d'
  · exact hok a d' (tidy_of_ordered hd hop hstep) hstep

/-- Once the complete `ak.pub` is in the directory on the disk, the id may be written. -/
theorem writeId_ordered (hd : TidyKeys d) (hkey : ∃ f, (∀ m, d.Image m → m "ak.pub" = some f) ∧
      d.data f = pub) :
    Obeys (Sem pub) (Ordered id pub) (writeId cfg id).run (fun _ _ => True) d := by
  refine obeys_tryBind (obeys_ofResult ?_)
  rcases hid : validateId id with e | ⟨⟩
  · trivial
  refine obeys_tryBind (obeys_io hd ⟨rfl, hid, hkey⟩ (fun f d₁ hd₁ hcreate => ?_)
    fun _ _ => trivial)
  obtain ⟨rfl, rfl⟩ : f = d.next ∧ d₁ = d.make "device_id" := by
    cases hcreate
    exact ⟨rfl, rfl⟩
  have hview : (d.make "device_id").view "device_id" = some d.next := by
    rw [Disk.view_make, Function.update_self]
  have hempty : (d.make "device_id").data d.next = [] := Function.update_self _ _ _
  refine obeys_tryBind (obeys_io hd₁ ⟨hview, .inl ⟨hempty, rfl⟩⟩ (fun _ d₂ hd₂ hwrite => ?_)
    fun _ _ => trivial)
  obtain rfl : d₂ = (d.make "device_id").put d.next
      ((d.make "device_id").data d.next ++ Chars.utf8 id.toList) := by
    cases hwrite
    rfl
  have hwritten : ((d.make "device_id").put d.next
      ((d.make "device_id").data d.next ++ Chars.utf8 id.toList)).data d.next =
      Chars.utf8 id.toList := by
    refine (Function.update_self _ _ _).trans ?_
    rw [hempty, List.nil_append]
  refine obeys_tryBind (obeys_io hd₂ ⟨hview, .inr ⟨hwritten, rfl⟩⟩ (fun _ d₃ hd₃ _ => ?_)
    fun _ _ => trivial)
  refine obeys_tryBind (obeys_io hd₃ trivial (fun _ d₄ hd₄ _ => ?_) fun _ _ => trivial)
  exact obeys_io hd₄ trivial (fun _ _ _ _ => trivial) fun _ _ => trivial

/-- **Provisioning makes its calls in order.** -/
theorem cmdProvision_ordered (hd : TidyKeys d) (hnone : ∀ m, d.Image m → m "device_id" = none) :
    Obeys (Sem pub) (Ordered id pub) (cmdProvision cfg id).run (fun _ _ => True) d := by
  refine obeys_tryBind (obeys_of_still only_prepare (fun _ _ _ => eq_of_idle)
    (fun _ => ordered_of_idle) fun result => ?_)
  rcases result with e | ⟨⟩
  · trivial
  refine obeys_tryBind (obeys_tryBind (obeys_ofResult ?_))
  rcases akHandle cfg with e | h
  · trivial
  have hop : Ordered id pub d (.readPublic h) := hnone
  refine ⟨hop, fun r d₁ hsem => ?_⟩
  have hd₁ : TidyKeys d₁ := tidy_of_ordered hd hop hsem
  rcases r with e | ⟨⟩
  · trivial
  obtain ⟨f, hview, hdata⟩ := hsem.2 rfl
  have hstill : (finalizePubkeyPerms cfg).run.Only Idle := by
    have hstat : Idle (.file (.stat "ak.pub")) := trivial
    exact (only_io hstat).tryBind fun _ => Only.bind (only_perform trivial) fun _ => only_pure _
  refine obeys_tryBind (obeys_of_still hstill (fun _ _ _ => eq_of_idle)
    (fun _ => ordered_of_idle) fun result => ?_)
  rcases result with e | ⟨⟩
  · trivial
  refine obeys_tryBind (obeys_io hd₁ trivial (fun _ d₂ hd₂ hsync => ?_) fun _ _ => trivial)
  obtain rfl : d₂ = d₁.commit := by
    cases hsync
    rfl
  exact writeId_ordered hd₂ ⟨f, fun m hm => by rw [Disk.image_commit.mp hm, hview], hdata⟩

/-! ## What is on the disk after each call -/

/-- `device_id` has been created. -/
def IdCreated (cs : List (Exchange Op Reply)) : Prop :=
  ∃ f, ⟨.file (.createNew "device_id"), .ok f⟩ ∈ cs

/-- The id has been written. -/
def IdWritten (id : String) (cs : List (Exchange Op Reply)) : Prop :=
  ∃ f, ⟨.file (.write f (Chars.utf8 id.toList)), .ok ()⟩ ∈ cs

/-- What `device_id` holds: a part of the id until that is written, then the id. -/
structure Holds (id : String) (cs : List (Exchange Op Reply)) (b : Bytes) : Prop where
  part : ¬ IdWritten id cs → b <+: Chars.utf8 id.toList ∧ b ≠ Chars.utf8 id.toList
  whole : IdWritten id cs → ∃ newline : Bytes, (∀ c ∈ newline, c = 0x0A) ∧
    b = Chars.utf8 id.toList ++ newline

/-- What is on the disk when `device_id` has been created: `key` is the file of the public area, and
`file` that of the id. -/
structure Created (id : String) (pub : Bytes) (d : Disk String) (cs : List (Exchange Op Reply))
    (key file : ℕ) : Prop where
  valid : validateId id = .ok ()
  ne : key ≠ file
  keyThere : ∀ m, d.Image m → m "ak.pub" = some key
  pub : d.data key = pub
  view : d.view "device_id" = some file
  idThere : ∀ m, d.Image m → m "device_id" = none ∨ m "device_id" = some file
  holds : Holds id cs (d.data file)

/-- Where provisioning is after some calls. -/
structure Stage (id : String) (pub : Bytes) (d : Disk String) (cs : List (Exchange Op Reply)) :
    Prop where
  tidy : TidyKeys d
  before : ¬ IdCreated cs → ¬ IdWritten id cs ∧ ∀ m, d.Image m → m "device_id" = none
  after : IdCreated cs → ∃ key file, Created id pub d cs key file

variable {c : Exchange Op Reply}

theorem idCreated_append : IdCreated (cs ++ [c]) ↔
    IdCreated cs ∨ ∃ f, c = ⟨.file (.createNew "device_id"), .ok f⟩ := by
  simp only [IdCreated, List.mem_append, List.mem_singleton, exists_or, eq_comm]

theorem idWritten_append : IdWritten id (cs ++ [c]) ↔
    IdWritten id cs ∨ ∃ f, c = ⟨.file (.write f (Chars.utf8 id.toList)), .ok ()⟩ := by
  simp only [IdWritten, List.mem_append, List.mem_singleton, exists_or, eq_comm]

/-- A call that neither creates the file nor writes the id, and leaves the two names and the
contents as they are. -/
theorem Stage.same (h : Stage id pub d cs) (htidy : TidyKeys d')
    (hcreate : ∀ f, c ≠ ⟨.file (.createNew "device_id"), .ok f⟩)
    (hwrite : ∀ f, c ≠ ⟨.file (.write f (Chars.utf8 id.toList)), .ok ()⟩)
    (himage : ∀ m, d'.Image m → d.Image m) (hview : d'.view = d.view) (hdata : d'.data = d.data) :
    Stage id pub d' (cs ++ [c]) := by
  have hcreated : IdCreated (cs ++ [c]) ↔ IdCreated cs :=
    idCreated_append.trans (or_iff_left fun ⟨f, hf⟩ => hcreate f hf)
  have hwritten : IdWritten id (cs ++ [c]) ↔ IdWritten id cs :=
    idWritten_append.trans (or_iff_left fun ⟨f, hf⟩ => hwrite f hf)
  refine ⟨htidy, fun hbefore => ?_, fun hafter => ?_⟩
  · rw [hcreated] at hbefore
    rw [hwritten]
    exact ⟨(h.before hbefore).1, fun m hm => (h.before hbefore).2 m (himage m hm)⟩
  · obtain ⟨key, file, hc⟩ := h.after (hcreated.mp hafter)
    refine ⟨key, file, hc.valid, hc.ne, fun m hm => hc.keyThere m (himage m hm), ?_, ?_,
      fun m hm => hc.idThere m (himage m hm), ?_, ?_⟩
    · rw [hdata]
      exact hc.pub
    · rw [hview]
      exact hc.view
    · rw [hwritten, hdata]
      exact hc.holds.part
    · rw [hwritten, hdata]
      exact hc.holds.whole

/-- `device_id` is created. -/
theorem Stage.create (h : Stage id pub d cs) (htidy : TidyKeys (d.make "device_id"))
    (hop : Ordered id pub d (.file (.createNew "device_id"))) (hview : d.view "device_id" = none) :
    Stage id pub (d.make "device_id") (cs ++ [⟨.file (.createNew "device_id"), .ok d.next⟩]) := by
  obtain ⟨-, hvalid, key, hkey, hpub⟩ := hop
  have hbefore : ¬ IdCreated cs := by
    intro hcreated
    obtain ⟨key, file, hc⟩ := h.after hcreated
    rw [hc.view] at hview
    cases hview
  obtain ⟨hwritten, hnone⟩ := h.before hbefore
  have hne : key ≠ d.next :=
    (h.tidy.bound _ (Disk.image_view d) _ _ (hkey _ (Disk.image_view d))).ne
  have hempty : (d.make "device_id").data d.next = [] := Function.update_self _ _ _
  refine ⟨htidy, fun hnot => absurd (idCreated_append.mpr (.inr ⟨_, rfl⟩)) hnot, fun _ =>
    ⟨key, d.next, hvalid, hne, fun m hm => ?_, ?_, ?_, fun m hm => ?_, ?_⟩⟩
  · rcases Disk.image_make.mp hm with hm | ⟨m', hm', rfl⟩
    · exact hkey m hm
    · rw [Function.update_of_ne (by decide)]
      exact hkey m' hm'
  · exact (Function.update_of_ne hne _ _).trans hpub
  · rw [Disk.view_make, Function.update_self]
  · rcases Disk.image_make.mp hm with hm | ⟨m', _, rfl⟩
    · exact .inl (hnone m hm)
    · rw [Function.update_self]
      exact .inr rfl
  · have hwritten' : ¬ IdWritten id (cs ++ [⟨.file (.createNew "device_id"), .ok d.next⟩]) := by
      rw [idWritten_append]
      rintro (hw | ⟨f, hf⟩)
      · exact hwritten hw
      · cases hf
    refine ⟨fun _ => ?_, fun hw => absurd hw hwritten'⟩
    rw [hempty]
    exact ⟨List.nil_prefix, (validateId_ok.mp hvalid).1.symm⟩

/-- The content of `device_id` changes. -/
theorem Stage.put {b : Bytes} (h : Stage id pub d cs) (htidy : TidyKeys (d.put f b))
    (hview : d.view "device_id" = some f)
    (hholds : validateId id = .ok () → Holds id cs (d.data f) → Holds id (cs ++ [c]) b) :
    Stage id pub (d.put f b) (cs ++ [c]) := by
  have hcreated : IdCreated cs := by
    by_contra hnot
    rw [(h.before hnot).2 _ (Disk.image_view d)] at hview
    cases hview
  obtain ⟨key, file, hc⟩ := h.after hcreated
  obtain rfl : file = f := Option.some_inj.mp (hc.view.symm.trans hview)
  have hdata : (d.put file b).data file = b := Function.update_self _ _ _
  refine ⟨htidy, fun hnot => absurd (idCreated_append.mpr (.inl hcreated)) hnot, fun _ =>
    ⟨key, file, hc.valid, hc.ne, hc.keyThere, ?_, hc.view, hc.idThere, ?_⟩⟩
  · exact (Function.update_of_ne hc.ne _ _).trans hc.pub
  · rw [hdata]
    exact hholds hc.valid hc.holds

/-- The id, or the end of the line, is written to the file, or a part of it. -/
theorem Stage.write {b : Bytes} {r : Except IoError Unit} (h : Stage id pub d cs)
    (hop : Ordered id pub d (.file (.write f b))) (hstep : d.Step (.write f b) r d')
    (htidy : TidyKeys d') : Stage id pub d' (cs ++ [⟨.file (.write f b), r⟩]) := by
  obtain ⟨hview, hwrite⟩ := hop
  cases hstep with
  | failed _ =>
    exact h.same htidy (fun _ heq => by cases heq) (fun _ heq => by cases heq) (fun _ hm => hm) rfl
      rfl
  | written =>
    refine h.put htidy hview fun hvalid hold => ?_
    rcases hwrite with ⟨hempty, rfl⟩ | ⟨hid, rfl⟩
    · -- the id is written to the empty file
      have hnow : IdWritten id (cs ++ [⟨.file (.write f (Chars.utf8 id.toList)), .ok ()⟩]) :=
        idWritten_append.mpr (.inr ⟨f, rfl⟩)
      refine ⟨fun hnot => absurd hnow hnot, fun _ => ⟨[], by simp, ?_⟩⟩
      rw [hempty, List.nil_append, List.append_nil]
    · have hthen : IdWritten id cs := by
        by_contra hnot
        exact (hold.part hnot).2 hid
      refine ⟨fun hnot => absurd (idWritten_append.mpr (.inl hthen)) hnot, fun _ =>
        ⟨[0x0A], by simp, by rw [hid]⟩⟩
  | @cutShort _ _ part _ hpart hne =>
    refine h.put htidy hview fun hvalid hold => ?_
    have hsame : ∀ e, IdWritten id (cs ++ [⟨.file (.write f b), .error e⟩]) ↔ IdWritten id cs :=
      fun e => idWritten_append.trans (or_iff_left fun ⟨f', hf'⟩ => by cases hf')
    rcases hwrite with ⟨hempty, rfl⟩ | ⟨hid, rfl⟩
    · have hthen : ¬ IdWritten id cs := by
        intro hw
        obtain ⟨newline, -, heq⟩ := hold.whole hw
        rw [hempty] at heq
        exact (validateId_ok.mp hvalid).1 (List.append_eq_nil_iff.mp heq.symm).1
      refine ⟨fun _ => ?_, fun hw => absurd ((hsame _).mp hw) hthen⟩
      rw [hempty, List.nil_append]
      exact ⟨hpart, hne⟩
    · have hthen : IdWritten id cs := by
        by_contra hnot
        exact (hold.part hnot).2 hid
      refine ⟨fun hnot => absurd ((hsame _).mpr hthen) hnot, fun _ =>
        ⟨part, fun c hc => List.mem_singleton.mp (hpart.subset hc), by rw [hid]⟩⟩

/-- **A call of provisioning.** -/
theorem Stage.call {op : Op} {r : Reply op} (h : Stage id pub d cs) (hop : Ordered id pub d op)
    (hsem : Sem pub d ⟨op, r⟩ d') : Stage id pub d' (cs ++ [⟨op, r⟩]) := by
  have htidy := tidy_of_ordered h.tidy hop hsem
  have hidle : d' = d →
    (∀ f, (⟨op, r⟩ : Exchange Op Reply) ≠ ⟨.file (.createNew "device_id"), .ok f⟩) →
      (∀ f, (⟨op, r⟩ : Exchange Op Reply) ≠ ⟨.file (.write f (Chars.utf8 id.toList)), .ok ()⟩) →
      Stage id pub d' (cs ++ [⟨op, r⟩]) := by
    rintro rfl hcreate hwrite
    exact h.same htidy hcreate hwrite (fun _ hm => hm) rfl rfl
  cases op with
  | createDirAll path => exact hidle hsem (fun _ heq => by cases heq) (fun _ heq => by cases heq)
  | setMode name mode => exact hidle hsem (fun _ heq => by cases heq) (fun _ heq => by cases heq)
  | metadata path => exact hidle hsem (fun _ heq => by cases heq) (fun _ heq => by cases heq)
  | command args => exact hidle hsem (fun _ heq => by cases heq) (fun _ heq => by cases heq)
  | readPublic handle =>
    -- there is no `device_id` yet, and the tool makes none
    have hbefore : ¬ IdCreated cs := by
      intro hcreated
      obtain ⟨key, file, hc⟩ := h.after hcreated
      have hnone := hop _ (Disk.image_view d)
      rw [hc.view] at hnone
      cases hnone
    have hcreated : ¬ IdCreated (cs ++ [⟨.readPublic handle, r⟩]) := by
      rw [idCreated_append]
      rintro (hc | ⟨f, hf⟩)
      · exact hbefore hc
      · cases hf
    refine ⟨htidy, fun _ => ⟨?_, fun m hm => ?_⟩, fun hc => absurd hc hcreated⟩
    · rw [idWritten_append]
      rintro (hw | ⟨f, hf⟩)
      · exact (h.before hbefore).1 hw
      · cases hf
    · obtain ⟨m', hm', heq⟩ := hsem.1.within.image hm
      rw [heq _ (by decide)]
      exact (h.before hbefore).2 m' hm'
  | file op =>
    cases op with
    | write f b => exact h.write hop hsem htidy
    | createNew n =>
      obtain rfl := hop.1
      cases hsem with
      | madeNew hview => exact h.create htidy hop hview
      | failed _ => exact hidle rfl (fun _ heq => by cases heq) (fun _ heq => by cases heq)
    | syncDir =>
      cases hsem with
      | committed =>
        refine h.same htidy (fun _ heq => by cases heq) (fun _ heq => by cases heq) ?_ rfl rfl
        intro m hm
        rw [Disk.image_commit.mp hm]
        exact Disk.image_view d
      | failed _ => exact hidle rfl (fun _ heq => by cases heq) (fun _ heq => by cases heq)
    | sync f =>
      cases hsem with
      | synced =>
        exact h.same htidy (fun _ heq => by cases heq) (fun _ heq => by cases heq)
          (fun _ hm => hm) rfl rfl
      | failed _ => exact hidle rfl (fun _ heq => by cases heq) (fun _ heq => by cases heq)
    | stat n =>
      have hop : Idle (.file (.stat n)) := trivial
      exact hidle (eq_of_idle hop hsem) (fun _ heq => by cases heq) (fun _ heq => by cases heq)
    | read n =>
      have hop : Idle (.file (.read n)) := trivial
      exact hidle (eq_of_idle hop hsem) (fun _ heq => by cases heq) (fun _ heq => by cases heq)
    | create n => exact hop.elim
    | openRead n => exact hop.elim
    | rename src dst => exact hop.elim
    | remove n => exact hop.elim
    | list => exact hop.elim

/-! ## Stopping -/

/-- The device stops. -/
inductive Stop where
  | killed
  | powerCut
  deriving DecidableEq

/-- What it may find when it starts again. -/
def Restarts : Stop → Disk String → Disk String → Prop
  | .killed, d, d' => d' = d
  | .powerCut, d, d' => d.Cut d'

/-- The contents of the two files are on the disk. -/
def ContentsSynced (d : Disk String) : Prop :=
  ∀ n f, n = "device_id" ∨ n = "ak.pub" → d.view n = some f → d.synced f = true

/-- There is no identity, nor can a power cut bring one back. -/
structure Unprovisioned (d : Disk String) : Prop where
  bound : ∀ m, d.Image m → ∀ n f, m n = some f → f < d.next
  unaliased : ∀ m, d.Image m → ∀ n n' f, m n = some f → m n' = some f → n = n'
  none : ∀ m, d.Image m → ∀ n, n = "ak.pub" ∨ n = "device_id" → m n = none

variable {q : Prog Op Reply (Except String Unit)} {stop : Stop} {d₁ : Disk String}

/-- At every point of provisioning. -/
theorem stage_of_provision (hstart : Unprovisioned d₀)
    (hafter : After (cmdProvision cfg id).run cs q) (hperf : Performs (Sem pub) d₀ cs d) :
    Stage id pub d cs := by
  have htidy : TidyKeys d₀ := Disk.Tidy.of_none hstart.bound hstart.unaliased fun m hm n hn =>
    hstart.none m hm n (hn.resolve_right not_false)
  have hnone : ∀ m, d₀.Image m → m "device_id" = none := fun m hm => hstart.none m hm _ (.inr rfl)
  have hstage : Stage id pub d₀ [] := by
    refine ⟨htidy, fun _ => ⟨?_, hnone⟩, ?_⟩
    · rintro ⟨f, hf⟩
      cases hf
    · rintro ⟨f, hf⟩
      cases hf
  have hordered : Obeys (Sem pub) (Ordered id pub) (cmdProvision cfg id).run _ d₀ :=
    cmdProvision_ordered htidy hnone
  refine (hordered.withHistory []).invariant (I := fun s => Stage id pub s.1 s.2) ?_ hstage hafter
    (hperf.withHistory [])
  rintro ⟨d, cs⟩ op r ⟨d', cs'⟩ h hop ⟨hsem, heq⟩
  obtain rfl : cs' = cs ++ [⟨op, r⟩] := heq
  exact h.call hop hsem

theorem Restarts.image (h : Restarts stop d d₁) : d.Image d₁.view := by
  cases stop with
  | killed =>
    obtain rfl := h
    exact Disk.image_view _
  | powerCut => exact Disk.Cut.image h |>.1

theorem Restarts.data {n : String} (h : Restarts stop d d₁)
    (hsynced : stop = .powerCut → ContentsSynced d) (hn : n = "device_id" ∨ n = "ak.pub")
    (hf : d.view n = some f) : d₁.data f = d.data f := by
  cases stop with
  | killed =>
    obtain rfl := h
    rfl
  | powerCut =>
    obtain ⟨us, data, -, hdata⟩ := h
    exact hdata f (hsynced rfl n f hn hf)

/-- A restart that loses no change of the directory, and of the contents only what was not
synced. -/
theorem exists_restarts (stop : Stop) (d : Disk String) :
    ∃ d₁, Restarts stop d d₁ ∧ d₁.view = d.view ∧ d₁.data = d.data := by
  cases stop with
  | killed => exact ⟨d, rfl, rfl, rfl⟩
  | powerCut => exact ⟨_, Disk.cut_restart fun _ _ => rfl, rfl, rfl⟩

/-- Where `device_id` holds a part of the id, or `ak.pub` something else, the device is not
right. -/
theorem Created.not_looksRight {key file : ℕ} (h : Created id pub d cs key file)
    (hview : d₁.view = d.view)
    (hbad : (d₁.data file <+: Chars.utf8 id.toList ∧ d₁.data file ≠ Chars.utf8 id.toList) ∨
      d₁.data key ≠ pub) : ¬ LooksRight cfg id pub d₁ := by
  intro hright
  have hid : d₁.view "device_id" = some file := hview ▸ h.view
  have hkey : d₁.view "ak.pub" = some key := hview ▸ h.keyThere _ (Disk.image_view d)
  obtain ⟨hread, f, hf, hpub⟩ := hright (eval_inspect.mpr ⟨by simp [hid], by simp [hkey]⟩)
  rcases hbad with ⟨hpart, hne⟩ | hbad
  · rw [eval_readId hid] at hread
    exact idOfFile_part h.valid hpart hne hread
  · obtain rfl : key = f := Option.some_inj.mp (hkey.symm.trans hf)
    exact hbad hpub

/-- **When a stop of provisioning leaves the device right**, whatever it finds when it starts again:
exactly when `device_id` has not been created, or the id is written, and, where power is cut, the
contents of the two files have been synced. -/
theorem stops_right_iff (hstart : Unprovisioned d₀)
    (hafter : After (cmdProvision cfg id).run cs q) (hperf : Performs (Sem pub) d₀ cs d) :
    (∀ d₁, Restarts stop d d₁ → LooksRight cfg id pub d₁) ↔
      ¬ IdCreated cs ∨ (IdWritten id cs ∧ (stop = .powerCut → ContentsSynced d)) := by
  have hstage := stage_of_provision hstart hafter hperf
  constructor
  · intro hright
    by_contra hnot
    rw [not_or, not_not] at hnot
    obtain ⟨hcreated, hnot⟩ := hnot
    obtain ⟨key, file, hc⟩ := hstage.after hcreated
    by_cases hwritten : IdWritten id cs
    · -- power is cut, and one of the files loses its content
      rw [not_and, Classical.not_imp] at hnot
      obtain ⟨rfl, hlose⟩ := hnot hwritten
      unfold ContentsSynced at hlose
      push Not at hlose
      obtain ⟨n, f, hn, hf, hunsynced⟩ := hlose
      have hlost : ∀ b, LooksRight cfg id pub
          ⟨d.view, [], Function.update d.data f b, fun _ => true, d.next⟩ := fun b => by
        refine hright _ (Disk.cut_restart fun f' hf' => Function.update_of_ne ?_ _ _)
        rintro rfl
        exact hunsynced hf'
      rcases hn with rfl | rfl
      · obtain rfl : file = f := Option.some_inj.mp (hc.view.symm.trans hf)
        refine absurd (hlost []) (hc.not_looksRight rfl (.inl ?_))
        dsimp only
        rw [Function.update_self]
        exact ⟨List.nil_prefix, (validateId_ok.mp hc.valid).1.symm⟩
      · obtain rfl : key = f :=
          Option.some_inj.mp ((hc.keyThere _ (Disk.image_view d)).symm.trans hf)
        refine absurd (hlost (pub ++ [0])) (hc.not_looksRight rfl (.inr ?_))
        dsimp only
        rw [Function.update_self]
        simp
    · -- nothing is lost, but the id is not all there
      obtain ⟨d₁, hrestart, hview, hdata⟩ := exists_restarts stop d
      refine hc.not_looksRight hview (.inl ?_) (hright d₁ hrestart)
      rw [hdata]
      exact hc.holds.part hwritten
  · intro hcond d₁ hrestart hcomplete
    obtain ⟨hid, -⟩ := eval_inspect.mp hcomplete
    by_cases hcreated : IdCreated cs
    · obtain ⟨hwritten, hsynced⟩ := hcond.resolve_left (not_not.mpr hcreated)
      obtain ⟨key, file, hc⟩ := hstage.after hcreated
      have hfile := (hc.idThere _ hrestart.image).resolve_left hid
      refine ⟨?_, key, hc.keyThere _ hrestart.image, ?_⟩
      · obtain ⟨newline, hnewline, heq⟩ := hc.holds.whole hwritten
        rw [eval_readId hfile, hrestart.data hsynced (.inl rfl) hc.view, heq]
        exact idOfFile_id hc.valid hnewline
      · rw [hrestart.data hsynced (.inr rfl) (hc.keyThere _ (Disk.image_view d))]
        exact hc.pub
    · exact absurd ((hstage.before hcreated).2 _ hrestart.image) hid

/-! ## A device with an empty id -/

theorem unprovisioned_empty : Unprovisioned Disk.empty := by
  constructor
  · intro m hm n f hf
    rw [Disk.image_empty hm n] at hf
    cases hf
  · intro m hm n n' f hf
    rw [Disk.image_empty hm n] at hf
    cases hf
  · intro m hm n _
    exact Disk.image_empty hm n

/-- The default directories. -/
def sampleConfig : Config where
  keysDir := "/data/tactiq/keys"
  work := "/run/tactiq-agent"
  akHandle := none
  nvIndex := none
  ownerAuthFile := none

/-- Calls that do not fail, in a TPM that holds nothing; the public area is one byte. -/
def sampleMachine (d : Disk String) : (op : Op) → Reply op × Disk String
  | .file op => d.serve op
  | .readPublic _ =>
    if d.view "ak.pub" = none then (.ok (), (d.make "ak.pub").put d.next [1])
    else (.error "the file exists", d)
  | .createDirAll _ | .setMode _ _ | .metadata _ => (.ok (), d)
  | .command _ => (.ok [], d)

theorem sampleMachine_possible (d : Disk String) (op : Op) :
    Sem [1] d ⟨op, (sampleMachine d op).1⟩ (sampleMachine d op).2 := by
  cases op with
  | file op => exact d.step_serve op
  | readPublic handle =>
    rw [sampleMachine]
    split_ifs with h
    · have hview : (d.make "ak.pub").view "ak.pub" = some d.next := by
        rw [Disk.view_make, Function.update_self]
      exact ⟨.make rfl h (.put rfl hview (.none _)), fun _ =>
        ⟨d.next, hview, Function.update_self _ _ _⟩⟩
    · exact ⟨.none d, fun h => by cases h⟩
  | createDirAll path => rfl
  | setMode name mode => rfl
  | metadata path => rfl
  | command args => rfl

/-- Provisioning up to where `device_id` has been created. -/
def sampleCreated : List (Exchange Op Reply) × Disk String × Prog Op Reply (Except String Unit) :=
  runFor sampleMachine 19 (cmdProvision sampleConfig "device-A").run Disk.empty

theorem sampleCreated_possible :
    After (cmdProvision sampleConfig "device-A").run sampleCreated.1 sampleCreated.2.2 ∧
      Performs (Sem [1]) Disk.empty sampleCreated.1 sampleCreated.2.1 :=
  runFor_possible sampleMachine_possible 19 _ _

theorem stops_right_iff_sample :
    (∀ d₁, Restarts .killed sampleCreated.2.1 d₁ → LooksRight sampleConfig "device-A" [1] d₁) ↔
      ¬ IdCreated sampleCreated.1 ∨ (IdWritten "device-A" sampleCreated.1 ∧
        (Stop.killed = .powerCut → ContentsSynced sampleCreated.2.1)) :=
  stops_right_iff unprovisioned_empty sampleCreated_possible.1 sampleCreated_possible.2

/-- The process is killed when it has created `device_id` and has not yet written to it. -/
theorem empty_id : ¬ ∀ (cfg : Config) (id : String) (pub : Bytes) (d₀ d d₁ : Disk String)
    (cs : List (Exchange Op Reply)) (q : Prog Op Reply (Except String Unit)) (stop : Stop),
    Unprovisioned d₀ → After (cmdProvision cfg id).run cs q → Performs (Sem pub) d₀ cs d →
    Restarts stop d d₁ → LooksRight cfg id pub d₁ := by
  intro hclaim
  have hright := hclaim sampleConfig "device-A" [1] _ _ _ _ _ .killed unprovisioned_empty
    sampleCreated_possible.1 sampleCreated_possible.2 rfl
  have hcomplete : inspect.eval (onDisk sampleCreated.2.1) = .complete := by decide +kernel
  have hread : (readId sampleConfig).run.eval (onDisk sampleCreated.2.1) =
      .error "device id is empty" := by rfl
  have hok := (hright hcomplete).1
  rw [hread] at hok
  cases hok

end TactiqAttest.Prover.Provision
