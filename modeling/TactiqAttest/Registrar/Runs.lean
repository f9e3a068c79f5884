import TactiqAttest.Registrar.Commands

/-!
# What the commands do

One lemma for each kind of call, and from these what each command has done when it returns:

* `cmdBegin_obeys`: what `begin` found, what it drew, and the state it left;
* `cmdComplete_obeys`: on the right answer the record is written, and nothing fails but a call;
* `cmdComplete_still`: on any other answer nothing is done but reading, and the command fails;
* `cmdVerify_obeys`: what a record that `verify` accepts satisfies;
* `cmdVerify_accepts`: a record that satisfies that is accepted, unless a call fails.
-/

namespace TactiqAttest.Registrar

open Files Prog

variable {faulty : Prop} {P : World → Op → Prop} {w w' : World}

/-! ## Calls -/

/-- A file is read. -/
theorem obeys_read {p : String} {Q : World → Except String Bytes → Prop}
    (hP : P w (.file (.read p))) (hok : ∀ b, w.disk.Holds p b → Q w (.ok b))
    (herr : faulty → ∀ e, Q w (.error e)) : Obeys (Sem faulty) P (read p).run Q w := by
  refine ⟨hP, fun r w' ⟨⟨hstep, hdrawn⟩, hfails⟩ => ?_⟩
  obtain ⟨d, drawn⟩ := w
  obtain ⟨d', drawn'⟩ := w'
  obtain rfl : drawn' = drawn := hdrawn
  dsimp only at hstep
  cases hstep with
  | read hf => exact hok _ ⟨_, hf, rfl⟩
  | failed _ => exact herr (hfails ⟨_, rfl⟩) _

theorem possible_read {p : String} {b : Bytes} (h : w.disk.Holds p b) :
    Possible faulty w (.file (.read p)) := by
  intro _
  obtain ⟨f, hf, -⟩ := h
  exact ⟨.ok (w.disk.data f), w, ⟨.read hf, rfl⟩, fun ⟨e, he⟩ => by cases he⟩

theorem obeys_now {Q : World → Except String Duration → Prop} (hP : P w .now)
    (h : ∀ time, Q w (.ok time)) : Obeys (Sem faulty) P now.run Q w := by
  refine ⟨hP, fun r w' ⟨heffect, _⟩ => ?_⟩
  obtain rfl : w' = w := heffect
  exact h r

theorem possible_now : Possible faulty w .now :=
  fun _ => ⟨.fromSecs 0, w, rfl, fun h => h⟩

theorem obeys_print {lines : List String} {Q : World → Except String Unit → Prop}
    (hP : P w (.print lines)) (h : Q w (.ok ())) : Obeys (Sem faulty) P (print lines).run Q w := by
  refine ⟨hP, fun r w' ⟨heffect, _⟩ => ?_⟩
  obtain rfl : w' = w := heffect
  exact h

theorem possible_print {lines : List String} : Possible faulty w (.print lines) :=
  fun _ => ⟨(), w, rfl, fun h => h⟩

theorem obeys_random {n : ℕ} {Q : World → Except String (List.Vector UInt8 n) → Prop}
    (hP : P w (.random n))
    (h : ∀ v : List.Vector UInt8 n, Q ⟨w.disk, w.drawn ++ [v.toList]⟩ (.ok v)) :
    Obeys (Sem faulty) P (random n).run Q w := by
  refine ⟨hP, fun r w' ⟨⟨hdisk, hdrawn⟩, _⟩ => ?_⟩
  obtain ⟨d, l⟩ := w'
  obtain rfl : d = w.disk := hdisk
  obtain rfl : l = w.drawn ++ [r.toList] := hdrawn
  exact h r

theorem obeys_createDir {path : String} {mode : ℕ} {Q : World → Except String Unit → Prop}
    (hP : P w (.createDir path mode)) (hok : Q w (.ok ())) (herr : faulty → ∀ e, Q w (.error e)) :
    Obeys (Sem faulty) P (createDir path mode).run Q w := by
  refine ⟨hP, fun r w' ⟨heffect, hfails⟩ => ?_⟩
  obtain rfl : w' = w := heffect
  rcases r with e | ⟨⟩
  · exact herr (hfails ⟨e, rfl⟩) _
  · exact hok

/-- The name leads to a file with this content, and not to one that is yet to be made. -/
def Stored (d : Disk String) (n : String) (b : Bytes) : Prop :=
  ∃ f, d.view n = some f ∧ d.data f = b ∧ f < d.next

theorem Stored.holds {d : Disk String} {n : String} {b : Bytes} (h : Stored d n b) :
    d.Holds n b := by
  obtain ⟨f, hf, hdata, -⟩ := h
  exact ⟨f, hf, hdata⟩

/-- A new file has been written, and the others are as they were. -/
structure Written (w : World) (path : String) (bytes : Bytes) (w' : World) : Prop where
  drawn : w'.drawn = w.drawn
  stored : Stored w'.disk path bytes
  view : ∀ n, n ≠ path → w'.disk.view n = w.disk.view n
  kept : ∀ n b, n ≠ path → Stored w.disk n b → Stored w'.disk n b

theorem written_make_put {path : String} {bytes : Bytes} {d : Disk String} {drawn : List Bytes} :
    Written ⟨d, drawn⟩ path bytes
      ⟨((d.make path).put d.next ((d.make path).data d.next ++ bytes)).flush
      d.next, drawn⟩ := by
  have hempty : (d.make path).data d.next = [] := Function.update_self _ _ _
  have hview : ∀ n, n ≠ path →
      (((d.make path).put d.next ((d.make path).data d.next ++ bytes)).flush d.next).view n =
        d.view n := by
    intro n hn
    rw [Disk.view_flush, Disk.view_put, Disk.view_make, Function.update_of_ne hn]
  refine ⟨rfl, ⟨d.next, ?_, ?_, Nat.lt_succ_self _⟩, hview, ?_⟩
  · rw [Disk.view_flush, Disk.view_put, Disk.view_make, Function.update_self]
  · refine (Function.update_self _ _ _).trans ?_
    rw [hempty, List.nil_append]
  · rintro n b hn ⟨f, hf, hdata, hlt⟩
    refine ⟨f, (hview n hn).trans hf, ?_, Nat.lt_succ_of_lt hlt⟩
    · refine (Function.update_of_ne hlt.ne _ _).trans ?_
      exact (Function.update_of_ne hlt.ne _ _).trans hdata

/-- A new file is written. -/
theorem obeys_writeNew {path : String} {bytes : Bytes} {mode : ℕ}
    {Q : World → Except String Unit → Prop} (hP : ∀ w op, Possible faulty w op → P w op)
    (habsent : ¬ faulty → w.disk.view path = none)
    (hok : ∀ w', Written w path bytes w' → Q w' (.ok ()))
    (herr : faulty → ∀ w' e, Q w' (.error e)) :
    Obeys (Sem faulty) P (writeNew path bytes mode).run Q w := by
  obtain ⟨d, drawn⟩ := w
  refine obeys_tryBind ⟨hP _ _ fun hno => ?_, fun r w₁ ⟨⟨hstep, hdrawn⟩, hfails⟩ => ?_⟩
  · exact ⟨.ok d.next, ⟨d.make path, drawn⟩, ⟨.madeNew (habsent hno), rfl⟩,
      fun ⟨e, he⟩ => by cases he⟩
  obtain ⟨d₁, drawn₁⟩ := w₁
  obtain rfl : drawn₁ = drawn := hdrawn
  dsimp only at hstep
  cases hstep with
  | failed _ => exact herr (hfails ⟨_, rfl⟩) _ _
  | madeNew _ =>
    refine obeys_tryBind ⟨hP _ _ fun _ => ?_, fun r w₂ ⟨⟨hstep, hdrawn⟩, hfails⟩ => ?_⟩
    · exact ⟨.ok (), ⟨_, drawn₁⟩, ⟨.written, rfl⟩, fun ⟨e, he⟩ => by cases he⟩
    obtain ⟨d₂, drawn₂⟩ := w₂
    obtain rfl : drawn₂ = drawn₁ := hdrawn
    dsimp only at hstep
    cases hstep with
    | failed _ => exact herr (hfails ⟨_, rfl⟩) _ _
    | cutShort _ _ => exact herr (hfails ⟨_, rfl⟩) _ _
    | written =>
      refine ⟨hP _ _ fun _ => ?_, fun r w₃ ⟨⟨hstep, hdrawn⟩, hfails⟩ => ?_⟩
      · exact ⟨.ok (), ⟨_, drawn₂⟩, ⟨.synced, rfl⟩, fun ⟨e, he⟩ => by cases he⟩
      obtain ⟨d₃, drawn₃⟩ := w₃
      obtain rfl : drawn₃ = drawn₂ := hdrawn
      dsimp only at hstep
      cases hstep with
      | failed _ => exact herr (hfails ⟨_, rfl⟩) _ _
      | synced => exact hok _ written_make_put

/-- A file is removed. -/
theorem obeys_remove {what path : String} {Q : World → Except String Unit → Prop}
    (hP : ∀ w op, Possible faulty w op → P w op) (hthere : w.disk.view path ≠ none)
    (hok : Q ⟨w.disk.push (.unlink path), w.drawn⟩ (.ok ())) (herr : faulty → ∀ e, Q w (.error e)) :
    Obeys (Sem faulty) P (io what (.remove path)).run Q w := by
  obtain ⟨d, drawn⟩ := w
  refine ⟨hP _ _ fun _ => ?_, fun r w' ⟨⟨hstep, hdrawn⟩, hfails⟩ => ?_⟩
  · exact ⟨.ok (), ⟨_, drawn⟩, ⟨.removed hthere, rfl⟩, fun ⟨e, he⟩ => by cases he⟩
  obtain ⟨d', drawn'⟩ := w'
  obtain rfl : drawn' = drawn := hdrawn
  dsimp only at hstep
  cases hstep with
  | failed _ => exact herr (hfails ⟨_, rfl⟩) _
  | removed _ => exact hok

/-- The file an option names is read. -/
theorem obeys_readOption {o : Opts} {k : String} {Q : World → Except String Bytes → Prop}
    (hP : ∀ p, o.get k = .ok p → P w (.file (.read p)))
    (hok : ∀ p b, o.get k = .ok p → w.disk.Holds p b → Q w (.ok b))
    (herr : ∀ e, faulty ∨ o.get k = .error e → Q w (.error e)) :
    Obeys (Sem faulty) P (readOption o k).run Q w := by
  refine obeys_tryBind (obeys_ofResult ?_)
  rcases hk : o.get k with e | p
  · exact herr e (.inr hk)
  · exact obeys_read (hP p hk) (fun b hb => hok p b hk hb) fun hf e => herr e (.inl hf)

/-- An option names a file, and that is there. -/
theorem obeys_readOption_of {o : Opts} {k path : String} {b : Bytes}
    {Q : World → Except String Bytes → Prop} (hk : o.get k = .ok path) (hb : w.disk.Holds path b)
    (hP : P w (.file (.read path))) (hok : Q w (.ok b)) (herr : faulty → ∀ e, Q w (.error e)) :
    Obeys (Sem faulty) P (readOption o k).run Q w := by
  refine obeys_readOption (fun path' hpath' => ?_) (fun path' b' hpath' hb' => ?_) ?_
  · obtain rfl : path = path' := Except.ok.inj (hk.symm.trans hpath')
    exact hP
  · obtain rfl : path = path' := Except.ok.inj (hk.symm.trans hpath')
    obtain rfl := hb.unique hb'
    exact hok
  · rintro e (hf | he)
    · exact herr hf e
    · rw [hk] at he
      cases he

/-! ## Paths -/

theorem join_inj {dir name name' : String} : join dir name = join dir name' ↔ name = name' := by
  unfold join
  split_ifs <;> simp [String.ext_iff]

/-! ## `begin` -/

variable {K : Crates} {o : Opts}

/-- What `begin` was given is what the files hold that the options name. -/
def GivenBy (o : Opts) (d : Disk String) (g : Given) : Prop :=
  ∀ k b, (k, b) ∈ [("ek-cert", g.ekDer), ("intermediate", g.intDer), ("root", g.rootDer),
    ("ak-public", g.akPublic), ("ek-crl", g.ekCrl), ("intermediate-crl", g.intCrl)] →
      ∃ p, o.get k = .ok p ∧ d.Holds p b

/-- What `begin` has done when it succeeds. -/
structure Began (K : Crates) (o : Opts) (w w' : World)
    (state deviceId registrar : String) (g : Given)
    (time : Duration) (e : Examined K) (secret seed oaep : List.Vector UInt8 32) (blob : Bytes) :
    Prop where
  stateDir : o.get "state" = .ok state
  validId : validateId deviceId = .ok ()
  given : GivenBy o w.disk g
  examined : examine K g time = .ok e
  credential : MakeCred.makeCredentialWithSeed K.credential e.chain.ekPublic
    e.name.toList secret.toList
    seed.toList oaep = .ok blob
  drawn : w'.drawn = w.drawn ++ [secret.toList, seed.toList, oaep.toList]
  pending : w'.disk.Holds (join state "pending.json")
    (K.pendingJson.toVecPretty (pendingOf deviceId registrar g time e secret.toList blob))

/-- A result that takes no call: only a success matters. -/
theorem obeys_ofResult_bind {α β : Type} {x : Except String α} {f : α → Procedure β}
    {Q : World → Except String β → Prop} (hok : ∀ a, x = .ok a → Obeys (Sem faulty) P (f a).run Q w)
    (herr : ∀ e, x = .error e → Q w (.error e)) :
    Obeys (Sem faulty) P (ofResult x >>= f).run Q w := by
  refine obeys_tryBind (obeys_ofResult ?_)
  rcases hx : x with e | a
  · exact herr e hx
  · exact hok a hx

/-- A result that is a success. -/
theorem obeys_ofResult_ok {α β : Type} {x : Except String α} {a : α} {f : α → Procedure β}
    {Q : World → Except String β → Prop} (hx : x = .ok a) (h : Obeys (Sem faulty) P (f a).run Q w) :
    Obeys (Sem faulty) P (ofResult x >>= f).run Q w := by
  subst hx
  exact obeys_tryBind (obeys_ofResult h)

theorem given_obeys : Obeys (Sem True) (fun _ _ => True) (given o).run
    (fun w' out => w' = w ∧ ∀ g, out = .ok g → GivenBy o w.disk g) w := by
  have hfail : ∀ e : String, w = w ∧ ∀ g, (Except.error e : Except String Given) = .ok g →
      GivenBy o w.disk g := fun e => ⟨rfl, fun g hg => by cases hg⟩
  refine obeys_tryBind (obeys_readOption (fun _ _ => trivial) (fun _ _ h₁ hb₁ => ?_)
    fun e _ => hfail e)
  refine obeys_tryBind (obeys_readOption (fun _ _ => trivial) (fun _ _ h₂ hb₂ => ?_)
    fun e _ => hfail e)
  refine obeys_tryBind (obeys_readOption (fun _ _ => trivial) (fun _ _ h₃ hb₃ => ?_)
    fun e _ => hfail e)
  refine obeys_tryBind (obeys_readOption (fun _ _ => trivial) (fun _ _ h₄ hb₄ => ?_)
    fun e _ => hfail e)
  refine obeys_tryBind (obeys_readOption (fun _ _ => trivial) (fun _ _ h₅ hb₅ => ?_)
    fun e _ => hfail e)
  refine obeys_tryBind (obeys_readOption (fun _ _ => trivial) (fun _ _ h₆ hb₆ => ?_)
    fun e _ => hfail e)
  refine ⟨rfl, fun g hg => ?_⟩
  obtain rfl := Except.ok.inj hg
  intro k b hmem
  simp only [List.mem_cons, Prod.mk.injEq, List.not_mem_nil, or_false] at hmem
  rcases hmem with ⟨rfl, rfl⟩ | ⟨rfl, rfl⟩ | ⟨rfl, rfl⟩ | ⟨rfl, rfl⟩ | ⟨rfl, rfl⟩ | ⟨rfl, rfl⟩
  · exact ⟨_, h₁, hb₁⟩
  · exact ⟨_, h₂, hb₂⟩
  · exact ⟨_, h₃, hb₃⟩
  · exact ⟨_, h₄, hb₄⟩
  · exact ⟨_, h₅, hb₅⟩
  · exact ⟨_, h₆, hb₆⟩

/-- **What `begin` has done when it succeeds.** -/
theorem cmdBegin_obeys : Obeys (Sem True) (fun _ _ => True) (cmdBegin K o).run
    (fun w' out => out = .ok () → ∃ state deviceId registrar g time e secret seed oaep blob,
      Began K o w w' state deviceId registrar g time e secret seed oaep blob) w := by
  refine obeys_ofResult_bind (fun state hstate => ?_) fun e _ h => by cases h
  refine obeys_ofResult_bind (fun deviceId _ => ?_) fun e _ h => by cases h
  refine obeys_ofResult_bind (fun _ hid => ?_) fun e _ h => by cases h
  refine obeys_ofResult_bind (fun registrar _ => ?_) fun e _ h => by cases h
  refine obeys_tryBind (given_obeys.mono (fun _ _ h => h) ?_)
  rintro w₁ (err | g) ⟨rfl, hgiven⟩
  · intro h
    cases h
  refine obeys_tryBind (obeys_now trivial fun time => ?_)
  refine obeys_ofResult_bind (fun e hexamined => ?_) fun e _ h => by cases h
  refine obeys_tryBind (obeys_random trivial fun secret => ?_)
  refine obeys_tryBind (obeys_tryBind (obeys_random trivial fun seed => ?_))
  refine obeys_tryBind (obeys_random trivial fun oaep => obeys_ofResult ?_)
  rcases hblob : MakeCred.makeCredentialWithSeed K.credential e.chain.ekPublic e.name.toList
    secret.toList seed.toList oaep with err | blob
  · intro h
    cases h
  refine obeys_tryBind (obeys_createDir trivial ?_ fun _ e h => by cases h)
  refine obeys_tryBind (obeys_writeNew (fun _ _ _ => trivial) (fun h => absurd trivial h)
    (fun w₂ hpending => ?_) fun _ _ _ h => by cases h)
  refine obeys_tryBind (obeys_writeNew (fun _ _ _ => trivial) (fun h => absurd trivial h)
    (fun w₃ hcred => ?_) fun _ _ _ h => by cases h)
  refine obeys_print trivial fun _ => ?_
  have hne : join state "pending.json" ≠ join state "cred.blob" := fun h =>
    absurd (join_inj.mp h) (by decide)
  refine ⟨state, deviceId, registrar, g, time, e, secret, seed, oaep, blob, hstate,
    hid, hgiven g rfl, hexamined, hblob, ?_, (hcred.kept _ _ hne hpending.stored).holds⟩
  rw [hcred.drawn, hpending.drawn]
  simp only [List.append_assoc, List.cons_append, List.nil_append]
  rfl

/-! ## `complete` -/

variable {p : Pending} {state : String} {secret : Bytes}

theorem compareAnswer_ok {raw : Bytes} (hsecret : Hex.decode p.secret = .ok secret) {s : Bytes} :
    compareAnswer p raw = .ok s ↔
      s = secret ∧ ∃ answer, answerOf raw = .ok answer ∧ answer.toList = secret := by
  unfold compareAnswer
  simp only [Except.bind_eq_ok, Except.ensure_eq_ok, Except.pure_eq_ok, hsecret, Except.ok.injEq,
    ctEq_iff]
  constructor
  · rintro ⟨answer, hanswer, _, rfl, _, heq, rfl⟩
    exact ⟨rfl, answer, hanswer, heq⟩
  · rintro ⟨rfl, answer, hanswer, heq⟩
    exact ⟨answer, hanswer, s, rfl, (), heq, rfl⟩

/-- What waits is read as it was written. -/
theorem readPending_obeys {path : String} {Q : World → Except String Pending → Prop}
    (hP : P w (.file (.read path))) (hholds : w.disk.Holds path (K.pendingJson.toVecPretty p))
    (hformat : p.format = pendingFormat) (hok : Q w (.ok p)) (herr : faulty → ∀ e, Q w (.error e)) :
    Obeys (Sem faulty) P (readPending K path).run Q w := by
  refine obeys_tryBind (obeys_read hP (fun b hb => ?_) herr)
  obtain rfl := hb.unique hholds
  have hback := K.pendingJson.fromSlice_toVecPretty p [] (by simp)
  rw [List.append_nil] at hback
  refine obeys_ofResult_ok (Except.mapError_eq_ok.mpr hback) ?_
  exact obeys_ofResult_ok (a := ()) (Except.ensure_eq_ok.mpr hformat) hok

/-- **On the right answer the record is written**, and nothing fails but a call. -/
theorem cmdComplete_obeys {path : String} {raw : Bytes} (hstate : o.get "state" = .ok state)
    (hholds : w.disk.Holds (join state "pending.json") (K.pendingJson.toVecPretty p))
    (hformat : p.format = pendingFormat) (hsecret : Hex.decode p.secret = .ok secret)
    (hpath : o.get "answer" = .ok path) (hraw : w.disk.Holds path raw)
    (hanswer : ∃ answer, answerOf raw = .ok answer ∧ answer.toList = secret)
    (habsent : ¬ faulty → w.disk.view (join state "record.json") = none) :
    Obeys (Sem faulty) (Possible faulty) (cmdComplete K o).run
      (fun w' out => (out = .ok () → ∃ registered, w'.disk.Holds (join state "record.json")
          (K.recordJson.toVecPretty (recordOf K p registered secret) ++ [0x0A])) ∧
        (¬ faulty → out = .ok ())) w := by
  have hfail : ∀ (w' : World) (e : String), faulty →
    ((Except.error e : Except String Unit) = .ok () →
      ∃ registered, w'.disk.Holds (join state "record.json")
        (K.recordJson.toVecPretty (recordOf K p registered secret) ++ [0x0A])) ∧
      (¬ faulty → (Except.error e : Except String Unit) = .ok ()) :=
    fun w' e hf => ⟨fun h => (by cases h), fun hno => absurd hf hno⟩
  refine obeys_ofResult_ok hstate (obeys_tryBind (readPending_obeys (possible_read hholds) hholds
    hformat ?_ fun hf e => hfail _ e hf))
  refine obeys_tryBind (obeys_readOption_of hpath hraw (possible_read hraw) ?_
    fun hf e => hfail _ e hf)
  refine obeys_ofResult_ok ((compareAnswer_ok hsecret).mpr ⟨rfl, hanswer⟩) ?_
  refine obeys_tryBind (obeys_now possible_now fun time => ?_)
  refine obeys_tryBind (obeys_writeNew (fun _ _ h => h) habsent (fun w₁ hwritten => ?_)
    fun hf w₁ e => hfail w₁ e hf)
  have hne : join state "record.json" ≠ join state "pending.json" := fun h =>
    absurd (join_inj.mp h) (by decide)
  have hthere : w₁.disk.view (join state "pending.json") ≠ none := by
    rw [hwritten.view _ (Ne.symm hne)]
    obtain ⟨f, hf, -⟩ := hholds
    simp [hf]
  refine obeys_tryBind (obeys_remove (fun _ _ h => h) hthere ?_ fun hf e => hfail w₁ e hf)
  refine obeys_print possible_print ⟨fun _ => ⟨time.secs, ?_⟩, fun _ => rfl⟩
  obtain ⟨f, hf, hdata, -⟩ := hwritten.stored
  refine ⟨f, ?_, hdata⟩
  rw [Disk.view_push]
  exact (Function.update_of_ne hne _ _).trans hf

/-- **On any other answer nothing is done but reading**, and the command fails. -/
theorem cmdComplete_still (hstate : o.get "state" = .ok state)
    (hholds : w.disk.Holds (join state "pending.json") (K.pendingJson.toVecPretty p))
    (hformat : p.format = pendingFormat) (hsecret : Hex.decode p.secret = .ok secret)
    (hwrong : ∀ path raw answer, o.get "answer" = .ok path → w.disk.Holds path raw →
      answerOf raw = .ok answer → answer.toList ≠ secret) :
    Obeys (Sem faulty) (fun _ op => ∃ path, op = .file (.read path)) (cmdComplete K o).run
      (fun _ out => out ≠ .ok ()) w := by
  refine obeys_ofResult_ok hstate (obeys_tryBind (readPending_obeys ⟨_, rfl⟩ hholds hformat ?_
    fun _ e h => by cases h))
  refine obeys_tryBind (obeys_readOption (fun _ _ => ⟨_, rfl⟩) (fun path raw hpath hraw => ?_)
    fun e _ h => by cases h)
  refine obeys_ofResult_bind (fun s hs => ?_) fun e _ h => by cases h
  obtain ⟨rfl, answer, hanswer, heq⟩ := (compareAnswer_ok hsecret).mp hs
  exact absurd heq (hwrong path raw answer hpath hraw hanswer)

/-! ## `verify` -/

variable {record : Record} {recordPath rootPath : String} {recordBytes rootDer akPublic : Bytes}
  {v2 : Bool}

/-- What a record satisfies that `verify` accepts. -/
structure Accepted (K : Crates) (o : Opts) (w : World) (recordBytes rootDer : Bytes)
    (record : Record) (v2 : Bool) (akPublic : Bytes) : Prop where
  recordFile : ∃ path, o.get "record" = .ok path ∧ w.disk.Holds path recordBytes
  rootFile : ∃ path, o.get "root" = .ok path ∧ w.disk.Holds path rootDer
  parsed : K.recordJson.fromSlice recordBytes = .ok record
  format : checkFormat record = .ok v2
  validId : validateId record.deviceId = .ok ()
  judged : judge K record v2 rootDer = .ok akPublic

/-- **What a record satisfies that `verify` accepts.** -/
theorem cmdVerify_obeys : Obeys (Sem True) (fun _ _ => True) (cmdVerify K o).run
    (fun _ out => out = .ok () → ∃ recordBytes rootDer record v2 akPublic,
      Accepted K o w recordBytes rootDer record v2 akPublic) w := by
  refine obeys_tryBind (obeys_readOption (fun _ _ => trivial)
    (fun path recordBytes hpath hbytes => ?_)
    fun e _ h => by cases h)
  refine obeys_ofResult_bind (fun record hrecord => ?_) fun e _ h => by cases h
  refine obeys_ofResult_bind (fun v2 hformat => ?_) fun e _ h => by cases h
  refine obeys_ofResult_bind (fun _ hid => ?_) fun e _ h => by cases h
  refine obeys_tryBind (obeys_readOption (fun _ _ => trivial) (fun path' rootDer hpath' hroot => ?_)
    fun e _ h => by cases h)
  refine obeys_ofResult_bind (fun akPublic hjudge => ?_) fun e _ h => by cases h
  have haccepted : Accepted K o w recordBytes rootDer record v2 akPublic :=
    ⟨⟨path, hpath, hbytes⟩, ⟨path', hpath', hroot⟩, Except.mapError_eq_ok.mp hrecord, hformat, hid,
      hjudge⟩
  exact obeys_of_forall (fun _ _ => trivial) fun _ _ _ => ⟨_, _, _, _, _, haccepted⟩

/-- **A record that satisfies that is accepted**, unless a call fails, if no signature is to be
checked. -/
theorem cmdVerify_accepts (h : Accepted K o w recordBytes rootDer record v2 akPublic)
    (hsig : o.opt "sig" = none) (hroot : o.opt "release-root" = none)
    (habsent : ¬ faulty → ∀ path, o.opt "emit-ak" = some path → w.disk.view path = none) :
    Obeys (Sem faulty) (Possible faulty) (cmdVerify K o).run (fun _ out => ¬ faulty → out = .ok ())
      w := by
  obtain ⟨recordPath, hrecordPath, hrecordFile⟩ := h.recordFile
  obtain ⟨rootPath, hrootPath, hrootFile⟩ := h.rootFile
  have hfail : ∀ {e : String}, faulty → ¬ faulty → (Except.error e : Except String Unit) = .ok () :=
    fun hf hno => absurd hf hno
  refine obeys_tryBind (obeys_readOption_of hrecordPath hrecordFile (possible_read hrecordFile) ?_
    fun hf e => hfail hf)
  refine obeys_ofResult_ok (Except.mapError_eq_ok.mpr h.parsed) ?_
  refine obeys_ofResult_ok h.format (obeys_ofResult_ok h.validId ?_)
  refine obeys_tryBind (obeys_readOption_of hrootPath hrootFile (possible_read hrootFile) ?_
    fun hf e => hfail hf)
  refine obeys_ofResult_ok h.judged ?_
  have hsignature : checkSignature K o recordBytes = pure none := by
    rw [checkSignature, hsig, hroot]
  rw [hsignature]
  refine obeys_tryBind (obeys_pure ?_)
  refine obeys_tryBind (obeys_print possible_print ?_)
  unfold emitAk
  rcases hemit : o.opt "emit-ak" with _ | path
  · exact fun _ => rfl
  · refine obeys_tryBind (obeys_writeNew (fun _ _ h => h) (fun hno => habsent hno path hemit)
      (fun w₁ _ => ?_) fun hf _ _ => hfail hf)
    exact obeys_print possible_print fun _ => rfl

end TactiqAttest.Registrar
