import TactiqAttest.Prover.AgentDevice

/-!
# The agent keeps to the discipline

Each part of an agent process is followed through the calls it makes: what only asks
(`obeys_quiet`), what cleans the directory up or saves the boot log (`obeys_onAudit`), the taking of
a counter value (`obeys_next`), and the publication of an envelope under it (`obeys_publish`).  For
the last one, `publish_once` says that a publication moves its own files only, and each once.

`discipline` puts them together for the life of a device, on which agent processes start, are killed
or return, and power is cut.
-/

namespace TactiqAttest.Prover.Agent

open Envelope Files Prog Programs Labelled

variable {C : Crypto} {cfg : Provision.Config} {out spec nv : String} {s : Recalled}

/-! ## Parts of a process -/

/-- A call that does nothing to the device. -/
theorem noMoves_of_quiet {s t : Recalled} {op : Op} {r : Reply op} (hop : Quiet op)
    (hsem : withHistory Sem s ⟨op, r⟩ t) : NoMoves s t := by
  obtain ⟨d, past⟩ := t
  obtain ⟨hsem, rfl⟩ := hsem
  refine ⟨hsem.others, fun n _ hused => (used_append_of_ne ?_).mp hused⟩
  rintro fop rfl
  exact hop

/-- A program of such calls. -/
theorem obeys_quiet {α : Type} {p : Prog Op Reply α} (hp : p.Only Quiet) (hs : Numbered C nv s) :
    Obeys (withHistory Sem) (Allowed C nv) p (fun t _ => Numbered C nv t ∧ NoMoves s t) s :=
  hp.obeys (I := fun t => Numbered C nv t ∧ NoMoves s t)
    (fun _ _ _ hop => allowed_of_quiet hop)
    (fun _ _ _ _ hI hop hsem => ⟨hI.1.call (allowed_of_quiet hop) hsem,
      hI.2.trans (noMoves_of_quiet hop hsem)⟩) ⟨hs, noMoves_refl s⟩

theorem only_quiet_onKeys {α : Type} {x : Provision.Procedure α} : (onKeys x).run.Only Quiet :=
  Only.interpret (P := fun _ => True) (only_of_forall fun _ => trivial)
    fun _ _ => only_perform trivial

theorem only_quiet_ensureDir {p : String} : (ensureDir p).run.Only Quiet :=
  Only.bind (only_perform trivial) fun _ => only_pure _

theorem only_quiet_inspect : (ExceptT.lift (Provision.inspect.interpret keysCall) :
    Procedure Provision.Provisioning).run.Only Quiet :=
  Only.bind (Only.interpret (P := fun _ => True) (only_of_forall fun _ => trivial)
    fun _ _ => only_perform trivial) fun _ => only_pure _

theorem only_quiet_verifyAk : (verifyAk C cfg).run.Only Quiet := by
  refine (only_pure _).tryBind fun akh => only_quiet_onKeys.tryBind fun _ => ?_
  refine (only_pure _).tryBind fun _ => only_quiet_onKeys.tryBind fun _ => ?_
  exact (only_pure _).tryBind fun _ => Only.tryBind (only_perform trivial) fun _ => only_pure _

/-- A procedure on the directory that leaves the names of envelopes aside. -/
theorem obeys_onAudit {α : Type} {x : Audit α} {P : Disk String → AuditOp → Prop}
    {Q : Disk String → Except String α → Prop} (hP : ∀ d op, P d op → Aside C d op)
    (hx : Obeys (AuditSem fun _ _ => True) P x.run Q s.1.audit) (hs : Numbered C nv s) :
    Obeys (withHistory Sem) (Allowed C nv) (onAudit noQuote x).run
      (fun t a => Numbered C nv t ∧ NoMoves s t ∧ Q t.1.audit a) s := by
  refine (Obeys.keeping (fun _ _ _ _ hI hop hsem => Numbered.call hI hop hsem)
    (obeys_interpret (fun t : Recalled => t.1.audit) (NoMoves s) ?_ (noMoves_refl s) hx)
    hs).mono (fun _ _ h => h.2) fun _ _ h => h
  rintro t (op | ⟨attest, sig⟩) hF hop
  · have hallowed : Allowed C nv t (.audit op) :=
      ⟨(hP _ _ hop).1, fun src dst h hfin => absurd hfin ((hP _ _ hop).2.1 src dst h),
        (hP _ _ hop).2.2⟩
    refine obeys_perform hallowed ?_
    rintro r ⟨d, past⟩ ⟨hsem, rfl⟩
    refine ⟨hF.trans ⟨hsem.others, fun n hn hused => ?_⟩, hsem.2⟩
    rcases used_append.mp hused with hused | ⟨src, hmoved⟩
    · exact hused
    · obtain rfl := Op.audit.inj (Sigma.mk.inj hmoved).1
      exact absurd hn ((hP _ _ hop).2.1 src n rfl)
  · exact (hP _ _ hop).elim

/-! ## The names of a publication -/

section Names

variable {stem out : String} {msg tag : Bytes} {u u₀ : String → Prop}

/-- The names that files have been moved to, after a call. -/
def Marks (u : String → Prop) (c : Exchange AuditOp AuditReply) (u' : String → Prop) : Prop :=
  ∀ n, u' n ↔ u n ∨ ∃ src, c = ⟨.file (.rename src n), .ok ()⟩

/-- A publication moves its own files only, and each once. -/
def Once (u₀ : String → Prop) (stem : String) (u : String → Prop) (op : AuditOp) : Prop :=
  (∀ n, u n → u₀ n ∨ ∃ e, n = fin stem e) ∧ ∀ src dst, op = .file (.rename src dst) → ¬ u dst

/-- The files moved so far. -/
def MovedIn (u₀ : String → Prop) (stem : String) (es : List Ext) (u : String → Prop) : Prop :=
  ∀ n, u n ↔ u₀ n ∨ ∃ e ∈ es, n = fin stem e

theorem MovedIn.own {es : List Ext} (h : MovedIn u₀ stem es u) (n : String) (hn : u n) :
    u₀ n ∨ ∃ e, n = fin stem e :=
  ((h n).mp hn).imp_right fun hmoved => hmoved.imp fun _ he => he.2

/-- A call that moves nothing. -/
theorem MovedIn.still {es : List Ext} {op : AuditOp} {r : AuditReply op} {u' : String → Prop}
    (h : MovedIn u₀ stem es u) (hop : ∀ src dst, op ≠ .file (.rename src dst))
    (hsem : Marks u ⟨op, r⟩ u') : MovedIn u₀ stem es u' := by
  intro n
  rw [hsem n, or_iff_left, h n]
  rintro ⟨src, hc⟩
  exact hop src n (congrArg Sigma.fst hc)

/-- A program that moves nothing. -/
theorem obeys_once_of_only {α : Type} {p : Prog AuditOp AuditReply α} {es : List Ext}
    (hp : p.Only fun op => ∀ src dst, op ≠ .file (.rename src dst)) (h : MovedIn u₀ stem es u) :
    Obeys Marks (Once u₀ stem) p (fun u' _ => MovedIn u₀ stem es u') u :=
  hp.obeys (I := MovedIn u₀ stem es)
    (fun _ _ hu hop => ⟨hu.own, fun src dst heq => absurd heq (hop src dst)⟩)
    (fun _ _ _ _ hu hop hsem => hu.still hop hsem) h

theorem only_io {what : String} {op : Files.Op String} (h : ∀ src dst, op ≠ .rename src dst) :
    (io what op).run.Only fun op => ∀ src dst, op ≠ .file (.rename src dst) :=
  Only.bind (only_perform fun src dst heq => h src dst (AuditOp.file.inj heq)) fun _ => only_pure _

theorem only_stage :
    (stage out stem msg tag).run.Only fun op => ∀ src dst, op ≠ .file (.rename src dst) := by
  have hwrite : ∀ n data, (writeSynced out n data).run.Only
      fun op => ∀ src dst, op ≠ .file (.rename src dst) := fun n data =>
    (only_io (by simp)).tryBind fun _ => (only_io (by simp)).tryBind fun _ => only_io (by simp)
  have hsync : ∀ n, (syncFile out n).run.Only fun op => ∀ src dst, op ≠ .file (.rename src dst) :=
    fun n => (only_io (by simp)).tryBind fun _ => only_io (by simp)
  exact (hwrite _ _).tryBind fun _ => Only.tryBind (only_perform (by simp)) fun _ =>
    (hsync _).tryBind fun _ => (hsync _).tryBind fun _ => hwrite _ _

theorem only_cleanup_once (es : List Ext) :
    (cleanup stem es).Only fun op => ∀ src dst, op ≠ .file (.rename src dst) := by
  induction es with
  | nil => exact only_pure _
  | cons e es ih => exact Only.bind (only_perform (by simp)) fun _ => ih

/-- One rename. -/
theorem obeys_moveIn_once {Q : (String → Prop) → Except String Unit → Prop}
    {e : Ext} {es : List Ext} (h : MovedIn u₀ stem es u) (he : e ∉ es) (hnone : ¬ u₀ (fin stem e))
    (hok : ∀ u', MovedIn u₀ stem (e :: es) u' → Q u' (.ok ()))
    (herr : ∀ u' text, MovedIn u₀ stem es u' → Q u' (.error text)) :
    Obeys Marks (Once u₀ stem) (moveIn out stem e).run Q u := by
  have hfree : ¬ u (fin stem e) := by
    intro hu
    rcases (h _).mp hu with hu | ⟨e', he', heq⟩
    · exact hnone hu
    · exact he ((fin_inj.mp heq).2 ▸ he')
  refine ⟨⟨h.own, ?_⟩, fun r u' hsem => ?_⟩
  · rintro src dst ⟨⟩
    exact hfree
  rcases r with err | ⟨⟩
  · refine herr _ _ fun n => ?_
    rw [hsem n, or_iff_left, h n]
    rintro ⟨src, hc⟩
    cases hc
  · refine hok _ fun n => ?_
    have hmoved : (∃ src, (⟨.file (.rename (part stem e) (fin stem e)), .ok ()⟩ :
        Exchange AuditOp AuditReply) = ⟨.file (.rename src n), .ok ()⟩) ↔ n = fin stem e := by
      constructor
      · rintro ⟨src, hc⟩
        cases hc
        rfl
      · rintro rfl
        exact ⟨_, rfl⟩
    rw [hsem n, hmoved, h n, or_assoc, List.exists_mem_cons_iff, or_comm (a := n = fin stem e)]

/-- **A publication moves its own files only, and each once.** -/
theorem publish_once (hnone : ∀ e, ¬ u (fin stem e)) :
    Obeys Marks (Once u stem) (publishEnvelope out stem msg tag).run
      (fun u' _ => ∀ n, u' n → u n ∨ ∃ e, n = fin stem e) u := by
  have hstart : MovedIn u stem [] u := fun n => by simp
  have herr : ∀ {es : List Ext} (u' : String → Prop) (text : String), MovedIn u stem es u' →
      ∀ n, u' n → u n ∨ ∃ e, n = fin stem e := fun _ _ h => h.own
  have hsync : ∀ {es : List Ext} {u' : String → Prop}, MovedIn u stem es u' →
      Obeys Marks (Once u stem) (syncDir out).run (fun u' _ => MovedIn u stem es u') u' :=
    fun h => obeys_once_of_only (only_io (by simp)) h
  refine obeys_bind ((obeys_once_of_only only_stage hstart).mono (fun _ _ h => h) ?_)
  rintro u₁ (text | ⟨⟩) h₁
  · refine obeys_bind ((obeys_once_of_only (only_cleanup_once Ext.all) h₁).mono (fun _ _ h => h) ?_)
    exact fun u₂ _ h₂ => h₂.own
  refine obeys_tryBind (obeys_moveIn_once h₁ (by simp) (hnone _) (fun u₂ h₂ => ?_) herr)
  refine obeys_tryBind (obeys_moveIn_once h₂ (by simp) (hnone _) (fun u₃ h₃ => ?_) herr)
  refine obeys_tryBind (obeys_moveIn_once h₃ (by simp) (hnone _) (fun u₄ h₄ => ?_) herr)
  refine obeys_tryBind ((hsync h₄).mono (fun _ _ h => h) ?_)
  rintro u₅ (text | ⟨⟩) h₅
  · exact h₅.own
  refine obeys_tryBind (obeys_moveIn_once h₅ (by simp) (hnone _) (fun u₆ h₆ => ?_) herr)
  exact (hsync h₆).mono (fun _ _ h => h) fun u₇ _ h₇ => h₇.own

/-- What a call does to the directory and to the names. -/
def Notes (x : Disk String × (String → Prop)) (c : Exchange AuditOp AuditReply)
    (x' : Disk String × (String → Prop)) : Prop :=
  AuditSem (fun _ _ => True) x.1 c x'.1 ∧ Marks x.2 c x'.2

/-- The two together. -/
theorem publish_orderly_once (out : String) (msg tag : Bytes) {d : Disk String}
    (hd : TidyDir (fun _ _ => True) d) (hnone : ∀ e, ¬ u (fin stem e)) :
    Obeys Notes (fun x op => Orderly (fun _ _ => True) stem x.1 op ∧ Once u stem x.2 op)
      (publishEnvelope out stem msg tag).run
      (fun x _ => ∀ n, x.2 n → u n ∨ ∃ e, n = fin stem e) (d, u) := by
  have horderly : Obeys Notes (fun x => Orderly (fun _ _ => True) stem x.1)
      (publishEnvelope out stem msg tag).run _ (d, u) :=
    Obeys.comap Prod.fst (publish_orderly
      ⟨trivial, fun _ _ => trivial, fun _ _ => trivial, trivial⟩ hd) fun _ _ _ h => h.1
  have honce : Obeys Notes (fun x => Once u stem x.2)
      (publishEnvelope out stem msg tag).run _ (d, u) :=
    Obeys.comap Prod.snd (publish_once hnone) fun _ _ _ h => h.2
  exact (horderly.and honce).mono (fun _ _ h => h) fun _ _ h => h.2

end Names

/-! ## Processes -/

section Processes

variable {alloc : CounterAlloc} {id : String} {alg : UInt16} {bitmap : List.Vector UInt8 3}
  {counter : UInt64}

/-- The counters may have moved, and of the names of envelopes, only those of this value are new. -/
structure MovesOnly (counter : UInt64) (s s' : Recalled) : Prop where
  others : Others s.1.nv s'.1.nv
  used : ∀ n, IsFinName n → Used s'.2 n → Used s.2 n ∨ ∃ e, n = fin (stem counter) e

theorem NoMoves.movesOnly {s s' : Recalled} (h : NoMoves s s') : MovesOnly counter s s' :=
  ⟨h.others, fun n hn hused => .inl (h.used n hn hused)⟩

theorem NoMoves.trans_movesOnly {s s' s'' : Recalled} (h : NoMoves s s')
    (h' : MovesOnly counter s' s'') : MovesOnly counter s s'' :=
  ⟨others_trans h.others h'.others, fun n hn hused => (h'.used n hn hused).imp_left (h.used n hn)⟩

/-- A call on the directory, seen from there. -/
theorem moves_iff {op : Files.Op String} {r : Files.Reply op} {n : String} :
    (∃ src, (⟨.audit op, r⟩ : Exchange Op Reply) = ⟨.audit (.rename src n), .ok ()⟩) ↔
      ∃ src, (⟨.file op, r⟩ : Exchange AuditOp AuditReply) = ⟨.file (.rename src n), .ok ()⟩ := by
  constructor
  · rintro ⟨src, h⟩
    cases h
    exact ⟨src, rfl⟩
  · rintro ⟨src, h⟩
    cases h
    exact ⟨src, rfl⟩

/-- **The publication of an envelope keeps to the discipline**, under a counter value above all
used. -/
theorem obeys_publish {msg tag : Bytes} (hs : Numbered C nv s)
    (hfresh : counter.toNat < fresh nv s.1.nv)
    (habove : ∀ c e, Used s.2 (fin (stem c) e) → c < counter) :
    Obeys (withHistory Sem) (Allowed C nv)
      (onAudit (quoteMessage C cfg spec msg) (publishEnvelope out (stem counter) msg tag)).run
      (fun t _ => MovesOnly counter s t) s := by
  have hnone : ∀ e, ¬ Used s.2 (fin (stem counter) e) := fun e hused =>
    UInt64.lt_irrefl _ (habove counter e hused)
  have hboth := publish_orderly_once out msg tag (tidyDir_of_tidyAll hs.tidy) hnone
  refine (obeys_interpret (fun t : Recalled => (t.1.audit, Used t.2))
    (fun t => Others s.1.nv t.1.nv)
    ?_ (others_refl _) hboth).mono (fun _ _ h => h) fun t _ h => ⟨h.1, fun n _ => h.2 n⟩
  rintro t (op | ⟨attest, sig⟩) hothers ⟨horderly, hown, hfree⟩
  · have hallowed : Allowed C nv t (.audit op) := by
      refine ⟨safe_of_orderly horderly, ?_, ?_⟩
      · rintro src dst rfl -
        obtain ⟨e, -, rfl, -⟩ := horderly
        refine ⟨hfree src _ rfl, counter, e, rfl, hfresh.trans_le (fresh_mono hothers),
          fun c' e' hused => ?_⟩
        rcases hown _ hused with hused | ⟨e'', heq⟩
        · exact UInt64.le_of_lt (habove c' e' hused)
        · rw [stem_injective (fin_inj.mp heq).1]
          exact UInt64.le_refl _
      · rintro n rfl
        exact not_isBootLog_of_isTemp (isTemp_of_isPartName horderly)
    refine obeys_perform hallowed ?_
    rintro r ⟨d, past⟩ ⟨hsem, rfl⟩
    exact ⟨others_trans hothers hsem.others, hsem.2,
      fun n => used_append.trans (or_congr_right moves_iff)⟩
  · -- the quote, if it comes to that
    obtain ⟨rfl, rfl⟩ := horderly
    unfold auditCall quoteMessage
    have hnoop : ∀ {r : Except String Unit}, Marks (Used t.2)
        ⟨.quote (part (stem counter) .attest) (part (stem counter) .sig), r⟩ (Used t.2) :=
        fun {r} n =>
      (or_iff_left (by rintro ⟨src, h⟩; cases h)).symm
    refine obeys_tryBind (obeys_ofResult ?_)
    rcases qualifyingData C msg with e | qd
    · exact ⟨hothers, ⟨.none _, fun h => by cases h⟩, hnoop⟩
    refine obeys_tryBind (obeys_ofResult ?_)
    rcases Provision.akHandle cfg with e | akh
    · exact ⟨hothers, ⟨.none _, fun h => by cases h⟩, hnoop⟩
    refine obeys_perform ⟨isTemp_part _ _, isTemp_part _ _⟩ ?_
    rintro r ⟨d, past⟩ ⟨hsem, rfl⟩
    refine ⟨others_trans hothers hsem.others, ⟨hsem.2, fun _ _ _ _ _ => trivial⟩, fun n => ?_⟩
    rw [or_iff_left]
    · exact used_append_of_ne fun fop h => by cases h
    · rintro ⟨src, h⟩
      cases h

/-- What `cmd_attest` finds before it takes a counter value, it finds without using a name. -/
theorem obeys_checks (hs : Numbered C nv s) :
    Obeys (withHistory Sem) (Allowed C nv) (checks C cfg out spec).run
      (fun t _ => Numbered C nv t ∧ NoMoves s t) s := by
  refine obeys_tryBind ((obeys_quiet only_quiet_ensureDir hs).mono (fun _ _ h => h) ?_)
  rintro s₁ (e | ⟨⟩) ⟨hs₁, hmoves₁⟩
  · exact ⟨hs₁, hmoves₁⟩
  refine obeys_tryBind ((obeys_quiet only_quiet_ensureDir hs₁).mono (fun _ _ h => h) ?_)
  rintro s₂ (e | ⟨⟩) ⟨hs₂, hmoves₂⟩
  · exact ⟨hs₂, hmoves₁.trans hmoves₂⟩
  refine obeys_tryBind ((obeys_onAudit (fun _ _ => aside_of_removes fun _ h =>
    not_isBootLog_of_isTemp (isTemp_of_isPartName h)) removePartials_removes
    hs₂).mono (fun _ _ h => h) ?_)
  rintro s₃ (e | removed) ⟨hs₃, hmoves₃, -⟩
  · exact ⟨hs₃, hmoves₁.trans (hmoves₂.trans hmoves₃)⟩
  refine (obeys_quiet ?_ hs₃).mono (fun _ _ h => h) fun t _ h =>
    ⟨h.1, hmoves₁.trans (hmoves₂.trans (hmoves₃.trans h.2))⟩
  exact only_quiet_onKeys.tryBind fun id => (only_pure _).tryBind fun found =>
    only_quiet_verifyAk.tryBind fun _ => only_pure _

/-- A counter value is taken: it is above all that have been used, and passed by the NV counter. -/
theorem obeys_next (hnv : IsIndex cfg.nvIndex nv) (hs : Numbered C nv s)
    (hahead : Ahead nv alloc s) :
    Obeys (withHistory Sem) (Allowed C nv) ((alloc.next cfg.nvIndex).interpret nvCall)
      (fun t result => Numbered C nv t ∧ ∀ alloc' taken, result = (alloc', taken) →
        match taken with
        | .ok counter => counter.toNat < fresh nv t.1.nv ∧
            (∀ c e, Used t.2 (fin (stem c) e) → c < counter) ∧
            AboveAlloc nv (counter.toNat + 1) t.1.nv alloc'
        | .error _ => Ahead nv alloc' t) s := by
  obtain ⟨b, habove, hlt⟩ := hahead
  have hobeys := (next_ensures hnv habove).obeys others_refl
  refine (Obeys.keeping (fun _ _ _ _ hI hop hsem => Numbered.call hI hop hsem)
    (obeys_interpret (fun t : Recalled => t.1.nv) (fun t => ∀ n, Used t.2 n → Used s.2 n) ?_
      (fun _ h => h) hobeys) hs).mono (fun _ _ h => h.2) ?_
  · intro t op hF _
    refine obeys_perform (show Allowed C nv t (.nv op) from trivial) ?_
    rintro r ⟨d, past⟩ ⟨hsem, rfl⟩
    refine ⟨fun n hused => hF n ((used_append_of_ne ?_).mp hused), hsem.1⟩
    exact fun fop h => by cases h
  · rintro t ⟨alloc', taken⟩ ⟨ht, hused, hresult⟩
    refine ⟨ht, fun _ _ heq => ?_⟩
    cases heq
    rcases taken with e | counter
    · exact ⟨b, hresult, fun c e hc => hlt c e (hused _ hc)⟩
    · obtain ⟨hle, hnext⟩ := hresult
      refine ⟨hnext.1, fun c e hc => ?_, hnext⟩
      exact UInt64.lt_iff_toNat_lt.mpr ((hlt c e (hused _ hc)).trans_le hle)

/-- Making an envelope with a counter value. -/
theorem obeys_emit (hs : Numbered C nv s) (hfresh : counter.toNat < fresh nv s.1.nv)
    (habove : ∀ c e, Used s.2 (fin (stem c) e) → c < counter) :
    Obeys (withHistory Sem) (Allowed C nv) (emit C cfg out spec id alg bitmap counter).run
      (fun t _ => MovesOnly counter s t) s := by
  have hread : (perform (Op.pcrRead spec s!"{cfg.work}/pcrs.bin") :
      Prog Op Reply (Except String Bytes)).Only Quiet := only_perform trivial
  refine obeys_tryBind ((obeys_quiet hread hs).mono (fun _ _ h => h) ?_)
  rintro s₁ (e | pcrState) ⟨hs₁, hmoves⟩
  · exact hmoves.movesOnly
  refine obeys_tryBind (obeys_ofResult ?_)
  rcases Except.ensure ((message C id alg bitmap counter pcrState).length = msgLen) _ with e | ⟨⟩
  · exact hmoves.movesOnly
  have habove₁ : ∀ c e, Used s₁.2 (fin (stem c) e) → c < counter := fun c e hused =>
    habove c e (hmoves.used _ ⟨stem c, e, rfl⟩ hused)
  refine obeys_tryBind
    ((obeys_publish hs₁ (hfresh.trans_le (fresh_mono hmoves.others)) habove₁).mono
    (fun _ _ h => h) ?_)
  rintro s₂ (e | ⟨⟩) hmoved
  · exact hmoves.trans_movesOnly hmoved
  · exact hmoves.trans_movesOnly hmoved

/-- **One cycle keeps to the discipline**, and leaves the allocator ahead. -/
theorem obeys_cmdAttest (hnv : IsIndex cfg.nvIndex nv) (hs : Numbered C nv s)
    (hahead : Ahead nv alloc s) :
    Obeys (withHistory Sem) (Allowed C nv) (cmdAttest C cfg out spec alloc)
      (fun t result => Numbered C nv t ∧ Ahead nv result.1 t) s := by
  refine obeys_bind ((obeys_checks hs).mono (fun _ _ h => h) ?_)
  rintro s₁ (e | ⟨id, alg, bitmap⟩) ⟨hs₁, hmoves₁⟩
  · exact ⟨hs₁, hahead.noMoves hmoves₁⟩
  refine obeys_bind ((obeys_next hnv hs₁ (hahead.noMoves hmoves₁)).mono (fun _ _ h => h) ?_)
  rintro s₂ ⟨alloc', e | counter⟩ ⟨hs₂, hresult⟩
  · exact ⟨hs₂, hresult _ _ rfl⟩
  obtain ⟨hfresh, habove, hnext⟩ := hresult _ _ rfl
  refine obeys_bind (((obeys_emit hs₂ hfresh habove).keeping
    (fun _ _ _ _ hI hop hsem => Numbered.call hI hop hsem) hs₂).mono (fun _ _ h => h.2) ?_)
  rintro s₃ result ⟨hs₃, hmoved⟩
  refine ⟨hs₃, counter.toNat + 1, hnext.others hmoved.others, fun c e hused => ?_⟩
  rcases hmoved.used _ ⟨stem c, e, rfl⟩ hused with hold | ⟨e', heq⟩
  · exact (UInt64.lt_iff_toNat_lt.mp (habove c e hold)).trans (Nat.lt_succ_self _)
  · rw [stem_injective (fin_inj.mp heq).1]
    exact Nat.lt_succ_self _

/-- Any number of cycles, with the pruning after each. -/
theorem obeys_runCycles (hnv : IsIndex cfg.nvIndex nv) (keep n : ℕ) (hs : Numbered C nv s)
    (hahead : Ahead nv alloc s) :
    Obeys (withHistory Sem) (Allowed C nv) (runCycles C cfg out spec keep n alloc)
      (fun _ _ => True) s := by
  induction n generalizing s alloc with
  | zero => trivial
  | succ n ih =>
    have hcycle : Obeys (withHistory Sem) (Allowed C nv) (cycle C cfg out spec keep alloc)
        (fun t result => Numbered C nv t ∧ Ahead nv result.1 t) s := by
      refine obeys_bind ((obeys_cmdAttest hnv hs hahead).mono (fun _ _ h => h) ?_)
      rintro s₁ ⟨alloc', e | counter⟩ ⟨hs₁, hahead₁⟩
      · exact ⟨hs₁, hahead₁⟩
      refine obeys_bind ((obeys_onAudit (fun _ _ => aside_of_removes fun _ h =>
        not_isBootLog_of_isFinName h) (pruneAudit_removes keep) hs₁).mono (fun _ _ h => h) ?_)
      rintro s₂ result ⟨hs₂, hmoves, -⟩
      exact ⟨hs₂, hahead₁.noMoves hmoves⟩
    refine obeys_bind (hcycle.mono (fun _ _ h => h) ?_)
    rintro s₁ ⟨alloc', e | ⟨⟩⟩ ⟨hs₁, hahead₁⟩
    · exact obeys_bind ((obeys_quiet (p := sdNotify _) (only_perform trivial) hs₁).mono
        (fun _ _ h => h) fun _ _ _ => trivial)
    refine obeys_bind ((obeys_quiet (p := sdNotify "WATCHDOG=1") (only_perform trivial) hs₁).mono
      (fun _ _ h => h) ?_)
    rintro s₂ - ⟨hs₂, hmoves₂⟩
    refine obeys_bind ((obeys_quiet (p := perform Op.pause) (only_perform trivial) hs₂).mono
      (fun _ _ h => h) ?_)
    rintro s₃ - ⟨hs₃, hmoves₃⟩
    exact ih hs₃ ((hahead₁.noMoves hmoves₂).noMoves hmoves₃)

/-- The boot log is saved, or not. -/
theorem obeys_saveBootLog {src : String} (hs : Numbered C nv s) :
    Obeys (withHistory Sem) (Allowed C nv) (saveBootLog C out src).run
      (fun t _ => Numbered C nv t ∧ NoMoves s t) s := by
  refine obeys_tryBind ((obeys_onAudit (fun _ _ => aside_of_removes fun _ h =>
    not_isBootLog_of_isTemp h) bootParts_removes hs).mono
    (fun _ _ h => h) ?_)
  rintro s₁ (e | ⟨⟩) ⟨hs₁, hmoves₁, -⟩
  · exact ⟨hs₁, hmoves₁⟩
  have hread : (ExceptT.lift (perform (Op.bootLog src (bootLogMax + 1))) :
      Procedure (Except IoError (Except String Bytes))).run.Only Quiet := only_perform trivial
  refine obeys_tryBind ((obeys_quiet hread hs₁).mono (fun _ _ h => h) ?_)
  rintro s₂ (e | read) ⟨hs₂, hmoves₂⟩
  · exact ⟨hs₂, hmoves₁.trans hmoves₂⟩
  refine obeys_tryBind (obeys_ofResult ?_)
  rcases hlog : bootLogOf src read with e | (_ | data)
  · exact ⟨hs₂, hmoves₁.trans hmoves₂⟩
  · exact ⟨hs₂, hmoves₁.trans hmoves₂⟩
  obtain ⟨-, hne, hlen⟩ := bootLogOf_some hlog
  exact (obeys_onAudit (fun _ _ h => h) (obeys_storeBootLog hne hlen hs₂.tidy) hs₂).mono
    (fun _ _ h => h) fun t _ h => ⟨h.1, hmoves₁.trans (hmoves₂.trans h.2.1)⟩

/-- **`cmd_run` keeps to the discipline.** -/
theorem obeys_cmdRun {bootLog : String} (hnv : IsIndex cfg.nvIndex nv) (keep n : ℕ)
    (hs : Numbered C nv s) :
    Obeys (withHistory Sem) (Allowed C nv) (cmdRun C cfg out spec bootLog keep n)
      (fun _ _ => True) s := by
  have hstart : Obeys (withHistory Sem) (Allowed C nv) (startRun C out bootLog).run
      (fun t _ => Numbered C nv t) s := by
    refine obeys_tryBind ((obeys_quiet only_quiet_inspect hs).mono (fun _ _ h => h) ?_)
    rintro s₁ (e | found) ⟨hs₁, -⟩
    · exact hs₁
    refine obeys_tryBind (obeys_ofResult ?_)
    rcases Except.ensure (found = .complete) _ with e | ⟨⟩
    · exact hs₁
    refine obeys_tryBind ((obeys_quiet only_quiet_ensureDir hs₁).mono (fun _ _ h => h) ?_)
    rintro s₂ (e | ⟨⟩) ⟨hs₂, -⟩
    · exact hs₂
    refine obeys_tryBind (obeys_bind ((obeys_saveBootLog hs₂).mono (fun _ _ h => h) ?_))
    rintro s₃ saved ⟨hs₃, -⟩
    exact (obeys_quiet (p := (ExceptT.lift (sdNotify "READY=1") : Procedure Unit).run)
      (only_perform trivial) hs₃).mono (fun _ _ h => h) fun _ _ h => h.1
  refine obeys_bind (hstart.mono (fun _ _ h => h) ?_)
  rintro s₁ (e | ⟨⟩) hs₁
  · trivial
  · exact obeys_runCycles hnv keep n hs₁ (ahead_new hs₁)

end Processes

/-! ## The life of a device -/

/-- An agent process: the command, and what it takes from its arguments and its environment.  A
`run` is cut off after some number of turns. -/
inductive Process where
  | provision (id : String)
  | attest (spec : String)
  | run (spec bootLog : String) (keep turns : ℕ)
  | status

/-- What it returns. -/
abbrev Process.Value : Process → Type
  | .provision _ | .run _ _ _ _ => Except String Unit
  | .attest _ => CounterAlloc × Except String UInt64
  | .status => Except String (Option String)

/-- What it does. -/
def Process.program (C : Crypto) (cfg : Provision.Config) (out : String) :
    (p : Process) → Prog Op Reply p.Value
  | .provision id => (onKeys (Provision.cmdProvision cfg id)).run
  | .attest spec => cmdAttest C cfg out spec .new
  | .run spec bootLog keep turns => cmdRun C cfg out spec bootLog keep turns
  | .status => (cmdStatus C cfg).run

/-- The device, and the agent process that is running on it, if one is. -/
abbrev Machine := Host Device Op Reply Process Process.Value

/-- A step of the life of a device: agent processes start, make calls, return, or are killed, and
power is cut. -/
abbrev Life (C : Crypto) (cfg : Provision.Config) (out : String) :=
  Lives (Process.program C cfg out) Sem PowerCut

/-- Its transitions. -/
abbrev Lifetime := List (Event Machine (Occasion Op Reply Process Process.Value Unit))

/-- An audit directory in which nothing has been written. -/
structure Blank (d : Device) : Prop where
  bound : ∀ m, d.audit.Image m → ∀ n f, m n = some f → f < d.audit.next
  unaliased : ∀ m, d.audit.Image m → ∀ n n' f, m n = some f → m n' = some f → n = n'
  none : ∀ m, d.audit.Image m → ∀ n, IsTemp n ∨ IsPublic n → m n = none

theorem numbered_of_blank {d : Device} (h : Blank d) : Numbered C nv (d, []) :=
  ⟨Disk.Tidy.of_none h.bound h.unaliased h.none,
    fun m hm n hn hthere => absurd (h.none m hm n (.inr (.inl hn))) hthere,
    fun n _ hused => by obtain ⟨src, hmem⟩ := hused; cases hmem⟩

/-- **Every process keeps to the discipline**, and power may be cut. -/
theorem discipline (hnv : IsIndex cfg.nvIndex nv) :
    Discipline (Numbered C nv) (Allowed C nv) (fun _ _ _ => True) (Process.program C cfg out)
      (withHistory Sem) (sparing PowerCut) := by
  constructor
  · intro p s hs
    have htrivial : ∀ {α : Type} {p : Prog Op Reply α} {Q : Recalled → α → Prop},
        Obeys (withHistory Sem) (Allowed C nv) p Q s →
          Obeys (withHistory Sem) (Allowed C nv) p (fun _ _ => True) s := fun h =>
      h.mono (fun _ _ h => h) fun _ _ _ => trivial
    cases p with
    | provision id => exact htrivial (obeys_quiet only_quiet_onKeys hs)
    | attest spec => exact htrivial (obeys_cmdAttest hnv hs (ahead_new hs))
    | run spec bootLog keep turns => exact obeys_cmdRun hnv keep turns hs
    | status =>
      refine htrivial (obeys_quiet (only_quiet_inspect.tryBind fun found => ?_) hs)
      cases found with
      | complete =>
        exact only_quiet_onKeys.tryBind fun id => only_quiet_ensureDir.tryBind fun _ =>
          only_quiet_verifyAk.tryBind fun _ => only_pure _
      | absent => exact only_pure _
      | incomplete haveId haveKey => exact only_pure _
  · exact fun s op r s' hI hop hsem => hI.call hop hsem
  · exact fun s f s' hI hfault => hI.cut hfault

/-! ### A life -/

namespace Sample

/-- The device. -/
def device (s : State) : Device := ⟨s.1, s.2.getD Disk.empty⟩

/-- What a call may do to it. -/
def Does (s : State) (c : Exchange Op Reply) (s' : State) : Prop := Sem (device s) c (device s')

/-- Its answers are possible. -/
theorem answer_possible (t : Chip) (s : State) (op : Op) :
    Does s ⟨op, (answer t s op).1⟩ (answer t s op).2 := by
  have hrefl : Others s.1 s.1 := others_refl s.1
  cases op with
  | nv op =>
    cases op with
    | readPublic nv => exact ⟨⟨s.1, hrefl, .readPublic⟩, rfl⟩
    | increment nv =>
      rw [answer]
      split_ifs with hlt
      · exact ⟨⟨s.1, hrefl, .increment hlt⟩, rfl⟩
      · exact ⟨⟨s.1, hrefl, .incrementFailed⟩, rfl⟩
    | read nv => exact ⟨⟨s.1, hrefl, .read fun _ => rfl⟩, rfl⟩
  | audit op =>
    have hserve := (s.2.getD Disk.empty).step_serve op
    cases op with
    | list =>
      obtain ⟨nv, _ | d⟩ := s
      · refine ⟨hrefl, .listed ⟨List.nodup_nil, fun _ h => (by cases h), fun n hn => ?_⟩⟩
        exact absurd rfl hn
      · exact ⟨hrefl, .failed fun _ h => by cases h⟩
    | _ => exact ⟨hrefl, hserve⟩
  | quote h spec qd attest sig =>
    rw [answer]
    split_ifs with hfree
    · refine ⟨hrefl, .make (.inl rfl) hfree.2.1 (.put (.inl rfl) ?_ (.make (.inr rfl) hfree.2.2
        (.put (.inr rfl) ?_ (.none _))))⟩
      all_goals
        rw [Disk.view_make, Function.update_self]
        rfl
    · exact ⟨hrefl, .none _⟩
  | _ => exact ⟨hrefl, rfl⟩

/-- Nothing has been written, and nothing is running. -/
def start : Machine := ⟨device (fun _ => 41, none), none⟩

theorem blank_start : Blank start.state := by
  constructor
  · intro m hm n f hf
    rw [Disk.image_empty hm n] at hf
    cases hf
  · intro m hm n n' f hf
    rw [Disk.image_empty hm n] at hf
    cases hf
  · exact fun m hm n _ => Disk.image_empty hm n

/-- A process that has made some calls. -/
def after {p : Process}
    (r : List (Exchange Op Reply) × State × Prog Op Reply p.Value) : Machine :=
  ⟨device r.2.1, some ⟨p, r.2.2⟩⟩

/-- The calls it makes next are part of a life. -/
theorem life_after {p : Process} (n : ℕ)
    {r r' : List (Exchange Op Reply) × State × Prog Op Reply p.Value}
    (hr : runFor (answer chip) n r.2.2 r.2.1 = r') :
    ∃ es : Lifetime, Run (Life (.ofTable []) config "audit") (after r) es (after r') ∧
      es.map Event.label = r'.1.map .call := by
  subst hr
  obtain ⟨hafter, hperf⟩ := runFor_possible (answer_possible chip) n r.2.2 r.2.1
  exact run_of_performs hafter (hperf.map (g := device) fun _ _ _ h => h)

theorem life_start (p : Process) (n : ℕ)
    {r : List (Exchange Op Reply) × State × Prog Op Reply p.Value}
    (hr : runFor (answer chip) n (p.program (.ofTable []) config "audit")
      (fun _ => 41, none) = r) :
    ∃ es : Lifetime, Run (Life (.ofTable []) config "audit") start es (after r) ∧
      es.map Event.label = .start p :: r.1.map .call := by
  obtain ⟨es, hrun, hlabels⟩ := life_after (r := ([], (fun _ => 41, none), p.program _ _ _)) n hr
  exact ⟨_, .cons (.start _ p) hrun, by rw [List.map_cons, hlabels]⟩

end Sample

end TactiqAttest.Prover.Agent
