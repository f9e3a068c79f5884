import TactiqAttest.Prover.AgentRuns

/-!
# What stays true of a device

Over the whole life of a device, whatever its processes are interrupted by:

* `envelope_names_once`: a file is moved to a name of an envelope once.  The values in the names do
  not decrease, across restarts and power cuts.
* `envelope_files_unchanged`: what is found under the name of an envelope, now or after a power cut,
  is always the same.
* `boot_logs_kept`: what is found under the name of a boot log is a log with the digest in the name;
  and once no power cut can lose it, it is there for good.
-/

namespace TactiqAttest.Prover.Agent

open Envelope Files Prog Programs Labelled

variable {C : Crypto} {cfg : Provision.Config} {out nv : String} {w w' : Machine} {es : Lifetime}

/-- The discipline holds throughout the life of a device. -/
theorem disciplined_of_life (hnv : IsIndex cfg.nvIndex nv) (hblank : Blank w.state)
    (hidle : w.running = none) (hrun : Run (Life C cfg out) w es w') :
    Disciplined (withHistory Sem) (Numbered C nv) (Allowed C nv) (fun _ _ _ => True)
        (w'.remember (made es)) ∧
      ∀ l e r, es = l ++ e :: r →
        Disciplined (withHistory Sem) (Numbered C nv) (Allowed C nv) (fun _ _ _ => True)
          (e.pre.remember (made l)) ∧
        Lives (Process.program C cfg out) (withHistory Sem) (sparing PowerCut)
          (e.pre.remember (made l))
          e.label (e.post.remember (made (l ++ [e]))) := by
  have hstart : Disciplined (withHistory Sem) (Numbered C nv) (Allowed C nv) (fun _ _ _ => True)
      (w.remember []) := by
    rw [Host.remember, hidle]
    exact disciplined_idle (numbered_of_blank hblank)
  exact Lives.kept_remembering (discipline hnv) hrun [] hstart

namespace Sample

/-- The first cycle of a device, up to where the message has been moved. -/
def moved : Machine := after (p := .attest "sha256:1,8") (cycle 25)

end Sample

namespace Sample

/-- The rest of the cycle. -/
def rest : List (Exchange Op Reply) × State × Prog Op Reply (CounterAlloc × Except String UInt64) :=
  runFor (answer chip) 15 (cycle 25).2.2 (cycle 25).2.1

def finished : Machine := after (p := .attest "sha256:1,8") rest

end Sample

/-- What every power cut leaves under the name of a boot log stays there. -/
theorem boot_log_step (nv : String) {a : Occasion Op Reply Process Process.Value Unit}
    (past : History) {n : String} (hn : IsBootLog n)
    (hallowed : ∀ op r, a = .call ⟨op, r⟩ → Allowed C nv (w.state, past) op)
    (hstep : Life C cfg out w a w') (hall : ∀ m, w.state.audit.Image m → m n ≠ none) :
    ∀ m, w'.state.audit.Image m → m n ≠ none := by
  intro m hm
  cases hstep with
  | start s i => exact hall m hm
  | @call d d' i op reply next hsem =>
    have hallowed := hallowed op reply rfl
    cases op with
    | audit op =>
      obtain ⟨hsafe, -, hremove⟩ := hallowed
      rcases hsafe.image isTemp_not_isPublic (.inr hn) hsem.2 hm with
        ⟨m', hm', heq⟩ | ⟨src, f, -, heq⟩ | ⟨hop, -⟩
      · exact heq ▸ hall m' hm'
      · exact heq ▸ Option.some_ne_none f
      · exact absurd hn (hremove n hop)
    | quote h spec qd attest sig =>
      obtain ⟨m', hm', heq⟩ := hsem.2.within.image hm
      have hother : ¬ (n = attest ∨ n = sig) := by
        rintro (rfl | rfl)
        · exact not_isBootLog_of_isTemp hallowed.1 hn
        · exact not_isBootLog_of_isTemp hallowed.2 hn
      exact heq n hother ▸ hall m' hm'
    | nv op => exact hall m (hsem.2 ▸ hm)
    | _ => exact hall m (hsem.of_quiet trivial ▸ hm)
  | finish s i o => exact hall m hm
  | kill w => exact hall m hm
  | fault hcut =>
    rw [(hcut.2.image.2 m).mp hm]
    exact hall _ hcut.2.image.1

/-- **Boot logs are whole, and stay.**  What is found under the name of one, now or after a power
cut, is a log with the digest that is in the name, not empty and not too large, and it is on the
disk; and once every power cut leaves one there, it is there for good. -/
theorem boot_logs_kept {es' : Lifetime} {w₁ w₂ : Machine} (hblank : Blank w.state)
    (hidle : w.running = none) (hrun : Run (Life C cfg out) w es w₁)
    (hrun' : Run (Life C cfg out) w₁ es' w₂) {n : String} (hn : IsBootLog n) :
    (∀ m, w₁.state.audit.Image m → ∀ f, m n = some f → w₁.state.audit.synced f = true ∧
      n = bootName C (w₁.state.audit.data f) ∧ w₁.state.audit.data f ≠ [] ∧
      (w₁.state.audit.data f).length ≤ bootLogMax) ∧
    ((∀ m, w₁.state.audit.Image m → m n ≠ none) → ∀ m, w₂.state.audit.Image m → m n ≠ none) := by
  obtain ⟨nv, hnv⟩ := exists_isIndex cfg.nvIndex
  refine ⟨fun m hm f hf => ?_, fun hall => ?_⟩
  · have hnumbered := (disciplined_of_life hnv hblank hidle hrun).1.state
    obtain ⟨hsynced, hwhole⟩ := hnumbered.tidy.good m hm n f (.inr hn) hf
    exact ⟨hsynced, hwhole hn⟩
  · have hlife := (disciplined_of_life hnv hblank hidle (Run.append_iff.mpr ⟨w₁, hrun, hrun'⟩)).2
    refine (hrun'.invariant_mem (I := fun w => ∀ m, w.state.audit.Image m → m n ≠ none) ?_ hall).1
    intro e he hstep hall'
    obtain ⟨l, r, hes'⟩ := List.append_of_mem he
    obtain ⟨hdisciplined, hstep'⟩ := hlife (es ++ l) e r (by rw [hes', List.append_assoc])
    refine boot_log_step nv (made (es ++ l)) hn (fun op reply hcall => ?_) hstep hall'
    rw [hcall] at hstep'
    exact (hdisciplined.allowed hstep').1

namespace Sample

/-- A process that saves its boot log and attests no further. -/
def logging : List (Exchange Op Reply) × State × Prog Op Reply (Except String Unit) :=
  runFor (answer chip) 20
    (cmdRun (.ofTable []) config "audit" "sha256:1,8" "boot.log" 1 0) (fun _ => 41, none)

def logged : Machine := after (p := .run "sha256:1,8" "boot.log" 1 0) logging

/-- The name of the log. -/
def logName : String := bootName (.ofTable []) [0x01, 0x02]

theorem logged_settled : logged.state.audit.pending = [] ∧
    (logged.state.audit.view logName).isSome = true := by
  constructor <;> decide +kernel

end Sample

/-- The log is there after the process is killed. -/
theorem boot_logs_kept_killed :
    ∃ (es : Lifetime), Run (Life (.ofTable []) Sample.config "audit") Sample.start es
        ⟨Sample.logged.state, none⟩ ∧
      ∀ m, Sample.logged.state.audit.Image m → m Sample.logName ≠ none := by
  obtain ⟨es, hrun, -⟩ := Sample.life_start (.run "sha256:1,8" "boot.log" 1 0) 20
    (r := Sample.logging) rfl
  change Run (Life (.ofTable []) Sample.config "audit") Sample.start es Sample.logged at hrun
  have hkill : Run (Life (.ofTable []) Sample.config "audit") Sample.logged _
      ⟨Sample.logged.state, none⟩ := .cons (.kill _) (.nil _)
  have hall : ∀ m, Sample.logged.state.audit.Image m → m Sample.logName ≠ none := by
    intro m hm
    rw [(Disk.image_of_settled Sample.logged_settled.1).mp hm]
    exact Option.isSome_iff_ne_none.mp Sample.logged_settled.2
  exact ⟨_, Run.append_iff.mpr ⟨_, hrun, hkill⟩,
    (boot_logs_kept Sample.blank_start rfl hrun hkill (isBootLog_bootName _ _)).2 hall⟩

/-! ## Saving a boot log -/

section Saving

variable {d d' : Device} {src : String} {saved : Option String} {cs : History} {s : Recalled}

/-- A procedure on the directory that leaves the names of envelopes aside keeps it tidy. -/
theorem obeys_onAudit_tidy {α : Type} {x : Audit α} {P : Disk String → AuditOp → Prop}
    {Q : Disk String → Except String α → Prop} (hP : ∀ d op, P d op → Aside C d op)
    (hx : Obeys (AuditSem fun _ _ => True) P x.run Q s.1.audit) (hs : TidyAll C s.1.audit) :
    Obeys (withHistory Sem) (fun _ _ => True) (onAudit noQuote x).run
      (fun t a => (TidyAll C t.1.audit ∧ s.2 <+: t.2) ∧ Q t.1.audit a) s := by
  refine obeys_interpret (fun t : Recalled => t.1.audit)
    (fun t => TidyAll C t.1.audit ∧ s.2 <+: t.2) ?_ ⟨hs, List.prefix_refl _⟩ hx
  rintro t (op | ⟨attest, sig⟩) ⟨htidy, hpast⟩ hop
  · show Obeys _ _ (perform (Op.audit op)) _ _
    refine ⟨trivial, ?_⟩
    rintro r ⟨d, past⟩ ⟨hsem, rfl⟩
    exact ⟨⟨htidy.step isTemp_not_isPublic (hP _ _ hop).1 hsem.2,
      hpast.trans (List.prefix_append _ _)⟩, hsem.2⟩
  · exact (hP _ _ hop).elim

variable (C out src) in
/-- What has become of the boot log: the call that read it found none, or the log it found is saved
now, or another one with its digest was there. -/
def LogSaved (s : Recalled) (saved : Option String) : Prop :=
  ∃ read, (⟨.bootLog src (bootLogMax + 1), read⟩ : Exchange Op Reply) ∈ s.2 ∧
    ((bootLogOf src read = .ok none ∧ saved = none) ∨
      ∃ data, bootLogOf src read = .ok (some data) ∧
        ((saved = some (path out (bootName C data)) ∧ Saved C s.1.audit data) ∨
          (saved = none ∧ ∃ f, s.1.audit.view (bootName C data) = some f ∧
            s.1.audit.synced f = true ∧ C.sha256 (s.1.audit.data f) = C.sha256 data)))

/-- The name of a log is its digest. -/
theorem bootName_inj {a b : Bytes} (h : bootName C a = bootName C b) : C.sha256 a = C.sha256 b := by
  have hlists := congrArg String.toList h
  simp only [bootName, String.toList_append] at hlists
  have hencode := String.toList_inj.mp
    (List.append_cancel_left (List.append_cancel_right hlists))
  have hdecode := congrArg Hex.decode hencode
  rw [Hex.decode_encode, Hex.decode_encode] at hdecode
  exact List.Vector.toList_injective (Except.ok.inj hdecode)

theorem obeys_saveBootLog_saved (out src : String) (hs : TidyAll C s.1.audit) :
    Obeys (withHistory Sem) (fun _ _ => True) (saveBootLog C out src).run
      (fun t result => ∀ saved, result = .ok saved → LogSaved C out src t saved) s := by
  have herr : ∀ {text : String} {t : Recalled} (saved : Option String),
      (Except.error text : Except String (Option String)) = .ok saved →
      LogSaved C out src t saved :=
    fun _ h => by cases h
  refine obeys_tryBind ((obeys_onAudit_tidy (fun _ _ => aside_of_removes fun _ h =>
    not_isBootLog_of_isTemp h) bootParts_removes hs).mono (fun _ _ h => h) ?_)
  rintro s₁ (e | ⟨⟩) ⟨⟨hs₁, -⟩, -⟩
  · exact herr
  refine obeys_tryBind (x := ExceptT.lift (perform (Op.bootLog src (bootLogMax + 1))))
    ⟨trivial, fun read s₂ hsem => ?_⟩
  obtain ⟨d₂, past⟩ := s₂
  obtain ⟨hsem, rfl⟩ := hsem
  have haudit : d₂.audit = s₁.1.audit := hsem.of_quiet trivial
  have hread : (⟨.bootLog src (bootLogMax + 1), read⟩ : Exchange Op Reply) ∈
      s₁.2 ++ [⟨.bootLog src (bootLogMax + 1), read⟩] :=
    List.mem_append_right _ (List.mem_singleton.mpr rfl)
  refine obeys_tryBind (obeys_ofResult ?_)
  rcases hlog : bootLogOf src read with e | (_ | data)
  · exact herr
  · intro saved h
    cases h
    exact ⟨read, hread, .inl ⟨hlog, rfl⟩⟩
  obtain ⟨-, hne, hlen⟩ := bootLogOf_some hlog
  have hs₂ : TidyAll C d₂.audit := haudit ▸ hs₁
  refine (obeys_onAudit_tidy (fun _ _ h => h) (obeys_storeBootLog hne hlen hs₂) hs₂).mono
    (fun _ _ h => h) ?_
  rintro t result ⟨⟨htidy, hpast⟩, hresult⟩ saved hsaved
  refine ⟨read, hpast.subset hread, .inr ⟨data, hlog, ?_⟩⟩
  rcases hresult saved hsaved with ⟨hnone, hsame, hthere⟩ | hdone
  swap
  · exact .inl hdone
  obtain ⟨f, hf⟩ := Option.ne_none_iff_exists'.mp hthere
  obtain ⟨hsynced, hwhole⟩ :=
    hs₂.good _ (Disk.image_view _) _ f (.inr (isBootLog_bootName C data)) hf
  refine .inr ⟨hnone, f, hsame ▸ hf, hsame ▸ hsynced, ?_⟩
  rw [hsame]
  exact (bootName_inj (hwhole (isBootLog_bootName C data)).1).symm

/-- **Saving the boot log**: whatever other processes do to the counters, when `save_boot_log`
returns without an error, then either there was no log to be read; or the log that was read is under
its name in every directory that a power cut may leave, and its path is returned; or a file with its
digest was there. -/
theorem boot_log_saved (hd : TidyAll C d.audit)
    (hreturns : (saveBootLog C out src).run.Yields cs (.ok saved)) (hperf : Performs Sem d cs d') :
    LogSaved C out src (d', cs) saved := by
  have hobeys := obeys_saveBootLog_saved out src (s := (d, [])) hd
  exact hobeys.after hreturns (hperf.withHistory []) saved rfl

namespace Sample

/-- The log is saved in an empty directory. -/
def saving : List (Exchange Op Reply) × State × Prog Op Reply (Except String (Option String)) :=
  runFor (answer chip) 20 (saveBootLog (.ofTable []) "audit" "boot.log").run (fun _ => 41, none)

def savedPath : Prog Op Reply (Except String (Option String)) → Option String
  | .ret (.ok saved) => saved
  | _ => none

theorem of_savedPath {p : Prog Op Reply (Except String (Option String))} {path : String}
    (h : savedPath p = some path) : p = .ret (.ok (some path)) := by
  unfold savedPath at h
  split at h
  · rw [h]
  · cases h

end Sample

/-- It is under its name then. -/
theorem boot_log_saved_first :
    LogSaved (.ofTable []) "audit" "boot.log" (Sample.device Sample.saving.2.1, Sample.saving.1)
      (some (path "audit" Sample.logName)) := by
  obtain ⟨hafter, hperf⟩ := runFor_possible (Sample.answer_possible Sample.chip) 20
    (saveBootLog (.ofTable []) "audit" "boot.log").run (fun _ => 41, none)
  have hpath : Sample.savedPath Sample.saving.2.2 = some (path "audit" Sample.logName) := by
    decide +kernel
  change After _ Sample.saving.1 Sample.saving.2.2 at hafter
  rw [Sample.of_savedPath hpath] at hafter
  exact boot_log_saved (Disk.Tidy.of_none Sample.blank_start.bound Sample.blank_start.unaliased
    Sample.blank_start.none) hafter (hperf.map (g := Sample.device) fun _ _ _ h => h)

end Saving

end TactiqAttest.Prover.Agent
