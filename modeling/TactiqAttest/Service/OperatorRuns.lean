import TactiqAttest.Service.OperatorLocked

/-!
# The stop counter, over whole runs of the operator's commands

What follows for the index from the discipline of `OperatorLocked`, over any run of any number of
commands in which processes and the device are killed at any point, and TPM tools fail, before or
after they have done their work.

A tool that a killed process was waiting for may do its work late, when another command has the
lock.  Nothing keeps it from that, so each result says what it says unless such a tool has come in
between: it may have moved the counter on by one, or have defined an index that was not there.
-/

namespace TactiqAttest.Operator

open Labelled Programs Stop Service StopIndex Prog

variable {C : Crypto} {st : Station C} {Faulty : Prop}

/-! ## Whole runs -/

/-- Nobody runs; but tools of killed processes may still be at work. -/
def Floor.idle (s : Option Index) (left : List Op) : Floor := ⟨s, none, nobody Op Reply Out, left⟩

/-- How a process has the lock. -/
abbrev Tenure := Hold (Option Index) Op Reply

/-- A process has the lock. -/
def Floor.Holds (w : Floor) (i : Process) (h : Tenure) : Prop :=
  w.holder = some h ∧ ∃ p, w.running h.pid = some ⟨i, p⟩

/-- No tool of a killed process has changed the index since the lock was taken. -/
def Floor.Undisturbed (w : Floor) : Prop := ∀ h, w.holder = some h → ¬ h.disturbed

/-- How a process with the lock may change the index, which it has had since the index was `s₀`, and
made the calls `cs` since. -/
inductive Station.Change (st : Station C) :
    Process → Option Index → List (Exchange Op Reply) → Option Index → Option Index → Prop
  /-- A stop. -/
  | tripped {s : Option Index} {v : UInt64} {cs : List (Exchange Op Reply)} : Legit s →
      valueOf s = some v → stateOf v = .running → st.Change (.command .trip) s cs s (bumped s v)
  /-- A stop is lifted: the release that has been read is for the next epoch. -/
  | recovered {s : Option Index} {v : UInt64} {cs : List (Exchange Op Reply)} {lift : Lift C} :
      Legit s → valueOf s = some v → stateOf v = .stopped → st.lift = .ok lift →
      Released lift (ReadIn cs) (v + 1) → st.Change (.command .recover) s cs s (bumped s v)
  | defined {args : List String} {cs : List (Exchange Op Reply)} :
      st.Change (.command (.define args)) none cs none (some Index.new)
  /-- The first write of an index that had none, or the move after it. -/
  | settled {args : List String} {want : State} {s₀ s s' : Option Index}
      {cs : List (Exchange Op Reply)} : initialOf args = .ok want → MayDefine want s₀ s →
      Incremented s s' → st.Change (.command (.define args)) s₀ cs s s'

/-- How the index is changed. -/
inductive Station.Alters (st : Station C) (e : Event Floor Happening) : Prop
  /-- By the process that has the lock. -/
  | held {i : Process} {h : Tenure} {c : Exchange Op Reply} : e.label = .call h.pid c →
      e.pre.Holds i h → ¬ h.disturbed → st.Change i h.since h.calls e.pre.state e.post.state →
      st.Alters e
  /-- By the process that has the lock, after a tool has come in between. -/
  | disturbed {i : Process} {h : Tenure} {c : Exchange Op Reply} : e.label = .call h.pid c →
      e.pre.Holds i h → h.disturbed → Touched e.pre.state e.post.state → st.Alters e
  /-- By the tool of a killed process. -/
  | late {c : Exchange Op Reply} : e.label = .late c → c.1 ∈ e.pre.orphans →
      Touched e.pre.state e.post.state → st.Alters e

section Runs

variable {s : Option Index} {left : List Op} {w w' : Floor} {es : List (Event Floor Happening)}
  {i : Process} {k : ℕ}

/-- Everyone asks for the lock. -/
abbrev Station.Orderly (st : Station C) (Faulty : Prop) (w : Floor) : Prop :=
  Queued (Sem Faulty st.files) Grants Harmless
    (fun _ => True) st.Allows (st.Outcome Faulty) Refused w

theorem orderly_idle : st.Orderly Faulty (Floor.idle s left) := queued_empty trivial

/-- What a call that is permitted does to the index. -/
theorem change_of_permitted {s₀ t t' : Option Index} {cs : List (Exchange Op Reply)} {op : Op}
    {r : Reply op} (hop : st.Allows i s₀ (t, cs) op) (hsem : Sem Faulty st.files t ⟨op, r⟩ t') :
    t' = t ∨ st.Change i s₀ cs t t' := by
  rcases hop with h | ⟨rfl, hmay⟩ | ⟨hmake, rfl, auth, rfl⟩
  · exact .inl (still_of_harmless h hsem)
  · have hchanged : Changed Faulty Incremented t r t' := by
      cases hsem with
      | increment h => exact h
      | define h _ => exact absurd h not_isDefine_incrementArgs
      | shown h _ => exact absurd (.inl rfl) h
    rcases hchanged with ⟨hinc, -⟩ | ⟨h, -, -⟩
    · right
      rcases i with task | incoming | p
      · cases task with
        | trip =>
          obtain ⟨rfl, hlegit, v, hv, hstate⟩ := hmay
          rw [((incremented_iff hv).mp hinc).1]
          exact .tripped hlegit hv hstate
        | recover =>
          obtain ⟨lift, hlift, rfl, hlegit, v, hv, hstate, hreleased⟩ := hmay
          rw [((incremented_iff hv).mp hinc).1]
          exact .recovered hlegit hv hstate hlift hreleased
        | define args =>
          obtain ⟨want, hwant, hmay⟩ := hmay
          exact .settled hwant hmay hinc
      · exact hmay.elim
      · exact hmay.elim
    · exact .inl h
  · have hchanged : Changed Faulty Defined none r t' := by
      generalize hargs : defineArgs ++ auth = args at hsem
      cases hsem with
      | increment _ => exact absurd ⟨auth, hargs.symm⟩ not_isDefine_incrementArgs
      | define _ h => exact h
      | shown h _ => exact absurd (.inr ⟨auth, hargs.symm⟩) h
    rcases hchanged with ⟨⟨-, rfl⟩, -⟩ | ⟨h, -, -⟩
    · right
      rcases i with (_ | _ | args) | incoming | p
      · exact hmake.elim
      · exact hmake.elim
      · obtain rfl : s₀ = none := hmake
        exact .defined
      · exact hmake.elim
      · exact hmake.elim
    · exact .inl h

/-- What one step does to the index. -/
theorem alters_of_step {e : Event Floor Happening} (hw : st.Orderly Faulty e.pre)
    (hstep : st.Step Faulty e.pre e.label e.post) : e.post.state = e.pre.state ∨ st.Alters e := by
  obtain ⟨w, a, w'⟩ := e
  replace hstep : st.Step Faulty w a w' := hstep
  rcases a with ⟨k, i⟩ | ⟨k, op, r⟩ | ⟨k, i, out⟩ | k | ⟨op, r⟩ | _
  · cases hstep
    exact .inl rfl
  · obtain ⟨hsem, -⟩ := hstep.of_call
    rcases hw.call lockDiscipline hstep with h | ⟨h, i, p, hholder, rfl, hrunning, hallowed⟩
    · exact .inl h
    by_cases hdisturbed : h.disturbed
    · exact (touched_of_sem hsem).imp_right (.disturbed rfl ⟨hholder, p, hrunning⟩ hdisturbed)
    · exact (change_of_permitted (hallowed hdisturbed) hsem).imp_right
        (.held rfl ⟨hholder, p, hrunning⟩ hdisturbed)
  · cases hstep
    exact .inl rfl
  · cases hstep
    · exact .inl rfl
    · exact .inl rfl
  · obtain ⟨horphan, hsem⟩ := hstep.of_late
    exact (touched_of_sem hsem).imp_right (.late rfl horphan)
  · cases hstep
    exact .inl rfl

/-- **What happens to the index, whoever is killed and whatever fails.** -/
theorem index_changes (hrun : Run (st.Step Faulty) (Floor.idle s left) es w) :
    ∀ e ∈ es, e.post.state = e.pre.state ∨ st.Alters e := by
  intro e he
  obtain ⟨-, hevents⟩ := Steps.kept lockDiscipline hrun orderly_idle
  exact alters_of_step (hevents e he).1 (hrun.step_of_mem he)

/-! A device whose operator has signed a release for the epoch 6, and its TPM. -/

namespace Sample

def key : Bytes :=
  BigEndian.encode 33 0x04c8fe4ee6a4eabb90ccb1bbdf8e6a6f5a57ecbd968a260404e6bce9fb9e75eed3 ++
    BigEndian.encode 32 0x7bba43a3eddea847a3cca5a866b0c3ea332f8406808339eb2ba69bbdc610f611

def releaseSig : Bytes :=
  BigEndian.encode 36 0x304502203909b08d0999cb602afa5c85b3034739849e3a540fdaefecd1b6de69a380ab11 ++
    BigEndian.encode 35 0x022100e09b0f1802260fd903418a021c8d83357a87925beb12aef52d1bcc76e6c83593

/-- The key in PEM. -/
def pem : Bytes := utf8 <|
  "-----BEGIN PUBLIC KEY-----\n" ++
  "MFkwEwYHKoZIzj0CAQYIKoZIzj0DAQcDQgAEyP5O5qTqu5DMsbvfjmpvWlfsvZaK\n" ++
  "JgQE5rzp+5517tN7ukOj7d6oR6PMpahmsMPqMy+EBoCDOesrppu9xhD2EQ==\n" ++
  "-----END PUBLIC KEY-----\n"

def crypto : Crypto := .ofTable [(key, releaseSix, releaseSig)]

def config : Prover.Provision.Config := ⟨"/data/tactiq/keys", "/run/tactiq-stop", none, none, none⟩

def station : Station crypto where
  fromPem text := if text = Text.lossy pem then .ok key else .error "not a P-256 public key"
  cfg := config
  files path := if path = operatorKeyPath then some pem
    else if path = deviceIdPath config then some (Text.ascii "A\n") else none
  rawId := Text.ascii "A\n"
  rawKey := pem
  id_file := by decide +kernel
  key_file := by decide +kernel
  owned := ⟨key, Text.ascii "A", 0x000B, 0x03 ::ᵥ 0x01 ::ᵥ 0x00 ::ᵥ .nil, .replicate 32 0x11, []⟩
  debug := Text.debug

/-- What `tpm2_nvreadpublic` prints. -/
def publicText (written : Bool) : Bytes := utf8 <|
  "0x1500017:\n  name: 000b0102ab\n  hash algorithm:\n    friendly: sha256\n    value: 0xB\n" ++
  "  attributes:\n" ++
  (if written then "    friendly: authwrite|nt=0x1|authread|written\n    value: 0x20040014\n"
    else "    friendly: authwrite|nt=0x1|authread\n    value: 0x40014\n") ++ "  size: 8\n"

def increment (s : Option Index) : Except String Bytes × Option Index :=
  match s, valueOf s with
  | none, _ => (.error "tpm2_nvincrement: no such handle", s)
  | some _, none => (.ok [], withValue s 3)
  | some _, some v =>
    if v < v + 1 then (.ok [], withValue s (v + 1)) else (.error "tpm2_nvincrement: end", s)

def nvdefine (s : Option Index) : Except String Bytes × Option Index :=
  match s with
  | none => (.ok [], some Index.new)
  | some _ => (.error "tpm2_nvdefine: already defined", s)

def shown (s : Option Index) (args : List String) : Except String Bytes :=
  if args = listArgs then .ok (Text.ascii (if s.isSome then "- 0x1500017\n" else "- 0x1500016\n"))
  else if args = publicArgs then
    match s with
    | none => .error "tpm2_nvreadpublic: no such handle"
    | some i => .ok (publicText i.value.isSome)
  else if args = readArgs then
    match valueOf s with
    | none => .error "tpm2_nvread: no value"
    | some v => .ok (BigEndian.be v)
  else .error "not used"

def command (s : Option Index) (args : List String) : Except String Bytes × Option Index :=
  if args = incrementArgs then increment s
  else if args.take defineArgs.length = defineArgs then nvdefine s
  else (shown s args, s)

/-- The calls of a process; the service is down. -/
def machine (holder : Option (ℕ × Option Index)) (s : Option Index) :
    (op : Op) → Reply op × Option Index
  | .workDir => (.ok ⟨true, 0, 0o755⟩, s)
  | .ownUid => (.ok 0, s)
  | .createLock => (.ok (), s)
  | .tryLock => (if holder = none then .acquired else .wouldBlock, s)
  | .beforeDeadline => (true, s)
  | .pause => ((), s)
  | .readFile path =>
    (match station.files path with
      | some b => .ok b
      | none => .error "No such file or directory", s)
  | .readBounded path _ =>
    (if path = release.record then .ok releaseSix else if path = release.sig then .ok releaseSig
      else .error .notFound, s)
  | .tool (.command args) => command s args
  | .tool (.file _) => (.error ⟨false, "not used"⟩, s)
  | .tool (.createDirAll _) => (.ok (), s)
  | .tool (.setMode _ _) => (.ok (), s)
  | .tool (.metadata _) => (.ok (), s)
  | .tool (.readPublic _) => (.ok (), s)
  | .connect => (.error "Connection refused", s)
  | .setReadTimeout => (.ok (), s)
  | .send _ => (.ok (), s)
  | .readToEnd => (.ok [], s)

theorem listed (b : Bool) : Prover.Provision.listingHas (Text.lossy (Text.ascii
    (if b then "- 0x1500017\n" else "- 0x1500016\n"))) stopNvCounter = b := by
  cases b <;> decide +kernel

theorem parse_publicText (written : Bool) : parseNvAttributes (Text.lossy (publicText written)) =
    .ok (if written then stopNvAttributes ||| Prover.tpmaNvWritten else stopNvAttributes) := by
  cases written <;> decide +kernel

theorem changed_increment (s : Option Index) :
    Changed Faulty Incremented s (increment s).1 (increment s).2 := by
  rcases s with _ | i
  · exact .inr ⟨rfl, rfl, .inr fun t h => by cases h.1⟩
  unfold increment
  rcases hv : valueOf (some i) with _ | v
  · refine .inl ⟨⟨rfl, 3, ?_, rfl⟩, .inr rfl⟩
    rw [hv]
    trivial
  · dsimp only
    by_cases hlt : v < v + 1
    · rw [if_pos hlt]
      exact .inl ⟨(incremented_iff hv).mpr ⟨rfl, hlt⟩, .inr rfl⟩
    · rw [if_neg hlt]
      exact .inr ⟨rfl, rfl, .inr fun t h => hlt ((incremented_iff hv).mp h).2⟩

theorem changed_nvdefine (s : Option Index) :
    Changed Faulty Defined s (nvdefine s).1 (nvdefine s).2 := by
  rcases s with _ | i
  · exact .inl ⟨⟨rfl, rfl⟩, .inr rfl⟩
  · exact .inr ⟨rfl, rfl, .inr fun t h => by cases h.1⟩

theorem shown_shown {s : Option Index} (hs : Sound s) (args : List String) :
    Shown Faulty s args (shown s args) := by
  refine ⟨?_, ?_, ?_⟩
  · rintro rfl
    refine ⟨fun o h => ?_, .inl rfl⟩
    cases h
    exact listed s.isSome
  · rintro rfl
    rcases s with _ | i
    · exact ⟨fun o h => (by cases h), .inr (.inr rfl)⟩
    · refine ⟨fun o h => ⟨i, rfl, ?_⟩, .inl rfl⟩
      cases h
      rw [parse_publicText, Index.word, hs i rfl]
  · rintro rfl
    have hshown : shown s readArgs = match valueOf s with
        | none => .error "tpm2_nvread: no value"
        | some v => .ok (BigEndian.be v) := by
      unfold shown
      rw [if_neg (by decide), if_neg (by decide), if_pos rfl]
    rw [hshown]
    rcases hv : valueOf s with _ | v
    · exact ⟨fun o h => (by cases h), .inr (.inr rfl)⟩
    · refine ⟨fun o h => ⟨v, rfl, ?_⟩, .inl rfl⟩
      cases h
      rfl

theorem possible (holder : Option (ℕ × Option Index)) (s : Option Index) (op : Op) (hs : Sound s) :
    Sem Faulty station.files s ⟨op, (machine holder s op).1⟩ (machine holder s op).2 := by
  cases op with
  | tool op =>
    cases op with
    | command args =>
      show Tool Faulty s args (command s args).1 (command s args).2
      unfold command
      split_ifs with hinc hdef
      · rw [hinc]
        exact .increment (changed_increment s)
      · refine .define ⟨args.drop defineArgs.length, ?_⟩ (changed_nvdefine s)
        conv_lhs => rw [← List.take_append_drop defineArgs.length args, hdef]
      · refine .shown ?_ (shown_shown hs args)
        rintro (h | ⟨auth, rfl⟩)
        · exact hinc h
        · exact hdef List.take_left
    | metadata p => exact ⟨rfl, .inl rfl⟩
    | _ => rfl
  | readFile path =>
    refine ⟨rfl, fun b b' hr hfile => ?_⟩
    have hreply : (match station.files path with
      | some b => Except.ok b
      | none => .error "No such file or directory") = Except.ok b := hr
    rw [hfile] at hreply
    exact (Except.ok.inj hreply).symm
  | _ => rfl

/-- The index, at a value. -/
def standing (v : UInt64) : Option Index := some { Index.new with value := some v }

theorem sound_none : Sound none := fun _ h => by cases h

theorem sound_standing (v : UInt64) : Sound (standing v) := by
  rintro _ ⟨⟩
  rfl

/-- What a process by itself comes to: it leaves `s'`, having had the lock since `s₀`, and returns
`out`. -/
def Comes (i : Process) (k : ℕ) (s s₀ s' : Option Index) (out : Out i) : Prop :=
  let alone := solo machine takes k 40 (station.program i) s none
  (alone.1, alone.2.1, alone.2.2.result) = (s', some (k, s₀), some out)

theorem comes_trip : Comes (.command .trip) 0 (standing 4) (standing 4) (standing 5) (.ok ()) :=
  show (_, _, _) = _ by decide +kernel

theorem comes_recover : Comes (.command .recover) 1 (standing 5) (standing 5)
    (standing 6) (.ok ()) :=
  show (_, _, _) = _ by decide +kernel

/-- Nobody else gets the lock. -/
theorem free_of_takes (holder : Option (ℕ × Option Index)) (s : Option Index) (op : Op)
    (h : takes op (machine holder s op).1 = true) : holder = none := by
  cases op with
  | tryLock =>
    rcases holder with _ | _
    · rfl
    · cases h
  | _ => cases h

theorem sound_kept (s : Option Index) (c : Exchange Op Reply) (s' : Option Index) (hs : Sound s)
    (hsem : Sem Faulty station.files s c s') : Sound s' := sound_of_sem hs hsem

variable (Faulty left) in
/-- A process, from where nobody runs. -/
theorem run_process {i : Process} {k n : ℕ} {s s' : Option Index}
    {holder : Option (ℕ × Option Index)} {out : Out i} (hs : Sound s)
    (hstate : (solo machine takes k n (station.program i) s none).1 = s')
    (hholder : (solo machine takes k n (station.program i) s none).2.1 = holder)
    (hout : (solo machine takes k n (station.program i) s none).2.2.result = some out)
    (hpid : ∀ x, holder = some x → x.1 = k) :
    ∃ w es w₁, Kept w₁.holder holder ∧ (∃ p, w₁.running k = some ⟨i, p⟩) ∧
      Run (station.Step Faulty) (Floor.idle s left) (⟨Floor.idle s left, .start k i, w⟩ ::
        (es ++ [⟨w₁, .finish k i out, Floor.idle s' left⟩])) (Floor.idle s' left) :=
  run_through sound_kept possible free_of_takes hs
    (Prod.ext hstate (Prod.ext hholder rfl)) hout hpid

variable (Faulty left) in
/-- A command. -/
theorem run_command {i : Process} {k : ℕ} {s s₀ s' : Option Index} {out : Out i} (hs : Sound s)
    (hcomes : Comes i k s s₀ s' out) :
    ∃ es w₁ h, w₁.Holds i h ∧ h.pid = k ∧ h.since = s₀ ∧ ¬ h.disturbed ∧
      Run (station.Step Faulty) (Floor.idle s left)
        (es ++ [⟨w₁, .finish k i out, Floor.idle s' left⟩]) (Floor.idle s' left) := by
  obtain ⟨hstate, hrest⟩ := Prod.mk.inj hcomes
  obtain ⟨hholder, hout⟩ := Prod.mk.inj hrest
  have hpid : ∀ x, some (k, s₀) = some x → x.1 = k := by
    rintro _ ⟨⟩
    rfl
  obtain ⟨w, es, w₁, hkept, hrunning, hrun⟩ := run_process Faulty left hs hstate hholder hout hpid
  obtain ⟨h, hh, heq⟩ := Option.map_eq_some_iff.mp hkept.same
  obtain ⟨rfl, rfl⟩ := Prod.mk.inj heq
  exact ⟨_ :: es, w₁, h, ⟨hh, hrunning⟩, rfl, rfl, hkept.undisturbed h hh, hrun⟩

variable (Faulty) in
/-- A stop, which is lifted. -/
theorem stopped_and_lifted : ∃ es₁ es₂ w₁, w₁.Undisturbed ∧
    Run (station.Step Faulty) (Floor.idle (standing 4) [])
      (es₁ ++ ⟨w₁, .finish 0 (.command .trip) (.ok ()), Floor.idle (standing 5) []⟩ :: es₂)
      (Floor.idle (standing 6) []) := by
  obtain ⟨es₁, w₁, h, hholds, -, -, hundisturbed, hrun₁⟩ :=
    run_command Faulty [] (sound_standing 4) comes_trip
  obtain ⟨es₂, w₂, -, -, -, -, -, hrun₂⟩ := run_command Faulty [] (sound_standing 5) comes_recover
  refine ⟨es₁, es₂ ++ [⟨w₂, .finish 1 (.command .recover) (.ok ()), Floor.idle (standing 6) []⟩],
    w₁, fun h' hh' => ?_, ?_⟩
  · cases hholds.1.symm.trans hh'
    exact hundisturbed
  · have hrun := Run.append_iff.mpr ⟨_, hrun₁, hrun₂⟩
    rwa [List.append_assoc, List.singleton_append] at hrun

end Sample

open Sample in
theorem index_changes_first : ∃ es, Run (station.Step True) (Floor.idle (standing 4) []) es
      (Floor.idle (standing 6) []) ∧
    ∀ e ∈ es, e.post.state = e.pre.state ∨ station.Alters e := by
  obtain ⟨es₁, es₂, w₁, -, hrun⟩ := stopped_and_lifted True
  exact ⟨_, hrun, index_changes hrun⟩

/-- **What a command comes to** is what it comes to alone, on the index as it was when it got the
lock, unless a tool has come in between. -/
theorem command_outcome (hrun : Run (st.Step Faulty) (Floor.idle s left) es w) :
    ∀ e ∈ es, ∀ k i out, e.label = .finish k i out → e.post.state = e.pre.state ∧
      ((∃ h, e.pre.Holds i h ∧ h.pid = k ∧
          (h.disturbed ∨ st.Outcome Faulty i h.since (e.pre.state, h.calls) out)) ∨
        (∀ h, e.pre.Holds i h → h.pid ≠ k) ∧ Refused i out) := by
  rintro ⟨w₁, a, w₂⟩ he k i out rfl
  obtain ⟨-, hevents⟩ := Steps.kept lockDiscipline hrun orderly_idle
  have hstep := hrun.step_of_mem he
  obtain ⟨hstate, ⟨h, hholder, rfl, -, hout⟩ | ⟨hnot, hout⟩⟩ := (hevents _ he).1.finished hstep
  · refine ⟨hstate, .inl ⟨h, ⟨hholder, _, hstep.of_finish.1⟩, rfl, ?_⟩⟩
    exact or_iff_not_imp_left.mpr hout
  · exact ⟨hstate, .inr ⟨fun h hholds => hnot h hholds.1, hout⟩⟩

open Sample in
theorem command_outcome_first : ∃ es, Run (station.Step True) (Floor.idle (standing 4) []) es
      (Floor.idle (standing 6) []) ∧
    ∀ e ∈ es, ∀ k i out, e.label = .finish k i out → e.post.state = e.pre.state ∧
      ((∃ h, e.pre.Holds i h ∧ h.pid = k ∧
          (h.disturbed ∨ station.Outcome True i h.since (e.pre.state, h.calls) out)) ∨
        (∀ h, e.pre.Holds i h → h.pid ≠ k) ∧ Refused i out) := by
  obtain ⟨es₁, es₂, w₁, -, hrun⟩ := stopped_and_lifted True
  exact ⟨_, hrun, command_outcome hrun⟩

/-- A stop is lifted: the release that has been read, since the lock was taken at this very value,
is for the next epoch. -/
def Station.Lifts (st : Station C) (e : Event Floor Happening) (v : UInt64) : Prop :=
  ∃ h c lift, e.label = .call h.pid c ∧ e.pre.Holds (.command .recover) h ∧
    h.since = e.pre.state ∧ st.lift = .ok lift ∧ Released lift (ReadIn h.calls) (v + 1) ∧
    e.post.state = bumped e.pre.state v

/-- The tool of a killed process moves the counter on. -/
def Strays (e : Event Floor Happening) (v : UInt64) : Prop :=
  ∃ c, e.label = .late c ∧ c.1 ∈ e.pre.orphans ∧ e.post.state = bumped e.pre.state v

/-- Who has the lock has had it since the index is as it is. -/
def Floor.Fresh (w : Floor) : Prop := ∀ h, w.holder = some h → h.since = w.state ∧ ¬ h.disturbed

theorem Floor.Fresh.step {a : Happening} (h : w.Fresh) (hstep : st.Step Faulty w a w')
    (hstate : w'.state = w.state) : w'.Fresh := by
  have hgone : ∀ k, Floor.Fresh (w.without k) :=
    fun k held hheld => h held (release_eq_some.mp hheld).1
  cases hstep with
  | start k i hfree => exact h
  | call hrunning hno hsem =>
    intro held' hheld'
    obtain ⟨held, hheld, rfl⟩ := Option.map_eq_some_iff.mp hheld'
    rw [hstate, (held.note_kept _).2.1, (held.note_kept _).2.2]
    exact h held hheld
  | lock hrunning hgrants hfree hsem =>
    rintro _ ⟨⟩
    exact ⟨rfl, id⟩
  | finish hrunning => exact hgone _
  | kill k => exact hgone k
  | @abandon k i op next hrunning => exact hgone k
  | late horphans hsem =>
    intro held' hheld'
    obtain ⟨held, hheld, rfl⟩ := Option.map_eq_some_iff.mp hheld'
    obtain ⟨hsince, hundisturbed⟩ := h held hheld
    refine ⟨hsince.trans hstate.symm, ?_⟩
    rintro (hbefore | hchange)
    · exact hundisturbed hbefore
    · exact hchange hstate
  | crash => exact fun held hheld => by cases hheld

/-- From a stop that the holder of the lock knows of, the index stays as it is until it is lifted,
or a tool comes late. -/
theorem stopped_until_lifted {v : UInt64} (hw : st.Orderly Faulty w) (hfresh : w.Fresh)
    (hv : valueOf w.state = some v) (hstate : stateOf v = .stopped)
    (hrun : Run (st.Step Faulty) w es w') :
    (w'.state = w.state ∧ ∀ e ∈ es, e.post.state = w.state) ∨
      ∃ e ∈ es, e.pre.state = w.state ∧ (st.Lifts e v ∨ Strays e v) := by
  induction hrun with
  | nil w => exact .inl ⟨rfl, fun e he => by cases he⟩
  | @cons w m w' a es hstep hrun ih =>
    rcases alters_of_step (e := ⟨w, a, m⟩) hw hstep with hsame | halters
    · replace hsame : m.state = w.state := hsame
      rw [← hsame] at hv
      rcases ih (hw.step lockDiscipline hstep) (hfresh.step hstep hsame) hv with
        h | ⟨e, he, hpre, h⟩
      · obtain ⟨hend, hall⟩ := h
        rw [hsame] at hend hall
        exact .inl ⟨hend, List.forall_mem_cons.mpr ⟨hsame, hall⟩⟩
      · exact .inr ⟨e, List.mem_cons_of_mem _ he, hpre.trans hsame, h⟩
    refine .inr ⟨⟨w, a, m⟩, List.mem_cons_self, rfl, ?_⟩
    cases halters with
    | @held i h c hlabel hholds _ hchange =>
      obtain ⟨hsince, -⟩ := hfresh h hholds.1
      replace hchange : st.Change i h.since h.calls w.state m.state := hchange
      rw [hsince] at hchange
      generalize hs : w.state = s at hchange hv
      generalize hs' : m.state = s' at hchange
      generalize hcs : h.calls = cs at hchange
      cases hchange with
      | @tripped s u _ _ hu hrunning =>
        obtain rfl : v = u := Option.some_inj.mp (hv.symm.trans hu)
        rw [hstate] at hrunning
        cases hrunning
      | @recovered s u _ lift _ hu _ hlift hreleased =>
        obtain rfl : v = u := Option.some_inj.mp (hv.symm.trans hu)
        refine .inl ⟨h, c, lift, hlabel, hholds, hsince, hlift, hcs ▸ hreleased, ?_⟩
        show m.state = bumped w.state v
        rw [hs, hs']
      | defined => cases hv
      | settled _ hmay _ =>
        rw [hmay.1] at hv
        cases hv
    | disturbed _ hholds hdisturbed _ => exact absurd hdisturbed (hfresh _ hholds.1).2
    | @late c hlabel horphan htouched =>
      refine .inr ⟨c, hlabel, horphan, ?_⟩
      rcases htouched with hinc | ⟨hnone, -⟩
      · exact ((incremented_iff hv).mp hinc).1
      · replace hnone : w.state = none := hnone
        rw [hnone] at hv
        cases hv

/-- After a `trip` that reports success, the counter is odd, and nobody has the lock who does not
know. -/
theorem stopped_of_trip {es₁ : List (Event Floor Happening)} {w₁ w₂ : Floor}
    (hrun : Run (st.Step Faulty) (Floor.idle s left) es₁ w₁)
    (hstep : st.Step Faulty w₁ (.finish k (.command .trip) (.ok ())) w₂) (hw₁ : w₁.Undisturbed) :
    st.Orderly Faulty w₂ ∧ w₂.Fresh ∧ Legit w₂.state ∧
      ∃ v, valueOf w₂.state = some v ∧ stateOf v = .stopped := by
  obtain ⟨horderly, -⟩ := Steps.kept lockDiscipline hrun orderly_idle
  refine ⟨horderly.step lockDiscipline hstep, ?_⟩
  obtain ⟨hstate, ⟨h, hholder, rfl, -, hout⟩ | ⟨-, hout⟩⟩ := horderly.finished hstep
  · rw [hstate]
    refine ⟨fun h' hh' => ?_, ?_⟩
    · rw [hstep.of_finish.2] at hh'
      obtain ⟨hh', hne⟩ := release_eq_some.mp hh'
      cases hholder.symm.trans hh'
      exact absurd rfl hne
    · cases hout (hw₁ h hholder) with
      | @done tr _ hlegit hmoved =>
        replace hmoved : Moved Faulty .stopped h.since w₁.state (.ok tr) := hmoved
        refine ⟨?_, hmoved.wanted⟩
        rcases hmoved.index with hsame | ⟨u, -, -, -, hnext⟩
        · rwa [hsame]
        · rw [hnext]
          exact legit_withValue.mpr hlegit
  · cases hout

/-- **A stop lasts**: after a `trip` that reports success, and that no tool of a killed process came
in between, the counter is odd, and stays as it is, whatever else is run, killed or fails, until the
release for the next epoch lifts it, or such a tool comes late. -/
theorem stop_lasts {es₁ es₂ : List (Event Floor Happening)} {w₁ w₂ : Floor}
    (hrun : Run (st.Step Faulty) (Floor.idle s left)
      (es₁ ++ ⟨w₁, .finish k (.command .trip) (.ok ()), w₂⟩ :: es₂) w) (hw₁ : w₁.Undisturbed) :
    Legit w₂.state ∧ ∃ v, valueOf w₂.state = some v ∧ stateOf v = .stopped ∧
      (w.state = w₂.state ∨ ∃ e ∈ es₂, e.pre.state = w₂.state ∧ (st.Lifts e v ∨ Strays e v)) := by
  obtain ⟨hrun₁, hstep, hrun₂⟩ := hrun.around
  obtain ⟨hw₂, hfresh, hlegit, v, hv, hstopped⟩ := stopped_of_trip hrun₁ hstep hw₁
  refine ⟨hlegit, v, hv, hstopped, ?_⟩
  rcases stopped_until_lifted hw₂ hfresh hv hstopped hrun₂ with h | h
  · exact .inl h.1
  · exact .inr h

open Sample in
theorem stop_lasts_first : ∃ es₁ es₂ w₁, w₁.Undisturbed ∧
    Run (station.Step True) (Floor.idle (standing 4) [])
      (es₁ ++ ⟨w₁, .finish 0 (.command .trip) (.ok ()), Floor.idle (standing 5) []⟩ :: es₂)
      (Floor.idle (standing 6) []) ∧
    Legit (standing 5) ∧ ∃ v, valueOf (standing 5) = some v ∧ stateOf v = .stopped ∧
      (standing 6 = standing 5 ∨
        ∃ e ∈ es₂, e.pre.state = standing 5 ∧ (station.Lifts e v ∨ Strays e v)) := by
  obtain ⟨es₁, es₂, w₁, hw₁, hrun⟩ := stopped_and_lifted True
  exact ⟨es₁, es₂, w₁, hw₁, hrun, stop_lasts hrun hw₁⟩

/-! ## What the gateway is told -/

/-- At a stop, no call is let through. -/
theorem obeys_admit_stopped {t : Option Index} {v : UInt64} {ctx : Ctx C} {d : List.Vector UInt8 32}
    (hv : valueOf t = some v) (hstate : stateOf v = .stopped) :
    Obeys (Counted Faulty) (fun _ _ => True) (admitCall ctx d).run
    (fun _ r => r ≠ .ok .allow) t := by
  refine obeys_tryBind (obeys_perform trivial ?_)
  rintro (e | w) t' ⟨rfl, hval, -⟩
  · rintro ⟨⟩
  obtain rfl : v = w := Option.some_inj.mp (hv.symm.trans (hval w rfl))
  have hgate : gate ctx.lift v = (return .stopped) := if_pos hstate
  show Obeys _ _ (gate ctx.lift v >>= fun g => admitAt ctx d v g).run _ _
  rw [hgate, pure_bind]
  refine obeys_tryBind (obeys_of_forall (fun _ _ => trivial) fun t' r => ?_)
  rcases r with e | receipt
  · rintro ⟨⟩
  · rintro ⟨⟩

/-- So 200 is not what the service answers, as it reads the counter through the tools. -/
theorem obeys_question_stopped {t : Option Index} {v : UInt64} {incoming : List Incoming}
    (hv : valueOf t = some v) (hstate : stateOf v = .stopped) :
    Obeys (Sem Faulty st.files) (fun _ _ => True) (st.program (.question incoming))
      (fun _ r => r.code ≠ 200) t := by
  have hcode : Obeys (Counted Faulty) (fun _ _ => True) (handle st.debug incoming st.owned.ctx)
      (fun _ r => r.code ≠ 200) t := by
    unfold handle
    rcases readRequest st.debug [] incoming with e | req
    · exact (by decide : (400 : ℕ) ≠ 200)
    · refine obeys_bind ((obeys_admit_stopped hv hstate).mono (fun _ _ h => h) fun t' r hr => ?_)
      rcases r with e | allow | receipt
      · exact (by decide : (503 : ℕ) ≠ 200)
      · exact absurd rfl hr
      · exact (by decide : (403 : ℕ) ≠ 200)
  have hquiet : Obeys (Counted Faulty)
    (fun _ op => IsQuiet op) (handle st.debug incoming st.owned.ctx)
      (fun _ _ => True) t :=
    handle_quiet.obeys (I := fun _ => True) (fun _ _ _ hop => hop)
      (fun _ _ _ _ _ _ _ => trivial) trivial
  refine (obeys_interpret (fun t : Option Index => t)
    (fun _ => True) ?_ trivial (hquiet.and hcode)).mono
    (fun _ _ h => h) fun _ _ h => h.2.2
  intro t op _ hop
  have hcall : Obeys (Sem Faulty st.files) (Permitted False fun _ => False) (real st.cfg op)
      (fun t' r => Counted Faulty t ⟨op, r⟩ t') t := counted_real fun h => absurd h hop.1
  exact hcall.mono (fun _ _ _ => trivial) fun _ _ h => ⟨trivial, h⟩

/-- A call passes. -/
def Passes : (i : Process) → Out i → Prop
  | .question _, response => response.code = 200
  | _, _ => False

/-- **No call passes after a stop.**  A question of the gateway that arrives after a `trip` has
reported success, with no tool of a killed process in between, is answered 200 only if in the
meantime the release for the next epoch has lifted the stop, or such a tool has moved the counter,
whoever else runs, is killed or fails. -/
theorem no_call_passes {es₁ es₂ es₃ : List (Event Floor Happening)}
    {w₁ w₂ w₃ w₄ w₅ : Floor} {k' : ℕ} {incoming : List Incoming} {response : Response}
    (hrun : Run (st.Step Faulty) (Floor.idle s left)
      (es₁ ++ ⟨w₁, .finish k (.command .trip) (.ok ()), w₂⟩ ::
        (es₂ ++ ⟨w₃, .start k' (.question incoming), w₄⟩ ::
          (es₃ ++ [⟨w₅, .finish k' (.question incoming) response, w⟩]))) w)
    (hw₁ : w₁.Undisturbed) (hcode : response.code = 200) :
    ∃ v, valueOf w₂.state = some v ∧ stateOf v = .stopped ∧
      ∃ e ∈ es₂ ++ es₃, e.pre.state = w₂.state ∧ (st.Lifts e v ∨ Strays e v) := by
  obtain ⟨hrun₁, hstep, hrun₂⟩ := hrun.around
  obtain ⟨hw₂, hfresh, -, v, hv, hstopped⟩ := stopped_of_trip hrun₁ hstep hw₁
  refine ⟨v, hv, hstopped, ?_⟩
  -- up to where the question is answered
  obtain ⟨hbefore, hstart, hafter⟩ := hrun₂.around
  replace hstart : st.Step Faulty w₃ (.start k' (.question incoming)) w₄ := hstart
  obtain ⟨m, hduring, hlast⟩ := Run.append_iff.mp hafter
  obtain ⟨hm, hfinish, -⟩ := Run.cons_iff.mp hlast
  obtain rfl : w₅ = m := hm.symm
  replace hfinish : st.Step Faulty w₅ (.finish k' (.question incoming) response) w := hfinish
  have hquestion : Run (st.Step Faulty) w₃ (⟨w₃, .start k' (.question incoming), w₄⟩ :: es₃) w₅ :=
    .cons hstart hduring
  have hmiddle : Run (st.Step Faulty) w₂
      (es₂ ++ ⟨w₃, .start k' (.question incoming), w₄⟩ :: es₃) w₅ :=
    Run.append_iff.mpr ⟨w₃, hbefore, hquestion⟩
  rcases stopped_until_lifted hw₂ hfresh hv hstopped hmiddle with
    ⟨-, hstill⟩ | ⟨e, he, hpre, hlifts⟩
  · -- the index has not been touched, so the answer is not 200
    have hstate : w₃.state = w₂.state := by
      have hpost := hstill ⟨w₃, .start k' (.question incoming), w₄⟩ (by simp)
      cases hstart with
      | start _ _ hfree => exact hpost
    have hidle : w₃.running k' = none := by
      cases hstart with
      | start _ _ hfree => exact hfree
    have hall : ∀ i, Obeys (Sem Faulty st.files) (fun _ _ => True) (st.program i)
        (fun _ out => ¬ Passes i out) w₂.state := by
      intro i
      cases i with
      | command task => exact obeys_of_forall (fun _ _ => trivial) fun _ _ h => h
      | question incoming => exact obeys_question_stopped hv hstopped
      | other p => exact obeys_of_forall (fun _ _ => trivial) fun _ _ h => h
    have hout := Steps.obeyed hall hquestion hstate hidle
      (fun e he => hstill e (List.mem_append_right _ he)) _ _ hfinish.of_finish.1
    exact absurd hcode hout
  · refine ⟨e, ?_, hpre, hlifts⟩
    rcases List.mem_append.mp he with h | h
    · exact List.mem_append_left _ h
    · rcases List.mem_cons.mp h with rfl | h
      · rcases hlifts with ⟨_, _, _, hlabel, -⟩ | ⟨_, hlabel, -⟩
        · cases hlabel
        · cases hlabel
      · exact List.mem_append_right _ h

namespace Sample

/-- A question of the gateway. -/
def question : List Incoming :=
  [.bytes (utf8 "POST /mcp HTTP/1.1\r\nContent-Length: 2\r\n\r\n\x7b\x7d")]

theorem solo_question :
    ((solo machine takes 2 40 (station.program (.question question)) (standing 6) none).1,
      (solo machine takes 2 40 (station.program (.question question)) (standing 6) none).2.1,
      (solo machine takes 2 40 (station.program (.question question))
        (standing 6) none).2.2.result.map
        Response.code) = (standing 6, none, some 200) := by
  decide +kernel

variable (Faulty) in
/-- After a stop that has been lifted, it is answered 200. -/
theorem answered : ∃ w es w₁ response, response.code = 200 ∧
    Run (station.Step Faulty) (Floor.idle (standing 6) [])
      (⟨Floor.idle (standing 6) [], .start 2 (.question question), w⟩ ::
        (es ++ [⟨w₁, .finish 2 (.question question) response, Floor.idle (standing 6) []⟩]))
      (Floor.idle (standing 6) []) := by
  obtain ⟨hstate, hrest⟩ := Prod.mk.inj solo_question
  obtain ⟨hholder, hout⟩ := Prod.mk.inj hrest
  obtain ⟨response, hout, hcode⟩ := Option.map_eq_some_iff.mp hout
  obtain ⟨w, es, w₁, -, -, hrun⟩ :=
    run_process Faulty [] (sound_standing 6) hstate hholder hout fun _ h => by cases h
  exact ⟨w, es, w₁, response, hcode, hrun⟩

end Sample

open Sample in
theorem no_call_passes_first : ∃ es₁ es₂ es₃ w₁ w₄ w₅ response, w₁.Undisturbed ∧
    response.code = 200 ∧ Run (station.Step True) (Floor.idle (standing 4) [])
      (es₁ ++ ⟨w₁, .finish 0 (.command .trip) (.ok ()), Floor.idle (standing 5) []⟩ ::
        (es₂ ++ ⟨Floor.idle (standing 6) [], .start 2 (.question question), w₄⟩ ::
          (es₃ ++ [⟨w₅, .finish 2 (.question question) response, Floor.idle (standing 6) []⟩])))
      (Floor.idle (standing 6) []) ∧
    ∃ v, valueOf (standing 5) = some v ∧ stateOf v = .stopped ∧
      ∃ e ∈ es₂ ++ es₃, e.pre.state = standing 5 ∧ (station.Lifts e v ∨ Strays e v) := by
  obtain ⟨es₁, es₂, w₁, hw₁, hrun⟩ := stopped_and_lifted True
  obtain ⟨w₄, es₃, w₅, response, hcode, hrun'⟩ := answered True
  have hall := Run.append_iff.mpr ⟨_, hrun, hrun'⟩
  rw [List.append_assoc, List.cons_append] at hall
  exact ⟨es₁, es₂, es₃, w₁, w₄, w₅, response, hw₁, hcode, hall, no_call_passes hall hw₁ hcode⟩

/-! ## What a killed `define` leaves -/

/-- **What a killed `define` leaves can be finished.**  Whatever has been run before, with whatever
killed and failing, from no index or one this code was written for, and with the tools of killed
processes still at work: on a TPM that does not fail, a `define` that gets the lock, and that none
of these tools comes in between, leaves an index that has been written as it is, and says so; and
one that has not been, or is not there, it brings to the state it is asked for --- unless the TPM
starts the counter at its end. -/
theorem define_completes {es₁ es₂ : List (Event Floor Happening)} {w₁ w₂ : Floor}
    {args : List String} {want : State} {out : Except String Unit} {h : Tenure} (hs : Sound s)
    (hbefore : Run (st.Step True) (Floor.idle s left) es w)
    (hrun : Run (st.Step False) (Floor.idle w.state w.orphans)
      (es₁ ++ ⟨w₁, .finish h.pid (.command (.define args)) out, w₂⟩ :: es₂) w')
    (hwant : initialOf args = .ok want) (hholds : w₁.Holds (.command (.define args)) h)
    (hundisturbed : ¬ h.disturbed) :
    (valueOf h.since ≠ none ∧ w₂.state = h.since ∧ out.isOk = false) ∨
      valueOf h.since = none ∧ (AtEnd w₂.state ∨
        out = .ok () ∧ Legit w₂.state ∧ ∃ v, valueOf w₂.state = some v ∧ stateOf v = want) := by
  obtain ⟨hw, -⟩ := Steps.kept soundDiscipline hbefore (queued_empty hs)
  obtain ⟨hrun₁, hstep, -⟩ := hrun.around
  replace hstep : st.Step False w₁ (.finish h.pid (.command (.define args)) out) w₂ := hstep
  obtain ⟨hw₁, -⟩ := Steps.kept soundDiscipline hrun₁ (queued_empty hw.state)
  obtain ⟨hstate, ⟨h', hholder, -, hsound, hout⟩ | ⟨hnot, -⟩⟩ := hw₁.finished hstep
  · cases hholder.symm.trans hholds.1
    obtain ⟨want', hwant', hmade⟩ := hout hundisturbed
    cases hwant.symm.trans hwant'
    rw [hstate]
    by_cases hs₀ : valueOf h.since = none
    · refine .inr ⟨hs₀, ?_⟩
      rcases hmade.complete id hsound hs₀ with hok | hend
      · rcases out with e | ⟨⟩
        · cases hok
        · exact .inr ⟨rfl, hmade.ok rfl⟩
      · exact .inl hend
    · exact .inl ⟨hs₀, hmade.untouched hs₀⟩
  · exact absurd rfl (hnot h hholds.1)

namespace Sample

/-- The call is an increment. -/
def isIncrement : Op → Bool
  | .tool (.command args) => args = incrementArgs
  | _ => false

theorem eq_of_isIncrement {op : Op} (h : isIncrement op = true) : op = incrementCall := by
  cases op with
  | tool op =>
    cases op with
    | command args =>
      obtain rfl : args = incrementArgs := of_decide_eq_true h
      rfl
    | _ => cases h
  | _ => cases h

theorem solo_define :
    ((solo machine takes 0 6 (station.program (.command (.define []))) none none).1,
      (solo machine takes 0 6 (station.program (.command (.define []))) none none).2.1,
      (solo machine takes 0 6 (station.program (.command (.define []))) none none).2.2.pending.map
        isIncrement) = (some Index.new, some (0, none), some true) := by
  decide +kernel

/-- A `define`, killed when it has created the index, while it writes it. -/
theorem killed_define : ∃ es, Run (station.Step True) (Floor.idle none []) es
    (Floor.idle (some Index.new) [incrementCall]) := by
  obtain ⟨hstate, hrest⟩ := Prod.mk.inj solo_define
  obtain ⟨hholder, hpending⟩ := Prod.mk.inj hrest
  obtain ⟨op, hop, hinc⟩ := Option.map_eq_some_iff.mp hpending
  obtain rfl := eq_of_isIncrement hinc
  have hpid : ∀ x : ℕ × Option Index, some (0, none) = some x → x.1 = 0 := by
    rintro _ ⟨⟩
    rfl
  exact run_abandoned sound_kept possible free_of_takes sound_none
    (Prod.ext hstate (Prod.ext hholder rfl)) hop hpid

theorem comes_define :
    Comes (.command (.define [])) 1 (some Index.new) (some Index.new) (standing 3) (.ok ()) :=
  show (_, _, _) = _ by decide +kernel

end Sample

open Sample in
theorem define_completes_first : ∃ es w es₁ w₁, ∃ h : Tenure,
    Run (station.Step True) (Floor.idle none []) es w ∧
    w.state = some Index.new ∧ w.orphans = [incrementCall] ∧
    Run (station.Step False) (Floor.idle w.state w.orphans)
      (es₁ ++ [⟨w₁, .finish h.pid (.command (.define [])) (.ok ()),
        Floor.idle (standing 3) [incrementCall]⟩]) (Floor.idle (standing 3) [incrementCall]) ∧
    ((valueOf h.since ≠ none ∧ standing 3 = h.since ∧ (.ok () : Except String Unit).isOk = false) ∨
      valueOf h.since = none ∧ (AtEnd (standing 3) ∨ (.ok () : Except String Unit) = .ok () ∧
        Legit (standing 3) ∧ ∃ v, valueOf (standing 3) = some v ∧ stateOf v = .stopped)) := by
  obtain ⟨es, hbefore⟩ := killed_define
  obtain ⟨es₁, w₁, h, hholds, hpid, -, hundisturbed, hrun⟩ :=
    run_command False [incrementCall] (sound_of_legit legit_new) comes_define
  rw [← hpid] at hrun
  refine ⟨es, _, es₁, w₁, h, hbefore, rfl, rfl, hrun, ?_⟩
  exact define_completes sound_none hbefore hrun rfl hholds hundisturbed

end Runs

end TactiqAttest.Operator
