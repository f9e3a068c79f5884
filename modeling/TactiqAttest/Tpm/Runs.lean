import Mathlib.Data.Prod.Lex
import TactiqAttest.Runs.Labelled
import TactiqAttest.Tpm.Attestation

/-!
# A TPM over time

The part of a TPM's state that its signed statements report, and the steps it takes.  Whoever has
access to the TPM may take any of them, in any order and any number of times: ask for a statement
over any data, extend a PCR, increment the stop counter, delete it and define it again, restart or
reset the machine.  What the TPM itself guarantees is in `Step`:

* the clock does not go back within a boot, and a boot is told from every other one by two counts,
  of which a restart increases the second and a reset the first;
* the stop counter does not decrease, and when it is defined again it starts above everything the
  TPM has held;
* a statement reports the state it was made in.

Two quantities do not decrease over a run: the time, in the order of boots and within a boot of
clocks (`Step.time_le`), and the level of the counter (`Step.level_le`).  So two statements
that report one boot and one counter value pin down everything between them (`held_between`).
-/

open BigEndian

namespace TactiqAttest.Tpm

open Envelope Stop Labelled

/-- What of a TPM the checks depend on. -/
structure State where
  clockInfo : ClockInfo
  /-- The stop counter, if the index is defined. -/
  counter : Option UInt64
  /-- The largest value a counter of this TPM has held. -/
  high : ℕ
  /-- The digest a quote of a selection would carry: a function of the PCR values. -/
  pcrDigest : List Bank → Bytes
  le_high : ∀ v, counter = some v → v.toNat ≤ high

/-- What can happen to a TPM. -/
inductive Action
  | tick
  /-- A PCR changes. -/
  | extend
  | increment
  /-- The index of the stop counter is deleted. -/
  | undefine
  | define
  /-- Something happens to other counters. -/
  | otherCounter
  /-- `Shutdown(STATE)` and `Startup(STATE)`. -/
  | restart
  /-- `Startup(CLEAR)`. -/
  | reset
  | attest (a : Attestation)

namespace State

/-- The boot the TPM is in. -/
def boot (s : State) : ℕ ×ₗ ℕ :=
  toLex (s.clockInfo.resetCount.toNat, s.clockInfo.restartCount.toNat)

/-- The boot, and the clock within it. -/
def time (s : State) : (ℕ ×ₗ ℕ) ×ₗ ℕ := toLex (s.boot, s.clockInfo.clock.toNat)

/-- The value of the stop counter, or a bound for the values it can come back with. -/
def level (s : State) : ℕ :=
  match s.counter with
  | some v => v.toNat
  | none => s.high + 1

theorem boot_eq_iff {s t : State} :
    s.boot = t.boot ↔ sameBoot s.clockInfo t.clockInfo = true := by
  rw [sameBoot_iff, boot, boot, toLex_inj, Prod.mk.injEq, UInt32.toNat_inj, UInt32.toNat_inj]

theorem time_le_iff {s t : State} :
    s.time ≤ t.time ↔
      s.boot < t.boot ∨ s.boot = t.boot ∧ s.clockInfo.clock ≤ t.clockInfo.clock := by
  rw [time, time, Prod.Lex.toLex_le_toLex, UInt64.le_iff_toNat_le]

theorem boot_le_of_time_le {s t : State} (h : s.time ≤ t.time) : s.boot ≤ t.boot := by
  rcases time_le_iff.mp h with hlt | ⟨heq, -⟩
  · exact hlt.le
  · exact heq.le

/-- Where the level is `v` and `v` has been held, the counter is there and is `v`. -/
theorem counter_of_level {s : State} {v : UInt64} (hlevel : s.level = v.toNat)
    (hhigh : v.toNat ≤ s.high) : s.counter = some v := by
  unfold level at hlevel
  split at hlevel
  case h_1 w hw => rw [hw, UInt64.toNat_inj.mp hlevel]
  case h_2 => omega

end State

variable (C : Crypto)

/-- What an attestation says is so in `s`.  The index named `stopIndexName` is the stop counter. -/
def Reports (s : State) : Attestation → Prop
  | .quote q _ => q.clockInfo = s.clockInfo ∧ q.pcrDigest = s.pcrDigest q.pcrBanks.iter
  | .nv i _ _ => i.clock = s.clockInfo ∧
    (i.indexName = (stopIndexName C).toList → ∃ v, s.counter = some v ∧
      i.offset.toNat + i.contents.length ≤ 8 ∧
      i.contents = ((be v).drop i.offset.toNat).take i.contents.length)
  | .other _ _ _ _ => True

/-- The steps of a TPM. -/
inductive Step : State → Action → State → Prop
  | tick {s s' : State} :
    sameBoot s.clockInfo s'.clockInfo = true → s.clockInfo.clock ≤ s'.clockInfo.clock →
    s'.counter = s.counter → s'.high = s.high → s'.pcrDigest = s.pcrDigest → Step s .tick s'
  | extend {s s' : State} :
    s'.clockInfo = s.clockInfo → s'.counter = s.counter → s'.high = s.high → Step s .extend s'
  | increment {s s' : State} {v w : UInt64} :
    s.counter = some v → s'.counter = some w → v ≤ w → s'.high = max s.high w.toNat →
    s'.clockInfo = s.clockInfo → s'.pcrDigest = s.pcrDigest → Step s .increment s'
  | undefine {s s' : State} :
    s'.counter = none → s'.high = s.high →
    s'.clockInfo = s.clockInfo → s'.pcrDigest = s.pcrDigest → Step s .undefine s'
  | define {s s' : State} {w : UInt64} :
    s.counter = none → s'.counter = some w → s.high < w.toNat → s'.high = w.toNat →
    s'.clockInfo = s.clockInfo → s'.pcrDigest = s.pcrDigest → Step s .define s'
  | otherCounter {s s' : State} :
    s'.counter = s.counter → s.high ≤ s'.high →
    s'.clockInfo = s.clockInfo → s'.pcrDigest = s.pcrDigest → Step s .otherCounter s'
  | restart {s s' : State} :
    s'.clockInfo.resetCount = s.clockInfo.resetCount →
    s.clockInfo.restartCount < s'.clockInfo.restartCount →
    s'.counter = s.counter → s'.high = s.high → Step s .restart s'
  | reset {s s' : State} :
    s.clockInfo.resetCount < s'.clockInfo.resetCount →
    s'.counter = s.counter → s'.high = s.high → Step s .reset s'
  | attest {s : State} {a : Attestation} : Reports C s a → Step s (.attest a) s

/-- Every signature the key verifies over bytes that start as the TPM's own structures do was made
by the TPM, in the run, over an attestation of exactly those bytes. -/
def OnlyAttests (vk : C.VerifyingKey) (es : List (Event State Action)) : Prop :=
  ∀ signed sig, C.Verifies vk signed sig → be tpmGeneratedValue <+: signed →
    ∃ e ∈ es, ∃ a, e.label = .attest a ∧ a.bytes = signed

variable {C} {s s' t : State} {a : Action} {es : List (Event State Action)}
  {e : Event State Action}

/-! ## One step -/

/-- A restart or a reset is a later boot. -/
theorem Step.boot_lt (h : Step C s a s') (ha : a = .restart ∨ a = .reset) : s.boot < s'.boot := by
  rw [State.boot, State.boot, Prod.Lex.toLex_lt_toLex]
  cases h with
  | restart hreset hrestart _ _ =>
    exact .inr ⟨congrArg UInt32.toNat hreset.symm, UInt32.lt_iff_toNat_lt.mp hrestart⟩
  | reset hreset _ _ => exact .inl (UInt32.lt_iff_toNat_lt.mp hreset)
  | _ => simp at ha

/-- Time does not go back. -/
theorem Step.time_le (h : Step C s a s') : s.time ≤ s'.time := by
  have hsame : s'.clockInfo = s.clockInfo → s.time ≤ s'.time := by
    intro hclock
    refine le_of_eq ?_
    rw [State.time, State.time, State.boot, State.boot, hclock]
  cases h with
  | tick hboot hclock _ _ _ =>
    exact State.time_le_iff.mpr (.inr ⟨State.boot_eq_iff.mpr hboot, hclock⟩)
  | extend hclock _ _ => exact hsame hclock
  | increment _ _ _ _ hclock _ => exact hsame hclock
  | undefine _ _ hclock _ => exact hsame hclock
  | define _ _ _ _ hclock _ => exact hsame hclock
  | otherCounter _ _ hclock _ => exact hsame hclock
  | restart hreset hrestart hcounter hhigh =>
    exact State.time_le_iff.mpr (.inl ((Step.restart hreset hrestart hcounter hhigh).boot_lt
      (C := C) (.inl rfl)))
  | reset hreset hcounter hhigh =>
    exact State.time_le_iff.mpr (.inl ((Step.reset hreset hcounter hhigh).boot_lt
      (C := C) (.inr rfl)))
  | attest _ => exact le_rfl

theorem Step.high_le (h : Step C s a s') : s.high ≤ s'.high := by
  cases h with
  | tick _ _ _ hhigh _ => exact hhigh.ge
  | extend _ _ hhigh => exact hhigh.ge
  | increment _ _ _ hhigh _ _ => exact hhigh ▸ le_max_left _ _
  | undefine _ hhigh _ _ => exact hhigh.ge
  | define _ _ hlt hhigh _ _ => exact hhigh ▸ hlt.le
  | otherCounter _ hhigh _ _ => exact hhigh
  | restart _ _ _ hhigh => exact hhigh.ge
  | reset _ _ hhigh => exact hhigh.ge
  | attest _ => exact le_rfl

/-- The level of the counter does not go down: it is raised when the index is deleted, to what the
counter has to start at when it comes back. -/
theorem Step.level_le (h : Step C s a s') : s.level ≤ s'.level := by
  have hsame : s'.counter = s.counter → s.high ≤ s'.high → s.level ≤ s'.level := by
    intro hcounter hhigh
    rw [State.level, State.level, hcounter]
    split
    · exact le_rfl
    · exact Nat.succ_le_succ hhigh
  have hhigh := h.high_le
  cases h with
  | tick _ _ hcounter _ _ => exact hsame hcounter hhigh
  | extend _ hcounter _ => exact hsame hcounter hhigh
  | increment hv hw hle _ _ _ =>
    rw [State.level, State.level, hv, hw]
    exact UInt64.le_iff_toNat_le.mp hle
  | undefine hnone hhigh _ _ =>
    rw [State.level, State.level, hnone, hhigh]
    split
    case h_1 v hv => exact Nat.le_succ_of_le (s.le_high v hv)
    case h_2 => exact le_rfl
  | define hnone hw hlt _ _ _ =>
    rw [State.level, State.level, hnone, hw]
    exact hlt
  | otherCounter hcounter _ _ _ => exact hsame hcounter hhigh
  | restart _ _ hcounter _ => exact hsame hcounter hhigh
  | reset _ hcounter _ => exact hsame hcounter hhigh
  | attest _ => exact le_rfl

/-! ## Runs -/

/-- A run that starts and ends in one boot stays in it. -/
theorem no_boot_between (h : Run (Step C) s es t) (hboot : t.boot ≤ s.boot) (he : e ∈ es) :
    e.label ≠ .restart ∧ e.label ≠ .reset := by
  have hmono : ∀ s a s', Step C s a s' → s.boot ≤ s'.boot :=
    fun _ _ _ hstep => State.boot_le_of_time_le hstep.time_le
  obtain ⟨hpre, hpost⟩ := h.squeeze hmono hboot he
  have hstays : ¬ e.pre.boot < e.post.boot := by
    rw [hpre, hpost]
    exact lt_irrefl _
  exact ⟨fun hl => hstays ((h.step_of_mem he).boot_lt (.inl hl)),
    fun hl => hstays ((h.step_of_mem he).boot_lt (.inr hl))⟩

/-- A run that starts and ends with the counter at `v` has it at `v` throughout. -/
theorem counter_between {v : UInt64} (h : Run (Step C) s es t) (hs : s.counter = some v)
    (ht : t.counter = some v) (he : e ∈ es) : e.post.counter = some v := by
  have hlevel : ∀ {r : State}, r.counter = some v → r.level = v.toNat := by
    intro r hr
    rw [State.level, hr]
  obtain ⟨-, hpost⟩ := h.squeeze (fun _ _ _ hstep => hstep.level_le)
    (by rw [hlevel hs, hlevel ht]) he
  obtain ⟨hle, hle', -⟩ := h.mono_mem (fun _ _ _ hstep => hstep.high_le) he
  refine State.counter_of_level (hpost.trans (hlevel hs)) ?_
  exact (s.le_high v hs).trans (hle.trans hle')

/-- Of two events in one boot, the one with the smaller clock comes first. -/
theorem before_of_clock_lt {e₁ e₂ : Event State Action} (h : Run (Step C) s es t) (h₁ : e₁ ∈ es)
    (h₂ : e₂ ∈ es) (hboot : e₁.pre.boot = e₂.pre.boot)
    (hclock : e₁.pre.clockInfo.clock < e₂.pre.clockInfo.clock) : ∃ m, Before es e₁ m e₂ := by
  rcases before_or_before h₁ h₂ with rfl | hbefore | ⟨m, hafter⟩
  · exact absurd hclock (UInt64.lt_irrefl _)
  · exact hbefore
  · have hmono : ∀ s a s', Step C s a s' → s.time ≤ s'.time := fun _ _ _ hstep => hstep.time_le
    have hle : e₂.pre.time ≤ e₁.pre.time :=
      ((h.step_of_mem h₂).time_le).trans ((h.between hafter).mono hmono)
    rcases State.time_le_iff.mp hle with hlt | ⟨-, hle⟩
    · exact absurd (hboot ▸ hlt) (lt_irrefl _)
    · exact absurd (UInt64.lt_of_lt_of_le hclock hle) (UInt64.lt_irrefl _)

/-! ## Signed statements -/

section Signed

variable {vk : C.VerifyingKey} {signed sig : Bytes}

/-- A signed quote was made in the run. -/
theorem OnlyAttests.exists_quote {q : Quote} (h : OnlyAttests C vk es)
    (hsig : C.Verifies vk signed sig) (hq : Quote.parse signed = .ok q) :
    ∃ e ∈ es, ∃ wire, e.label = .attest (.quote q wire) := by
  obtain ⟨e, he, a, hlabel, rfl⟩ := h signed sig hsig (Quote.isPrefix_of_parse hq)
  obtain ⟨wire, rfl⟩ := Attestation.quote_of_parse hq
  exact ⟨e, he, wire, hlabel⟩

/-- A signed certify was made in the run. -/
theorem OnlyAttests.exists_nv {i : NvCertifyInfo} (h : OnlyAttests C vk es)
    (hsig : C.Verifies vk signed sig) (hi : parseNvCertifyInfo signed = .ok i) :
    ∃ e ∈ es, ∃ firmwareVersion wire, e.label = .attest (.nv i firmwareVersion wire) := by
  obtain ⟨e, he, a, hlabel, rfl⟩ := h signed sig hsig (isPrefix_of_parseNvCertifyInfo hi)
  obtain ⟨firmwareVersion, wire, rfl⟩ := Attestation.nv_of_parse hi
  exact ⟨e, he, firmwareVersion, wire, hlabel⟩

/-- An attestation changes nothing and reports the state it was made in. -/
theorem reports_of_attest {a : Attestation} (h : Run (Step C) s es t) (he : e ∈ es)
    (hlabel : e.label = .attest a) : e.post = e.pre ∧ Reports C e.pre a := by
  have hstep := h.step_of_mem he
  rw [hlabel] at hstep
  generalize e.post = post at hstep
  cases hstep with
  | attest hreports => exact ⟨rfl, hreports⟩

end Signed

/-- `e` is a certify of the whole stop counter, which is `v`. -/
def CertifiesCounter (C : Crypto) (e : Event State Action) (i : NvCertifyInfo) (v : UInt64) :
    Prop :=
  (∃ firmwareVersion wire, e.label = .attest (.nv i firmwareVersion wire)) ∧
    i.indexName = (stopIndexName C).toList ∧ i.offset = 0 ∧ i.contents = be v

/-- What a certify of the counter says was so when it was made. -/
theorem counter_of_certifies {i : NvCertifyInfo} {v : UInt64}
    (h : Run (Step C) s es t) (he : e ∈ es) (hcertifies : CertifiesCounter C e i v) :
    e.post = e.pre ∧ e.pre.clockInfo = i.clock ∧ e.pre.counter = some v := by
  obtain ⟨⟨firmwareVersion, wire, hlabel⟩, hname, hoffset, hcontents⟩ := hcertifies
  obtain ⟨hpost, hclock, hreads⟩ := reports_of_attest h he hlabel
  obtain ⟨w, hw, -, hslice⟩ := hreads hname
  refine ⟨hpost, hclock.symm, ?_⟩
  have hbe : be v = be w := by
    rw [hcontents, hoffset, length_be] at hslice
    have hlen : (be w).length = Word.width UInt64 := length_be w
    rw [UInt16.toNat_zero, List.drop_zero, ← hlen, List.take_length] at hslice
    exact hslice
  rw [hw, be_inj.mp hbe]

/-- **Two certifies that report one boot and one value of the counter, at different clocks, pin down
all that is between them**: no restart, no reset, and the counter at that value. -/
theorem held_between {e₁ e₂ : Event State Action} {i₁ i₂ : NvCertifyInfo} {v : UInt64}
    (h : Run (Step C) s es t) (h₁ : e₁ ∈ es) (h₂ : e₂ ∈ es) (hc₁ : CertifiesCounter C e₁ i₁ v)
    (hc₂ : CertifiesCounter C e₂ i₂ v) (hboot : sameBoot i₁.clock i₂.clock = true)
    (hclock : i₁.clock.clock < i₂.clock.clock) :
    ∃ m, Before es e₁ m e₂ ∧ (∀ e ∈ m, e.label ≠ .restart ∧ e.label ≠ .reset) ∧
      ∀ r ∈ statesFrom e₁ m, r.counter = some v := by
  obtain ⟨hpost₁, hclock₁, hcounter₁⟩ := counter_of_certifies h h₁ hc₁
  obtain ⟨-, hclock₂, hcounter₂⟩ := counter_of_certifies h h₂ hc₂
  have hbootEq : e₁.pre.boot = e₂.pre.boot :=
    State.boot_eq_iff.mpr (by rw [hclock₁, hclock₂]; exact hboot)
  obtain ⟨m, hbefore⟩ := before_of_clock_lt h h₁ h₂ hbootEq (by rw [hclock₁, hclock₂]; exact hclock)
  have hrun : Run (Step C) e₁.pre m e₂.pre := hpost₁ ▸ h.between hbefore
  refine ⟨m, hbefore, fun e he => no_boot_between hrun hbootEq.ge he, ?_⟩
  intro r hr
  rcases List.mem_cons.mp hr with rfl | hr
  · rw [hpost₁]
    exact hcounter₁
  · obtain ⟨e, he, rfl⟩ := List.mem_map.mp hr
    exact counter_between hrun hcounter₁ hcounter₂ he

end TactiqAttest.Tpm
