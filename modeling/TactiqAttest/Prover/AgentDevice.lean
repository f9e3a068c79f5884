import TactiqAttest.Programs.Hosts
import TactiqAttest.Prover.AgentOrder
import TactiqAttest.Prover.BootLog

/-!
# The device the agent runs on

Agent processes come and go; what stays is the device: the values of its NV counters, and its audit
directory.  `Sem` is what a call can do to it.  Other processes may move the counters at any time.

`Numbered` is what holds of a device and the calls made on it so far: the directory is tidy, and the
files of envelopes are under names of counter values, each used once (`Used`), all below what the NV
counter has yet to give out.  `Allowed` is the discipline that keeps it, and `Ahead` is what a
process needs of its allocator to keep to it.
-/

namespace TactiqAttest.Prover.Agent

open Envelope Files Prog Programs

/-! ## Calls -/

/-- A device: the values of its NV counters, and its audit directory. -/
structure Device where
  nv : Counters
  audit : Disk String

/-- What a call does, while other processes may move the counters. -/
def Sem (d : Device) : Exchange Op Reply → Device → Prop
  | ⟨.nv op, r⟩, d' => Disturbed Others Tpm d.nv ⟨op, r⟩ d'.nv ∧ d'.audit = d.audit
  | ⟨.audit op, r⟩, d' => Others d.nv d'.nv ∧ d.audit.Step op r d'.audit
  | ⟨.quote _ _ _ attest sig, _⟩, d' =>
    Others d.nv d'.nv ∧ Disk.Works (fun n => n = attest ∨ n = sig) d.audit d'.audit
  | _, d' => Others d.nv d'.nv ∧ d'.audit = d.audit

/-- A call that does nothing to the device. -/
def Quiet : Op → Prop
  | .nv _ | .audit _ | .quote _ _ _ _ _ => False
  | _ => True

variable {C : Crypto} {cfg : Provision.Config} {out spec nv : String} {d d' : Device}

theorem Sem.others {c : Exchange Op Reply} (h : Sem d c d') : Others d.nv d'.nv := by
  obtain ⟨op, r⟩ := c
  cases op with
  | nv op =>
    obtain ⟨m, hm, htpm⟩ := h.1
    exact others_trans hm htpm.others
  | _ => exact h.1

theorem Sem.of_quiet {op : Op} {r : Reply op} (h : Sem d ⟨op, r⟩ d') (hop : Quiet op) :
    d'.audit = d.audit := by
  cases op with
  | nv op => exact hop.elim
  | audit op => exact hop.elim
  | quote _ _ _ _ _ => exact hop.elim
  | _ => exact h.2

/-! ## Names that have been used -/

/-- A file has been moved to this name. -/
def Used (past : History) (n : String) : Prop :=
  ∃ src, (⟨.audit (.rename src n), .ok ()⟩ : Exchange Op Reply) ∈ past

theorem used_append {past : History} {c : Exchange Op Reply} {n : String} :
    Used (past ++ [c]) n ↔ Used past n ∨ ∃ src, c = ⟨.audit (.rename src n), .ok ()⟩ := by
  simp only [Used, List.mem_append, List.mem_singleton, exists_or]
  exact or_congr_right (exists_congr fun src => eq_comm)

/-- A call that is not on the directory uses no name. -/
theorem used_append_of_ne {past : History} {op : Op} {r : Reply op} {n : String}
    (hop : ∀ fop, op ≠ .audit fop) : Used (past ++ [⟨op, r⟩]) n ↔ Used past n := by
  refine used_append.trans (or_iff_left ?_)
  rintro ⟨src, h⟩
  exact hop _ (congrArg Sigma.fst h)

/-- A device with the calls made on it. -/
abbrev Recalled := Device × History

variable (C nv) in
/-- What holds of a device and the calls made on it. -/
structure Numbered (s : Recalled) : Prop where
  tidy : TidyAll C s.1.audit
  /-- What a power cut may leave under a name of an envelope has been moved there. -/
  used : ∀ m, s.1.audit.Image m → ∀ n, IsFinName n → m n ≠ none → Used s.2 n
  /-- Such names are of values that the NV counter has passed. -/
  below : ∀ n, IsFinName n → Used s.2 n →
    ∃ c e, n = fin (stem c) e ∧ c.toNat < fresh nv s.1.nv

variable (C nv) in
/-- The discipline: that of the directory; a file is moved to a name of an envelope once, under a
value that the NV counter has passed, and none lower than those used; and no boot log is removed. -/
def Allowed (s : Recalled) : Op → Prop
  | .audit op => s.1.audit.Safe IsTemp IsPublic (Whole C) op ∧
      (∀ src dst, op = .rename src dst → IsFinName dst → ¬ Used s.2 dst ∧
        ∃ c e, dst = fin (stem c) e ∧ c.toNat < fresh nv s.1.nv ∧
          ∀ c' e', Used s.2 (fin (stem c') e') → c' ≤ c) ∧
      ∀ n, op = .remove n → ¬ IsBootLog n
  | .quote _ _ _ attest sig => IsTemp attest ∧ IsTemp sig
  | _ => True

theorem allowed_of_quiet {s : Recalled} {op : Op} (hop : Quiet op) : Allowed C nv s op := by
  cases op with
  | nv op => exact hop.elim
  | audit op => exact hop.elim
  | quote _ _ _ _ _ => exact hop.elim
  | _ => trivial

/-- The directory stays tidy. -/
theorem tidyAll_of_allowed {s : Recalled} {op : Op} {r : Reply op} (hd : TidyAll C s.1.audit)
    (hop : Allowed C nv s op) (hsem : Sem s.1 ⟨op, r⟩ d') : TidyAll C d'.audit := by
  cases op with
  | audit op => exact hd.step isTemp_not_isPublic hop.1 hsem.2
  | quote h spec qd attest sig =>
    refine Disk.Tidy.works isTemp_not_isPublic ?_ hd hsem.2
    rintro n (rfl | rfl)
    · exact hop.1
    · exact hop.2
  | nv op => exact hsem.2.symm ▸ hd
  | _ => exact (hsem.of_quiet trivial).symm ▸ hd

/-- What a power cut may leave under a public name was there before, or has been moved there. -/
theorem image_of_allowed {s : Recalled} {op : Op} {r : Reply op} {m : Dir String} {n : String}
    (hop : Allowed C nv s op) (hsem : Sem s.1 ⟨op, r⟩ d') (hm : d'.audit.Image m) (hn : IsPublic n)
    (hthere : m n ≠ none) : (∃ m', s.1.audit.Image m' ∧ m' n ≠ none) ∨
      ∃ src, (⟨op, r⟩ : Exchange Op Reply) = ⟨.audit (.rename src n), .ok ()⟩ := by
  have hwithin : ∀ {P : String → Prop}, s.1.audit.Within P d'.audit → ¬ P n →
      ∃ m', s.1.audit.Image m' ∧ m' n ≠ none := by
    intro P hwithin hP
    obtain ⟨m', hm', heq⟩ := hwithin.image hm
    exact ⟨m', hm', heq n hP ▸ hthere⟩
  have htemp : ¬ IsTemp n := fun ht => isTemp_not_isPublic n ht hn
  cases op with
  | nv op => exact .inl ⟨m, hsem.2 ▸ hm, hthere⟩
  | quote h spec qd attest sig =>
    refine .inl (hwithin hsem.2.within ?_)
    rintro (rfl | rfl)
    · exact htemp hop.1
    · exact htemp hop.2
  | audit op =>
    rcases hop.1.image isTemp_not_isPublic hn hsem.2 hm with
      ⟨m', hm', heq⟩ | ⟨src, f, hcall, -⟩ | ⟨-, hnone⟩
    · exact .inl ⟨m', hm', heq ▸ hthere⟩
    · obtain ⟨rfl, hreply⟩ := Sigma.mk.inj hcall
      obtain rfl := eq_of_heq hreply
      exact .inr ⟨src, rfl⟩
    · exact absurd hnone hthere
  | _ => exact .inl ⟨m, hsem.of_quiet trivial ▸ hm, hthere⟩

/-- **The discipline keeps it.** -/
theorem Numbered.call {s s' : Recalled} {op : Op} {r : Reply op} (h : Numbered C nv s)
    (hop : Allowed C nv s op) (hsem : withHistory Sem s ⟨op, r⟩ s') : Numbered C nv s' := by
  obtain ⟨d', past'⟩ := s'
  obtain ⟨hsem, rfl⟩ := hsem
  refine ⟨tidyAll_of_allowed h.tidy hop hsem, fun m hm n hn hthere => ?_, fun n hn hused => ?_⟩
  · rcases image_of_allowed hop hsem hm (.inl hn) hthere with ⟨m', hm', hthere'⟩ | hmoved
    · exact used_append.mpr (.inl (h.used m' hm' n hn hthere'))
    · exact used_append.mpr (.inr hmoved)
  · have hfresh : fresh nv s.1.nv ≤ fresh nv d'.nv := fresh_mono hsem.others
    rcases used_append.mp hused with hused | ⟨src, hmoved⟩
    · obtain ⟨c, e, rfl, hlt⟩ := h.below n hn hused
      exact ⟨c, e, rfl, hlt.trans_le hfresh⟩
    · obtain ⟨rfl, -⟩ := Sigma.mk.inj hmoved
      obtain ⟨-, c, e, rfl, hlt, -⟩ := hop.2.1 src n rfl hn
      exact ⟨c, e, rfl, hlt.trans_le hfresh⟩

/-- Power is cut: the directory is left in part, and the counters are no lower. -/
def PowerCut (d : Device) (_ : Unit) (d' : Device) : Prop :=
  Others d.nv d'.nv ∧ d.audit.Cut d'.audit

theorem Numbered.cut {s s' : Recalled} (h : Numbered C nv s) (hcut : sparing PowerCut s () s') :
    Numbered C nv s' := by
  obtain ⟨d', past'⟩ := s'
  obtain ⟨⟨hothers, hcut⟩, rfl⟩ := hcut
  refine ⟨h.tidy.cut hcut, fun m hm n hn hthere => ?_, fun n hn hused => ?_⟩
  · rw [(hcut.image.2 m).mp hm] at hthere
    exact h.used _ hcut.image.1 n hn hthere
  · obtain ⟨c, e, rfl, hlt⟩ := h.below n hn hused
    exact ⟨c, e, rfl, hlt.trans_le (fresh_mono hothers)⟩

/-! ## Allocators -/

variable (nv) in
/-- What the allocator gives out next is above all that has been used. -/
def Ahead (alloc : CounterAlloc) (s : Recalled) : Prop :=
  ∃ b, AboveAlloc nv b s.1.nv alloc ∧ ∀ c e, Used s.2 (fin (stem c) e) → c.toNat < b

/-- The counters may have moved, and no name of an envelope has been used. -/
structure NoMoves (s s' : Recalled) : Prop where
  others : Others s.1.nv s'.1.nv
  used : ∀ n, IsFinName n → Used s'.2 n → Used s.2 n

theorem noMoves_refl (s : Recalled) : NoMoves s s := ⟨others_refl _, fun _ _ h => h⟩

theorem NoMoves.trans {s s' s'' : Recalled} (h : NoMoves s s') (h' : NoMoves s' s'') :
    NoMoves s s'' :=
  ⟨others_trans h.others h'.others, fun n hn hused => h.used n hn (h'.used n hn hused)⟩

theorem Ahead.noMoves {alloc : CounterAlloc} {s s' : Recalled} (h : Ahead nv alloc s)
    (hs : NoMoves s s') : Ahead nv alloc s' := by
  obtain ⟨b, habove, hlt⟩ := h
  exact ⟨b, habove.others hs.others, fun c e hc => hlt c e (hs.used _ ⟨stem c, e, rfl⟩ hc)⟩

/-- A new allocator takes a new epoch. -/
theorem ahead_new {s : Recalled} (h : Numbered C nv s) : Ahead nv .new s := by
  refine ⟨fresh nv s.1.nv, ⟨le_rfl, fun e he => by cases he⟩, fun c e hused => ?_⟩
  obtain ⟨c', e', heq, hlt⟩ := h.below _ ⟨stem c, e, rfl⟩ hused
  obtain rfl := stem_injective (fin_inj.mp heq).1
  exact hlt

end TactiqAttest.Prover.Agent
