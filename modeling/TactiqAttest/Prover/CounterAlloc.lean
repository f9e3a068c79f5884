import Mathlib.Data.UInt
import TactiqAttest.Prover.NvCounter

/-!
# Envelope counters

An agent hands out envelope counters `(epoch << 24) | seq`: the epoch is a value of the NV counter,
taken once for many envelopes, and `seq` counts in memory.  What is modelled is the life of a
device: agent processes start one after another, each calls `next` as often as it likes, and any of
them can fail or die at any point, between two TPM commands too, while other processes may increment
the NV counter.

## Why the counters grow

Every counter issued so far is below `2 ^ 24 * (n + 1)`, with `n` the value of the NV counter: its
epoch is a value the NV counter has had.  That bound survives a crash, and an epoch taken later is
above `n`, so its counters start above the bound.  Within an epoch, the process remembers where it
is.  `Above b w` says that everything still to come in the world `w` is at least `b`; one step keeps
it (`above_of_step`), and issuing `c` raises it to `c + 1`.
-/

namespace TactiqAttest.Prover

open BigEndian Labelled Prog

/-! ## Composition -/

/-- `SEQ_BITS`. -/
def seqBits : UInt64 := 24

/-- `SEQ_LIMIT`. -/
def seqLimit : UInt64 := 1 <<< seqBits

/-- `compose_counter`: the envelope counter for `seq` within `epoch`. -/
def composeCounter (epoch seq : UInt64) : Except String UInt64 :=
  if seqLimit ≤ seq then .error ("seq " ++ toString seq ++ " out of range")
  else if 1 <<< (64 - seqBits) ≤ epoch then
    .error ("epoch " ++ toString epoch ++ " does not fit beside a " ++
      toString seqBits ++ "-bit seq")
  else .ok (epoch <<< seqBits ||| seq)

theorem toNat_seqLimit : seqLimit.toNat = 2 ^ 24 := by decide

/-- A composed counter is the number its two parts write, without any bit lost. -/
theorem composeCounter_ok {epoch seq c : UInt64} :
    composeCounter epoch seq = .ok c ↔
      seq.toNat < 2 ^ 24 ∧ epoch.toNat < 2 ^ 40 ∧ c.toNat = epoch.toNat * 2 ^ 24 + seq.toNat := by
  have hlimit : seqLimit ≤ seq ↔ 2 ^ 24 ≤ seq.toNat := by
    rw [UInt64.le_iff_toNat_le, toNat_seqLimit]
  have hepoch : 1 <<< (64 - seqBits) ≤ epoch ↔ 2 ^ 40 ≤ epoch.toNat := by
    rw [UInt64.le_iff_toNat_le, show (1 <<< (64 - seqBits) : UInt64).toNat = 2 ^ 40 by decide]
  have hval : seq.toNat < 2 ^ 24 → epoch.toNat < 2 ^ 40 →
      (epoch <<< seqBits ||| seq).toNat = epoch.toNat * 2 ^ 24 + seq.toNat := by
    intro hs he
    have hfit : epoch.toNat <<< 24 < 2 ^ 64 := by
      rw [Nat.shiftLeft_eq]
      omega
    rw [UInt64.toNat_or, UInt64.toNat_shiftLeft, show seqBits.toNat % 64 = 24 from rfl,
      Nat.mod_eq_of_lt hfit, ← Nat.shiftLeft_add_eq_or_of_lt hs, Nat.shiftLeft_eq]
  unfold composeCounter
  by_cases hs : seqLimit ≤ seq
  · rw [if_pos hs]
    rw [hlimit] at hs
    exact ⟨fun h => (by cases h), fun h => absurd h.1 (by omega)⟩
  · by_cases he : 1 <<< (64 - seqBits) ≤ epoch
    · rw [if_neg hs, if_pos he]
      rw [hepoch] at he
      exact ⟨fun h => (by cases h), fun h => absurd h.2.1 (by omega)⟩
    · rw [if_neg hs, if_neg he, Except.ok.injEq]
      rw [hlimit] at hs
      rw [hepoch] at he
      rw [← UInt64.toNat_inj, hval (by omega) (by omega)]
      exact ⟨fun h => ⟨by omega, by omega, h.symm⟩, fun h => h.2.2.symm⟩

/-! ## The allocator -/

/-- Hands out envelope counters. -/
structure CounterAlloc where
  /-- The epoch taken, if one has been. -/
  epoch : Option UInt64
  /-- The next `seq` in it. -/
  nextSeq : UInt64

namespace CounterAlloc

/-- `CounterAlloc::new`. -/
def new : CounterAlloc := ⟨none, 0⟩

/-- The end of `next`, with an epoch at hand: the counter, and the allocator moved on past it. -/
def issue (epoch seq : UInt64) : CounterAlloc × Except String UInt64 :=
  match composeCounter epoch seq with
  | .ok c => (⟨some epoch, seq + 1⟩, .ok c)
  | .error e => (⟨some epoch, seq⟩, .error e)

/-- The part of `next` that takes a new epoch from the TPM.  Where it fails, the allocator is as it
was. -/
def takeEpoch (setting : Option String) (alloc : CounterAlloc) :
    Prog NvOp NvReply (CounterAlloc × Except String UInt64) := do
  let taken ← (do verifyCounter setting; nvIncrementAndRead setting : Nv UInt64).run
  return match taken with
    | .error e => (alloc, .error e)
    | .ok epoch => issue epoch 0

/-- `CounterAlloc::next`: the next counter, taking a new epoch when there is none yet or the current
one is used up. -/
def next (setting : Option String) (alloc : CounterAlloc) :
    Prog NvOp NvReply (CounterAlloc × Except String UInt64) :=
  match alloc.epoch with
  | none => takeEpoch setting alloc
  | some epoch =>
    if seqLimit ≤ alloc.nextSeq then takeEpoch setting alloc
    else return issue epoch alloc.nextSeq

end CounterAlloc

/-- The name of an envelope's files: `format!("{counter:012}")`. -/
def stem (counter : UInt64) : String :=
  let digits := Nat.toDigits 10 counter.toNat
  String.ofList (List.replicate (12 - digits.length) '0' ++ digits)

theorem ofDigitChars_stem (c : UInt64) : Nat.ofDigitChars 10 (stem c).toList 0 = c.toNat := by
  rw [stem, String.toList_ofList, Nat.ofDigitChars_append, Nat.ofDigitChars_replicate_zero,
    Nat.mul_zero, Nat.ofDigitChars_ten_toDigits]

/-- The stem names its counter. -/
theorem stem_injective : Function.Injective stem := by
  intro c c' h
  apply UInt64.toNat_inj.mp
  rw [← ofDigitChars_stem c, ← ofDigitChars_stem c', h]

/-! ## The life of a device -/

/-- An agent process: between calls of `next`, or inside one. -/
inductive Agent
  | idle (alloc : CounterAlloc)
  | inside (rest : Prog NvOp NvReply (CounterAlloc × Except String UInt64))

/-- The TPM's counters, and the agent process, if one is running. -/
structure World where
  nv : Counters
  agent : Option Agent

/-- What happens. -/
inductive Occurrence
  /-- A process starts; one that was running is gone. -/
  | start
  /-- The process dies. -/
  | crash
  /-- It calls `next`. -/
  | call
  /-- It runs a command. -/
  | tpm (c : Exchange NvOp NvReply)
  /-- `next` returns. -/
  | returned (out : Except String UInt64)
  /-- Another process moves a counter. -/
  | others

/-- One step of the life of a device. -/
inductive Step (setting : Option String) : World → Occurrence → World → Prop
  | start {w : World} : Step setting w .start ⟨w.nv, some (.idle .new)⟩
  | crash {w : World} : Step setting w .crash ⟨w.nv, none⟩
  | call {nv : Counters} {alloc : CounterAlloc} :
      Step setting ⟨nv, some (.idle alloc)⟩ .call ⟨nv, some (.inside (alloc.next setting))⟩
  | tpm {nv nv' : Counters} {op : NvOp} {r : NvReply op}
      {rest : NvReply op → Prog NvOp NvReply (CounterAlloc × Except String UInt64)} :
      Tpm nv ⟨op, r⟩ nv' →
      Step setting ⟨nv, some (.inside (.call op rest))⟩ (.tpm ⟨op, r⟩)
        ⟨nv', some (.inside (rest r))⟩
  | returned {nv : Counters} {alloc : CounterAlloc} {out : Except String UInt64} :
      Step setting ⟨nv, some (.inside (.ret (alloc, out)))⟩ (.returned out) ⟨nv, some (.idle alloc)⟩
  | others {w : World} {nv' : Counters} : Others w.nv nv' → Step setting w .others ⟨nv', w.agent⟩

/-- The counter an occurrence issues. -/
def Occurrence.issued : Occurrence → Option UInt64
  | .returned (.ok c) => some c
  | _ => none

/-- The counters issued in a run, in order, whichever process issued them. -/
def issued (es : List (Event World Occurrence)) : List UInt64 :=
  es.filterMap fun e => e.label.issued

theorem issued_cons (e : Event World Occurrence) (es : List (Event World Occurrence)) :
    issued (e :: es) = e.label.issued.toList ++ issued es := by
  unfold issued
  rw [List.filterMap_cons]
  rcases e.label.issued with _ | c
  · rfl
  · rfl

theorem issued_append (es es' : List (Event World Occurrence)) :
    issued (es ++ es') = issued es ++ issued es' := List.filterMap_append

/-! ## The bound -/

/-- Where the counters of the epochs not yet taken start. -/
def fresh (nv : String) (s : Counters) : ℕ := ((s nv).toNat + 1) * 2 ^ 24

/-- What an allocator issues next is at least `b`: from the epoch it holds, which is a value the NV
counter has had, or from one it has yet to take. -/
def AboveAlloc (nv : String) (b : ℕ) (s : Counters) (alloc : CounterAlloc) : Prop :=
  b ≤ fresh nv s ∧ ∀ e, alloc.epoch = some e → e ≤ s nv ∧
    (alloc.nextSeq.toNat < 2 ^ 24 → b ≤ e.toNat * 2 ^ 24 + alloc.nextSeq.toNat)

/-- What `next` may leave behind it: a counter of at least `b` and everything after above it, or an
error and everything after at least `b`. -/
def AboveResult (nv : String) (b : ℕ) (s : Counters)
    (result : CounterAlloc × Except String UInt64) : Prop :=
  match result with
  | (alloc, .ok c) => b ≤ c.toNat ∧ AboveAlloc nv (c.toNat + 1) s alloc
  | (alloc, .error _) => AboveAlloc nv b s alloc

/-- Every counter still to be issued in this world is at least `b`. -/
def Above (nv : String) (b : ℕ) (w : World) : Prop :=
  b ≤ fresh nv w.nv ∧
    match w.agent with
    | none => True
    | some (.idle alloc) => AboveAlloc nv b w.nv alloc
    | some (.inside rest) => rest.Ensures Tpm Others (AboveResult nv b) w.nv

section Bound

variable {setting : Option String} {nv : String} {b : ℕ} {s s' : Counters} {alloc : CounterAlloc}

theorem fresh_mono (h : Others s s') : fresh nv s ≤ fresh nv s' := by
  have hle := UInt64.le_iff_toNat_le.mp (h nv)
  unfold fresh
  omega

/-- The counter may have moved in the meantime. -/
theorem AboveAlloc.others (h : AboveAlloc nv b s alloc) (hs : Others s s') :
    AboveAlloc nv b s' alloc := by
  refine ⟨h.1.trans (fresh_mono hs), fun e he => ?_⟩
  obtain ⟨hle, hseq⟩ := h.2 e he
  exact ⟨UInt64.le_trans hle (hs nv), hseq⟩

theorem AboveResult.others {result : CounterAlloc × Except String UInt64}
    (h : AboveResult nv b s result) (hs : Others s s') : AboveResult nv b s' result := by
  rcases result with ⟨alloc, e | c⟩
  · exact AboveAlloc.others h hs
  · exact ⟨h.1, h.2.others hs⟩

/-- Issuing from an epoch the NV counter has had. -/
theorem aboveResult_issue {e seq : UInt64} (hb : b ≤ fresh nv s) (he : e ≤ s nv)
    (hseq : seq.toNat < 2 ^ 24 → b ≤ e.toNat * 2 ^ 24 + seq.toNat) :
    AboveResult nv b s (CounterAlloc.issue e seq) := by
  unfold CounterAlloc.issue
  rcases hc : composeCounter e seq with err | c
  · refine ⟨hb, fun e' he' => ?_⟩
    obtain rfl : e = e' := by injection he'
    exact ⟨he, hseq⟩
  · obtain ⟨hlt, -, hval⟩ := composeCounter_ok.mp hc
    have hle := UInt64.le_iff_toNat_le.mp he
    have hbc : b ≤ c.toNat := hval ▸ hseq hlt
    refine ⟨hbc, ?_, fun e' he' => ?_⟩
    · unfold fresh
      omega
    · obtain rfl : e = e' := by injection he'
      have hsucc : (seq + 1).toNat = seq.toNat + 1 := by
        rw [UInt64.toNat_add]
        exact Nat.mod_eq_of_lt (by show seq.toNat + 1 < 2 ^ 64; omega)
      refine ⟨he, fun _ => ?_⟩
      show c.toNat + 1 ≤ e.toNat * 2 ^ 24 + (seq + 1).toNat
      omega

/-- The index the setting names, if it names one. -/
def IsIndex (setting : Option String) (nv : String) : Prop :=
  ∀ nv', nvCounter setting = .ok nv' → nv' = nv

theorem exists_isIndex (setting : Option String) : ∃ nv, IsIndex setting nv := by
  rcases h : nvCounter setting with e | nv
  · exact ⟨"", fun nv' hnv' => by rw [h] at hnv'; cases hnv'⟩
  · exact ⟨nv, fun nv' hnv' => by rw [h] at hnv'; cases hnv'; rfl⟩

/-- The value a call returns is above the counter before it, and one the counter has had. -/
theorem nvIncrementAndRead_ensures (hnv : IsIndex setting nv) (hs : Others s s') :
    (nvIncrementAndRead setting).run.Ensures Tpm Others
      (fun t out => Others s t ∧ ∀ e, out = .ok e → s nv < e ∧ e ≤ t nv) s' := by
  rcases hindex : nvCounter setting with e | nv'
  · have hrun : (nvIncrementAndRead setting).run = .ret (.error e) := by
      rw [nvIncrementAndRead, hindex]
      rfl
    rw [hrun]
    exact fun t ht => ⟨others_trans hs ht, fun e he => by cases he⟩
  · obtain rfl := hnv nv' hindex
    rw [run_nvIncrementAndRead hindex]
    intro t₁ ht₁ r t₂ hinc
    have h₂ : Others s t₂ := others_trans (others_trans hs ht₁) hinc.others
    rcases r with e | ⟨⟩
    · exact fun t ht => ⟨others_trans h₂ ht, fun e he => by cases he⟩
    · have hlt : s nv' < t₂ nv' :=
        UInt64.lt_of_le_of_lt (others_trans hs ht₁ nv') hinc.lt_of_increment
      intro t₃ ht₃ r t₄ hread
      have h₄ : Others s t₄ := others_trans (others_trans h₂ ht₃) hread.others
      rcases r with e | raw
      · exact fun t ht => ⟨others_trans h₄ ht, fun e he => by cases he⟩
      · obtain ⟨rfl, hraw⟩ := hread.of_read
        intro t ht
        refine ⟨others_trans h₄ ht, fun e he => ?_⟩
        obtain ⟨hlen, he⟩ := counterOfFile_ok.mp he
        have hval : e = t₄ nv' := be_inj.mp (he ▸ hraw hlen)
        rw [hval]
        exact ⟨UInt64.lt_of_lt_of_le hlt (ht₃ nv'), ht nv'⟩

theorem takeEpoch_ensures (hnv : IsIndex setting nv) (h : AboveAlloc nv b s alloc) :
    (alloc.takeEpoch setting).Ensures Tpm Others (AboveResult nv b) s := by
  refine ensures_bind others_refl (Ensures.mono
    (Q := fun t out => Others s t ∧ ∀ e, out = .ok e → s nv < e ∧ e ≤ t nv) ?_ ?_)
  · have hverify : (verifyCounter setting).run.Ensures Tpm Others (fun t _ => Others s t) s :=
      ensures_within others_trans Tpm.others (others_refl s)
    refine ensures_tryBind others_refl (hverify.mono ?_)
    rintro t (e | ⟨⟩) ht
    · exact fun t' ht' => ⟨others_trans ht ht', fun e he => by cases he⟩
    · exact nvIncrementAndRead_ensures hnv ht
  · rintro t (e | epoch) ⟨ht, hepoch⟩
    · exact fun t' ht' => h.others (others_trans ht ht')
    · intro t' ht'
      obtain ⟨hlt, hle⟩ := hepoch epoch rfl
      refine AboveResult.others (aboveResult_issue (h.others ht).1 hle fun _ => ?_) ht'
      have hb : b ≤ fresh nv s := h.1
      have hlt' := UInt64.lt_iff_toNat_lt.mp hlt
      unfold fresh at hb
      omega

/-- What `next` ensures, wherever it is called and whatever fails in it. -/
theorem next_ensures (hnv : IsIndex setting nv) (h : AboveAlloc nv b s alloc) :
    (alloc.next setting).Ensures Tpm Others (AboveResult nv b) s := by
  unfold CounterAlloc.next
  rcases hepoch : alloc.epoch with _ | epoch
  · exact takeEpoch_ensures hnv h
  · obtain ⟨hle, hseq⟩ := h.2 epoch hepoch
    show Ensures Tpm Others (if seqLimit ≤ alloc.nextSeq then _ else _) _ s
    by_cases hlimit : seqLimit ≤ alloc.nextSeq
    · rw [if_pos hlimit]
      exact takeEpoch_ensures hnv h
    · rw [if_neg hlimit]
      exact fun t ht => (aboveResult_issue h.1 hle hseq).others ht

/-! ## Over a run -/

/-- One step keeps the bound; if it issues a counter, that counter is not below it, and is below
everything after. -/
theorem above_of_step (hnv : IsIndex setting nv) {w w' : World} {a : Occurrence}
    (h : Step setting w a w') (hw : Above nv b w) :
    match a.issued with
    | none => Above nv b w'
    | some c => b ≤ c.toNat ∧ Above nv (c.toNat + 1) w' := by
  obtain ⟨hfresh, hagent⟩ := hw
  cases h with
  | start => exact ⟨hfresh, hfresh, fun e he => by cases he⟩
  | crash => exact ⟨hfresh, trivial⟩
  | call => exact ⟨hfresh, next_ensures hnv hagent⟩
  | tpm hsem => exact ⟨hfresh.trans (fresh_mono hsem.others), hagent.call others_refl hsem⟩
  | @returned s alloc out =>
    have hresult : AboveResult nv b s (alloc, out) := hagent.ret others_refl
    rcases out with e | c
    · exact ⟨hfresh, hresult⟩
    · exact ⟨hresult.1, hresult.2.1, hresult.2⟩
  | @others w s hs =>
    refine ⟨hfresh.trans (fresh_mono hs), ?_⟩
    rcases w with ⟨s', _ | alloc | rest⟩
    · trivial
    · exact AboveAlloc.others hagent hs
    · exact Ensures.interfere others_trans hagent hs

/-- A run issues increasing counters, none of them below the bound it started with. -/
theorem issued_increasing (hnv : IsIndex setting nv) {w t : World}
    {es : List (Event World Occurrence)} (h : Run (Step setting) w es t) (hw : Above nv b w) :
    (issued es).Pairwise (· < ·) ∧ ∀ c ∈ issued es, b ≤ c.toNat := by
  induction h generalizing b with
  | nil w => exact ⟨.nil, fun c hc => absurd hc List.not_mem_nil⟩
  | @cons w w' t a es hstep _ ih =>
    have hnext := above_of_step hnv hstep hw
    rw [issued_cons]
    rcases hissued : a.issued with _ | c
    · rw [hissued] at hnext
      exact ih hnext
    · rw [hissued] at hnext
      obtain ⟨hpairs, hall⟩ := ih hnext.2
      refine ⟨List.pairwise_cons.mpr ⟨fun c' hc' => ?_, hpairs⟩, fun c' hc' => ?_⟩
      · exact UInt64.lt_iff_toNat_lt.mpr (hall c' hc')
      · rcases List.mem_cons.mp hc' with rfl | hc'
        · exact hnext.1
        · have hlt := hall c' hc'
          have hle := hnext.1
          omega

end Bound

/-- Over the life of a device, from a point where no process runs: the envelope counters issued,
taken over all processes in order, strictly increase, and no two of them name the same files. -/
theorem counters_grow (setting : Option String) {s : Counters} {t : World}
    {es : List (Event World Occurrence)} (h : Run (Step setting) ⟨s, none⟩ es t) :
    (issued es).Pairwise (· < ·) ∧ ((issued es).map stem).Nodup := by
  obtain ⟨nv, hnv⟩ := exists_isIndex setting
  have hstart : Above nv 0 ⟨s, none⟩ := ⟨Nat.zero_le _, trivial⟩
  have hpairs := (issued_increasing hnv h hstart).1
  have hnodup : (issued es).Nodup := hpairs.imp fun hlt => UInt64.ne_of_lt hlt
  exact ⟨hpairs, hnodup.map stem_injective⟩

/-! ## A crash after the increment -/

/-- A process inside `next` can run through any history the TPM goes along with. -/
theorem exists_run_inside (setting : Option String)
    {p q : Prog NvOp NvReply (CounterAlloc × Except String UInt64)} {s s' : Counters}
    {es : List (Event Counters (Exchange NvOp NvReply))} (h : Run Tpm s es s')
    (hp : p.After (es.map (·.label)) q) :
    ∃ es', Run (Step setting) ⟨s, some (.inside p)⟩ es' ⟨s', some (.inside q)⟩ ∧
      issued es' = [] := by
  induction h generalizing p with
  | nil s =>
    obtain rfl := after_nil.mp hp
    exact ⟨[], .nil _, rfl⟩
  | cons hstep _ ih =>
    rw [List.map_cons] at hp
    cases hp with
    | call hp =>
      obtain ⟨es', hrun, hissued⟩ := ih hp
      exact ⟨_, .cons (.tpm hstep) hrun, by rw [issued_cons, hissued]; rfl⟩

/-- The first two commands of taking an epoch: the check and the increment. -/
def checkedAndIncremented (v w : UInt64) : List (Event Counters (Exchange NvOp NvReply)) :=
  [⟨counterAt v, ⟨.readPublic defaultNvCounter, .ok counterNvAttributes⟩, counterAt v⟩,
    ⟨counterAt v, ⟨.increment defaultNvCounter, .ok ()⟩, counterAt w⟩]

/-- The third: the read. -/
def readBack (w : UInt64) : List (Event Counters (Exchange NvOp NvReply)) :=
  [⟨counterAt w, ⟨.read defaultNvCounter, .ok (be w)⟩, counterAt w⟩]

theorem run_checkedAndIncremented {v w : UInt64} (h : v < w) :
    Run Tpm (counterAt v) (checkedAndIncremented v w) (counterAt w) :=
  .cons .readPublic (.cons (increment_counterAt h) (.nil _))

theorem run_readBack (w : UInt64) : Run Tpm (counterAt w) (readBack w) (counterAt w) :=
  .cons (read_counterAt w) (.nil _)

theorem verifyCounter_yields : (verifyCounter none).run.Yields
    [⟨.readPublic defaultNvCounter, .ok counterNvAttributes⟩] (.ok ()) := by
  have hattrs : checkCounterAttributes none counterNvAttributes = .ok () := by decide +kernel
  refine yields_tryBind_ok.mpr ⟨[], _, defaultNvCounter, rfl, yields_ofResult.mpr
    ⟨rfl, nvCounter_default⟩, ?_⟩
  exact yields_tryBind_ok.mpr ⟨_, [], counterNvAttributes, (List.append_nil _).symm,
    yields_perform.mpr rfl, yields_ofResult.mpr ⟨rfl, hattrs⟩⟩

/-- A new allocator takes the epoch the three commands give it. -/
theorem next_new_yields (v w : UInt64) : (CounterAlloc.new.next none).Yields
    ((checkedAndIncremented v w).map (·.label) ++ (readBack w).map (·.label))
    (CounterAlloc.issue w 0) := by
  have htake := yields_nvIncrementAndRead_ok.mpr
    ⟨defaultNvCounter, be w, nvCounter_default, length_be w, rfl, rfl⟩
  have htaken : (do verifyCounter none; nvIncrementAndRead none : Nv UInt64).run.Yields
      ((checkedAndIncremented v w).map (·.label) ++ (readBack w).map (·.label)) (.ok w) :=
    yields_tryBind_ok.mpr ⟨[_], [_, _], (), rfl, verifyCounter_yields, htake⟩
  exact yields_bind.mpr ⟨_, [], .ok w, (List.append_nil _).symm, htaken,
    yields_pure.mpr ⟨rfl, rfl⟩⟩

/-- The counter is incremented to 2, and the process dies without reading it; the next one takes the
epoch 3, and issues two counters of it. -/
theorem counters_grow_after_crash : ∃ es t, Run (Step none) ⟨counterAt 1, none⟩ es t ∧
    issued es = [3 * 2 ^ 24, 3 * 2 ^ 24 + 1] ∧
    (issued es).Pairwise (· < ·) ∧ ((issued es).map stem).Nodup := by
  obtain ⟨p, hp, -⟩ := after_append.mp (next_new_yields 1 2)
  obtain ⟨es₁, hrun₁, hissued₁⟩ := exists_run_inside none
    (run_checkedAndIncremented (v := 1) (w := 2) (by decide)) hp
  have htaking := Run.append_iff.mpr ⟨_, run_checkedAndIncremented (v := 2) (w := 3) (by decide),
    run_readBack 3⟩
  obtain ⟨es₂, hrun₂, hissued₂⟩ := exists_run_inside none htaking
    (by rw [List.map_append]; exact next_new_yields 2 3)
  -- the first process, up to its death
  have hstart : Step none ⟨counterAt 1, none⟩ .start ⟨counterAt 1, some (.idle .new)⟩ := .start
  have hcrash : Step none ⟨counterAt 2, some (.inside p)⟩ .crash ⟨counterAt 2, none⟩ := .crash
  -- the second, up to its second counter
  have hrestart : Step none ⟨counterAt 2, none⟩ .start ⟨counterAt 2, some (.idle .new)⟩ := .start
  have hfirst : Step none ⟨counterAt 3, some (.inside (.ret (CounterAlloc.issue 3 0)))⟩
      (.returned (.ok (3 * 2 ^ 24))) ⟨counterAt 3, some (.idle ⟨some 3, 1⟩)⟩ := .returned
  have hsecond : Step none ⟨counterAt 3, some (.inside (.ret (CounterAlloc.issue 3 1)))⟩
      (.returned (.ok (3 * 2 ^ 24 + 1))) ⟨counterAt 3, some (.idle ⟨some 3, 2⟩)⟩ := .returned
  have hrun := Run.cons hstart (.cons .call (Run.append_iff.mpr ⟨_, hrun₁,
    .cons hcrash (.cons hrestart (.cons .call (Run.append_iff.mpr ⟨_, hrun₂,
      .cons hfirst (.cons .call (.cons hsecond (.nil _)))⟩)))⟩))
  refine ⟨_, _, hrun, ?_, counters_grow none hrun⟩
  simp only [issued_cons, issued_append, hissued₁, hissued₂]
  rfl

end TactiqAttest.Prover
