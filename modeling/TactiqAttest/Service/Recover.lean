import TactiqAttest.Service.Safety
import Mathlib.Data.List.Basic

/-!
# Recover, with others moving the counter

`recover` reads the counter, checks the release for the epoch it would move to, and calls `move_to`,
which reads the counter again, and increments it.  Between any two of these calls other processes
may increment it; the operators' lock does not keep them out.  Whether the lift ends where it was
released to depends on what they do between the first reading and the increment:

* `recover_lifts_released`: a call lifts to a released epoch, and increments only from below one, if
  and only if an even second reading is one above the first, and an increment, when it is issued,
  still finds the value that was read first.
* `recover_lifts_unreleased`: if the counter went from 5 to 7 in between, a release for 6 is
  checked, and the counter moved to 8 and reported as lifted.
-/

namespace TactiqAttest.Service

open Labelled Programs Prog

variable {C : Crypto}

/-! ## What the files say -/

/-- The contents of the files, as read up to a number of bytes. -/
abbrev Disk := String → ℕ → Except FileError Bytes

/-- The disk as a source of answers; other calls fail. -/
def Disk.answer (disk : Disk) : (op : Op) → Reply op
  | .readFile path n => disk path n
  | .readCounter => .error ""
  | .increment => .error ""
  | .certify _ => .error ""
  | .pcrRead _ => .error ""
  | .quote _ _ => .error ""

/-- With these files, the gate is open at this value. -/
def Opens (owned : Owned C) (disk : Disk) (v : UInt64) : Prop :=
  (gate owned.lift v).run.eval disk.answer = .ok .opened

/-- A disk holds one release, so it opens the gate at one value. -/
theorem Opens.unique {owned : Owned C} {disk : Disk} {v w : UInt64} (hv : Opens owned disk v)
    (hw : Opens owned disk w) : v = w := by
  obtain ⟨cs, hgate, hanswers⟩ := eval_eq_iff.mp hv
  obtain ⟨cs', hgate', hanswers'⟩ := eval_eq_iff.mp hw
  obtain ⟨-, record, sig, hread, hcheck⟩ := yields_gate_opened.mp hgate
  obtain ⟨-, record', sig', hread', hcheck'⟩ := yields_gate_opened.mp hgate'
  obtain ⟨-, -, hcs⟩ := ReleaseFiles.yields_read_some.mp hread
  obtain ⟨-, -, hcs'⟩ := ReleaseFiles.yields_read_some.mp hread'
  have hrecord : disk release.record (maxRecord + 1) = .ok record :=
    (hanswers ⟨.readFile release.record (maxRecord + 1), .ok record⟩ (by rw [hcs]; simp)).symm
  have hrecord' : disk release.record (maxRecord + 1) = .ok record' :=
    (hanswers' ⟨.readFile release.record (maxRecord + 1), .ok record'⟩ (by rw [hcs']; simp)).symm
  obtain rfl : record = record' := by
    rw [hrecord] at hrecord'
    exact Except.ok.inj hrecord'
  exact Release.check_unique hcheck hcheck'

/-! ## The history of a call -/

/-- The counter values read, in order. -/
def reads (cs : List (Exchange Op Reply)) : List UInt64 :=
  cs.filterMap fun c => match c with
    | ⟨.readCounter, .ok v⟩ => some v
    | _ => none

/-- A call that reads a file. -/
def IsFile (op : Op) : Prop := ∃ path n, op = .readFile path n

/-- A call that does not increment. -/
def IsQuiet (op : Op) : Prop := op ≠ .increment

theorem reads_of_files {cs : List (Exchange Op Reply)} (h : ∀ c ∈ cs, IsFile c.1) :
    reads cs = [] := by
  refine List.filterMap_eq_nil_iff.mpr fun c hc => ?_
  obtain ⟨op, r⟩ := c
  obtain ⟨path, n, rfl⟩ := h _ hc
  rfl

theorem readBounded_files (path : String) (limit : ℕ) : (readBounded path limit).run.Only IsFile :=
  ⟨⟨path, limit + 1, rfl⟩, fun _ => trivial⟩

/-- Deciding the gate reads the release, and nothing else. -/
theorem gate_only {lift : Lift C} (hstore : lift.release.run.Only IsFile) (v : UInt64) :
    (gate lift v).run.Only IsFile := by
  unfold gate
  by_cases hstate : stateOf v = .stopped
  · rw [if_pos hstate]
    exact only_pure _
  · rw [if_neg hstate]
    exact Only.tryBind hstore fun release => only_pure _

/-- The release is read from files. -/
theorem release_files (files : ReleaseFiles) : files.read.run.Only IsFile := by
  refine Only.tryBind (readBounded_files _ _) fun record => ?_
  rcases record with _ | record
  · exact only_pure _
  · exact Only.tryBind (readBounded_files _ _) fun sig => only_pure _

theorem gate_files (owned : Owned C) (v : UInt64) : (gate owned.lift v).run.Only IsFile :=
  gate_only (release_files _) v

theorem readCounter_quiet : IsQuiet .readCounter := by
  show Op.readCounter ≠ Op.increment
  decide

theorem IsFile.quiet {op : Op} (h : IsFile op) : IsQuiet op := by
  obtain ⟨path, n, rfl⟩ := h
  show Op.readFile path n ≠ Op.increment
  intro h
  cases h

theorem fail_quiet (message : String) : (fail message).Only IsQuiet :=
  (only_perform readCounter_quiet).bind fun _ => only_pure _

theorem arrived_quiet (from' : UInt64) (read : Except String UInt64) :
    (arrived from' read).Only IsQuiet := by
  rcases read with e | to'
  · exact fail_quiet _
  · rw [arrived]
    by_cases hto : to' = from' + 1
    · rw [if_pos hto]
      exact only_pure _
    · rw [if_neg hto]
      exact only_pure _

/-- An advance increments once, first of all. -/
theorem calls_of_advance {from' : UInt64} {cs : List (Exchange Op Reply)}
    {q : Prog Op Reply (Except TransitionError Transition)} (h : (advance from').After cs q) :
    (cs = [] ∧ q = advance from') ∨
      ∃ r rest, cs = ⟨.increment, r⟩ :: rest ∧ ∀ c ∈ rest, IsQuiet c.1 := by
  rcases after_call.mp h with ⟨hcs, hq⟩ | ⟨r, rest, hcs, hrest⟩
  · exact .inl ⟨hcs, hq⟩
  · refine .inr ⟨r, rest, hcs, ?_⟩
    rcases r with e | ⟨⟩
    · exact (fail_quiet _).of_after hrest
    · have hquiet : (do let read ← perform Op.readCounter; arrived from' read).Only IsQuiet :=
        (only_perform readCounter_quiet).bind fun read => arrived_quiet from' read
      exact hquiet.of_after hrest

/-- A call of `recover` up to its second reading of the counter: it has read it at most once, not
incremented, and returned, if at all, the value it read, released. -/
structure BeforeReread (owned : Owned C) (cs : List (Exchange Op Reply))
    (q : Prog Op Reply (Except TransitionError Transition)) : Prop where
  quiet : ∀ c ∈ cs, IsQuiet c.1
  once : (reads cs).length ≤ 1
  returned : ∀ tr, q = .ret (.ok tr) → ∃ v gs, tr = .alreadyThere v ∧
    cs = ⟨.readCounter, .ok v⟩ :: gs ∧ (gate owned.lift v).run.Yields gs (.ok .opened)

/-- A call of `recover` from there on: it has read `v`, found `v + 1` released, read `w`, and goes
on from that. -/
structure Reread (owned : Owned C) (cs : List (Exchange Op Reply))
    (q : Prog Op Reply (Except TransitionError Transition)) (v : UInt64)
    (gs : List (Exchange Op Reply)) (w : UInt64) (rest : List (Exchange Op Reply)) : Prop where
  history : cs = ⟨.readCounter, .ok v⟩ :: (gs ++ ⟨.readCounter, .ok w⟩ :: rest)
  released : (gate owned.lift (v + 1)).run.Yields gs (.ok .opened)
  goesOn : (moveFrom .running (.ok w)).After rest q

section Histories

variable {owned : Owned C} {v w : UInt64} {cs gs tl rest : List (Exchange Op Reply)}
  {q : Prog Op Reply (Except TransitionError Transition)}

theorem reads_cons (v : UInt64) (cs : List (Exchange Op Reply)) :
    reads (⟨.readCounter, .ok v⟩ :: cs) = v :: reads cs := rfl

theorem reads_append (cs tl : List (Exchange Op Reply)) : reads (cs ++ tl) = reads cs ++ reads tl :=
  List.filterMap_append

/-- One reading of the counter, some files, and perhaps a failed reading. -/
theorem beforeReread_of_files (hgs : ∀ c ∈ gs, IsFile c.1)
    (htl : tl = [] ∨ ∃ e, tl = [⟨.readCounter, .error e⟩])
    (hret : ∀ tr, q = .ret (.ok tr) → tr = .alreadyThere v ∧
      (gate owned.lift v).run.Yields (gs ++ tl) (.ok .opened)) :
    BeforeReread owned (⟨.readCounter, .ok v⟩ :: (gs ++ tl)) q := by
  have htail : (∀ c ∈ tl, IsQuiet c.1) ∧ reads tl = [] := by
    rcases htl with rfl | ⟨e, rfl⟩
    · exact ⟨fun c hc => absurd hc List.not_mem_nil, rfl⟩
    · refine ⟨fun c hc => ?_, rfl⟩
      rw [List.mem_singleton.mp hc]
      exact readCounter_quiet
  refine ⟨fun c hc => ?_, ?_, fun tr htr => ?_⟩
  · rcases List.mem_cons.mp hc with rfl | hc
    · exact readCounter_quiet
    · rcases List.mem_append.mp hc with hc | hc
      · exact (hgs c hc).quiet
      · exact htail.1 c hc
  · rw [reads_cons, reads_append, reads_of_files hgs, htail.2]
    exact le_rfl
  · obtain ⟨rfl, hgate⟩ := hret tr htr
    exact ⟨v, gs ++ tl, rfl, rfl, hgate⟩

/-- What can have happened in a call of `recover`. -/
theorem cases_of_recover (h : (recover owned.lift).After cs q) :
    BeforeReread owned cs q ∨ ∃ v gs w rest, Reread owned cs q v gs w rest := by
  rcases after_call.mp h with ⟨rfl, rfl⟩ | ⟨read, cs₁, rfl, h₁⟩
  · exact .inl ⟨fun c hc => absurd hc List.not_mem_nil, Nat.zero_le _, fun tr htr => by cases htr⟩
  rcases read with e | v
  · obtain ⟨rfl, rfl⟩ := after_ret.mp h₁
    refine .inl ⟨fun c hc => ?_, Nat.zero_le _, fun tr htr => by cases htr⟩
    rw [List.mem_singleton.mp hc]
    exact readCounter_quiet
  have hfrom : ((gate owned.lift (target v)).run >>= recoverAt v).After cs₁ q := h₁
  rcases after_bind.mp hfrom with ⟨op, next, hgate, rfl⟩ | ⟨gs, cs₂, checked, rfl, hgate, hat⟩
  · have hfiles := (gate_files owned _).of_after hgate
    rw [← List.append_nil cs₁]
    exact .inl (beforeReread_of_files hfiles (.inl rfl) fun tr htr => by cases htr)
  have hfiles := (gate_files owned _).of_after hgate
  -- a refusal returns without a further call
  have hrefused : ∀ e, cs₂ = [] ∧ q = .ret (.error e) →
      BeforeReread owned (⟨.readCounter, .ok v⟩ :: (gs ++ cs₂)) q := fun e he =>
    beforeReread_of_files hfiles (.inl he.1) fun tr htr => by rw [he.2] at htr; cases htr
  rcases checked with e | ⟨_ | _ | why⟩
  · exact .inl (hrefused _ (after_ret.mp hat))
  · rw [recoverAt] at hat
    by_cases heven : target v = v
    · rw [if_pos heven] at hat
      obtain ⟨rfl, rfl⟩ := after_ret.mp hat
      refine .inl (beforeReread_of_files hfiles (.inl rfl) fun tr htr => ?_)
      cases htr
      rw [heven] at hgate
      exact ⟨rfl, by rwa [List.append_nil]⟩
    · rw [if_neg heven] at hat
      have hnext : target v = v + 1 := by
        unfold target at heven ⊢
        by_cases hstate : stateOf v = .running
        · rw [if_pos hstate] at heven
          exact absurd rfl heven
        · rw [if_neg hstate]
      rcases after_call.mp hat with ⟨rfl, rfl⟩ | ⟨read, rest, rfl, hmove⟩
      · exact .inl (beforeReread_of_files hfiles (.inl rfl) fun tr htr => by cases htr)
      rcases read with e | w
      · obtain ⟨rfl, rfl⟩ := after_ret.mp hmove
        exact .inl (beforeReread_of_files hfiles (.inr ⟨e, rfl⟩) fun tr htr => by cases htr)
      · exact .inr ⟨v, gs, w, rest, rfl, hnext ▸ hgate, hmove⟩
  · exact .inl (hrefused _ (after_ret.mp hat))
  · exact .inl (hrefused _ (after_ret.mp hat))

end Histories

/-! ## Sound lifts -/

/-- The counter value a command ended at. -/
def Transition.ends : Transition → UInt64
  | .changed _ to' => to'
  | .alreadyThere at' => at'

/-- The lift is sound: where `recover` reports success, the gate is open at the value it ended at;
and it increments the counter only from a value whose successor the release opens. -/
structure LiftsReleased (owned : Owned C) (disk : Disk)
    (es : List (Event UInt64 (Act Unit Op Reply Unit))) : Prop where
  returned : ∀ tr, (recover owned.lift).Yields (callsOf () es) (.ok tr) → Opens owned disk tr.ends
  incremented : ∀ e ∈ es, ∀ r, e.label = .call () ⟨.increment, r⟩ → Opens owned disk (e.pre + 1)

/-- If the counter is read a second time, an even value is one above the first, and an increment
finds the counter at the first. -/
def RereadsReleased (es : List (Event UInt64 (Act Unit Op Reply Unit))) : Prop :=
  ∀ v w rest, reads (callsOf () es) = v :: w :: rest → (stateOf w = .running → w = v + 1) ∧
    ∀ e ∈ es, ∀ r, e.label = .call () ⟨.increment, r⟩ → e.pre = v

section Lifts

variable {owned : Owned C} {disk : Disk} {v w : UInt64} {cs gs rest : List (Exchange Op Reply)}
  {q : Prog Op Reply (Except TransitionError Transition)}

theorem Opens.running (h : Opens owned disk v) : stateOf v = .running := by
  obtain ⟨cs, hgate, -⟩ := eval_eq_iff.mp h
  exact (yields_gate_opened.mp hgate).1

theorem opens_of_gate (hdisk : ∀ c ∈ cs, IsFile c.1 → c.2 = disk.answer c.1) (hgs : gs ⊆ cs)
    (h : (gate owned.lift v).run.Yields gs (.ok .opened)) : Opens owned disk v :=
  eval_eq_iff.mpr ⟨gs, h, fun c hc => hdisk c (hgs hc) ((gate_files owned v).of_after h c hc)⟩

theorem Reread.opens (h : Reread owned cs q v gs w rest)
    (hdisk : ∀ c ∈ cs, IsFile c.1 → c.2 = disk.answer c.1) : Opens owned disk (v + 1) := by
  refine opens_of_gate hdisk (fun c hc => ?_) h.released
  rw [h.history]
  exact List.mem_cons_of_mem _ (List.mem_append_left _ hc)

theorem Reread.reads (h : Reread owned cs q v gs w rest) :
    Service.reads cs = v :: w :: Service.reads rest := by
  have hfiles := (gate_files owned _).of_after h.released
  rw [h.history, reads_cons, reads_append, reads_of_files hfiles, List.nil_append, reads_cons]

/-- On an odd value, what a rereading call goes on with is the increment. -/
theorem Reread.advances (h : Reread owned cs q v gs w rest) (hodd : stateOf w ≠ .running) :
    (advance w).After rest q := by
  have hgo := h.goesOn
  rwa [moveFrom, if_neg hodd] at hgo

/-- On an even one, it returns. -/
theorem Reread.returns (h : Reread owned cs q v gs w rest) (heven : stateOf w = .running) :
    rest = [] ∧ q = .ret (.ok (.alreadyThere w)) := by
  have hgo := h.goesOn
  rw [moveFrom, if_pos heven] at hgo
  exact after_ret.mp hgo

/-- On an odd value, it has come to its end only if it has issued the increment. -/
theorem Reread.issues {tr : Transition} (h : Reread owned cs (.ret (.ok tr)) v gs w rest)
    (hodd : stateOf w ≠ .running) : ∃ r, (⟨.increment, r⟩ : Exchange Op Reply) ∈ cs := by
  rcases calls_of_advance (h.advances hodd) with ⟨-, hq⟩ | ⟨r, tl, hrest, -⟩
  · cases hq
  · refine ⟨r, ?_⟩
    rw [h.history, hrest]
    simp

end Lifts

/-! ## Runs -/

section Runs

variable {owned : Owned C} {disk : Disk} {s t : UInt64}
  {es : List (Event UInt64 (Act Unit Op Reply Unit))}

/-- One call of `recover`, with others moving the counter, and the files staying as they are. -/
abbrev RecoverRun (owned : Owned C) (disk : Disk) (s : UInt64)
    (es : List (Event UInt64 (Act Unit Op Reply Unit))) (t : UInt64) : Prop :=
  Interleaving (Counter fun path n r => r = disk path n) Others (fun _ : Unit => recover owned.lift)
    s es t

/-- The files answer as they stand. -/
theorem answer_of_run (hrun : RecoverRun owned disk s es t) :
    ∀ c ∈ callsOf () es, IsFile c.1 → c.2 = disk.answer c.1 := by
  rintro ⟨op, r⟩ hc ⟨path, n, rfl⟩
  obtain ⟨e, he, hlabel⟩ := exists_mem_of_mem_callsOf hc
  exact ((hrun.run.step_of_mem he).sem_of_call hlabel).file_of_read

/-- The counter does not go back from the first reading to the second, nor from there to an
increment. -/
theorem Reread.order {cs gs rest : List (Exchange Op Reply)} {v w : UInt64}
    {q : Prog Op Reply (Except TransitionError Transition)} (hrun : RecoverRun owned disk s es t)
    (hcs : callsOf () es = cs) (h : Reread owned cs q v gs w rest) : v.toNat ≤ w.toNat ∧
      ∀ e ∈ es, ∀ r, e.label = .call () ⟨.increment, r⟩ → w.toNat ≤ e.pre.toNat := by
  have hfiles := (gate_files owned _).of_after h.released
  rw [h.history, ← List.cons_append] at hcs
  obtain ⟨l, m, m', r, rfl, hl, -, hbefore, hsecond, hafter⟩ := exists_call_after hrun.run hcs
  obtain rfl := hsecond.eq_of_read
  obtain ⟨l₁, n, n', r₁, rfl, -, -, -, hfirst, hbetween⟩ := exists_call hbefore hl
  obtain rfl := hfirst.eq_of_read
  have hstill : ∀ {a b u : UInt64},
      Counter (fun path n r => r = disk path n) a ⟨.readCounter, .ok u⟩ b → b = a := by
    intro a b u hread
    cases hread
    rfl
  rw [hstill hfirst] at hbetween
  rw [hstill hsecond] at hafter
  refine ⟨hbetween.mono fun _ _ _ => le_of_shared, fun e he x hlabel => ?_⟩
  have hmem : (⟨.increment, x⟩ : Exchange Op Reply) ∉ ⟨.readCounter, .ok v⟩ :: gs := by
    intro hmem
    rcases List.mem_cons.mp hmem with hmem | hmem
    · cases hmem
    · exact (hfiles _ hmem).quiet rfl
  rcases List.mem_append.mp he with he | he
  · exact absurd (hl ▸ mem_callsOf he hlabel) hmem
  · rcases List.mem_cons.mp he with rfl | he
    · cases hlabel
    · exact (hafter.mono_mem (f := UInt64.toNat) (fun _ _ _ h => le_of_shared h) he).1

/-- Where only released values are reread and incremented from, the lift is sound. -/
theorem lifts_of_rereads (hrun : RecoverRun owned disk s es t) (hre : RereadsReleased es) :
    LiftsReleased owned disk es where
  returned tr htr := by
    have hdisk := answer_of_run hrun
    rcases cases_of_recover htr with hb | ⟨v, gs, w, rest, hr⟩
    · obtain ⟨v, gs, rfl, hcs, hgate⟩ := hb.returned tr rfl
      refine opens_of_gate hdisk (fun c hc => ?_) hgate
      rw [hcs]
      exact List.mem_cons_of_mem _ hc
    · have hopens := hr.opens hdisk
      obtain ⟨heven, hinc⟩ := hre v w _ hr.reads
      by_cases hstate : stateOf w = .running
      · obtain ⟨-, hq⟩ := hr.returns hstate
        cases hq
        rw [Transition.ends, heven hstate]
        exact hopens
      · -- the value it incremented from is the first one, so the second was too
        obtain ⟨x, hx⟩ := hr.issues hstate
        obtain ⟨e, he, hlabel⟩ := exists_mem_of_mem_callsOf hx
        obtain ⟨hvw, hle⟩ := Reread.order hrun rfl hr
        have hwv := hle e he x hlabel
        rw [hinc e he x hlabel] at hwv
        obtain rfl : v = w := UInt64.toNat_inj.mp (le_antisymm hvw hwv)
        rw [of_advance (hr.advances hstate)]
        exact hopens
  incremented e he x hlabel := by
    obtain ⟨q, hafter⟩ := hrun.follows ()
    rcases cases_of_recover hafter with hb | ⟨v, gs, w, rest, hr⟩
    · exact absurd rfl (hb.quiet ⟨.increment, x⟩ (mem_callsOf he hlabel))
    · rw [(hre v w _ hr.reads).2 e he x hlabel]
      exact hr.opens (answer_of_run hrun)

/-- The lift is sound only then, since the files open the gate at one value. -/
theorem rereads_of_lifts (hrun : RecoverRun owned disk s es t)
    (hlifts : LiftsReleased owned disk es) : RereadsReleased es := by
  intro v w rest hreads
  obtain ⟨q, hafter⟩ := hrun.follows ()
  rcases cases_of_recover hafter with hb | ⟨v', gs, w', rest', hr⟩
  · have honce := hb.once
    rw [hreads] at honce
    simp at honce
  · rw [hr.reads] at hreads
    obtain ⟨rfl, htail⟩ := List.cons.inj hreads
    obtain ⟨rfl, -⟩ := List.cons.inj htail
    have hopens := hr.opens (answer_of_run hrun)
    refine ⟨fun hstate => ?_, fun e he x hlabel => ?_⟩
    · obtain ⟨-, rfl⟩ := hr.returns hstate
      exact (hlifts.returned _ hafter).unique hopens
    · exact (UInt64.add_left_inj 1).mp ((hlifts.incremented e he x hlabel).unique hopens)

/-- **When `recover` lifts to a released epoch.**  In every interleaving of one call, complete or
cut short, with increments of others, it does if and only if an even second reading of the counter
is one above the first, and an increment finds the counter where it was read first. -/
theorem recover_lifts_released (hrun : RecoverRun owned disk s es t) :
    LiftsReleased owned disk es ↔ RereadsReleased es :=
  ⟨rereads_of_lifts hrun, lifts_of_rereads hrun⟩

end Runs

/-! ## Two increments in between -/

/-- A release for the device `A` and the epoch 6. -/
def releaseSix : Bytes := Text.ascii "device A\nepoch 6\n"

/-- A device whose operator has signed that release and nothing else. -/
def deviceSix : Owned (Crypto.ofTable [([0x01], releaseSix, [0x30])]) where
  operatorKey := [0x01]
  deviceId := Text.ascii "A"
  pcrAlg := 0x000B
  pcrBitmap := 0x03 ::ᵥ 0x01 ::ᵥ 0x00 ::ᵥ .nil
  policy := .replicate 32 0x11
  indexName := []

/-- The release in its place. -/
def diskSix : Disk := fun path _ =>
  if path = release.record then .ok releaseSix
  else if path = release.sig then .ok [0x30]
  else .error .notFound

/-- `recover` reads 5 and checks the release for 6; others increment twice; it reads 7, increments,
and reads 8. -/
def twoIncrements : List (Event UInt64 (Act Unit Op Reply Unit)) :=
  [⟨5, .call () ⟨.readCounter, .ok 5⟩, 5⟩,
    ⟨5, .call () ⟨.readFile release.record (maxRecord + 1), .ok releaseSix⟩, 5⟩,
    ⟨5, .call () ⟨.readFile release.sig (maxSig + 1), .ok [0x30]⟩, 5⟩,
    ⟨5, .env (), 6⟩, ⟨6, .env (), 7⟩,
    ⟨7, .call () ⟨.readCounter, .ok 7⟩, 7⟩,
    ⟨7, .call () ⟨.increment, .ok ()⟩, 8⟩,
    ⟨8, .call () ⟨.readCounter, .ok 8⟩, 8⟩]

theorem check_releaseSix : Release.check (Crypto.ofTable [([0x01], releaseSix, [0x30])])
    deviceSix.operatorKey releaseSix [0x30] deviceSix.deviceId 6 = .ok () := by
  decide +kernel

theorem gate_deviceSix : (gate deviceSix.lift 6).run.Yields
    [⟨.readFile release.record (maxRecord + 1), .ok releaseSix⟩,
      ⟨.readFile release.sig (maxSig + 1), .ok [0x30]⟩] (.ok .opened) := by
  have hstate : stateOf 6 = .running := by decide
  have hrecord : releaseSix.length ≤ maxRecord := by decide
  have hsig : ([0x30] : Bytes).length ≤ maxSig := by decide
  exact yields_gate_opened.mpr ⟨hstate, releaseSix, [0x30],
    ReleaseFiles.yields_read_some.mpr ⟨hrecord, hsig, rfl⟩, check_releaseSix⟩

theorem twoIncrements_yields :
    (recover deviceSix.lift).Yields (callsOf () twoIncrements) (.ok (.changed 7 8)) := by
  have hmove : (moveTo .running).Yields
      [⟨.readCounter, .ok 7⟩, ⟨.increment, .ok ()⟩, ⟨.readCounter, .ok 8⟩] (.ok (.changed 7 8)) :=
    .call (.call (.call (.here _)))
  have hfrom : (recoverFrom deviceSix.lift (.ok 5)).Yields _ (.ok (.changed 7 8)) :=
    yields_bind.mpr ⟨_, _, .ok .opened, rfl, gate_deviceSix, hmove⟩
  exact .call hfrom

theorem diskSix_record (n : ℕ) : diskSix release.record n = .ok releaseSix := if_pos rfl

theorem diskSix_sig (n : ℕ) : diskSix release.sig n = .ok [0x30] := by
  have hpaths : release.sig ≠ release.record := by decide
  rw [diskSix, if_neg hpaths, if_pos rfl]

theorem opens_six : Opens deviceSix diskSix 6 := by
  refine eval_eq_iff.mpr ⟨_, gate_deviceSix, fun c hc => ?_⟩
  rcases List.mem_cons.mp hc with rfl | hc
  · exact (diskSix_record (maxRecord + 1)).symm
  · rw [List.mem_singleton.mp hc]
    exact (diskSix_sig (maxSig + 1)).symm

theorem twoIncrements_run : RecoverRun deviceSix diskSix 5 twoIncrements 8 where
  run := .cons (.call .readCounter) (.cons (.call (.readFile rfl)) (.cons (.call (.readFile rfl))
    (.cons (.env (show (5 : UInt64) ≤ 6 by decide)) (.cons (.env (show (6 : UInt64) ≤ 7 by decide))
      (.cons (.call .readCounter) (.cons (.call (.increment (by decide)))
        (.cons (.call .readCounter) (.nil _))))))))
  follows _ := ⟨_, twoIncrements_yields⟩

/-- With a release for 6, the counter is moved from 7 to 8, and the lift reported. -/
theorem recover_lifts_unreleased :
    ¬ ∀ (s : UInt64) (es : List (Event UInt64 (Act Unit Op Reply Unit))) (t : UInt64),
      RecoverRun deviceSix diskSix s es t → LiftsReleased deviceSix diskSix es := by
  intro h
  have hlifts := h _ _ _ twoIncrements_run
  have hopens : Opens deviceSix diskSix 8 := hlifts.returned _ twoIncrements_yields
  exact absurd (opens_six.unique hopens) (by decide)

/-- The increment did not find the value that was read first. -/
theorem twoIncrements_rereads : ¬ RereadsReleased twoIncrements := by
  intro hre
  have hlifts := (recover_lifts_released twoIncrements_run).mpr hre
  have hopens : Opens deviceSix diskSix 8 := hlifts.returned _ twoIncrements_yields
  exact absurd (opens_six.unique hopens) (by decide)

end TactiqAttest.Service
