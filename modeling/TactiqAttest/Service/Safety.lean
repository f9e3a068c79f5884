import TactiqAttest.Programs.Interleaving
import TactiqAttest.Service.Core

/-!
# The gate over whole runs

A device runs for as long as it likes: calls are admitted, operators trip, recover and settle, other
processes increment the stop counter, the index is deleted and defined again with a larger value,
and the release files are written, removed and corrupted by anyone at any moment, between the two
reads of one release too.  Of all that, only two things are assumed.  The counter never decreases.
And the operator's signature verifies only over records the operator signed.

`admit_safe`: whatever is let through was let through at an even counter value that a signed record
names, that record names no other value, and once the counter has moved past it the record lets
nothing more through.  The chain is short because nothing is cached: the value the gate was asked
about is the counter as this very call read it, and the record it was opened with was read after
that.
-/

namespace TactiqAttest.Service

open Labelled Programs Prog

/-- What a process may do. -/
inductive Task
  | admitCall (requestDigest : List.Vector UInt8 32)
  | status (nonce : Bytes)
  | trip
  | recover
  | settle (want : Stop.State)

/-- What comes out of it. -/
inductive Outcome
  | admission (out : Except String Admission)
  | receipt (out : Except String Bytes)
  | transition (out : Except TransitionError Transition)

/-- The program of a task, on one device. -/
def Task.program {C : Crypto} (owned : Owned C) : Task → Prog Op Reply Outcome
  | .admitCall requestDigest => .admission <$> (Service.admitCall owned.ctx requestDigest).run
  | .status nonce => .receipt <$> (Service.status owned.ctx nonce).run
  | .trip => .transition <$> Service.trip
  | .recover => .transition <$> Service.recover owned.lift
  | .settle want => .transition <$> Service.settle want

/-- What a call does to the counter, and what it may answer.  The counter never decreases; reading
it gives its value.  Files hold what `files` allows. -/
inductive Counter (files : String → ℕ → Except FileError Bytes → Prop) (s : UInt64) :
    Exchange Op Reply → UInt64 → Prop
  | readCounter : Counter files s ⟨.readCounter, .ok s⟩ s
  | readCounterFailed {e : String} : Counter files s ⟨.readCounter, .error e⟩ s
  | increment {s' : UInt64} {r : Except String Unit} :
      s ≤ s' → Counter files s ⟨.increment, r⟩ s'
  | certify {qd : List.Vector UInt8 32} {r : Except String (Bytes × Bytes)} :
      Counter files s ⟨.certify qd, r⟩ s
  | pcrRead {spec : String} {r : Except String Bytes} : Counter files s ⟨.pcrRead spec, r⟩ s
  | quote {qd : List.Vector UInt8 32} {spec : String} {r : Except String (Bytes × Bytes)} :
      Counter files s ⟨.quote qd spec, r⟩ s
  | readFile {path : String} {n : ℕ} {r : Except FileError Bytes} :
      files path n r → Counter files s ⟨.readFile path n, r⟩ s

variable {files : String → ℕ → Except FileError Bytes → Prop} {s s' t : UInt64}

/-- No call makes the counter decrease. -/
theorem Counter.le {c : Exchange Op Reply} (h : Counter files s c s') : s.toNat ≤ s'.toNat := by
  cases h with
  | increment hle => exact UInt64.le_iff_toNat_le.mp hle
  | readCounter => exact le_rfl
  | readCounterFailed => exact le_rfl
  | certify => exact le_rfl
  | pcrRead => exact le_rfl
  | quote => exact le_rfl
  | readFile => exact le_rfl

theorem Counter.eq_of_read {v : UInt64} (h : Counter files s ⟨.readCounter, .ok v⟩ s') : v = s := by
  cases h
  rfl

theorem Counter.file_of_read {path : String} {n : ℕ} {r : Except FileError Bytes}
    (h : Counter files s ⟨.readFile path n, r⟩ s') : files path n r := by
  cases h with
  | readFile hr => exact hr

/-- Others move the counter: increments of other processes, a new definition of the index. -/
def Others (s : UInt64) (_ : Unit) (s' : UInt64) : Prop := s ≤ s'

section Runs

variable {C : Crypto} {ι : Type} {owned : Owned C} {tasks : ι → Task} {i j : ι}
  {es es₁ es₂ : List (Event UInt64 (Act ι Op Reply Unit))} {c c' : UInt64} {record : Bytes}

theorem le_of_shared {s : UInt64} {a : Act ι Op Reply Unit} {s' : UInt64}
    (h : Shared (Counter files) Others s a s') : s.toNat ≤ s'.toNat := by
  cases h with
  | call hsem => exact hsem.le
  | env henv => exact UInt64.le_iff_toNat_le.mp henv

variable [DecidableEq ι]

/-- A run of the device: the tasks interleaved, with anything in the files. -/
abbrev DeviceRun (owned : Owned C) (tasks : ι → Task) (s : UInt64)
    (es : List (Event UInt64 (Act ι Op Reply Unit))) (t : UInt64) : Prop :=
  Interleaving (Counter fun _ _ _ => True) Others (fun i => (tasks i).program owned) s es t

/-- Call `i` has been let through. -/
def Allowed (owned : Owned C) (tasks : ι → Task) (es : List (Event UInt64 (Act ι Op Reply Unit)))
    (i : ι) : Prop :=
  ((tasks i).program owned).Yields (callsOf i es) (.admission (.ok .allow))

/-- Call `i` has been let through, having read the counter as `c` and the release as `record`. -/
structure AllowedOn (owned : Owned C) (tasks : ι → Task)
    (es : List (Event UInt64 (Act ι Op Reply Unit))) (i : ι) (c : UInt64) (record : Bytes) :
    Prop where
  allowed : Allowed owned tasks es i
  counter : ⟨.readCounter, .ok c⟩ ∈ callsOf i es
  release : ⟨.readFile Service.release.record (maxRecord + 1), .ok record⟩ ∈ callsOf i es

/-- The history of a call that was let through: the counter, then the two files. -/
theorem calls_of_allowed (h : Allowed owned tasks es i) :
    ∃ c record sig, callsOf i es =
        [⟨.readCounter, .ok c⟩, ⟨.readFile Service.release.record (maxRecord + 1), .ok record⟩,
          ⟨.readFile Service.release.sig (maxSig + 1), .ok sig⟩] ∧
      stateOf c = .running ∧
      Release.check C owned.operatorKey record sig owned.deviceId c = .ok () := by
  unfold Allowed Task.program at h
  rcases htask : tasks i with requestDigest | nonce | _ | _ | want
  · rw [htask] at h
    obtain ⟨out, hout, hadmit⟩ := yields_map.mp h
    obtain rfl : out = .ok .allow := by injection hadmit
    obtain ⟨c, rest, hcs, hgate⟩ := yields_admit_allow.mp hout
    obtain ⟨hstate, record, sig, hread, hcheck⟩ := yields_gate_opened.mp hgate
    obtain ⟨-, -, hrest⟩ := ReleaseFiles.yields_read_some.mp hread
    exact ⟨c, record, sig, by rw [hcs, hrest], hstate, hcheck⟩
  all_goals
    rw [htask] at h
    obtain ⟨out, -, hout⟩ := yields_map.mp h
    cases hout

/-- What a call that was let through read. -/
theorem AllowedOn.check (h : AllowedOn owned tasks es i c record) :
    stateOf c = .running ∧ ∃ sig, callsOf i es =
        [⟨.readCounter, .ok c⟩, ⟨.readFile Service.release.record (maxRecord + 1), .ok record⟩,
          ⟨.readFile Service.release.sig (maxSig + 1), .ok sig⟩] ∧
      Release.check C owned.operatorKey record sig owned.deviceId c = .ok () := by
  obtain ⟨c', record', sig, hcs, hstate, hcheck⟩ := calls_of_allowed h.allowed
  have hcounter := h.counter
  have hrelease := h.release
  rw [hcs] at hcounter hrelease
  obtain rfl : c = c' := by simpa using hcounter
  have hpaths : Service.release.record ≠ Service.release.sig := by decide
  obtain rfl : record = record' := by simpa [hpaths] using hrelease
  exact ⟨hstate, sig, hcs, hcheck⟩

/-- The counter value a call was let through at is the counter at the moment the call read it. -/
theorem AllowedOn.readsAt (h : AllowedOn owned tasks es i c record)
    (hrun : DeviceRun owned tasks s es t) :
    ∃ e ∈ es, e.label = .call i ⟨.readCounter, .ok c⟩ ∧ e.pre = c := by
  obtain ⟨e, he, hlabel⟩ := exists_mem_of_mem_callsOf h.counter
  have hread := (hrun.run.step_of_mem he).sem_of_call hlabel
  exact ⟨e, he, hlabel, hread.eq_of_read.symm⟩

/-- A record lets calls through at one counter value. -/
theorem AllowedOn.unique (h : AllowedOn owned tasks es i c record)
    (h' : AllowedOn owned tasks es j c' record) : c = c' := by
  obtain ⟨-, sig, -, hcheck⟩ := h.check
  obtain ⟨-, sig', -, hcheck'⟩ := h'.check
  exact Release.check_unique hcheck hcheck'

/-- A call that starts once the counter is past a value is let through at larger values only. -/
theorem AllowedOn.lt_of_past (h : AllowedOn owned tasks es j c' record)
    (hrun : DeviceRun owned tasks s es t) (hsplit : es = es₁ ++ es₂)
    {e : Event UInt64 (Act ι Op Reply Unit)} (he : e ∈ es₁) (hpast : c < e.post)
    (hlater : callsOf j es₁ = []) : c < c' := by
  have hcounter := h.counter
  rw [hsplit, callsOf_append, hlater, List.nil_append] at hcounter
  obtain ⟨e', he', hlabel⟩ := exists_mem_of_mem_callsOf hcounter
  obtain ⟨m, hrun₁, hrun₂⟩ := Run.append_iff.mp (hsplit ▸ hrun.run)
  have hmono₁ := hrun₁.mono_mem (f := UInt64.toNat) (fun _ _ _ hstep => le_of_shared hstep) he
  have hmono₂ := hrun₂.mono_mem (f := UInt64.toNat) (fun _ _ _ hstep => le_of_shared hstep) he'
  have hval : c' = e'.pre := ((hrun₂.step_of_mem he').sem_of_call hlabel).eq_of_read
  have hlt := UInt64.lt_iff_toNat_lt.mp hpast
  refine UInt64.lt_iff_toNat_lt.mpr ?_
  rw [hval]
  omega

/-- **Safety of the stop gate.**  In every run of the device:

* a call that is let through was let through on some counter value and some record it read;
* the value is even, it was the counter when the call read it, and the record is one the operator
  signed and reads as this device and this value;
* a record lets calls through at one counter value only;
* once the counter has moved past that value, no call that starts later is let through on it. -/
theorem admit_safe {signed : Set Bytes}
    (hsigned : ∀ record sig, C.verify owned.operatorKey record sig = true → record ∈ signed)
    (hrun : DeviceRun owned tasks s es t) :
    (∀ i, Allowed owned tasks es i → ∃ c record, AllowedOn owned tasks es i c record) ∧
      (∀ i c record, AllowedOn owned tasks es i c record →
        c.toNat % 2 = 0 ∧ (∃ e ∈ es, e.label = .call i ⟨.readCounter, .ok c⟩ ∧ e.pre = c) ∧
          record ∈ signed ∧ Release.parse record = .ok ⟨owned.deviceId, c⟩) ∧
      (∀ i j c c' record, AllowedOn owned tasks es i c record →
        AllowedOn owned tasks es j c' record → c = c') ∧
      ∀ i j c c' record, AllowedOn owned tasks es i c record →
        ∀ es₁ es₂, es = es₁ ++ es₂ → (∃ e ∈ es₁, c < e.post) → callsOf j es₁ = [] →
          ¬ AllowedOn owned tasks es j c' record := by
  refine ⟨fun i hi => ?_, fun i c record hi => ?_, fun i j c c' record hi hj => hi.unique hj,
    fun i j c c' record hi es₁ es₂ hsplit ⟨e, he, hpast⟩ hlater hj => ?_⟩
  · obtain ⟨c, record, sig, hcs, -, -⟩ := calls_of_allowed hi
    exact ⟨c, record, hi, by rw [hcs]; simp, by rw [hcs]; simp⟩
  · obtain ⟨hstate, sig, -, hcheck⟩ := hi.check
    obtain ⟨-, ⟨s, -, hverify⟩, hparse⟩ := Release.check_ok.mp hcheck
    exact ⟨stateOf_eq_running.mp hstate, hi.readsAt hrun, hsigned record s hverify, hparse⟩
  · have hlt := hj.lt_of_past hrun hsplit he hpast hlater
    rw [hi.unique hj] at hlt
    exact absurd hlt (UInt64.lt_irrefl c')

end Runs

/-! ## A run -/

/-- A release for the device `A` and the epoch 4, as bytes. -/
def releaseFour : Bytes := Text.ascii "device A\nepoch 4\n"

/-- A device whose operator has signed that release and nothing else. -/
def deviceFour : Owned (Crypto.ofTable [([0x01], releaseFour, [0x30])]) where
  operatorKey := [0x01]
  deviceId := Text.ascii "A"
  pcrAlg := 0x000B
  pcrBitmap := 0x03 ::ᵥ 0x01 ::ᵥ 0x00 ::ᵥ .nil
  policy := .replicate 32 0x11
  indexName := []

/-- A call, and an operator who stops the agent meanwhile. -/
def callAndTrip : Bool → Task
  | false => .admitCall ⟨List.replicate 32 0x22, rfl⟩
  | true => .trip

/-- The call reads the counter and the record, the operator trips, the call reads the signature. -/
def tripDuringCall : List (Event UInt64 (Act Bool Op Reply Unit)) :=
  [⟨4, .call false ⟨.readCounter, .ok 4⟩, 4⟩,
    ⟨4, .call false ⟨.readFile Service.release.record (maxRecord + 1), .ok releaseFour⟩, 4⟩,
    ⟨4, .call true ⟨.readCounter, .ok 4⟩, 4⟩,
    ⟨4, .call true ⟨.increment, .ok ()⟩, 5⟩,
    ⟨5, .call true ⟨.readCounter, .ok 5⟩, 5⟩,
    ⟨5, .call false ⟨.readFile Service.release.sig (maxSig + 1), .ok [0x30]⟩, 5⟩]

/-- Reading that release. -/
def readsReleaseFour : List (Exchange Op Reply) :=
  [⟨.readFile Service.release.record (maxRecord + 1), .ok releaseFour⟩,
    ⟨.readFile Service.release.sig (maxSig + 1), .ok [0x30]⟩]

theorem yields_readsReleaseFour :
    Service.release.read.run.Yields readsReleaseFour (.ok (some (releaseFour, [0x30]))) := by
  have hrecord : releaseFour.length ≤ maxRecord := by decide
  have hsig : ([0x30] : Bytes).length ≤ maxSig := by decide
  exact ReleaseFiles.yields_read_some.mpr ⟨hrecord, hsig, rfl⟩

theorem check_releaseFour : Release.check (Crypto.ofTable [([0x01], releaseFour, [0x30])])
    deviceFour.operatorKey releaseFour [0x30] deviceFour.deviceId 4 = .ok () := by
  decide +kernel

theorem tripDuringCall_allowed : Allowed deviceFour callAndTrip tripDuringCall false := by
  have hstate : stateOf 4 = .running := by decide
  have hgate : (gate deviceFour.ctx.lift 4).run.Yields readsReleaseFour (.ok .opened) :=
    yields_gate_opened.mpr ⟨hstate, _, _, yields_readsReleaseFour, check_releaseFour⟩
  exact yields_map.mpr ⟨.ok .allow, yields_admit_allow.mpr ⟨4, readsReleaseFour, rfl, hgate⟩, rfl⟩

theorem tripDuringCall_run : DeviceRun deviceFour callAndTrip 4 tripDuringCall 5 where
  run := .cons (.call .readCounter) (.cons (.call (.readFile trivial)) (.cons (.call .readCounter)
    (.cons (.call (.increment (by decide))) (.cons (.call .readCounter)
      (.cons (.call (.readFile trivial)) (.nil _))))))
  follows i := by
    cases i with
    | false => exact ⟨_, tripDuringCall_allowed⟩
    | true =>
      have hread : callsOf true tripDuringCall =
          [⟨.readCounter, .ok 4⟩] ++ [⟨.increment, .ok ()⟩, ⟨.readCounter, .ok 5⟩] := rfl
      rw [hread]
      exact ⟨_, .call (.call (.call (.here _)))⟩

/-- The call is let through on the release for 4, which the counter has left by the time it is. -/
theorem tripDuringCall_safe :
    ∃ c record, AllowedOn deviceFour callAndTrip tripDuringCall false c record ∧ c.toNat % 2 = 0 ∧
      record ∈ ({releaseFour} : Set Bytes) ∧
      Release.parse record = .ok ⟨deviceFour.deviceId, c⟩ := by
  have hsigned : ∀ record sig,
      (Crypto.ofTable [([0x01], releaseFour, [0x30])]).verify deviceFour.operatorKey record sig =
      true →
        record ∈ ({releaseFour} : Set Bytes) := by
    intro record sig h
    have hmem := List.mem_singleton.mp (of_decide_eq_true h)
    exact (Prod.mk.inj (Prod.mk.inj hmem).2).1
  obtain ⟨hallowed, hchecked, -, -⟩ := admit_safe hsigned tripDuringCall_run
  obtain ⟨c, record, hon⟩ := hallowed false tripDuringCall_allowed
  obtain ⟨heven, -, hmem, hparse⟩ := hchecked false c record hon
  exact ⟨c, record, hon, heven, hmem, hparse⟩

end TactiqAttest.Service
