import Mathlib.Data.List.Sublists
import Mathlib.Logic.Function.Basic
import TactiqAttest.Bytes.BigEndian
import TactiqAttest.Programs.Interaction

/-!
# A directory that survives power cuts only in part

Files are numbered; a directory leads from names to files.  What is written is first only in memory:

* the content of a file is on the disk once the file has been synced;
* the directory on the disk is `saved`, and the changes made to it since the last time the directory
  was synced are `pending`.  A change is atomic, a rename too.  When power is cut, any of the
  pending changes may have reached the disk, each by itself, and the others are lost.

`Image d m` says that `m` is a directory that a power cut may leave, and `Cut d d'` is the power
cut.  `Step` is what each file operation can do and answer.  A failed operation changes nothing,
except that a failed write may have written a part.
-/

namespace Files

variable {ν : Type}

/-- A directory: the file each name leads to. -/
abbrev Dir (ν : Type) := ν → Option ℕ

/-- A change of the directory. -/
inductive Update (ν : Type) where
  | link (n : ν) (f : ℕ)
  | unlink (n : ν)
  | move (src dst : ν) (f : ℕ)
  deriving DecidableEq

/-- Why an operation failed: that the file is not there is told apart from the rest. -/
structure IoError where
  notFound : Bool
  text : String
  deriving DecidableEq

/-- The file operations. -/
inductive Op (ν : Type) where
  /-- Open for writing: an existing file is emptied, else one is made. -/
  | create (n : ν)
  /-- Open for writing, and refuse to if there is a file. -/
  | createNew (n : ν)
  /-- Write at the end of an open file. -/
  | write (f : ℕ) (b : Bytes)
  /-- fsync of a file. -/
  | sync (f : ℕ)
  /-- Open for reading. -/
  | openRead (n : ν)
  /-- The whole content of a file. -/
  | read (n : ν)
  /-- Whether a name leads anywhere. -/
  | stat (n : ν)
  | rename (src dst : ν)
  | remove (n : ν)
  /-- fsync of the directory. -/
  | syncDir
  /-- The names in the directory.  The listing may fail at any entry. -/
  | list
  deriving DecidableEq

/-- What a successful operation returns. -/
abbrev Result : Op ν → Type
  | .create _ | .createNew _ | .openRead _ => ℕ
  | .read _ => Bytes
  | .list => List (Except IoError ν)
  | _ => Unit

/-- What an operation returns. -/
abbrev Reply (op : Op ν) : Type := Except IoError (Result op)

/-- A directory with its files, in memory and on the disk. -/
structure Disk (ν : Type) where
  /-- The directory on the disk. -/
  saved : Dir ν
  /-- The changes since, oldest first. -/
  pending : List (Update ν)
  /-- The contents of the files. -/
  data : ℕ → Bytes
  /-- Whether the content is on the disk. -/
  synced : ℕ → Bool
  /-- The numbers from here on are unused. -/
  next : ℕ

variable [DecidableEq ν]

namespace Update

/-- The directory after a change. -/
def apply : Update ν → Dir ν → Dir ν
  | link n f, m => Function.update m n (some f)
  | unlink n, m => Function.update m n none
  | move src dst f, m => Function.update (Function.update m src none) dst (some f)

end Update

/-- The directory after some changes. -/
def replay (us : List (Update ν)) (m : Dir ν) : Dir ν := us.foldl (fun m u => u.apply m) m

/-- Changes that leave a name alone. -/
theorem replay_of_keeps {us : List (Update ν)} {m : Dir ν} {n : ν}
    (h : ∀ u ∈ us, ∀ m, u.apply m n = m n) : replay us m n = m n := by
  induction us generalizing m with
  | nil => rfl
  | cons u us ih =>
    rw [List.forall_mem_cons] at h
    exact (ih h.2).trans (h.1 m)

namespace Disk

/-- An empty directory. -/
def empty : Disk ν := ⟨fun _ => none, [], fun _ => [], fun _ => true, 0⟩

/-- The directory as those who use it see it. -/
def view (d : Disk ν) : Dir ν := replay d.pending d.saved

/-- A directory that a power cut may leave. -/
def Image (d : Disk ν) (m : Dir ν) : Prop := ∃ us, us.Sublist d.pending ∧ m = replay us d.saved

/-- A change of the directory. -/
def push (d : Disk ν) (u : Update ν) : Disk ν := { d with pending := d.pending ++ [u] }

/-- The name leads to a file with this content. -/
def Holds (d : Disk ν) (n : ν) (b : Bytes) : Prop := ∃ f, d.view n = some f ∧ d.data f = b

/-- A new, empty file. -/
def make (d : Disk ν) (n : ν) : Disk ν where
  saved := d.saved
  pending := d.pending ++ [.link n d.next]
  data := Function.update d.data d.next []
  synced := Function.update d.synced d.next false
  next := d.next + 1

/-- A new content of a file, in memory. -/
def put (d : Disk ν) (f : ℕ) (b : Bytes) : Disk ν :=
  { d with data := Function.update d.data f b, synced := Function.update d.synced f false }

/-- fsync of a file. -/
def flush (d : Disk ν) (f : ℕ) : Disk ν := { d with synced := Function.update d.synced f true }

/-- fsync of the directory. -/
def commit (d : Disk ν) : Disk ν := { d with saved := d.view, pending := [] }

/-- The names that lead somewhere are all listed, unless an entry failed. -/
def Lists (d : Disk ν) (entries : List (Except IoError ν)) : Prop :=
  entries.Nodup ∧ (∀ n, .ok n ∈ entries → d.view n ≠ none) ∧
    ∀ n, d.view n ≠ none → .ok n ∈ entries ∨ ∃ e, .error e ∈ entries

/-- What an operation can do and answer. -/
inductive Step : Disk ν → (op : Op ν) → Reply op → Disk ν → Prop
  | made {d : Disk ν} {n : ν} (h : d.view n = none) : Step d (.create n) (.ok d.next) (d.make n)
  | emptied {d : Disk ν} {n : ν} {f : ℕ} (h : d.view n = some f) :
      Step d (.create n) (.ok f) (d.put f [])
  | madeNew {d : Disk ν} {n : ν} (h : d.view n = none) :
      Step d (.createNew n) (.ok d.next) (d.make n)
  | written {d : Disk ν} {f : ℕ} {b : Bytes} : Step d (.write f b) (.ok ())
      (d.put f (d.data f ++ b))
  | cutShort {d : Disk ν} {f : ℕ} {b part : Bytes} {e : IoError} (h : part <+: b) (hne : part ≠ b) :
      Step d (.write f b) (.error e) (d.put f (d.data f ++ part))
  | synced {d : Disk ν} {f : ℕ} : Step d (.sync f) (.ok ()) (d.flush f)
  | opened {d : Disk ν} {n : ν} {f : ℕ} (h : d.view n = some f) : Step d (.openRead n) (.ok f) d
  | read {d : Disk ν} {n : ν} {f : ℕ} (h : d.view n = some f) :
      Step d (.read n) (.ok (d.data f)) d
  | found {d : Disk ν} {n : ν} (h : d.view n ≠ none) : Step d (.stat n) (.ok ()) d
  | renamed {d : Disk ν} {src dst : ν} {f : ℕ} (h : d.view src = some f) :
      Step d (.rename src dst) (.ok ()) (d.push (.move src dst f))
  | removed {d : Disk ν} {n : ν} (h : d.view n ≠ none) :
      Step d (.remove n) (.ok ()) (d.push (.unlink n))
  | committed {d : Disk ν} : Step d .syncDir (.ok ()) d.commit
  | listed {d : Disk ν} {entries : List (Except IoError ν)} (h : d.Lists entries) :
      Step d .list (.ok entries) d
  | failed {d : Disk ν} {op : Op ν} {e : IoError}
      (h : ∀ n, op = .remove n → e.notFound = true → d.view n = none) : Step d op (.error e) d

/-- Power is cut: of the pending changes `us` have reached the disk, and the content of a file that
was not synced can be anything. -/
inductive CutTo (d : Disk ν) (us : List (Update ν)) : Disk ν → Prop
  | mk (data : ℕ → Bytes) (hus : us.Sublist d.pending)
      (hdata : ∀ f, d.synced f = true → data f = d.data f) :
      CutTo d us ⟨replay us d.saved, [], data, fun _ => true, d.next⟩

/-- Power is cut, whatever survives. -/
def Cut (d d' : Disk ν) : Prop := ∃ us, d.CutTo us d'

/-- Another program works on some names for a while: it makes files, writes what it likes, syncs,
and removes. -/
inductive Works (P : ν → Prop) : Disk ν → Disk ν → Prop
  | none (d : Disk ν) : Works P d d
  | make {d d' : Disk ν} {n : ν} (hn : P n) (h : d.view n = .none) :
      Works P (d.make n) d' → Works P d d'
  | put {d d' : Disk ν} {n : ν} {f : ℕ} {b : Bytes} (hn : P n) (h : d.view n = some f) :
      Works P (d.put f b) d' → Works P d d'
  | flush {d d' : Disk ν} {n : ν} {f : ℕ} (hn : P n) (h : d.view n = some f) :
      Works P (d.flush f) d' → Works P d d'
  | remove {d d' : Disk ν} {n : ν} (hn : P n) : Works P (d.push (.unlink n)) d' → Works P d d'

/-! ## A disk without faults -/

/-- The answer of a disk on which an operation fails only when a file it needs is not there, or one
it makes is.  It does not list. -/
def serve (d : Disk ν) : (op : Op ν) → Reply op × Disk ν
  | .create n =>
    match d.view n with
    | some f => (.ok f, d.put f [])
    | none => (.ok d.next, d.make n)
  | .createNew n =>
    match d.view n with
    | some _ => (.error ⟨false, "exists"⟩, d)
    | none => (.ok d.next, d.make n)
  | .write f b => (.ok (), d.put f (d.data f ++ b))
  | .sync f => (.ok (), d.flush f)
  | .openRead n =>
    match d.view n with
    | some f => (.ok f, d)
    | none => (.error ⟨true, "not found"⟩, d)
  | .read n =>
    match d.view n with
    | some f => (.ok (d.data f), d)
    | none => (.error ⟨true, "not found"⟩, d)
  | .stat n =>
    match d.view n with
    | some _ => (.ok (), d)
    | none => (.error ⟨true, "not found"⟩, d)
  | .rename src dst =>
    match d.view src with
    | some f => (.ok (), d.push (.move src dst f))
    | none => (.error ⟨true, "not found"⟩, d)
  | .remove n =>
    match d.view n with
    | some _ => (.ok (), d.push (.unlink n))
    | none => (.error ⟨true, "not found"⟩, d)
  | .syncDir => (.ok (), d.commit)
  | .list => (.error ⟨false, "not listed"⟩, d)

theorem step_serve (d : Disk ν) (op : Op ν) : d.Step op (d.serve op).1 (d.serve op).2 := by
  cases op with
  | write f b => exact .written
  | sync f => exact .synced
  | syncDir => exact .committed
  | list => exact .failed fun _ h => by cases h
  | create n =>
    rw [serve]
    split
    · exact .emptied ‹_›
    · exact .made ‹_›
  | createNew n =>
    rw [serve]
    split
    · exact .failed fun _ h => by cases h
    · exact .madeNew ‹_›
  | openRead n =>
    rw [serve]
    split
    · exact .opened ‹_›
    · exact .failed fun _ h => by cases h
  | read n =>
    rw [serve]
    split
    · exact .read ‹_›
    · exact .failed fun _ h => by cases h
  | stat n =>
    rw [serve]
    split
    · rename_i hf
      exact .found (by rw [hf]; exact Option.some_ne_none _)
    · exact .failed fun _ h => by cases h
  | rename src dst =>
    rw [serve]
    split
    · exact .renamed ‹_›
    · exact .failed fun _ h => by cases h
  | remove n =>
    rw [serve]
    split
    · rename_i hf
      exact .removed (by rw [hf]; exact Option.some_ne_none _)
    · rename_i hf
      exact .failed fun n' h _ => by cases h; exact hf

/-! ## Images -/

variable {d d' : Disk ν} {m : Dir ν} {u : Update ν} {n n' : ν} {f : ℕ} {b b' : Bytes}

theorem Holds.unique (h : d.Holds n b) (h' : d.Holds n b') : b = b' := by
  obtain ⟨f, hf, rfl⟩ := h
  obtain ⟨f', hf', rfl⟩ := h'
  obtain rfl : f = f' := Option.some_inj.mp (hf.symm.trans hf')
  rfl

@[simp] theorem view_push : (d.push u).view = u.apply d.view := by
  rw [view, push, replay, List.foldl_append]
  rfl

@[simp] theorem view_make : (d.make n).view = Function.update d.view n (some d.next) :=
  view_push (u := .link n d.next)

@[simp] theorem view_put : (d.put f b).view = d.view := rfl

@[simp] theorem view_flush : (d.flush f).view = d.view := rfl

@[simp] theorem view_commit : d.commit.view = d.view := rfl

theorem image_view (d : Disk ν) : d.Image d.view := ⟨d.pending, List.Sublist.refl _, rfl⟩

/-- A change that is pending may be lost or not. -/
theorem image_push : (d.push u).Image m ↔ d.Image m ∨ ∃ m', d.Image m' ∧ m = u.apply m' := by
  have happly : ∀ us : List (Update ν), replay (us ++ [u]) d.saved =
      u.apply (replay us d.saved) := by
    intro us
    rw [replay, List.foldl_append]
    rfl
  constructor
  · rintro ⟨us, hus, rfl⟩
    obtain ⟨us, last, rfl, hfirst, hlast⟩ := List.sublist_append_iff.mp hus
    rcases List.sublist_singleton.mp hlast with rfl | rfl
    · exact .inl ⟨us, hfirst, by rw [List.append_nil]; rfl⟩
    · exact .inr ⟨_, ⟨us, hfirst, rfl⟩, happly us⟩
  · rintro (⟨us, hus, rfl⟩ | ⟨_, ⟨us, hus, rfl⟩, rfl⟩)
    · exact ⟨us, hus.trans (List.sublist_append_left _ _), rfl⟩
    · exact ⟨us ++ [u], hus.append (List.Sublist.refl _), (happly us).symm⟩

theorem image_make :
    (d.make n).Image m ↔
      d.Image m ∨ ∃ m', d.Image m' ∧ m = Function.update m' n (some d.next) :=
  image_push (u := .link n d.next)

@[simp] theorem image_put : (d.put f b).Image m ↔ d.Image m := Iff.rfl

@[simp] theorem image_flush : (d.flush f).Image m ↔ d.Image m := Iff.rfl

theorem image_of_settled (h : d.pending = []) : d.Image m ↔ m = d.view := by
  unfold Image view
  rw [h]
  constructor
  · rintro ⟨us, hus, rfl⟩
    rw [List.sublist_nil.mp hus]
  · rintro rfl
    exact ⟨[], List.Sublist.refl _, rfl⟩

/-- Nothing can be under a name on an empty disk. -/
theorem image_empty {m : Dir ν} (h : (empty : Disk ν).Image m) (n : ν) : m n = none := by
  rw [(image_of_settled rfl).mp h]
  rfl

@[simp] theorem image_commit : d.commit.Image m ↔ m = d.view := image_of_settled rfl

/-- After a power cut the directory is an image of what it was before. -/
theorem Cut.image (h : d.Cut d') : d.Image d'.view ∧ ∀ m, d'.Image m ↔ m = d'.view := by
  obtain ⟨us, data, hus, -⟩ := h
  exact ⟨⟨us, hus, rfl⟩, fun m => image_of_settled rfl⟩

/-- A power cut that loses no change of the directory. -/
theorem cut_restart {data : ℕ → Bytes} (hdata : ∀ f, d.synced f = true → data f = d.data f) :
    d.Cut ⟨d.view, [], data, fun _ => true, d.next⟩ :=
  ⟨d.pending, .mk data (List.Sublist.refl _) hdata⟩

/-! ## Changes under some names only -/

/-- The directory changes under names of `P` only. -/
def Within (P : ν → Prop) (d d' : Disk ν) : Prop :=
  d'.saved = d.saved ∧ ∃ us, d'.pending = d.pending ++ us ∧
    ∀ u ∈ us, ∀ m n, ¬ P n → u.apply m n = m n

variable {P Q : ν → Prop} {d'' : Disk ν}

theorem Within.refl (d : Disk ν) : Within P d d :=
  ⟨rfl, [], (List.append_nil _).symm, fun _ hu => by cases hu⟩

theorem Within.trans (h : Within P d d') (h' : Within P d' d'') : Within P d d'' := by
  obtain ⟨hsaved, us, hus, hkeep⟩ := h
  obtain ⟨hsaved', us', hus', hkeep'⟩ := h'
  refine ⟨hsaved'.trans hsaved, us ++ us', by rw [hus', hus, List.append_assoc], fun u hu => ?_⟩
  rcases List.mem_append.mp hu with hu | hu
  · exact hkeep u hu
  · exact hkeep' u hu

theorem Within.mono (h : Within P d d') (hPQ : ∀ n, P n → Q n) : Within Q d d' := by
  obtain ⟨hsaved, us, hus, hkeep⟩ := h
  exact ⟨hsaved, us, hus, fun u hu m n hn => hkeep u hu m n fun hP => hn (hPQ n hP)⟩

theorem within_push (h : ∀ m n, ¬ P n → u.apply m n = m n) : Within P d (d.push u) :=
  ⟨rfl, [u], rfl, fun _ hu => List.mem_singleton.mp hu ▸ h⟩

theorem within_link (hn : P n) : Within P d (d.push (.link n f)) := by
  refine within_push fun m n' hn' => ?_
  have hne : n' ≠ n := fun heq => hn' (heq ▸ hn)
  exact Function.update_of_ne hne _ _

theorem within_unlink (hn : P n) : Within P d (d.push (.unlink n)) := by
  refine within_push fun m n' hn' => ?_
  have hne : n' ≠ n := fun heq => hn' (heq ▸ hn)
  exact Function.update_of_ne hne _ _

theorem within_put : Within P d (d.put f b) := Within.refl d

theorem within_flush : Within P d (d.flush f) := Within.refl d

theorem Works.within (h : Works P d d') : Within P d d' := by
  induction h with
  | none d => exact Within.refl d
  | make hn _ _ ih => exact (within_link hn).trans ih
  | put _ _ _ ih => exact within_put.trans ih
  | flush _ _ _ ih => exact within_flush.trans ih
  | remove hn _ ih => exact (within_unlink hn).trans ih

/-- What reaches the disk is what reached it of the earlier changes, and changes under names of
`P`. -/
theorem Within.survivors {us : List (Update ν)} (h : Within P d d') (hus : us.Sublist d'.pending) :
    ∃ us₀ us₁, us = us₀ ++ us₁ ∧ us₀.Sublist d.pending ∧
      (∀ u ∈ us₁, ∀ m n, ¬ P n → u.apply m n = m n) ∧
      ∀ n, ¬ P n → replay us d'.saved n = replay us₀ d.saved n := by
  obtain ⟨hsaved, added, hpending, hkeep⟩ := h
  rw [hpending] at hus
  obtain ⟨us₀, us₁, rfl, hus₀, hus₁⟩ := List.sublist_append_iff.mp hus
  have hkeep₁ : ∀ u ∈ us₁, ∀ m n, ¬ P n → u.apply m n = m n := fun u hu =>
    hkeep u (hus₁.subset hu)
  refine ⟨us₀, us₁, rfl, hus₀, hkeep₁, fun n hn => ?_⟩
  rw [replay, List.foldl_append, hsaved]
  exact replay_of_keeps fun u hu m => hkeep₁ u hu m n hn

theorem Within.image (h : Within P d d') (hm : d'.Image m) :
    ∃ m', d.Image m' ∧ ∀ n, ¬ P n → m n = m' n := by
  obtain ⟨us, hus, rfl⟩ := hm
  obtain ⟨us₀, -, -, hus₀, -, hreplay⟩ := h.survivors hus
  exact ⟨_, ⟨us₀, hus₀, rfl⟩, hreplay⟩

theorem Within.view (h : Within P d d') (hn : ¬ P n) : d'.view n = d.view n := by
  obtain ⟨hsaved, us, hpending, hkeep⟩ := h
  unfold Disk.view
  rw [hpending, replay, List.foldl_append, hsaved]
  exact replay_of_keeps fun u hu m => hkeep u hu m n hn

/-! ## What is left alone -/

/-- Nothing changes but what is under the names of `P`: other names lead to the same files, with the
same contents, and what was synced still is. -/
def Leaves (P : ν → Prop) (d d' : Disk ν) : Prop :=
  ∀ n, ¬ P n → d'.view n = d.view n ∧ ∀ f, d.view n = some f →
    d'.data f = d.data f ∧ (d.synced f = true → d'.synced f = true)

theorem Leaves.refl (d : Disk ν) : Leaves P d d := fun _ _ => ⟨rfl, fun _ _ => ⟨rfl, id⟩⟩

theorem Leaves.mono (h : Leaves P d d') (hPQ : ∀ n, P n → Q n) : Leaves Q d d' :=
  fun n hn => h n fun hP => hn (hPQ n hP)

theorem Leaves.trans (h : Leaves P d d') (h' : Leaves P d' d'') : Leaves P d d'' := by
  intro n hn
  obtain ⟨hview, hfile⟩ := h n hn
  obtain ⟨hview', hfile'⟩ := h' n hn
  refine ⟨hview'.trans hview, fun f hf => ?_⟩
  obtain ⟨hdata, hsync⟩ := hfile f hf
  obtain ⟨hdata', hsync'⟩ := hfile' f (hview.trans hf)
  exact ⟨hdata'.trans hdata, fun hs => hsync' (hsync hs)⟩

end Disk

end Files
