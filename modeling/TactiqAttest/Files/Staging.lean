import TactiqAttest.Files.Disk

/-!
# Files that are written under one name and published under another

To publish a file so that nobody ever finds a part of it under its name, one writes it under a
temporary name, syncs it, and renames it.  `Tidy Temp Final Good d` is what that discipline
maintains, with `Temp` the temporary names, `Final` those published under, and `Good n b` saying
that `b` is a content that may be published under `n`: in every directory that a power cut may
leave, whatever is under a published name is complete and on the disk.

`Safe` is what the discipline asks of an operation.  `Tidy.step`, `Tidy.works` and `Tidy.cut` are
the three things that can happen to a disk.
-/

namespace Files

namespace Disk

variable {ν : Type} [DecidableEq ν] {Temp Final : ν → Prop} {Good : ν → Bytes → Prop}
  {d d' : Disk ν} {m : Dir ν} {n : ν} {f : ℕ} {b : Bytes}

variable (Temp Final Good) in
/-- What is published is complete, now and after any power cut. -/
structure Tidy (d : Disk ν) : Prop where
  /-- File numbers are used once. -/
  bound : ∀ m, d.Image m → ∀ n f, m n = some f → f < d.next
  /-- A file has one name. -/
  unaliased : ∀ m, d.Image m → ∀ n n' f, m n = some f → m n' = some f → n = n'
  /-- A file that is under a temporary name now has no other name in any directory that a power cut
  may leave. -/
  temp : ∀ n f, Temp n → d.view n = some f → ∀ m, d.Image m → ∀ n', m n' = some f → n' = n
  good : ∀ m, d.Image m → ∀ n f, Final n → m n = some f → d.synced f = true ∧ Good n (d.data f)

variable (Temp Final Good) in
/-- What the discipline asks of an operation: files are written only under temporary names, and
moved to other names only when they are complete and synced. -/
def Safe (d : Disk ν) : Op ν → Prop
  | .create n | .createNew n => Temp n
  | .write f _ => ∃ n, Temp n ∧ d.view n = some f
  | .rename src dst => Temp src ∧ Final dst ∧
      ∀ f, d.view src = some f → d.synced f = true ∧ Good dst (d.data f)
  | _ => True

namespace Tidy

/-- Where no temporary and no published name leads anywhere, there is nothing to keep. -/
theorem of_none (hbound : ∀ m, d.Image m → ∀ n f, m n = some f → f < d.next)
    (hunaliased : ∀ m, d.Image m → ∀ n n' f, m n = some f → m n' = some f → n = n')
    (hnone : ∀ m, d.Image m → ∀ n, Temp n ∨ Final n → m n = none) : Tidy Temp Final Good d := by
  refine ⟨hbound, hunaliased, fun n f hn hf => ?_, fun m hm n f hn hf => ?_⟩
  · rw [hnone _ (image_view d) n (.inl hn)] at hf
    cases hf
  · rw [hnone m hm n (.inr hn)] at hf
    cases hf

theorem mono {Good' : ν → Bytes → Prop} (h : Tidy Temp Final Good d)
    (hgood : ∀ n b, Good n b → Good' n b) : Tidy Temp Final Good' d :=
  ⟨h.bound, h.unaliased, h.temp, fun m hm n f hn hf =>
    (h.good m hm n f hn hf).imp_right (hgood n _)⟩

/-- A change that only takes names away. -/
theorem remove (h : Tidy Temp Final Good d) : Tidy Temp Final Good (d.push (.unlink n)) := by
  -- what leads somewhere after the change led there before
  have hold : ∀ m, (d.push (.unlink n)).Image m → ∃ m', d.Image m' ∧
      ∀ n' f, m n' = some f → m' n' = some f := by
    intro m hm
    rcases image_push.mp hm with hm | ⟨m', hm', rfl⟩
    · exact ⟨m, hm, fun _ _ h => h⟩
    · refine ⟨m', hm', fun n' f hf => ?_⟩
      by_cases hn : n' = n
      · rw [Update.apply, hn, Function.update_self] at hf
        cases hf
      · rwa [Update.apply, Function.update_of_ne hn] at hf
  constructor
  · intro m hm n' f hf
    obtain ⟨m', hm', hsub⟩ := hold m hm
    exact h.bound m' hm' n' f (hsub n' f hf)
  · intro m hm n₁ n₂ f h₁ h₂
    obtain ⟨m', hm', hsub⟩ := hold m hm
    exact h.unaliased m' hm' n₁ n₂ f (hsub n₁ f h₁) (hsub n₂ f h₂)
  · intro n₁ f hn₁ h₁ m hm n₂ h₂
    obtain ⟨m', hm', hsub⟩ := hold m hm
    refine h.temp n₁ f hn₁ ?_ m' hm' n₂ (hsub n₂ f h₂)
    rw [view_push, Update.apply] at h₁
    by_cases hn : n₁ = n
    · rw [hn, Function.update_self] at h₁
      cases h₁
    · rwa [Function.update_of_ne hn] at h₁
  · intro m hm n' f hn' hf
    obtain ⟨m', hm', hsub⟩ := hold m hm
    exact h.good m' hm' n' f hn' (hsub n' f hf)

/-- A new file under a temporary name. -/
theorem make (hsep : ∀ n, Temp n → ¬ Final n) (h : Tidy Temp Final Good d) (hn : Temp n) :
    Tidy Temp Final Good (d.make n) := by
  -- a file of an image is the new one, under its name, or an old one
  have hold : ∀ m, (d.make n).Image m → ∃ m', d.Image m' ∧
      ∀ n' f, m n' = some f → (n' = n ∧ f = d.next) ∨ (m' n' = some f ∧ f < d.next) := by
    intro m hm
    rcases image_make.mp hm with hm | ⟨m', hm', rfl⟩
    · exact ⟨m, hm, fun n' f hf => .inr ⟨hf, h.bound m hm n' f hf⟩⟩
    · refine ⟨m', hm', fun n' f hf => ?_⟩
      by_cases hne : n' = n
      · rw [hne, Function.update_self] at hf
        exact .inl ⟨hne, (Option.some_inj.mp hf).symm⟩
      · rw [Function.update_of_ne hne] at hf
        exact .inr ⟨hf, h.bound m' hm' n' f hf⟩
  constructor
  · intro m hm n' f hf
    obtain ⟨m', hm', hsub⟩ := hold m hm
    show f < d.next + 1
    rcases hsub n' f hf with ⟨-, rfl⟩ | ⟨-, hlt⟩ <;> omega
  · intro m hm n₁ n₂ f h₁ h₂
    obtain ⟨m', hm', hsub⟩ := hold m hm
    rcases hsub n₁ f h₁ with ⟨rfl, rfl⟩ | ⟨h₁, hlt⟩
    · rcases hsub n₂ _ h₂ with ⟨rfl, -⟩ | ⟨-, hlt⟩
      · rfl
      · omega
    · rcases hsub n₂ f h₂ with ⟨-, rfl⟩ | ⟨h₂, -⟩
      · omega
      · exact h.unaliased m' hm' n₁ n₂ f h₁ h₂
  · intro n₁ f hn₁ h₁ m hm n₂ h₂
    obtain ⟨m', hm', hsub⟩ := hold m hm
    rw [view_make] at h₁
    by_cases hne : n₁ = n
    · rw [hne, Function.update_self] at h₁
      rcases hsub n₂ f h₂ with ⟨rfl, -⟩ | ⟨-, hlt⟩
      · exact hne.symm
      · exact absurd (Option.some_inj.mp h₁) (by omega)
    · rw [Function.update_of_ne hne] at h₁
      have hlt := h.bound _ (image_view d) n₁ f h₁
      rcases hsub n₂ f h₂ with ⟨-, rfl⟩ | ⟨h₂, -⟩
      · omega
      · exact h.temp n₁ f hn₁ h₁ m' hm' n₂ h₂
  · intro m hm n' f hn' hf
    obtain ⟨m', hm', hsub⟩ := hold m hm
    rcases hsub n' f hf with ⟨rfl, -⟩ | ⟨hf, hlt⟩
    · exact absurd hn' (hsep _ hn)
    · obtain ⟨hs, hg⟩ := h.good m' hm' n' f hn' hf
      have hne : f ≠ d.next := by omega
      exact ⟨(Function.update_of_ne hne _ _).trans hs,
        (congrArg (Good n') (Function.update_of_ne hne _ _)).mpr hg⟩

/-- Another content of a file under a temporary name. -/
theorem put (hsep : ∀ n, Temp n → ¬ Final n) (h : Tidy Temp Final Good d) (hn : Temp n)
    (hf : d.view n = some f) :
    Tidy Temp Final Good (d.put f b) := by
  refine ⟨h.bound, h.unaliased, h.temp, fun m hm n' f' hn' hf' => ?_⟩
  have hne : f' ≠ f := by
    rintro rfl
    exact hsep n hn (h.temp n f' hn hf m hm n' hf' ▸ hn')
  obtain ⟨hs, hg⟩ := h.good m hm n' f' hn' hf'
  exact ⟨(Function.update_of_ne hne _ _).trans hs,
    (congrArg (Good n') (Function.update_of_ne hne _ _)).mpr hg⟩

theorem flush (h : Tidy Temp Final Good d) : Tidy Temp Final Good (d.flush f) := by
  refine ⟨h.bound, h.unaliased, h.temp, fun m hm n' f' hn' hf' => ?_⟩
  obtain ⟨hs, hg⟩ := h.good m hm n' f' hn' hf'
  refine ⟨?_, hg⟩
  by_cases hne : f' = f
  · rw [hne]
    exact Function.update_self _ _ _
  · exact (Function.update_of_ne hne _ _).trans hs

/-- A complete file is moved to its own name. -/
theorem move {src dst : ν} (hsep : ∀ n, Temp n → ¬ Final n) (h : Tidy Temp Final Good d)
    (hsrc : Temp src) (hdst : Final dst)
    (hf : d.view src = some f) (hs : d.synced f = true) (hg : Good dst (d.data f)) :
    Tidy Temp Final Good (d.push (.move src dst f)) := by
  have hsd : ∀ n, Temp n → n ≠ dst := fun n hn heq => hsep n hn (heq ▸ hdst)
  -- a file of an image is the one that was moved, under its new name, or another one; the one that
  -- was moved can also still be under its old name
  have hold : ∀ m, (d.push (.move src dst f)).Image m → d.Image m ∨
      ∃ m', d.Image m' ∧ ∀ n' f', m n' = some f' →
        (n' = dst ∧ f' = f) ∨ (n' ≠ src ∧ m' n' = some f' ∧ f' ≠ f) := by
    intro m hm
    refine (image_push.mp hm).imp_right fun ⟨m', hm', heq⟩ => ⟨m', hm', fun n' f' hf' => ?_⟩
    rw [heq, Update.apply] at hf'
    by_cases hnd : n' = dst
    · rw [hnd, Function.update_self] at hf'
      exact .inl ⟨hnd, (Option.some_inj.mp hf').symm⟩
    · rw [Function.update_of_ne hnd] at hf'
      by_cases hns : n' = src
      · rw [hns, Function.update_self] at hf'
        cases hf'
      · rw [Function.update_of_ne hns] at hf'
        refine .inr ⟨hns, hf', ?_⟩
        rintro rfl
        exact hns (h.temp src f' hsrc hf m' hm' n' hf')
  constructor
  · intro m hm n' f' hf'
    rcases hold m hm with hm | ⟨m', hm', hsub⟩
    · exact h.bound m hm n' f' hf'
    · rcases hsub n' f' hf' with ⟨-, rfl⟩ | ⟨-, hf', -⟩
      · exact h.bound _ (image_view d) src f' hf
      · exact h.bound m' hm' n' f' hf'
  · intro m hm n₁ n₂ f' h₁ h₂
    rcases hold m hm with hm | ⟨m', hm', hsub⟩
    · exact h.unaliased m hm n₁ n₂ f' h₁ h₂
    · rcases hsub n₁ f' h₁ with ⟨rfl, rfl⟩ | ⟨-, h₁, hne⟩
      · rcases hsub n₂ _ h₂ with ⟨rfl, -⟩ | ⟨-, -, hne⟩
        · rfl
        · exact absurd rfl hne
      · rcases hsub n₂ f' h₂ with ⟨-, rfl⟩ | ⟨-, h₂, -⟩
        · exact absurd rfl hne
        · exact h.unaliased m' hm' n₁ n₂ f' h₁ h₂
  · intro n₁ f' hn₁ h₁ m hm n₂ h₂
    -- what is under a temporary name now is not what was moved
    have hview : d.view n₁ = some f' ∧ f' ≠ f := by
      have hnd : n₁ ≠ dst := hsd n₁ hn₁
      rw [view_push, Update.apply, Function.update_of_ne hnd] at h₁
      by_cases hns : n₁ = src
      · rw [hns, Function.update_self] at h₁
        cases h₁
      · rw [Function.update_of_ne hns] at h₁
        refine ⟨h₁, ?_⟩
        rintro rfl
        exact hns (h.temp src f' hsrc hf _ (image_view d) n₁ h₁)
    rcases hold m hm with hm | ⟨m', hm', hsub⟩
    · exact h.temp n₁ f' hn₁ hview.1 m hm n₂ h₂
    · rcases hsub n₂ f' h₂ with ⟨-, rfl⟩ | ⟨-, h₂, -⟩
      · exact absurd rfl hview.2
      · exact h.temp n₁ f' hn₁ hview.1 m' hm' n₂ h₂
  · intro m hm n' f' hn' hf'
    rcases hold m hm with hm | ⟨m', hm', hsub⟩
    · exact h.good m hm n' f' hn' hf'
    · rcases hsub n' f' hf' with ⟨rfl, rfl⟩ | ⟨-, hf', -⟩
      · exact ⟨hs, hg⟩
      · exact h.good m' hm' n' f' hn' hf'

theorem commit (h : Tidy Temp Final Good d) : Tidy Temp Final Good d.commit := by
  have hview := image_view d
  constructor
  · intro m hm
    rw [image_commit.mp hm]
    exact h.bound _ hview
  · intro m hm
    rw [image_commit.mp hm]
    exact h.unaliased _ hview
  · intro n f hn hf m hm
    rw [image_commit.mp hm]
    exact h.temp n f hn hf _ hview
  · intro m hm
    rw [image_commit.mp hm]
    exact h.good _ hview

/-- **Safe operations keep the directory tidy.** -/
theorem step {op : Op ν} {r : Reply op} (hsep : ∀ n, Temp n → ¬ Final n)
    (h : Tidy Temp Final Good d) (hsafe : Safe Temp Final Good d op) (hstep : Step d op r d') :
    Tidy Temp Final Good d' := by
  cases hstep with
  | made _ => exact h.make hsep hsafe
  | emptied hf => exact h.put hsep hsafe hf
  | madeNew _ => exact h.make hsep hsafe
  | written =>
    obtain ⟨n, hn, hf⟩ := hsafe
    exact h.put hsep hn hf
  | cutShort _ _ =>
    obtain ⟨n, hn, hf⟩ := hsafe
    exact h.put hsep hn hf
  | synced => exact h.flush
  | renamed hf =>
    obtain ⟨hsrc, hdst, hready⟩ := hsafe
    exact h.move hsep hsrc hdst hf (hready _ hf).1 (hready _ hf).2
  | removed _ => exact h.remove
  | committed => exact h.commit
  | opened _ => exact h
  | read _ => exact h
  | found _ => exact h
  | listed _ => exact h
  | failed _ => exact h

/-- Another program may work on temporary names. -/
theorem works {P : ν → Prop} (hsep : ∀ n, Temp n → ¬ Final n) (hP : ∀ n, P n → Temp n)
    (h : Tidy Temp Final Good d) (hworks : Works P d d') : Tidy Temp Final Good d' := by
  induction hworks with
  | none d => exact h
  | make hn _ _ ih => exact ih (h.make hsep (hP _ hn))
  | put hn hf _ ih => exact ih (h.put hsep (hP _ hn) hf)
  | flush _ _ _ ih => exact ih h.flush
  | remove _ _ ih => exact ih h.remove

/-- Power may be cut. -/
theorem cut (h : Tidy Temp Final Good d) (hcut : d.Cut d') : Tidy Temp Final Good d' := by
  obtain ⟨himage, hall⟩ := hcut.image
  obtain ⟨us, data, hus, hdata⟩ := hcut
  constructor
  · intro m hm
    rw [(hall m).mp hm]
    exact h.bound _ himage
  · intro m hm
    rw [(hall m).mp hm]
    exact h.unaliased _ himage
  · intro n f _ hf m hm n' hf'
    rw [(hall m).mp hm] at hf'
    exact h.unaliased _ himage n' n f hf' hf
  · intro m hm n f hn hf
    rw [(hall m).mp hm] at hf
    obtain ⟨hs, hg⟩ := h.good _ himage n f hn hf
    exact ⟨rfl, (congrArg (Good n) (hdata f hs)).mpr hg⟩

end Tidy

/-! ## What is under published names -/

/-- After a safe operation, what a power cut may leave under a published name is what it might have
left before, or has just been moved there, or nothing, because it has been removed. -/
theorem Safe.image {op : Op ν} {r : Reply op} (hsep : ∀ n, Temp n → ¬ Final n)
    (hsafe : Safe Temp Final Good d op) (hn : Final n) (hstep : Step d op r d') (hm : d'.Image m) :
    (∃ m', d.Image m' ∧ m n = m' n) ∨
      (∃ src f, (⟨op, r⟩ : Σ op : Op ν, Reply op) = ⟨.rename src n, .ok ()⟩ ∧ m n = some f) ∨
      op = .remove n ∧ m n = none := by
  have hne : ∀ n', Temp n' → n ≠ n' := by
    rintro n' hn' rfl
    exact hsep n hn' hn
  have hmade : ∀ n', Temp n' → (d.make n').Image m → ∃ m', d.Image m' ∧ m n = m' n := by
    intro n' hn' hm
    rcases image_make.mp hm with hm | ⟨m', hm', rfl⟩
    · exact ⟨m, hm, rfl⟩
    · exact ⟨m', hm', Function.update_of_ne (hne n' hn') _ _⟩
  cases hstep with
  | made _ => exact .inl (hmade _ hsafe hm)
  | madeNew _ => exact .inl (hmade _ hsafe hm)
  | @renamed src dst f hf =>
    obtain ⟨hsrc, -, -⟩ := hsafe
    rcases image_push.mp hm with hm | ⟨m', hm', rfl⟩
    · exact .inl ⟨m, hm, rfl⟩
    rw [Update.apply]
    by_cases hdst : n = dst
    · obtain rfl := hdst
      exact .inr (.inl ⟨src, f, rfl, Function.update_self _ _ _⟩)
    · rw [Function.update_of_ne hdst, Function.update_of_ne (hne src hsrc)]
      exact .inl ⟨m', hm', rfl⟩
  | @removed n' _ =>
    rcases image_push.mp hm with hm | ⟨m', hm', rfl⟩
    · exact .inl ⟨m, hm, rfl⟩
    rw [Update.apply]
    by_cases hn' : n = n'
    · obtain rfl := hn'
      exact .inr (.inr ⟨rfl, Function.update_self _ _ _⟩)
    · rw [Function.update_of_ne hn']
      exact .inl ⟨m', hm', rfl⟩
  | committed =>
    rw [image_commit.mp hm]
    exact .inl ⟨_, image_view d, rfl⟩
  | _ => exact .inl ⟨m, hm, rfl⟩

/-! ## What is left alone -/

section Leaves

variable {P : ν → Prop} (h : Tidy Temp Final Good d)

include h

theorem Tidy.leaves_make (hn : P n) : Leaves P d (d.make n) := by
  intro n' hn'
  have hne : n' ≠ n := fun heq => hn' (heq ▸ hn)
  refine ⟨by rw [view_make, Function.update_of_ne hne], fun f hf => ?_⟩
  have hlt : f ≠ d.next := (h.bound _ (image_view d) n' f hf).ne
  exact ⟨Function.update_of_ne hlt _ _, fun hs => (Function.update_of_ne hlt _ _).trans hs⟩

theorem Tidy.leaves_put (hn : P n) (hf : d.view n = some f) : Leaves P d (d.put f b) := by
  intro n' hn'
  refine ⟨rfl, fun f' hf' => ?_⟩
  have hne : f' ≠ f := by
    rintro rfl
    exact hn' (h.unaliased _ (image_view d) n' n f' hf' hf ▸ hn)
  exact ⟨Function.update_of_ne hne _ _, fun hs => (Function.update_of_ne hne _ _).trans hs⟩

omit h in
theorem leaves_flush : Leaves P d (d.flush f) := by
  refine fun n' _ => ⟨rfl, fun f' _ => ⟨rfl, fun hs => ?_⟩⟩
  by_cases hne : f' = f
  · rw [hne]
    exact Function.update_self _ _ _
  · exact (Function.update_of_ne hne _ _).trans hs

omit h in
theorem leaves_remove (hn : P n) : Leaves P d (d.push (.unlink n)) := by
  intro n' hn'
  have hne : n' ≠ n := fun heq => hn' (heq ▸ hn)
  exact ⟨by rw [view_push, Update.apply, Function.update_of_ne hne], fun _ _ => ⟨rfl, id⟩⟩

omit h in
theorem leaves_move {src dst : ν} (hsrc : P src) (hdst : P dst) :
    Leaves P d (d.push (.move src dst f)) := by
  intro n' hn'
  have hs : n' ≠ src := fun heq => hn' (heq ▸ hsrc)
  have hd : n' ≠ dst := fun heq => hn' (heq ▸ hdst)
  refine ⟨?_, fun _ _ => ⟨rfl, id⟩⟩
  rw [view_push, Update.apply, Function.update_of_ne hd, Function.update_of_ne hs]

/-- Another program leaves alone what is under other names. -/
theorem Tidy.leaves_works (hsep : ∀ n, Temp n → ¬ Final n) (hP : ∀ n, P n → Temp n)
    (hworks : Works P d d') : Leaves P d d' := by
  induction hworks with
  | none d => exact Leaves.refl d
  | make hn _ _ ih => exact (h.leaves_make hn).trans (ih (h.make hsep (hP _ hn)))
  | put hn hf _ ih => exact (h.leaves_put hn hf).trans (ih (h.put hsep (hP _ hn) hf))
  | flush _ _ _ ih => exact leaves_flush.trans (ih h.flush)
  | remove hn _ ih => exact (leaves_remove hn).trans (ih h.remove)

end Leaves

end Disk

end Files
