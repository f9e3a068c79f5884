import TactiqAttest.Lists.LastOf
import TactiqAttest.Registrar.Registration
import TactiqAttest.Registrar.Signature

/-!
# What an accepted path lets through

`extensions` and `check_leaf` go through the extensions of a certificate and keep the last of a
kind.  A critical extension of another kind is refused.  What is asked of the extensions is asked of
those that were kept, and the `pathLenConstraint` of a CA is not asked for.

* `Meets`: what is required of an extension, by the place of its certificate in the path;
* `checkCa_last`, `checkEkLeaf_last`, `checkLeaf_last`: the last of a kind meets it, in a CA as if
  there were no CA below;
* `agrees_iff`: so all of them do exactly if those of one kind agree;
* `path_honoured_iff`: when an accepted path honours what it lets through.
-/

namespace TactiqAttest.Registrar

open Chain Signature

/-! ## What is required -/

/-- The place of a certificate in its path. -/
inductive Role where
  /-- A CA, with so many CA certificates below it. -/
  | ca (below : ℕ)
  /-- The EK certificate. -/
  | ekLeaf
  /-- The certificate of a `Registration Signer`. -/
  | signerLeaf

/-- The extensions that may be critical. -/
def Role.understood : Role → List Oid
  | .ca _ | .ekLeaf => understoodCritical
  | .signerLeaf => [extBasicConstraints, extKeyUsage, extExtKeyUsage]

variable (P : Pki) (C : Crypto)

/-- What is required of an extension that is understood. -/
def Meets : Role → Extension → Prop
  | .ca below, x =>
    (x.extnId = extBasicConstraints → ∃ b, P.basicConstraintsFromDer x.extnValue = .ok b ∧
      b.ca = true ∧ ∀ n ∈ b.pathLenConstraint, below ≤ n.toNat) ∧
    (x.extnId = extKeyUsage → ∃ k, P.keyUsageFromDer x.extnValue = .ok k ∧ .keyCertSign ∈ k)
  | .ekLeaf, x =>
    (x.extnId = extBasicConstraints → ∃ b, P.basicConstraintsFromDer x.extnValue = .ok b ∧
      b.ca = false) ∧
    (x.extnId = extExtKeyUsage → ∃ u, P.extKeyUsageFromDer x.extnValue = .ok u ∧
      tcgKpEkCertificate ∈ u)
  | .signerLeaf, x =>
    (x.extnId = extBasicConstraints → ∃ b, P.basicConstraintsFromDer x.extnValue = .ok b ∧
      b.ca = false) ∧
    (x.extnId = extKeyUsage → ∃ k, P.keyUsageFromDer x.extnValue = .ok k ∧
      .digitalSignature ∈ k) ∧
    (x.extnId = extExtKeyUsage → x.extnValue = expectedEkuValue ∧ x.critical = true)

/-- Every extension meets what is required of it, and the critical ones are understood. -/
def Honours (role : Role) (c : Certificate) : Prop :=
  ∀ x ∈ c.extensions, Meets P role x ∧ (x.critical = true → x.extnId ∈ role.understood)

/-- The extensions of one kind agree on whether they meet what is required. -/
def Agrees (role : Role) (c : Certificate) : Prop :=
  ∀ x ∈ c.extensions, ∀ y ∈ c.extensions, x.extnId = y.extnId → (Meets P role x ↔ Meets P role y)

/-- The last extension of a kind. -/
def lastExtension (c : Certificate) (id : Oid) : Option Extension :=
  c.extensions.lastOf fun x => x.extnId = id

/-! ## The loops -/

variable {P C} {c : Certificate} {what : String} {x : Extension} {id : Oid} {seen : List Extension}

/-- What one turn of the loop of `extensions` does. -/
theorem extension_cases {e e' : Ext} (h : extension P what e x = .ok e') :
    (x.critical = true → x.extnId ∈ understoodCritical) ∧
      ((x.extnId = extBasicConstraints ∧ ∃ b, P.basicConstraintsFromDer x.extnValue = .ok b ∧
          e' = { e with basic := some b }) ∨
        (x.extnId = extKeyUsage ∧ ∃ k, P.keyUsageFromDer x.extnValue = .ok k ∧
          e' = { e with keyUsage := some k }) ∨
        (x.extnId = extExtKeyUsage ∧ ∃ u, P.extKeyUsageFromDer x.extnValue = .ok u ∧
          e' = { e with eku := some u }) ∨
        (x.extnId ≠ extBasicConstraints ∧ x.extnId ≠ extKeyUsage ∧ x.extnId ≠ extExtKeyUsage ∧
          e' = e)) := by
  unfold extension at h
  extract_lets done at h
  have hdone : ∀ {e₁}, done e₁ = .ok e' →
      (x.critical = true → x.extnId ∈ understoodCritical) ∧ e' = e₁ := by
    intro e₁ h
    obtain ⟨_, hcritical, h⟩ := Except.bind_eq_ok.mp h
    rw [Except.ensure_eq_ok, not_and_not_right] at hcritical
    exact ⟨hcritical, (Except.pure_eq_ok.mp h).symm⟩
  by_cases hbasic : x.extnId = extBasicConstraints
  · rw [if_pos hbasic] at h
    obtain ⟨b, hb, h⟩ := Except.bind_eq_ok.mp h
    obtain ⟨hcritical, he'⟩ := hdone h
    exact ⟨hcritical, Or.inl ⟨hbasic, b, Except.mapError_eq_ok.mp hb, he'⟩⟩
  rw [if_neg hbasic] at h
  by_cases husage : x.extnId = extKeyUsage
  · rw [if_pos husage] at h
    obtain ⟨k, hk, h⟩ := Except.bind_eq_ok.mp h
    obtain ⟨hcritical, he'⟩ := hdone h
    exact ⟨hcritical, Or.inr (Or.inl ⟨husage, k, Except.mapError_eq_ok.mp hk, he'⟩)⟩
  rw [if_neg husage] at h
  by_cases heku : x.extnId = extExtKeyUsage
  · rw [if_pos heku] at h
    obtain ⟨u, hu, h⟩ := Except.bind_eq_ok.mp h
    obtain ⟨hcritical, he'⟩ := hdone h
    exact ⟨hcritical, Or.inr (Or.inr (Or.inl ⟨heku, u, Except.mapError_eq_ok.mp hu, he'⟩))⟩
  · rw [if_neg heku] at h
    obtain ⟨hcritical, he'⟩ := hdone h
    exact ⟨hcritical, Or.inr (Or.inr (Or.inr ⟨hbasic, husage, heku, he'⟩))⟩

/-- What one turn of the loop of `check_leaf` does. -/
theorem leafExtension_cases {e e' : LeafExt} (h : leafExtension P e x = .ok e') :
    (x.extnId = extBasicConstraints ∧ ∃ b, P.basicConstraintsFromDer x.extnValue = .ok b ∧
        e' = { e with basic := some b }) ∨
      (x.extnId = extKeyUsage ∧ ∃ k, P.keyUsageFromDer x.extnValue = .ok k ∧
        e' = { e with keyUsage := some k }) ∨
      (x.extnId = extExtKeyUsage ∧ e' = { e with eku := some (x.extnValue, x.critical) }) ∨
      (x.extnId ≠ extBasicConstraints ∧ x.extnId ≠ extKeyUsage ∧ x.extnId ≠ extExtKeyUsage ∧
        x.critical = false ∧ e' = e) := by
  unfold leafExtension at h
  by_cases hbasic : x.extnId = extBasicConstraints
  · rw [if_pos hbasic] at h
    obtain ⟨b, hb, h⟩ := Except.bind_eq_ok.mp h
    exact Or.inl ⟨hbasic, b, Except.mapError_eq_ok.mp hb, (Except.pure_eq_ok.mp h).symm⟩
  rw [if_neg hbasic] at h
  by_cases husage : x.extnId = extKeyUsage
  · rw [if_pos husage] at h
    obtain ⟨k, hk, h⟩ := Except.bind_eq_ok.mp h
    exact Or.inr (Or.inl ⟨husage, k, Except.mapError_eq_ok.mp hk, (Except.pure_eq_ok.mp h).symm⟩)
  rw [if_neg husage] at h
  by_cases heku : x.extnId = extExtKeyUsage
  · rw [if_pos heku] at h
    exact Or.inr (Or.inr (Or.inl ⟨heku, (Except.ok.inj h).symm⟩))
  rw [if_neg heku] at h
  by_cases hcritical : x.critical = true
  · rw [if_pos hcritical] at h
    exact absurd h (by simp)
  · rw [if_neg hcritical] at h
    exact Or.inr (Or.inr (Or.inr ⟨hbasic, husage, heku, Bool.eq_false_of_not_eq_true hcritical,
      (Except.ok.inj h).symm⟩))

/-- What the place for an extension holds, after these have been through the loop. -/
def Kept {α : Type} (id : Oid) (f : Extension → Except String α) (seen : List Extension)
    (kept : Option α) : Prop :=
  seen.Keeps (fun x => x.extnId = id) f kept

/-- What was kept of the extension `x`, when it is the last of its kind. -/
theorem Kept.of_last {α : Type} {f : Extension → Except String α} {kept : Option α} {Q : α → Prop}
    (h : Kept id f c.extensions kept) (hx : lastExtension c x.extnId = some x) (hid : x.extnId = id)
    (hQ : ∀ a, kept = some a → Q a) : ∃ a, f x = .ok a ∧ Q a := by
  rw [hid] at hx
  obtain ⟨a, ha, hkept⟩ := h x hx
  exact ⟨a, ha, hQ a hkept⟩

/-- One more critical extension that is understood. -/
theorem understood_concat {ids : List Oid}
    (hseen : ∀ y ∈ seen, y.critical = true → y.extnId ∈ ids)
    (hx : x.critical = true → x.extnId ∈ ids) :
    ∀ y ∈ seen ++ [x], y.critical = true → y.extnId ∈ ids := by
  intro y hy
  rcases List.mem_append.mp hy with hy | hy
  · exact hseen y hy
  · obtain rfl := List.mem_singleton.mp hy
    exact hx

/-- The invariant of the loop of `extensions`. -/
structure Collected (P : Pki) (seen : List Extension) (e : Ext) : Prop where
  basic : Kept extBasicConstraints (fun x => P.basicConstraintsFromDer x.extnValue) seen e.basic
  keyUsage : Kept extKeyUsage (fun x => P.keyUsageFromDer x.extnValue) seen e.keyUsage
  eku : Kept extExtKeyUsage (fun x => P.extKeyUsageFromDer x.extnValue) seen e.eku
  understood : ∀ x ∈ seen, x.critical = true → x.extnId ∈ understoodCritical

/-- The invariant of the loop of `check_leaf`. -/
structure LeafCollected (P : Pki) (seen : List Extension) (e : LeafExt) : Prop where
  basic : Kept extBasicConstraints (fun x => P.basicConstraintsFromDer x.extnValue) seen e.basic
  keyUsage : Kept extKeyUsage (fun x => P.keyUsageFromDer x.extnValue) seen e.keyUsage
  eku : Kept extExtKeyUsage (fun x => .ok (x.extnValue, x.critical)) seen e.eku
  understood : ∀ x ∈ seen, x.critical = true → x.extnId ∈ Role.signerLeaf.understood

theorem Collected.step {e e' : Ext} (h : Collected P seen e) (hx : extension P what e x = .ok e') :
    Collected P (seen ++ [x]) e' := by
  obtain ⟨hcritical, hcases⟩ := extension_cases hx
  have hunderstood := understood_concat h.understood hcritical
  obtain ⟨hid, b, hb, rfl⟩ | ⟨hid, k, hk, rfl⟩ | ⟨hid, u, hu, rfl⟩ | ⟨hbasic, husage, heku, rfl⟩ :=
    hcases
  · exact ⟨.found hid hb, h.keyUsage.other (by rw [hid]; decide), h.eku.other (by rw [hid]; decide),
      hunderstood⟩
  · exact ⟨h.basic.other (by rw [hid]; decide), .found hid hk, h.eku.other (by rw [hid]; decide),
      hunderstood⟩
  · exact ⟨h.basic.other (by rw [hid]; decide), h.keyUsage.other (by rw [hid]; decide),
      .found hid hu, hunderstood⟩
  · exact ⟨h.basic.other hbasic, h.keyUsage.other husage, h.eku.other heku, hunderstood⟩

theorem LeafCollected.step {e e' : LeafExt} (h : LeafCollected P seen e)
    (hx : leafExtension P e x = .ok e') : LeafCollected P (seen ++ [x]) e' := by
  have hcases := leafExtension_cases hx
  have hcritical : x.critical = true → x.extnId ∈ Role.signerLeaf.understood := by
    intro hcritical
    obtain ⟨hid, -⟩ | ⟨hid, -⟩ | ⟨hid, -⟩ | ⟨-, -, -, hnot, -⟩ := hcases
    · rw [hid]; decide
    · rw [hid]; decide
    · rw [hid]; decide
    · rw [hcritical] at hnot
      cases hnot
  have hunderstood := understood_concat h.understood hcritical
  obtain ⟨hid, b, hb, rfl⟩ | ⟨hid, k, hk, rfl⟩ | ⟨hid, rfl⟩ | ⟨hbasic, husage, heku, -, rfl⟩ :=
    hcases
  · exact ⟨.found hid hb, h.keyUsage.other (by rw [hid]; decide), h.eku.other (by rw [hid]; decide),
      hunderstood⟩
  · exact ⟨h.basic.other (by rw [hid]; decide), .found hid hk, h.eku.other (by rw [hid]; decide),
      hunderstood⟩
  · exact ⟨h.basic.other (by rw [hid]; decide), h.keyUsage.other (by rw [hid]; decide),
      .found hid rfl, hunderstood⟩
  · exact ⟨h.basic.other hbasic, h.keyUsage.other husage, h.eku.other heku, hunderstood⟩

theorem extensions_collected {e : Ext} (h : extensions P c what = .ok e) :
    Collected P c.extensions e :=
  List.foldlM_invariant (I := Collected P) ⟨.nil, .nil, .nil, by simp⟩ (fun h hx => h.step hx) h

/-! ## What is checked of the last of a kind -/

/-- A CA that passes: the last of a kind meets what is required where no CA is below. -/
theorem checkCa_last (h : checkCa P c what = .ok ()) (hx : lastExtension c id = some x) :
    Meets P (.ca 0) x := by
  obtain ⟨e, he, h⟩ := Except.bind_eq_ok.mp h
  obtain ⟨_, hca, h⟩ := Except.bind_eq_ok.mp h
  rw [Except.ensure_eq_ok] at hca h
  have hcollected := extensions_collected he
  obtain ⟨hmem, rfl⟩ := List.lastOf_eq_some hx
  constructor
  · intro hid
    refine hcollected.basic.of_last hx hid fun b hkept => ?_
    rw [hkept] at hca
    exact ⟨hca, fun n _ => Nat.zero_le _⟩
  · intro hid
    refine hcollected.keyUsage.of_last hx hid fun k hkept => ?_
    rw [hkept] at h
    simpa using h

theorem checkEkLeaf_last (h : checkEkLeaf P c = .ok ()) (hx : lastExtension c id = some x) :
    Meets P .ekLeaf x := by
  obtain ⟨e, he, h⟩ := Except.bind_eq_ok.mp h
  obtain ⟨_, hca, h⟩ := Except.bind_eq_ok.mp h
  rw [Except.ensure_eq_ok] at hca h
  have hcollected := extensions_collected he
  obtain ⟨hmem, rfl⟩ := List.lastOf_eq_some hx
  constructor
  · intro hid
    refine hcollected.basic.of_last hx hid fun b hkept => ?_
    rw [hkept] at hca
    exact hca
  · intro hid
    refine hcollected.eku.of_last hx hid fun u hkept => ?_
    rw [hkept] at h
    simpa using h

theorem checkLeaf_collected (h : checkLeaf P c = .ok ()) : ∃ e, LeafCollected P c.extensions e ∧
    (e.basic.map fun b => b.ca).getD false = false ∧
    (e.keyUsage.map fun k => k.contains .digitalSignature).getD false = true ∧
    e.eku = some (expectedEkuValue, true) := by
  obtain ⟨e, he, h⟩ := Except.bind_eq_ok.mp h
  obtain ⟨_, hca, h⟩ := Except.bind_eq_ok.mp h
  obtain ⟨_, husage, h⟩ := Except.bind_eq_ok.mp h
  rw [Except.ensure_eq_ok] at hca husage
  have hcollected : LeafCollected P c.extensions e :=
    List.foldlM_invariant (I := LeafCollected P) ⟨.nil, .nil, .nil, by simp⟩ (fun h hx => h.step hx)
      he
  refine ⟨e, hcollected, hca, husage, ?_⟩
  split at h
  · next v heku =>
    rw [Except.ensure_eq_ok] at h
    rw [heku, h]
  · cases h
  · cases h

theorem checkLeaf_last (h : checkLeaf P c = .ok ()) (hx : lastExtension c id = some x) :
    Meets P .signerLeaf x := by
  obtain ⟨e, hcollected, hca, husage, heku⟩ := checkLeaf_collected h
  obtain ⟨hmem, rfl⟩ := List.lastOf_eq_some hx
  refine ⟨?_, ?_, ?_⟩
  · intro hid
    refine hcollected.basic.of_last hx hid fun b hkept => ?_
    rw [hkept] at hca
    exact hca
  · intro hid
    refine hcollected.keyUsage.of_last hx hid fun k hkept => ?_
    rw [hkept] at husage
    simpa using husage
  · intro hid
    rw [hid] at hx
    obtain ⟨v, hv, hkept⟩ := hcollected.eku x hx
    obtain rfl := Except.ok.inj hv
    rw [hkept] at heku
    exact Prod.mk.inj (Option.some.inj heku)

/-! ## Paths -/

/-- What the checks of a path establish of its extensions. -/
structure Checked (P : Pki) (role : Role) (c : Certificate) : Prop where
  last : ∀ id x, lastExtension c id = some x → Meets P role x
  understood : ∀ x ∈ c.extensions, x.critical = true → x.extnId ∈ role.understood

theorem checked_ca (h : checkCa P c what = .ok ()) : Checked P (.ca 0) c := by
  refine ⟨fun id x hx => checkCa_last h hx, ?_⟩
  obtain ⟨e, he, -⟩ := Except.bind_eq_ok.mp h
  exact (extensions_collected he).understood

theorem checked_ekLeaf (h : checkEkLeaf P c = .ok ()) : Checked P .ekLeaf c := by
  refine ⟨fun id x hx => checkEkLeaf_last h hx, ?_⟩
  obtain ⟨e, he, -⟩ := Except.bind_eq_ok.mp h
  exact (extensions_collected he).understood

theorem checked_signerLeaf (h : checkLeaf P c = .ok ()) : Checked P .signerLeaf c := by
  refine ⟨fun id x hx => checkLeaf_last h hx, ?_⟩
  obtain ⟨e, hcollected, -⟩ := checkLeaf_collected h
  exact hcollected.understood

/-- Where the last of a kind meets what is required, all do exactly if those of one kind agree. -/
theorem Checked.honours_iff {role : Role} (h : Checked P role c) :
    Honours P role c ↔ Agrees P role c := by
  have hiff : (∀ x ∈ c.extensions, Meets P role x) ↔ Agrees P role c :=
    List.forall_iff_agree fun id x hx => h.last id x hx
  rw [← hiff]
  exact ⟨fun hall x hx => (hall x hx).1, fun hall x hx => ⟨hall x hx, h.understood x hx⟩⟩

/-- The last `basicConstraints` of a CA lets a CA certificate stand below it. -/
def AllowsCa (P : Pki) (c : Certificate) : Prop :=
  ∀ x b, lastExtension c extBasicConstraints = some x →
    P.basicConstraintsFromDer x.extnValue = .ok b → b.pathLenConstraint ≠ some 0

/-- A CA that may have one below: the last of a kind meets what is required where one is. -/
theorem Checked.below (h : Checked P (.ca 0) c) (hallows : AllowsCa P c) : Checked P (.ca 1) c := by
  refine ⟨fun id x hx => ?_, h.understood⟩
  obtain ⟨hbasic, husage⟩ := h.last id x hx
  refine ⟨fun hid => ?_, husage⟩
  obtain ⟨b, hb, hca, -⟩ := hbasic hid
  refine ⟨b, hb, hca, fun n hn => ?_⟩
  obtain ⟨hmem, rfl⟩ := List.lastOf_eq_some hx
  rw [hid] at hx
  have hne : n ≠ 0 := by
    rintro rfl
    exact hallows x b hx hb hn
  have htoNat : n.toNat ≠ 0 := fun hzero => hne (UInt8.toNat_inj.mp hzero)
  omega

theorem Honours.allowsCa (h : Honours P (.ca 1) c) : AllowsCa P c := by
  intro x b hx hb hzero
  obtain ⟨hmem, hid⟩ := List.lastOf_eq_some hx
  obtain ⟨b', hb', -, hlen⟩ := (h x hmem).1.1 hid
  rw [hb] at hb'
  obtain rfl := Except.ok.inj hb'
  have hle : 1 ≤ (0 : UInt8).toNat := hlen 0 hzero
  exact absurd hle (by decide)

/-- The paths that are accepted, from the leaf over the certificate that signs it to the root. -/
inductive AcceptedPath (P : Pki) (C : Crypto) :
    Role → Certificate → Certificate → Certificate → Prop
  /-- An endorsement key, accepted by `chain::verify`. -/
  | ek {ekDer intDer rootDer : Bytes} {now : Duration} {chain : Chain P}
      {ek int root : Certificate} :
      Chain.verify P C ekDer intDer rootDer now = .ok chain →
      P.certificateFromDer ekDer = .ok ek → P.certificateFromDer intDer = .ok int →
      P.certificateFromDer rootDer = .ok root → AcceptedPath P C .ekLeaf ek int root
  /-- The signer of a record, accepted by `signature::verify`. -/
  | signer {record p7s rootDer : Bytes} {now : Duration} {signer : Signer}
      {leaf sca root : Certificate} :
      Signature.verify P C record p7s rootDer now = .ok signer →
      SignerPath P p7s rootDer leaf sca root → AcceptedPath P C .signerLeaf leaf sca root

/-- Every certificate of the path honours its extensions: the root as a CA above another. -/
structure PathHonoured (P : Pki) (role : Role) (leaf inter root : Certificate) : Prop where
  leafHonours : Honours P role leaf
  interHonours : Honours P (.ca 0) inter
  rootHonours : Honours P (.ca 1) root

/-- No extension is repeated with another outcome, and the last `basicConstraints` of the root lets
the other CA stand below it. -/
structure PathAgrees (P : Pki) (role : Role) (leaf inter root : Certificate) : Prop where
  leafAgrees : Agrees P role leaf
  interAgrees : Agrees P (.ca 0) inter
  rootAgrees : Agrees P (.ca 1) root
  rootAllows : AllowsCa P root

variable {role : Role} {leaf inter root : Certificate}

theorem AcceptedPath.checked (h : AcceptedPath P C role leaf inter root) :
    Checked P role leaf ∧ Checked P (.ca 0) inter ∧ Checked P (.ca 0) root := by
  cases h with
  | ek h hek hint hroot =>
    obtain ⟨ek', int', root', haccepted, -⟩ := Chain.verify_ok.mp h
    obtain rfl := Except.ok.inj (hek.symm.trans (Except.mapError_eq_ok.mp haccepted.ekParsed))
    obtain rfl := Except.ok.inj (hint.symm.trans (Except.mapError_eq_ok.mp haccepted.intParsed))
    obtain rfl := Except.ok.inj (hroot.symm.trans (Except.mapError_eq_ok.mp haccepted.rootParsed))
    exact ⟨checked_ekLeaf haccepted.ekLeaf, checked_ca haccepted.intCa, checked_ca haccepted.rootCa⟩
  | signer h hpath =>
    obtain ⟨leaf', sca', root', hpath', hrootCa, hscaCa, hleaf⟩ := Signature.verify_path h
    obtain ⟨rfl, rfl, rfl⟩ := hpath.unique hpath'
    exact ⟨checked_signerLeaf hleaf, checked_ca hscaCa, checked_ca hrootCa⟩

/-- Where a path was checked, it is honoured if no extension of a kind disagrees and the root allows
the other CA. -/
theorem PathAgrees.honoured (hleaf : Checked P role leaf) (hinter : Checked P (.ca 0) inter)
    (hroot : Checked P (.ca 0) root) (h : PathAgrees P role leaf inter root) :
    PathHonoured P role leaf inter root :=
  ⟨hleaf.honours_iff.mpr h.leafAgrees, hinter.honours_iff.mpr h.interAgrees,
    (hroot.below h.rootAllows).honours_iff.mpr h.rootAgrees⟩

/-- Extensions that are not repeated agree. -/
theorem agrees_of_nodup (h : (c.extensions.map Extension.extnId).Nodup) : Agrees P role c := by
  intro x hx y hy hid
  rw [List.inj_on_of_nodup_map h hx hy hid]

/-- A path whose certificates repeat no extension is honoured, if the root allows the other CA. -/
theorem AcceptedPath.honoured_of_nodup (h : AcceptedPath P C role leaf inter root)
    (hnodup : ∀ c ∈ [leaf, inter, root], (c.extensions.map Extension.extnId).Nodup)
    (hallows : AllowsCa P root) : PathHonoured P role leaf inter root := by
  obtain ⟨hleaf, hinter, hroot⟩ := h.checked
  exact PathAgrees.honoured hleaf hinter hroot ⟨agrees_of_nodup (hnodup _ (by simp)),
    agrees_of_nodup (hnodup _ (by simp)), agrees_of_nodup (hnodup _ (by simp)), hallows⟩

/-- **When an accepted path honours what it lets through**: exactly when no extension is repeated
with another outcome in one of its certificates, and the root does not say that there is no CA
below. -/
theorem path_honoured_iff (h : AcceptedPath P C role leaf inter root) :
    PathHonoured P role leaf inter root ↔ PathAgrees P role leaf inter root := by
  obtain ⟨hleaf, hinter, hroot⟩ := h.checked
  constructor
  · intro hhonoured
    have hallows : AllowsCa P root := hhonoured.rootHonours.allowsCa
    exact ⟨hleaf.honours_iff.mp hhonoured.leafHonours, hinter.honours_iff.mp hhonoured.interHonours,
      (hroot.below hallows).honours_iff.mp hhonoured.rootHonours, hallows⟩
  · exact PathAgrees.honoured hleaf hinter hroot

/-! ### Two paths -/

/-- The path of the example is honoured. -/
theorem path_honoured_iff_sample : PathHonoured samplePki .ekLeaf sampleEkCertificate
    sampleIntCertificate sampleRootCertificate := by
  have haccepted : (Chain.verify samplePki (Crypto.ofTable []) sampleEk sampleInt sampleRoot
      (.fromSecs 1790812800)).isOk = true := by
    decide +kernel
  obtain ⟨chain, hchain⟩ := Except.isOk_eq_true.mp haccepted
  have hek : samplePki.certificateFromDer sampleEk = .ok sampleEkCertificate := by
    have hroot : sampleEk ≠ sampleRoot := by decide +kernel
    have hint : sampleEk ≠ sampleInt := by decide +kernel
    simp only [samplePki, ofTable_cons_ne hroot, ofTable_cons_ne hint, ofTable_cons_self]
  have hint : samplePki.certificateFromDer sampleInt = .ok sampleIntCertificate := by
    have hroot : sampleInt ≠ sampleRoot := by decide +kernel
    simp only [samplePki, ofTable_cons_ne hroot, ofTable_cons_self]
  have hroot : samplePki.certificateFromDer sampleRoot = .ok sampleRootCertificate := by
    simp only [samplePki, ofTable_cons_self]
  refine (path_honoured_iff (.ek hchain hek hint hroot)).mpr ⟨agrees_of_nodup (by decide),
    agrees_of_nodup (by decide), agrees_of_nodup (by decide), ?_⟩
  intro x b hx hb
  have hlast : lastExtension sampleRootCertificate extBasicConstraints =
      some ⟨extBasicConstraints, true, basicCa⟩ := by decide +kernel
  obtain rfl := Option.some.inj (hlast.symm.trans hx)
  have hdecoded : samplePki.basicConstraintsFromDer basicCa = .ok ⟨true, none⟩ := by
    simp only [samplePki, ofTable_cons_self]
  obtain rfl := Except.ok.inj (hdecoded.symm.trans hb)
  exact fun h => by cases h

/-! ### A path that is accepted and not honoured

The root says that no CA stands below it.  The EK certificate is a CA by its first
`basicConstraints`, and none by its second. -/

def shallowRoot : Bytes :=
  ofWords 446 [
    0x308201ba30820123a003020102020101300d06092a864886f70d01010b050030,
    0x0f310d300b06035504030c04526f6f74301e170d323630393235303030303030,
    0x5a170d3336303932353030303030305a300f310d300b06035504030c04526f6f,
    0x7430819f300d06092a864886f70d010101050003818d0030818902818100aed8,
    0xf92ed6b2653c012ad2984d5d11f0d06ce019c3bf4f7cd7c4dc60799c89cc1413,
    0x9edee393db32c9745061f9d7bf4bcc5c08a803de0ec7c943ad27d8e60824638c,
    0x01aeadb7e558880da3a3ae6a4e6bb9bdd8d5ad09a72e5e3577f85bc97a12a3b2,
    0xd4a2909f2104fc38fb91f2deb0a9b4fa63785d35edfdd5470af7155b07750203,
    0x010001a326302430120603551d130101ff040830060101ff020100300e060355,
    0x1d0f0101ff040403020106300d06092a864886f70d01010b0500038181007d6a,
    0x910969df5f0f52fa37c025557a1ef2b2cae9f749833c86f7d7dbf16d1e23a6fe,
    0x4c6ae2aadb86bc4dbbde1b421b2f0935fcae0bfaf2c64587a01d043ddc3ceb72,
    0x77d1c22ecdbc68de4c8dd0f9c02f2427e6995f3c28a4381fe137e2aebbf25316,
    0xcb0db5f4fe130929de1691d7e32dbc9ce04626d869e503bb8c62b4233e33]

def shallowInt : Bytes :=
  ofWords 442 [
    0x308201b63082011fa003020102020102300d06092a864886f70d01010b050030,
    0x0f310d300b06035504030c04526f6f74301e170d323630393235303030303030,
    0x5a170d3336303932353030303030305a300e310c300a06035504030c03496e74,
    0x30819f300d06092a864886f70d010101050003818d0030818902818100b6ea55,
    0x0cbb4256710c64916c64447234c33f26d9cfb1c1b0f5b8294e5e3e2b3fef4d28,
    0x2711030eaa59d7d3758cb6432b1e01f48bce0d812abc53b044f72bc837e331a4,
    0x562a42651007ed389260c5d71e7dce1347d03e52c1611b1bed54f6fe31effc80,
    0x543344532079f508790de75278aacea950a5fcf786d96a5e9e29c4da83020301,
    0x0001a3233021300f0603551d130101ff040530030101ff300e0603551d0f0101,
    0xff040403020106300d06092a864886f70d01010b05000381810096f3beb7e35d,
    0x99c5e8c73eca7d38724013d90a3b780842c4e85a3ee74fc342fc656e06734cbe,
    0x29ba6491d368eb84efddc3bb6b5fb94909ed3c8116aff8d9872e3c3a89c1dac7,
    0xd8776c880675bca78b1628ce8900cbf275a776318a442cb0634d4f0f648155a7,
    0xe4d95410595ea4d26b21a595bb1ae9102edadedee331ac606604]

def doubledEk : Bytes :=
  ofWords 575 [
    0x3082023b308201a4a003020102020103300d06092a864886f70d01010b050030,
    0x0e310c300a06035504030c03496e74301e170d3236303932353030303030305a,
    0x170d3336303932353030303030305a300030820122300d06092a864886f70d01,
    0x010105000382010f003082010a0282010100c8d3e2252f78bc129125c700dd00,
    0xcd81f71ddf1424d07daddc3f0c920de828ef29807a3ea93c62a0b7c47aa0a83e,
    0x8bd7437c27155570fa13eb8ccd1467b1a0798575fc3ba146766dfdac96e1dd49,
    0xac39192b9eb6165093250a44068355d080bd6db30effa7e0024e21a7ae81607f,
    0xab29ba4542c12c46ff0c91b7c1e7a625751814f8f64d4c3e720c793ddd46c55a,
    0xb3e1859fc8813986daa53567731be24d5cf4af8e648bc8fbc7bdfb96712f46b3,
    0xa2279ef17e6962cd7a741033b5d2705b98d9ce17ab8d3d8cb6af12973e490fac,
    0xd5c546fd041315d7d1e96ca8adb1ca6dbe0082adc5c74c2c71578b626768462a,
    0x8728fc3fd2a63f41064e5c0065708dc525190203010001a3333031300f060355,
    0x1d130101ff040530030101ff300c0603551d130101ff0402300030100603551d,
    0x250409300706056781050801300d06092a864886f70d01010b05000381810001,
    0x84f61ec61fa4cd548cdfdc792024a46149fa86ffbad54dbd63fb5a8053d77f73,
    0xebbb1d92bee12143dd4dbce8dcc9beb017ff3aa18989c699aff358cb903bf4c4,
    0xdb28a04eb13bf12aa1588ce0fa073628e96d46c9cf958c2b6184e92727f48258,
    0xce0dc6c19ab98afc8c8f412b4788f4c8db36b9836364c76e85554521b409cf]

def shallowRootKey : Bytes := slice shallowRoot 97 162
def shallowIntKey : Bytes := slice shallowInt 96 162

/-- What the certificates of the path have in common: they are signed with 1024 bits. -/
def shallowCertificate (der tbs key serial : Bytes) (issuer subject : Name)
    (extensions : List Extension) : Certificate :=
  { sampleCertificate der tbs key serial issuer subject extensions with
    signature := some (der.drop (der.length - 128)) }

def shallowRootCertificate : Certificate :=
  shallowCertificate shallowRoot (slice shallowRoot 4 295) shallowRootKey [0x01]
    ⟨.ok (slice shallowRoot 31 17), "CN=Root"⟩ ⟨.ok (slice shallowRoot 80 17), "CN=Root"⟩
    [⟨extBasicConstraints, true, basicCaLast⟩, ⟨extKeyUsage, true, usageCa⟩]

def shallowIntCertificate : Certificate :=
  shallowCertificate shallowInt (slice shallowInt 4 291) shallowIntKey [0x02]
    ⟨.ok (slice shallowInt 31 17), "CN=Root"⟩ ⟨.ok (slice shallowInt 80 16), "CN=Int"⟩
    [⟨extBasicConstraints, true, basicCa⟩, ⟨extKeyUsage, true, usageCa⟩]

def doubledEkCertificate : Certificate :=
  shallowCertificate doubledEk (slice doubledEk 4 424) (slice doubledEk 81 294) [0x03]
    ⟨.ok (slice doubledEk 31 16), "CN=Int"⟩ ⟨.ok (slice doubledEk 79 2), ""⟩
    [⟨extBasicConstraints, true, basicCa⟩, ⟨extBasicConstraints, true, basicNone⟩,
      ⟨extExtKeyUsage, false, ekuEk⟩]

def shallowPki : Pki :=
  { samplePki with
    certificateFromDer := ofTable [(shallowRoot, shallowRootCertificate),
      (shallowInt, shallowIntCertificate), (doubledEk, doubledEkCertificate)]
    verify := (Crypto.ofTable [
      (shallowRootKey, slice shallowRoot 4 295, slice shallowRoot 318 128),
      (shallowRootKey, slice shallowInt 4 291, slice shallowInt 314 128),
      (shallowIntKey, slice doubledEk 4 424, slice doubledEk 447 128)]).verify }

/-- It is accepted, and neither the root nor the EK certificate honours its `basicConstraints`. -/
theorem shallow_path_accepted : AcceptedPath shallowPki (Crypto.ofTable []) .ekLeaf
    doubledEkCertificate shallowIntCertificate shallowRootCertificate ∧
      ¬ Honours shallowPki (.ca 1) shallowRootCertificate ∧
      ¬ Honours shallowPki .ekLeaf doubledEkCertificate := by
  have hlast : shallowPki.basicConstraintsFromDer basicCaLast = .ok ⟨true, some 0⟩ := by
    have hne : basicCaLast ≠ basicCa := by decide
    simp only [shallowPki, samplePki, ofTable_cons_ne hne, ofTable_cons_self]
  have hca : shallowPki.basicConstraintsFromDer basicCa = .ok ⟨true, none⟩ := by
    simp only [shallowPki, samplePki, ofTable_cons_self]
  have haccepted : (Chain.verify shallowPki (Crypto.ofTable []) doubledEk shallowInt shallowRoot
      (.fromSecs 1790812800)).isOk = true := by
    decide +kernel
  obtain ⟨chain, hchain⟩ := Except.isOk_eq_true.mp haccepted
  refine ⟨.ek hchain ?_ ?_ ?_, ?_, ?_⟩
  · have hroot : doubledEk ≠ shallowRoot := by decide +kernel
    have hint : doubledEk ≠ shallowInt := by decide +kernel
    simp only [shallowPki, ofTable_cons_ne hroot, ofTable_cons_ne hint, ofTable_cons_self]
  · have hroot : shallowInt ≠ shallowRoot := by decide +kernel
    simp only [shallowPki, ofTable_cons_ne hroot, ofTable_cons_self]
  · simp only [shallowPki, ofTable_cons_self]
  · intro hroot
    obtain ⟨b, hb, -, hlen⟩ := (hroot ⟨extBasicConstraints, true, basicCaLast⟩ (by simp
      [shallowRootCertificate, shallowCertificate, sampleCertificate])).1.1 rfl
    obtain rfl := Except.ok.inj (hlast.symm.trans hb)
    exact absurd (hlen 0 rfl) (by decide)
  · intro hek
    obtain ⟨b, hb, hnot⟩ := (hek ⟨extBasicConstraints, true, basicCa⟩ (by simp
      [doubledEkCertificate, shallowCertificate, sampleCertificate])).1.1 rfl
    obtain rfl := Except.ok.inj (hca.symm.trans hb)
    cases hnot

end TactiqAttest.Registrar
