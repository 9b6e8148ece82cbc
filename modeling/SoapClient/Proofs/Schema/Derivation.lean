import SoapClient.Proofs.Schema.Checking
import SoapClient.Proofs.Schema.Soundness

/-!
# Chains of bases

A type that has a name is derived from the type that its base names: by its complex content, by its
simple content, or as a restriction of a simple type. Main statement: when all types are resolved,
no chain of bases that starts at a structured type comes back to a type on it, unless it passes
through complex content as well as through a restriction (`not_loops_of_resolveAll`).

Two facts exclude the loops. What a type stands for is given by a finite derivation, and this
follows every base but those of complex content (`acc_of_standsFor`). The bases of structured types
are followed to the end before anything is inherited (`acc_of_isChecked`).
-/

namespace SoapClient.Schema

open Xml (QName)

/-- The base of a simple type, also where this is declared in place. -/
def SimpleDecl.base? : SimpleDecl → Option Reference
  | .text => none
  | .restriction (some base) _ => some base
  | .restriction none (some inner) => inner.base?
  | .restriction none none => none

/-- A type at the top of a schema. -/
inductive NamedType where
  | structured (name : QName)
  | simple (name : QName)
  deriving DecidableEq

/-- The ways to be derived from a base. -/
inductive Derivation where
  | complexContent
  | simpleContent
  | restriction
  deriving DecidableEq

namespace Components

/-- The type that a name means. The names of built-in types mean none. -/
inductive Means (c : Components) (name : QName) : NamedType → Prop
  | structured {decl : ComplexDecl} : c.Declares (.named name) decl →
      Means c name (.structured name)
  | simple {decl : SimpleDecl} : ¬ IsBuiltin name → Table.find? name c.complexTypes = none →
      Table.find? name c.simpleTypes = some decl → Means c name (.simple name)

/-- The type that is restricted under a name: a simple type where there is one of the name. -/
inductive MeansRestricted (c : Components) (name : QName) : NamedType → Prop
  | simple {decl : SimpleDecl} : name.namespaceName ≠ some namespaceName →
      Table.find? name c.simpleTypes = some decl → MeansRestricted c name (.simple name)
  | other {y : NamedType} : name.namespaceName ≠ some namespaceName →
      Table.find? name c.simpleTypes = none → c.Means name y → MeansRestricted c name y

/-- A type is derived from another one in some way. A structured type has complex content or simple
content, but not both. -/
inductive DerivesBy (c : Components) : Derivation → NamedType → NamedType → Prop
  | complexContent {name base : QName} {content : List Content} {y : NamedType} :
    c.Declares (.named name) (.mk none content) →
      derivedBase? content = some (some (.to base)) → c.Means base y →
      DerivesBy c .complexContent (.structured name) y
  | simpleContent {name base : QName} {content : List Content} {y : NamedType} :
    c.Declares (.named name) (.mk (some (some (.to base))) content) →
      derivedBase? content = none → c.Means base y →
      DerivesBy c .simpleContent (.structured name) y
  | restriction {name base : QName} {decl : SimpleDecl} {y : NamedType} :
    Table.find? name c.simpleTypes = some decl → decl.base? = some (.to base) →
      c.MeansRestricted base y → DerivesBy c .restriction (.simple name) y

/-- A type is derived from another one. -/
def Derives (c : Components) (x y : NamedType) : Prop := ∃ way, c.DerivesBy way x y

/-- A type is derived from another one in any way but one. -/
def DerivesWithout (c : Components) (excluded : Derivation) (x y : NamedType) : Prop :=
  ∃ way, way ≠ excluded ∧ c.DerivesBy way x y

/-- The chain of bases from a type comes back to it and never takes one of the ways. -/
def LoopsWithout (c : Components) (excluded : Derivation) (x : NamedType) : Prop :=
  Relation.TransGen (c.DerivesWithout excluded) x x

end Components

variable {c : Components} {x y : NamedType} {base name : QName} {μ : Meaning}

namespace Components

/-- A name of a structured type means this type. -/
theorem Means.eq_of_declares {decl : ComplexDecl} (h : c.Means name y)
    (hdecl : c.Declares (.named name) decl) : y = .structured name := by
  cases h with
  | structured => rfl
  | simple _ hnone =>
    rw [hdecl.2] at hnone
    cases hnone

/-! ## What a type stands for -/

/-- The types that are met next where a mention is followed, other than by complex content. -/
inductive Mentions (c : Components) : Mention → NamedType → Prop
  | type {name : QName} {y : NamedType} : c.Means name y → Mentions c (.target (.type name)) y
  | simple {decl : SimpleDecl} {base : QName} {y : NamedType} :
    decl.base? = some (.to base) → c.MeansRestricted base y → Mentions c (.simple decl) y
  | simpleContent {key : TypeKey} {base : QName} {content : List Content} {y : NamedType} :
    c.Means base y → Mentions c (.structured key (.mk (some (some (.to base))) content)) y

/-- What a structured type meets without complex content, its declaration mentions. -/
theorem mentions_of_derivesWithout {decl : ComplexDecl} (hdecl : c.Declares (.named name) decl)
    (h : c.DerivesWithout .complexContent (.structured name) y) :
    c.Mentions (.structured (.named name) decl) y := by
  obtain ⟨way, hway, h⟩ := h
  cases h with
  | complexContent => exact absurd rfl hway
  | simpleContent hdecl' _ hmeans =>
    obtain rfl := Option.some.inj (hdecl.2.symm.trans hdecl'.2)
    exact .simpleContent hmeans

theorem mentions_of_derivesWithout_simple {decl : SimpleDecl}
    (hdecl : Table.find? name c.simpleTypes = some decl)
    (h : c.DerivesWithout .complexContent (.simple name) y) : c.Mentions (.simple decl) y := by
  obtain ⟨way, -, h⟩ := h
  cases h with
  | restriction hdecl' hbase hmeans =>
    obtain rfl := Option.some.inj (hdecl.symm.trans hdecl')
    exact .simple hbase hmeans

/-- Where a mention stands for something, the chains from the types it meets end unless they take
complex content. -/
theorem acc_of_standsFor {mention : Mention} (h : c.StandsFor mention μ)
    (hy : c.Mentions mention y) : Acc (fun y x => c.DerivesWithout .complexContent x y) y := by
  induction h generalizing y with
  | builtin hbuiltin =>
    cases hy with
    | type hmeans =>
      cases hmeans with
      | structured hdecl => exact absurd hbuiltin hdecl.1
      | simple hname => exact absurd hbuiltin hname
  | complexType hdecl _ ih =>
    cases hy with
    | type hmeans =>
      obtain rfl := hmeans.eq_of_declares hdecl
      exact .intro _ fun z hz => ih (mentions_of_derivesWithout hdecl hz)
  | simpleType _ hnone hfind _ ih =>
    cases hy with
    | type hmeans =>
      cases hmeans with
      | structured hdecl =>
        rw [hdecl.2] at hnone
        cases hnone
      | simple => exact .intro _ fun z hz => ih (mentions_of_derivesWithout_simple hfind hz)
  | restrictedBuiltin hns =>
    cases hy with
    | simple hbase hmeans =>
      cases hbase
      cases hmeans with
      | simple hne => exact absurd hns hne
      | other hne => exact absurd hns hne
  | restrictedSimple _ hfind _ ih =>
    cases hy with
    | simple hbase hmeans =>
      cases hbase
      cases hmeans with
      | simple => exact .intro _ fun z hz => ih (mentions_of_derivesWithout_simple hfind hz)
      | other _ hnone =>
        rw [hfind] at hnone
        cases hnone
  | restrictedOther _ hnone _ ih =>
    cases hy with
    | simple hbase hmeans =>
      cases hbase
      cases hmeans with
      | simple _ hfind =>
        rw [hfind] at hnone
        cases hnone
      | other _ _ hmeans => exact ih (.type hmeans)
  | restrictedInner _ ih =>
    cases hy with
    | simple hbase hmeans => exact ih (.simple hbase hmeans)
  | simpleContent _ ih =>
    cases hy with
    | simpleContent hmeans => exact ih (.type hmeans)
  | text => cases hy with | simple hbase => cases hbase
  | restrictedNothing => cases hy with | simple hbase => cases hbase
  | globalElement => cases hy
  | simpleText => cases hy
  | itself => cases hy
  | named => cases hy
  | inPlace => cases hy
  | simple => cases hy
  | any => cases hy

/-! ## What is followed to its end -/

/-- The first base of complex content is one of those that are inherited from. -/
theorem inherited_mem_of_derivedBase? {content : List Content}
    (h : derivedBase? content = some (some (.to base))) :
    .inherited base ∈ rowsOfAll false content := by
  have hderivations (derivations : List (Option Reference × List Content))
      (h : derivations.findSome? (·.1) = some (.to base)) :
      .inherited base ∈ rowsOfDerivations false derivations := by
    induction derivations with
    | nil => cases h
    | cons first rest ih =>
      obtain ⟨ref, content⟩ := first
      rw [rowsOfDerivations, List.mem_append, List.mem_append]
      cases ref with
      | none => exact .inr (ih h)
      | some ref =>
        obtain rfl : ref = .to base := Option.some.inj h
        exact .inl (.inl (List.mem_singleton.mpr rfl))
  fun_induction derivedBase? content with
  | case1 => cases h
  | case2 derivations rest =>
    exact List.mem_append_left _ (hderivations derivations (Option.some.inj h))
  | case3 part rest _ ih => exact List.mem_append_right _ (ih h)

/-- A chain that was followed to its end was so from the base of its first type. -/
theorem checkDerivation_base {start : QName} {fuel : Nat} {seen : List QName} {decl : ComplexDecl}
    (h : checkDerivation c start (fuel + 1) seen name = .ok ())
    (hdecl : Table.find? name c.complexTypes = some decl) (hbase : decl.base? = some (.to base)) :
    checkDerivation c start fuel (name :: seen) base = .ok () := by
  have hfollow : Reference.followOption decl.base? = .ok (some base) := by rw [hbase]; rfl
  rw [checkDerivation, hdecl] at h
  dsimp only at h
  rw [hfollow, Outcome.ok_bind] at h
  split at h
  · cases h
  · exact h

/-- Where the chain of bases from a name was followed to its end, it ends unless it takes a
restriction. -/
theorem acc_of_checkDerivation {start : QName} {fuel : Nat} {seen : List QName}
    (h : checkDerivation c start fuel seen name = .ok ()) (hy : c.Means name y) :
    Acc (fun y x => c.DerivesWithout .restriction x y) y := by
  induction fuel generalizing name seen y with
  | zero => cases h
  | succ fuel ih =>
    refine .intro y ?_
    rintro z ⟨way, hway, hz⟩
    cases hz with
    | restriction => exact absurd rfl hway
    | complexContent hdecl hderived hmeans =>
      cases hy with
      | structured =>
        refine ih (checkDerivation_base h hdecl.2 ?_) hmeans
        rw [ComplexDecl.base?, ComplexDecl.content, hderived]
        rfl
    | simpleContent hdecl hderived hmeans =>
      cases hy with
      | structured =>
        refine ih (checkDerivation_base h hdecl.2 ?_) hmeans
        rw [ComplexDecl.base?, ComplexDecl.content, hderived]
        rfl

/-- All types are resolved: each stands for something, and before fields were inherited from a base
this was checked. -/
structure AreResolved (c : Components) : Prop where
  types : ∀ name decl, c.Declares (.named name) decl →
    ∃ μ, c.StandsFor (.structured (.named name) decl) μ
  bases : ∀ name content base, c.Declares (.named name) (.mk none content) →
    .inherited base ∈ rowsOfAll false content →
    IsChecked c base ∧ ∃ μ, c.StandsFor (.target (.type base)) μ

/-- What a name stands for, the declaration under the name does. -/
theorem StandsFor.of_declares {decl : ComplexDecl} (h : c.StandsFor (.target (.type name)) μ)
    (hdecl : c.Declares (.named name) decl) : c.StandsFor (.structured (.named name) decl) μ := by
  cases h with
  | builtin hbuiltin => exact absurd hbuiltin hdecl.1
  | complexType hdecl' hμ =>
    obtain rfl := Option.some.inj (hdecl'.2.symm.trans hdecl.2)
    exact hμ
  | simpleType _ hnone =>
    rw [hdecl.2] at hnone
    cases hnone

/-- A row that was read mentions something. -/
theorem exists_standsFor_of_reads {r : Register} {stack : List TypeKey} {s : Resolution}
    {x : TypeKey} {row : Row} {fields : List Parameter} (h : Reads c r stack s x row fields) :
    ∃ μ, c.StandsFor row.mention μ := by
  cases h with
  | particle hμ => exact ⟨_, hμ⟩
  | unstructured hμ => exact ⟨_, hμ⟩
  | complete hμ => exact ⟨_, hμ⟩
  | early hμ => exact ⟨_, hμ⟩

/-- Types that were resolved with success are. -/
theorem areResolved_of_resolveAll (hc : c.IsConsistent) {s : Resolution}
    (h : resolveAll c Resolution.start = .ok ((), s)) : c.AreResolved := by
  have hkeeps := (forM_enterType_upholds hc c.typeNames (.start c)).2
  have hall := h
  rw [resolveAll_eq, firstRepeated?_eq_none_iff.mpr ⟨hc.localNames, by simp⟩] at hall
  dsimp only at hall
  rw [hall] at hkeeps
  obtain ⟨r, hregistered, -, hnames⟩ := hkeeps
  refine ⟨?_, ?_⟩
  · intro name decl hdecl
    obtain ⟨t, μ, hμ, -⟩ := hnames name hdecl.mem_typeNames
    exact ⟨μ, hμ.of_declares hdecl⟩
  · intro name content base hdecl hbase
    -- the type has no simple content, so it was entered, and its rows were read
    obtain ⟨t, μ, hμ, ht⟩ := hnames name hdecl.mem_typeNames
    obtain rfl := (hμ.of_declares hdecl).unique .itself
    cases ht with
    | structured hmem =>
      have hnoted := hregistered.entered _ _ hmem
      have hchecked := areChecked_of_resolveAll h hdecl.2 (by rw [hnoted]; simp)
      obtain ⟨content', _, hdecl', hread, -⟩ := hregistered.collected _ _ hmem List.not_mem_nil
      cases hc.declares_unique hdecl hdecl'
      obtain ⟨chunk, hrow⟩ := hread.exists_reads hbase
      exact ⟨hchecked base hbase, exists_standsFor_of_reads hrow⟩

namespace AreResolved

/-- No chain from a structured type goes on for ever without complex content. -/
theorem acc_of_derives (h : c.AreResolved) {start : QName}
    (hx : Relation.ReflTransGen c.Derives (.structured start) x) :
    Acc (fun y x => c.DerivesWithout .complexContent x y) x := by
  induction hx with
  | refl =>
    refine .intro _ fun z hz => ?_
    obtain ⟨decl, hdecl⟩ : ∃ decl, c.Declares (.named start) decl := by
      obtain ⟨way, -, hz⟩ := hz
      cases hz with
      | complexContent hdecl => exact ⟨_, hdecl⟩
      | simpleContent hdecl => exact ⟨_, hdecl⟩
    obtain ⟨μ, hμ⟩ := h.types start decl hdecl
    exact acc_of_standsFor hμ (mentions_of_derivesWithout hdecl hz)
  | @tail y z _ hyz ih =>
    obtain ⟨way, hyz⟩ := hyz
    by_cases hway : way = .complexContent
    · subst hway
      cases hyz with
      | complexContent hdecl hbase hmeans =>
        obtain ⟨-, μ, hμ⟩ := h.bases _ _ _ hdecl (inherited_mem_of_derivedBase? hbase)
        exact acc_of_standsFor hμ (.type hmeans)
    · exact ih.inv ⟨way, hway, hyz⟩

/-- A chain that ends unless it takes complex content does so unless it takes a restriction: from
complex content on it was followed to the end. -/
theorem acc_of_acc (h : c.AreResolved)
    (hx : Acc (fun y x => c.DerivesWithout .complexContent x y) x) :
    Acc (fun y x => c.DerivesWithout .restriction x y) x := by
  induction hx with
  | intro x _ ih =>
    refine .intro x ?_
    rintro z ⟨way, hway, hz⟩
    cases hz with
    | restriction => exact absurd rfl hway
    | complexContent hdecl hbase hmeans =>
      obtain ⟨hchecked, -⟩ := h.bases _ _ _ hdecl (inherited_mem_of_derivedBase? hbase)
      exact acc_of_checkDerivation hchecked hmeans
    | simpleContent hdecl hbase hmeans =>
      exact ih z ⟨.simpleContent, by decide, .simpleContent hdecl hbase hmeans⟩

end AreResolved

end Components

/-! ## Loops -/

/-- What only finite chains start from is on no loop. -/
theorem not_transGen_self_of_acc {α : Type} {r : α → α → Prop} {x : α}
    (h : Acc (fun y x => r x y) x) : ¬ Relation.TransGen r x x := by
  induction h with
  | intro x _ ih =>
    intro hloop
    obtain ⟨y, hxy, hyx⟩ := Relation.TransGen.head'_iff.mp hloop
    exact ih y hxy (.tail' hyx hxy)

/-- When all types are resolved, every loop that a structured type leads to takes complex content
and a restriction. -/
theorem not_loops_of_resolveAll (hc : c.IsConsistent) {s : Resolution}
    (h : resolveAll c Resolution.start = .ok ((), s)) {start : QName}
    (hx : Relation.ReflTransGen c.Derives (.structured start) x) :
    ¬ c.LoopsWithout .complexContent x ∧ ¬ c.LoopsWithout .restriction x := by
  have hresolved := Components.areResolved_of_resolveAll hc h
  have hacc := hresolved.acc_of_derives hx
  exact ⟨not_transGen_self_of_acc hacc, not_transGen_self_of_acc (hresolved.acc_of_acc hacc)⟩

end SoapClient.Schema
