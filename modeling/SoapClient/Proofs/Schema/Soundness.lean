import SoapClient.Proofs.Schema.Naming
import SoapClient.Proofs.Schema.Register
import SoapClient.Proofs.Schema.Termination

/-!
# Resolving keeps the register

Whatever is resolved, in whatever order: the register is kept, and what is resolved is the type
that the mention stands for. One statement for each function of the resolver, from the simple types
to the resolution of a name (`resolve_upholds`) and of many (`forM_enterType_upholds`). Looking up
the fields of a type of the model never fails on the way, and no depth is reached where a way would
be cut off: what fails between resolutions is at fault (`Upholds`).
-/

namespace SoapClient.Schema

open Xml (QName)

variable {α β : Type} {c : Components} {r r' : Register} {stack : List TypeKey}
  {s s' : Resolution}

/-! ## Steps that keep the register -/

/-- What a step of a resolution leads to: it keeps the register and adds to it, with a result of
which `Q` holds; or it fails, but not because a type has not been entered. -/
def Keeps (c : Components) (r : Register) (stack : List TypeKey) (s : Resolution)
    (Q : Register → Resolution → α → Prop) : Except DescriptionError (α × Resolution) → Prop
  | .ok (a, s') => ∃ r', IsRegistered c r' stack s' ∧ Grows r stack s r' stack s' ∧ Q r' s' a
  | .error e => ∀ name, e ≠ .unregistered name

namespace Keeps

variable {Q : Register → Resolution → α → Prop} {Q' : Register → Resolution → β → Prop}

theorem pure (h : IsRegistered c r stack s) {a : α} (ha : Q r s a) :
    Keeps c r stack s Q ((Pure.pure a : Resolve α) s) :=
  ⟨r, h, .refl r stack s, ha⟩

theorem throw {e : DescriptionError} (he : ∀ name, e ≠ .unregistered name) :
    Keeps c r stack s Q ((MonadExcept.throw e : Resolve α) s) := he

/-- A result that does not depend on what has been resolved. -/
theorem lift (h : IsRegistered c r stack s) {result : Except DescriptionError α}
    (hresult : ∀ a, result = .ok a → Q r s a) (hanswer : IsAnswer result) :
    Keeps c r stack s Q (Schema.lift result s) := by
  cases result with
  | ok a => exact ⟨r, h, .refl r stack s, hresult a rfl⟩
  | error e =>
    rintro name rfl
    exact hanswer.neverMisses name rfl

/-- A step is looked at from where the step before it has led to. -/
theorem after {Q : Register → Resolution → α → Prop}
    {result : Except DescriptionError (α × Resolution)}
    (hgrows : Grows r stack s r' stack s') (h : Keeps c r' stack s' Q result) :
    Keeps c r stack s Q result := by
  cases result with
  | error e => exact h
  | ok p =>
    obtain ⟨r'', hregistered, hgrows', hQ⟩ := h
    exact ⟨r'', hregistered, hgrows.trans hgrows', hQ⟩

/-- One step after the other. -/
theorem bind {x : Resolve α} {f : α → Resolve β} (hx : Keeps c r stack s Q (x s))
    (hf : ∀ r' s' a, IsRegistered c r' stack s' → Grows r stack s r' stack s' → Q r' s' a →
      Keeps c r' stack s' Q' (f a s')) : Keeps c r stack s Q' ((x >>= f) s) := by
  have hbind : (x >>= f) s = x s >>= fun p => f p.1 p.2 := rfl
  rw [hbind]
  cases hxs : x s with
  | error e =>
    rw [hxs] at hx
    exact hx
  | ok p =>
    rw [hxs] at hx
    obtain ⟨r', h, hgrows, hQ⟩ := hx
    exact (hf r' p.2 p.1 h hgrows hQ).after hgrows

/-- A condition on the result that follows where it was led to. -/
theorem mono {Q Q' : Register → Resolution → α → Prop}
    {result : Except DescriptionError (α × Resolution)} (h : Keeps c r stack s Q result)
    (hQ : ∀ r' s' a, IsRegistered c r' stack s' → Grows r stack s r' stack s' → Q r' s' a →
      Q' r' s' a) : Keeps c r stack s Q' result := by
  cases result with
  | error e => exact h
  | ok p =>
    obtain ⟨r', hregistered, hgrows, ha⟩ := h
    exact ⟨r', hregistered, hgrows, hQ r' p.2 p.1 hregistered hgrows ha⟩

end Keeps

/-! ## Mentions -/

/-- A name that is followed is the one that is referred to. -/
theorem eq_to_of_follow {ref : Reference} {name : QName} (h : ref.follow = .ok name) :
    ref = .to name := by
  match ref with
  | .to _ => rw [Except.ok.inj h]
  | .unbound _ => cases h

/-- The type of the model that a mention stands for. -/
def IsTypeOf (c : Components) (r : Register) (mention : Mention) (t : TypeRef) : Prop :=
  ∃ μ, c.StandsFor mention μ ∧ r.Names μ t

/-- What is mentioned is mentioned by the type whose content is being collected. -/
def Concerns (c : Components) (stack : List TypeKey) (mention : Mention) : Prop :=
  ∀ x, stack.head? = some x → ∀ y, c.StandsFor mention (.structured y) → c.Refers x y

/-- A mention that stands for what another one stands for concerns the same types. -/
theorem Concerns.of_standsFor {mention mention' : Mention} (h : Concerns c stack mention)
    (hμ : ∀ μ, c.StandsFor mention' μ → c.StandsFor mention μ) : Concerns c stack mention' :=
  fun x hx y hy => h x hx y (hμ _ hy)

theorem IsTypeOf.of_standsFor {mention mention' : Mention} {t : TypeRef}
    (h : IsTypeOf c r mention' t) (hμ : ∀ μ, c.StandsFor mention' μ → c.StandsFor mention μ) :
    IsTypeOf c r mention t := by
  obtain ⟨μ, hmention, ht⟩ := h
  exact ⟨μ, hμ μ hmention, ht⟩

/-- Names are resolved to the types they stand for. -/
def FollowsMeaning (c : Components) (follow : Follow) : Prop :=
  ∀ target r stack s, IsRegistered c r stack s → Concerns c stack (.target target) →
    Keeps c r stack s (fun r' _ t => IsTypeOf c r' (.target target) t) (follow target s)

/-! ## Simple types -/

/-- A mention is resolved as another one that stands for the same. -/
theorem Keeps.of_standsFor {mention mention' : Mention}
    {result : Except DescriptionError (TypeRef × Resolution)}
    (h : Keeps c r stack s (fun r' _ t => IsTypeOf c r' mention' t) result)
    (hμ : ∀ μ, c.StandsFor mention' μ → c.StandsFor mention μ) :
    Keeps c r stack s (fun r' _ t => IsTypeOf c r' mention t) result :=
  h.mono fun _ _ _ _ _ ht => ht.of_standsFor hμ

/-- A mention that stands for a kind is resolved to it. -/
theorem Keeps.pure_primitive (h : IsRegistered c r stack s) {mention : Mention}
    {kind : PrimitiveKind} (hμ : c.StandsFor mention (.primitive kind)) :
    Keeps c r stack s (fun r' _ t => IsTypeOf c r' mention t)
      ((Pure.pure (.primitive kind) : Resolve TypeRef) s) :=
  Keeps.pure h ⟨_, hμ, .primitive kind⟩

theorem resolveSimple_keeps {follow : Follow} (hfollow : FollowsMeaning c follow) (depth : Nat)
    (decl : SimpleDecl) (h : IsRegistered c r stack s) (hdecl : Concerns c stack (.simple decl)) :
    Keeps c r stack s (fun r' _ t => IsTypeOf c r' (.simple decl) t)
      (resolveSimple c follow depth decl s) := by
  induction depth generalizing decl r s with
  | zero =>
    rw [resolveSimple]
    exact Keeps.throw (by simp)
  | succ depth ih =>
    cases decl with
    | text => exact Keeps.pure_primitive h .text
    | restriction base inner =>
      cases base with
      | none =>
        cases inner with
        | none => exact Keeps.pure_primitive h .restrictedNothing
        | some inner =>
          have hinner : ∀ μ, c.StandsFor (.simple inner) μ →
              c.StandsFor (.simple (.restriction none (some inner))) μ := fun _ => .restrictedInner
          exact (ih inner h (hdecl.of_standsFor hinner)).of_standsFor hinner
      | some base =>
        rw [resolveSimple]
        refine Keeps.bind (Keeps.lift h (Q := fun r' s' name => base = .to name)
          (fun _ => eq_to_of_follow) (isAnswer_follow base)) ?_
        rintro r' s' name h' - rfl
        by_cases hbuiltin : name.namespaceName = some namespaceName
        · rw [if_pos hbuiltin]
          exact Keeps.pure_primitive h' (.restrictedBuiltin hbuiltin)
        · rw [if_neg hbuiltin]
          cases hfind : Table.find? name c.simpleTypes with
          | some base =>
            have hbase : ∀ μ, c.StandsFor (.simple base) μ →
                c.StandsFor (.simple (.restriction (some (.to name)) inner)) μ :=
              fun _ => .restrictedSimple hbuiltin hfind
            exact (ih base h' (hdecl.of_standsFor hbase)).of_standsFor hbase
          | none =>
            have hbase : ∀ μ, c.StandsFor (.target (.type name)) μ →
                c.StandsFor (.simple (.restriction (some (.to name)) inner)) μ :=
              fun _ => .restrictedOther hbuiltin hfind
            exact (hfollow _ _ _ _ h' (hdecl.of_standsFor hbase)).of_standsFor hbase

/-! ## Bases -/

/-- The fields of an entered type can be looked up, and they are what a type that is derived from it
inherits. -/
theorem IsRegistered.exists_reads (h : IsRegistered c r stack s) {x b : TypeKey} {base : QName}
    {name : String} (hx : stack.head? = some x)
    (hbase : c.StandsFor (.target (.type base)) (.structured b)) (hmem : (b, name) ∈ r) :
    ∃ fields, s.fields? name = some fields ∧ Reads c r stack s x (.inherited base) fields := by
  have hkey := Register.mem_keys_of_mem hmem
  -- either the base is being collected and has no fields yet, or it is collected, and then it does
  -- not lead to the type that is being collected
  by_cases hb : b ∈ stack
  · exact ⟨[], h.empty b name hmem hb, .early hbase hkey (h.leads_head hx b hb)⟩
  · obtain ⟨_, fields, -, -, hfields⟩ := h.collected b name hmem hb
    have hno : ¬ c.Leads (r.since b) b x :=
      fun hleads => h.closed b x hkey hb hleads (List.mem_of_head? hx)
    exact ⟨fields, hfields, .complete hbase hmem hb hno hfields⟩

theorem inheritedFields_keeps {follow : Follow} (hfollow : FollowsMeaning c follow) {base : QName}
    (h : IsRegistered c r stack s) {x : TypeKey} (hx : stack.head? = some x)
    (hbase : Concerns c stack (.target (.type base))) :
    Keeps c r stack s (fun r' s' fields => Reads c r' stack s' x (.inherited base) fields)
      (inheritedFields c follow base s) := by
  rw [inheritedFields]
  refine Keeps.bind (Keeps.lift h (Q := fun _ _ _ => True) (fun _ _ => trivial)
    (isAnswer_checkDerivation c base base)) ?_
  rintro r' s' - h' - -
  refine Keeps.bind (hfollow _ _ _ _ h' hbase) ?_
  rintro r'' s'' t h'' - ⟨μ, hμ, ht⟩
  cases ht with
  | primitive kind => exact Keeps.pure h'' (.unstructured hμ)
  | structured hmem =>
    obtain ⟨fields, hfields, hread⟩ := h''.exists_reads hx hμ hmem
    dsimp only
    rw [fieldsOf, hfields]
    exact Keeps.pure h'' hread

theorem baseFields_keeps {follow : Follow} (hfollow : FollowsMeaning c follow)
    {base : Option Reference} (h : IsRegistered c r stack s) {x : TypeKey}
    (hx : stack.head? = some x) (hbase : ∀ row ∈ rowsOfBase base, Concerns c stack row.mention) :
    Keeps c r stack s (fun r' s' fields => AreRead c r' stack s' x (rowsOfBase base) fields)
      (baseFields c follow base s) := by
  rw [baseFields]
  cases base with
  | none => exact Keeps.pure h .nil
  | some reference =>
    cases reference with
    | unbound text => exact Keeps.throw (by simp)
    | «to» name =>
      have hname := hbase (.inherited name) List.mem_cons_self
      exact (inheritedFields_keeps hfollow h hx hname).mono fun _ _ _ _ _ hread =>
        .singleton hread

theorem simpleContentType_keeps {follow : Follow} (hfollow : FollowsMeaning c follow)
    {key : TypeKey} {base : Option Reference} {content : List Content}
    (h : IsRegistered c r stack s)
    (hdecl : Concerns c stack (.structured key (.mk (some base) content))) :
    Keeps c r stack s (fun r' _ t => IsTypeOf c r' (.structured key (.mk (some base) content)) t)
      (simpleContentType follow base s) := by
  rw [simpleContentType]
  cases base with
  | none => exact Keeps.pure_primitive h .simpleText
  | some reference =>
    cases reference with
    | unbound text => exact Keeps.throw (by simp)
    | «to» name =>
      have hname : ∀ μ, c.StandsFor (.target (.type name)) μ →
          c.StandsFor (.structured key (.mk (some (some (.to name))) content)) μ :=
        fun _ => .simpleContent
      exact (hfollow _ _ _ _ h (hdecl.of_standsFor hname)).of_standsFor hname

/-- Fields that are read after others are those of the rows behind. -/
theorem Keeps.appended (hc : c.IsConsistent) (h : IsRegistered c r stack s) {x : TypeKey}
    {rows rows' : List Row} {fields : List Parameter}
    {result : Except DescriptionError (List Parameter × Resolution)}
    (hresult : Keeps c r stack s
      (fun r' s' others => AreRead c r' stack s' x rows' others) result)
    (hread : AreRead c r stack s x rows fields) :
    Keeps c r stack s
      (fun r' s' others => AreRead c r' stack s' x (rows ++ rows') (fields ++ others)) result :=
  hresult.mono fun _ _ _ h' hgrows hreads => (hread.grow hc h hgrows h'.keys).append hreads

/-! ## Structured types -/

/-- Looking up what a key stands for changes nothing. -/
theorem known?_keeps (h : IsRegistered c r stack s) {key : TypeKey} :
    Keeps c r stack s (fun _ s' found => found = Table.find? key s'.resolved) (known? key s) :=
  ⟨r, h, .refl r stack s, rfl⟩

namespace IsRegistered

/-- What is noted for a declaration is the type that it stands for. -/
theorem isTypeOf_noted (hc : c.IsConsistent) (h : IsRegistered c r stack s) {key : TypeKey}
    {decl : ComplexDecl} (hdecl : c.Declares key decl) {t : TypeRef}
    (ht : Table.find? key s.resolved = some t) : IsTypeOf c r (.structured key decl) t := by
  obtain ⟨decl', μ, hdecl', hμ, hname⟩ := h.noted key t ht
  obtain rfl := hc.declares_unique hdecl hdecl'
  exact ⟨μ, hμ, hname⟩

/-- What nothing is noted for is not entered. -/
theorem notMem_keys (h : IsRegistered c r stack s) {key : TypeKey}
    (hnone : Table.find? key s.resolved = none) : key ∉ r.keys := by
  intro hmem
  obtain ⟨name, hmem⟩ := Register.exists_mem_of_mem_keys hmem
  rw [h.entered key name hmem] at hnone
  cases hnone

/-- The name that an anonymous type gets is free. -/
theorem anonymousName_free (h : IsRegistered c r stack s) (path : List Nat) (element : String) :
    s.anonymousName c.localTypeNames element ∉ r.names ∧
      IsFitting c (.inPlace path) (s.anonymousName c.localTypeNames element) := by
  have hfree := s.isTaken_anonymousName c.localTypeNames element
  have hnot : s.anonymousName c.localTypeNames element ∉
      s.types.map (·.name) ++ c.localTypeNames := by
    rw [← s.isTaken_iff, hfree]
    exact Bool.false_ne_true
  rw [List.mem_append, not_or, h.types] at hnot
  exact hnot

/-- The name of a type at the top of a schema is free until the type is entered. -/
theorem localName_free (hc : c.IsConsistent) (h : IsRegistered c r stack s) {name : QName}
    {decl : ComplexDecl} (hdecl : c.Declares (.named name) decl) (hkey : .named name ∉ r.keys) :
    name.localName ∉ r.names := by
  intro hmem
  obtain ⟨⟨key, other⟩, hmem, hother⟩ := List.mem_map.mp hmem
  obtain rfl : other = name.localName := hother
  have hfit := h.fitting key _ hmem
  have hname := hdecl.mem_typeNames
  cases key with
  | named typeName =>
    -- two types at the top of a schema that share a local name are one
    obtain ⟨content, hdecl'⟩ := h.declared _ _ hmem
    have heq : name = typeName :=
      List.inj_on_of_nodup_map hc.localNames hname hdecl'.mem_typeNames hfit
    subst heq
    exact hkey (Register.mem_keys_of_mem hmem)
  | inPlace path => exact hfit (List.mem_map.mpr ⟨name, hname, rfl⟩)

end IsRegistered

mutual

theorem resolveComplex_keeps (hc : c.IsConsistent) {follow : Follow}
    (hfollow : FollowsMeaning c follow) {key : TypeKey} {name : String} (decl : ComplexDecl)
    (hplaces : decl.places ⊆ c.places) (hdecl : c.Declares key decl) (hfit : IsFitting c key name)
    {r : Register} {stack : List TypeKey} {s : Resolution} (h : IsRegistered c r stack s)
    (hkey : key ∉ r.keys) (hname : name ∉ r.names)
    (hconcerns : Concerns c stack (.structured key decl)) :
    Keeps c r stack s (fun r' _ t => IsTypeOf c r' (.structured key decl) t)
      (resolveComplex c follow key name decl s) := by
  match decl with
  | .mk (some base) content =>
    rw [resolveComplex]
    refine Keeps.bind (simpleContentType_keeps hfollow h hconcerns) ?_
    rintro r' s' t h' - ⟨μ, hμ, ht⟩
    obtain ⟨hnoted, hgrows⟩ := h'.note hc hdecl hμ ht
    exact ⟨r', hnoted, hgrows, μ, hμ, ht⟩
  | .mk none content =>
    -- entered, collected, left: the register is kept by each of the three
    have hrefers : ∀ x, stack.head? = some x → c.Refers x key :=
      fun x hx => hconcerns x hx key .itself
    obtain ⟨henter, hgrows⟩ := h.enter hc hdecl hfit hkey hname hrefers
    have hrows : ∀ row ∈ rowsOfAll false content, Concerns c (key :: stack) row.mention := by
      intro row hrow x hx y hy
      obtain rfl := Option.some.inj hx
      exact Components.refers_of_mem hdecl hrow hy
    have hcontent := collectContents_keeps hc hfollow false content hplaces henter rfl hrows
    rw [resolveComplex_eq]
    cases hcollect : collectContents c follow false content (s.enter key name) with
    | error e =>
      rw [hcollect] at hcontent
      exact hcontent
    | ok p =>
      rw [hcollect] at hcontent
      obtain ⟨r', hregistered, hgrows', hread⟩ := hcontent
      have hmem : (key, name) ∈ r' := hgrows'.mem (by simp)
      obtain ⟨hleave, hgrows''⟩ := hregistered.leave hc hmem hdecl hread
      exact ⟨r', hleave, (hgrows.trans hgrows').trans hgrows'', _, .itself, .structured hmem⟩

theorem collectContents_keeps (hc : c.IsConsistent) {follow : Follow}
    (hfollow : FollowsMeaning c follow) (isForced : Bool) (parts : List Content)
    (hplaces : placesOfAll parts ⊆ c.places) {r : Register} {stack : List TypeKey} {s : Resolution}
    (h : IsRegistered c r stack s) {x : TypeKey} (hx : stack.head? = some x)
    (hrows : ∀ row ∈ rowsOfAll isForced parts, Concerns c stack row.mention) :
    Keeps c r stack s
      (fun r' s' fields => AreRead c r' stack s' x (rowsOfAll isForced parts) fields)
      (collectContents c follow isForced parts s) := by
  match parts with
  | [] => exact Keeps.pure h .nil
  | part :: rest =>
    have hpart : ∀ row ∈ part.rows isForced, Concerns c stack row.mention :=
      fun row hrow => hrows row (List.mem_append_left _ hrow)
    have hrest : ∀ row ∈ rowsOfAll isForced rest, Concerns c stack row.mention :=
      fun row hrow => hrows row (List.mem_append_right _ hrow)
    obtain ⟨hpartPlaces, hrestPlaces⟩ := List.append_subset.mp hplaces
    rw [collectContents]
    refine Keeps.bind (collectContent_keeps hc hfollow isForced part hpartPlaces h hx hpart) ?_
    intro r₁ s₁ fields h₁ _ hfields
    refine Keeps.bind ((collectContents_keeps hc hfollow isForced rest hrestPlaces h₁ hx
      hrest).appended hc h₁ hfields) ?_
    intro r₂ s₂ others h₂ _ hothers
    exact Keeps.pure h₂ hothers

theorem collectContent_keeps (hc : c.IsConsistent) {follow : Follow}
    (hfollow : FollowsMeaning c follow) (isForced : Bool) (part : Content)
    (hplaces : part.places ⊆ c.places) {r : Register} {stack : List TypeKey} {s : Resolution}
    (h : IsRegistered c r stack s) {x : TypeKey} (hx : stack.head? = some x)
    (hrows : ∀ row ∈ part.rows isForced, Concerns c stack row.mention) :
    Keeps c r stack s (fun r' s' fields => AreRead c r' stack s' x (part.rows isForced) fields)
      (collectContent c follow isForced part s) := by
  match part with
  | .group occurs items =>
    rw [collectContent]
    exact collectContents_keeps hc hfollow _ items hplaces h hx hrows
  | .choice occurs items =>
    rw [collectContent]
    exact collectContents_keeps hc hfollow true items hplaces h hx hrows
  | .derived derivations =>
    rw [collectContent]
    exact collectDerivations_keeps hc hfollow isForced derivations hplaces h hx hrows
  | .elementRef occurs (.unbound text) => exact Keeps.throw (by simp)
  | .elementRef occurs (.to name) =>
    have hname := hrows _ List.mem_cons_self
    have helement := hfollow _ _ _ _ h hname
    refine Keeps.bind (f := fun type => pure [fieldOf occurs isForced name.localName type])
      helement ?_
    rintro r' s' t h' - ⟨μ, hμ, ht⟩
    exact Keeps.pure h' (.singleton (.particle hμ ht))
  | .element occurs none type => exact Keeps.throw (by simp)
  | .element occurs (some name) type =>
    have htype := hrows _ List.mem_cons_self
    have helement := resolveElementType_keeps hc hfollow name type hplaces h htype
    refine Keeps.bind (f := fun type => pure [fieldOf occurs isForced name type]) helement ?_
    rintro r' s' t h' - ⟨μ, hμ, ht⟩
    exact Keeps.pure h' (.singleton (.particle hμ ht))

theorem collectDerivations_keeps (hc : c.IsConsistent) {follow : Follow}
    (hfollow : FollowsMeaning c follow) (isForced : Bool)
    (derivations : List (Option Reference × List Content))
    (hplaces : placesOfDerivations derivations ⊆ c.places) {r : Register} {stack : List TypeKey}
    {s : Resolution} (h : IsRegistered c r stack s) {x : TypeKey} (hx : stack.head? = some x)
    (hrows : ∀ row ∈ rowsOfDerivations isForced derivations, Concerns c stack row.mention) :
    Keeps c r stack s
      (fun r' s' fields => AreRead c r' stack s' x (rowsOfDerivations isForced derivations) fields)
      (collectDerivations c follow isForced derivations s) := by
  match derivations with
  | [] => exact Keeps.pure h .nil
  | (base, content) :: rest =>
    have hbase : ∀ row ∈ rowsOfBase base, Concerns c stack row.mention :=
      fun row hrow => hrows row (List.mem_append_left _ (List.mem_append_left _ hrow))
    have hcontent : ∀ row ∈ rowsOfAll isForced content, Concerns c stack row.mention :=
      fun row hrow => hrows row (List.mem_append_left _ (List.mem_append_right _ hrow))
    have hrest : ∀ row ∈ rowsOfDerivations isForced rest, Concerns c stack row.mention :=
      fun row hrow => hrows row (List.mem_append_right _ hrow)
    obtain ⟨hcontentPlaces, hrestPlaces⟩ := List.append_subset.mp hplaces
    rw [collectDerivations]
    refine Keeps.bind (baseFields_keeps hfollow h hx hbase) ?_
    intro r₁ s₁ inherited h₁ _ hinherited
    refine Keeps.bind ((collectContents_keeps hc hfollow isForced content hcontentPlaces h₁ hx
      hcontent).appended hc h₁ hinherited) ?_
    intro r₂ s₂ added h₂ _ hadded
    refine Keeps.bind ((collectDerivations_keeps hc hfollow isForced rest hrestPlaces h₂ hx
      hrest).appended hc h₂ hadded) ?_
    intro r₃ s₃ others h₃ _ hothers
    exact Keeps.pure h₃ hothers

theorem resolveElementType_keeps (hc : c.IsConsistent) {follow : Follow}
    (hfollow : FollowsMeaning c follow) (name : String) (type : ElementType)
    (hplaces : type.places ⊆ c.places) {r : Register} {stack : List TypeKey} {s : Resolution}
    (h : IsRegistered c r stack s) (htype : Concerns c stack (.element type)) :
    Keeps c r stack s (fun r' _ t => IsTypeOf c r' (.element type) t)
      (resolveElementType c follow name type s) := by
  match type with
  | .named (.unbound text) => exact Keeps.throw (by simp)
  | .named (.to target) =>
    have htarget : ∀ μ, c.StandsFor (.target (.type target)) μ →
        c.StandsFor (.element (.named (.to target))) μ := fun _ => .named
    exact (hfollow _ _ _ _ h (htype.of_standsFor htarget)).of_standsFor htarget
  | .simple decl =>
    have hdecl : ∀ μ, c.StandsFor (.simple decl) μ → c.StandsFor (.element (.simple decl)) μ :=
      fun _ => .simple
    rw [resolveElementType]
    exact (resolveSimple_keeps hfollow _ decl h (htype.of_standsFor hdecl)).of_standsFor hdecl
  | .any => exact Keeps.pure_primitive h .any
  | .complex path decl =>
    have hdecl : ∀ μ, c.StandsFor (.structured (.inPlace path) decl) μ →
        c.StandsFor (.element (.complex path decl)) μ := fun _ => .inPlace
    obtain ⟨hpath, hplaces⟩ := List.cons_subset.mp hplaces
    have hdeclared : c.Declares (.inPlace path) decl := hpath
    rw [resolveElementType]
    refine Keeps.bind (known?_keeps h) ?_
    rintro r' s' found h' - rfl
    cases hfound : Table.find? (.inPlace path) s'.resolved with
    | some t => exact Keeps.pure h' ((h'.isTypeOf_noted hc hdeclared hfound).of_standsFor hdecl)
    | none =>
      -- nothing is noted for the path, so the type is new, and it gets a free name
      obtain ⟨hname, hfit⟩ := h'.anonymousName_free path name
      exact (resolveComplex_keeps hc hfollow decl hplaces hdeclared hfit h'
        (h'.notMem_keys hfound) hname (htype.of_standsFor hdecl)).of_standsFor hdecl

end

/-! ## Names -/

theorem resolveDeclared_keeps (hc : c.IsConsistent) {follow : Follow}
    (hfollow : FollowsMeaning c follow) {name : QName} (hname : ¬ IsBuiltin name)
    (h : IsRegistered c r stack s) (hkey : .named name ∉ r.keys)
    (hconcerns : Concerns c stack (.target (.type name))) :
    Keeps c r stack s (fun r' _ t => IsTypeOf c r' (.target (.type name)) t)
      (resolveDeclared c follow name s) := by
  rw [resolveDeclared]
  cases hcomplex : Table.find? name c.complexTypes with
  | some decl =>
    have hdecl : c.Declares (.named name) decl := ⟨hname, hcomplex⟩
    have hμ : ∀ μ, c.StandsFor (.structured (.named name) decl) μ →
        c.StandsFor (.target (.type name)) μ := fun _ => .complexType hdecl
    exact (resolveComplex_keeps hc hfollow decl (c.places_subset_of_find? hcomplex) hdecl rfl h hkey
      (h.localName_free hc hdecl hkey) (hconcerns.of_standsFor hμ)).of_standsFor hμ
  | none =>
    cases hsimple : Table.find? name c.simpleTypes with
    | some decl =>
      have hμ : ∀ μ, c.StandsFor (.simple decl) μ → c.StandsFor (.target (.type name)) μ :=
        fun _ => .simpleType hname hcomplex hsimple
      exact (resolveSimple_keeps hfollow _ decl h (hconcerns.of_standsFor hμ)).of_standsFor hμ
    | none => exact Keeps.throw (by simp)

/-- A name is resolved to the type it stands for, where the names met on the way are. -/
theorem resolveTarget_keeps (hc : c.IsConsistent) {follow : Follow}
    (hfollow : FollowsMeaning c follow) : FollowsMeaning c (resolveTarget c follow) := by
  intro target r stack s h hconcerns
  cases target with
  | type name =>
    rw [resolveTarget_type]
    by_cases hbuiltin : IsBuiltin name
    · rw [if_pos hbuiltin]
      exact Keeps.pure_primitive h (.builtin hbuiltin)
    · rw [if_neg hbuiltin]
      cases hfound : Table.find? (.named name) s.resolved with
      | some t =>
        obtain ⟨decl, μ, hdecl, hμ, ht⟩ := h.noted _ t hfound
        exact Keeps.pure h ⟨μ, .complexType hdecl hμ, ht⟩
      | none =>
        by_cases hprogress : name ∈ s.inProgress
        · simp only [if_pos hprogress]
          exact Keeps.throw (by simp)
        · simp only [if_neg hprogress]
          -- the register does not know what is in progress: this may change in front and behind
          have hbegin : IsRegistered c r stack { s with inProgress := name :: s.inProgress } ∧
              Grows r stack s r stack { s with inProgress := name :: s.inProgress } :=
            h.congr hc rfl rfl
          obtain ⟨hbegun, hgrows⟩ := hbegin
          have hdeclared := (resolveDeclared_keeps hc hfollow hbuiltin hbegun
            (h.notMem_keys hfound) hconcerns).after hgrows
          cases hresult : resolveDeclared c follow name
              { s with inProgress := name :: s.inProgress } with
          | error e =>
            rw [hresult] at hdeclared
            exact hdeclared
          | ok p =>
            rw [hresult] at hdeclared
            obtain ⟨r', h', hgrows', ht⟩ := hdeclared
            have hend : IsRegistered c r' stack
                  { p.2 with inProgress := p.2.inProgress.erase name } ∧
                Grows r' stack p.2 r' stack
                  { p.2 with inProgress := p.2.inProgress.erase name } := h'.congr hc rfl rfl
            exact ⟨r', hend.1, hgrows'.trans hend.2, ht⟩
  | element name =>
    rw [resolveTarget]
    cases helement : Table.find? name c.elements with
    | some decl =>
      have hμ : ∀ μ, c.StandsFor (.element decl.type) μ →
          c.StandsFor (.target (.element name)) μ := fun _ => .globalElement helement
      have hplaces := c.places_subset_of_find?_elements helement
      exact (resolveElementType_keeps hc hfollow _ decl.type hplaces h
        (hconcerns.of_standsFor hμ)).of_standsFor hμ
    | none => exact Keeps.throw (by simp)

/-- Names are resolved to the types they stand for, however many may lie on the way. -/
theorem resolveWithin_keeps (hc : c.IsConsistent) (fuel : Nat) :
    FollowsMeaning c (resolveWithin c fuel) := by
  induction fuel with
  | zero =>
    intro target r stack s _ _
    exact Keeps.throw (by simp)
  | succ fuel ih => exact resolveTarget_keeps hc ih

/-! ## Steps between resolutions -/

/-- What a step leads to while no type is being resolved: it keeps the register and adds to it, with
a result of which `Q` holds; or it fails on a fault of the document. -/
def Upholds (c : Components) (r : Register) (s : Resolution) (Q : Register → Resolution → α → Prop)
    (result : Except DescriptionError (α × Resolution)) : Prop :=
  IsAnswer result ∧ Keeps c r [] s Q result

namespace Upholds

variable {Q : Register → Resolution → α → Prop} {Q' : Register → Resolution → β → Prop}

theorem pure (h : IsRegistered c r [] s) {a : α} (ha : Q r s a) :
    Upholds c r s Q ((Pure.pure a : Resolve α) s) :=
  ⟨.ok _, .pure h ha⟩

theorem throw {e : DescriptionError} (he : e.isInternal = false) :
    Upholds c r s Q ((MonadExcept.throw e : Resolve α) s) := by
  have hanswer : IsAnswer (.error e : Except DescriptionError (α × Resolution)) := .error he
  exact ⟨hanswer, Keeps.throw fun name heq => hanswer.neverMisses name (congrArg _ heq)⟩

/-- A result that does not depend on what has been resolved. -/
theorem lift (h : IsRegistered c r [] s) {result : Except DescriptionError α}
    (hresult : ∀ a, result = .ok a → Q r s a) (hanswer : IsAnswer result) :
    Upholds c r s Q (Schema.lift result s) :=
  ⟨hanswer.map, .lift h hresult hanswer⟩

/-- One step after the other. -/
theorem bind {x : Resolve α} {f : α → Resolve β} (hx : Upholds c r s Q (x s))
    (hf : ∀ r' s' a, IsRegistered c r' [] s' → Grows r [] s r' [] s' → Q r' s' a →
      Upholds c r' s' Q' (f a s')) : Upholds c r s Q' ((x >>= f) s) := by
  refine ⟨?_, hx.2.bind fun r' s' a h hgrows ha => (hf r' s' a h hgrows ha).2⟩
  have hbind : (x >>= f) s = x s >>= fun p => f p.1 p.2 := rfl
  obtain ⟨hanswer, hkeeps⟩ := hx
  rw [hbind]
  cases hxs : x s with
  | error e => exact .error (hanswer e hxs)
  | ok p =>
    rw [hxs] at hkeeps
    obtain ⟨r', h, hgrows, ha⟩ := hkeeps
    exact (hf r' p.2 p.1 h hgrows ha).1

/-- A condition on the result that follows where it was led to. -/
theorem mono {Q Q' : Register → Resolution → α → Prop}
    {result : Except DescriptionError (α × Resolution)} (h : Upholds c r s Q result)
    (hQ : ∀ r' s' a, IsRegistered c r' [] s' → Grows r [] s r' [] s' → Q r' s' a → Q' r' s' a) :
    Upholds c r s Q' result :=
  ⟨h.1, h.2.mono hQ⟩

end Upholds

/-- A name that is resolved by itself: what it stands for, or a fault of the document. -/
theorem resolve_upholds (hc : c.IsConsistent) (h : IsRegistered c r [] s) (target : Target) :
    Upholds c r s (fun r' _ t => IsTypeOf c r' (.target target) t) (resolve c target s) := by
  have hkeeps : Keeps c r [] s (fun r' _ t => IsTypeOf c r' (.target target) t)
      (resolve c target s) := resolveWithin_keeps hc _ target r [] s h fun _ hx => nomatch hx
  refine ⟨fun e he => ?_, hkeeps⟩
  rw [he] at hkeeps
  refine e.isInternal_eq_false (fun hdepth => resolve_ends c target s ?_) hkeeps
  rw [he, hdepth]

theorem IsTypeOf.grow {mention : Mention} {t : TypeRef} {stack' : List TypeKey}
    (h : IsTypeOf c r mention t) (hgrows : Grows r stack s r' stack' s') :
    IsTypeOf c r' mention t := by
  obtain ⟨μ, hμ, ht⟩ := h
  exact ⟨μ, hμ, hgrows.names ht⟩

/-- Names that are resolved one after the other all stand for types in the end. -/
theorem forM_enterType_upholds (hc : c.IsConsistent) (names : List QName)
    (h : IsRegistered c r [] s) :
    Upholds c r s (fun r' _ _ => ∀ name ∈ names, ∃ t, IsTypeOf c r' (.target (.type name)) t)
      (names.forM (enterType c) s) := by
  induction names generalizing r s with
  | nil => exact Upholds.pure h (by simp)
  | cons name rest ih =>
    have hcons : (name :: rest).forM (enterType c) =
        (enterType c name >>= fun _ => rest.forM (enterType c)) := rfl
    have hfirst : Upholds c r s
        (fun r' _ _ => ∃ t, IsTypeOf c r' (.target (.type name)) t) (enterType c name s) :=
      Upholds.bind (resolve_upholds hc h (.type name)) fun _ _ t h' _ ht => Upholds.pure h' ⟨t, ht⟩
    rw [hcons]
    refine Upholds.bind hfirst ?_
    rintro r₁ s₁ - h₁ - ⟨t, ht⟩
    refine (ih h₁).mono ?_
    intro r₂ s₂ _ _ hgrows hnames
    exact List.forall_mem_cons.mpr ⟨⟨t, ht.grow hgrows⟩, hnames⟩

end SoapClient.Schema
