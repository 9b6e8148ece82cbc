import SoapClient.Proofs.Schema.Soundness
import SoapClient.Proofs.Schema.Walks

/-!
# Types are entered in the order of a walk

Whatever is resolved: the types that are entered on the way are those that a walk through what is
mentioned meets, in the order in which it meets them. One statement for each function of the
resolver, from the simple types to the resolution of a name (`resolveWithin_walks`) and of many
(`forM_enterType_walks`).
-/

namespace SoapClient.Schema

open Xml (QName)

variable {α β : Type} {c : Components} {r r' : Register} {s s' : Resolution}
  {mention mention' : Mention} {mentions mentions' : List Mention}

/-! ## Steps that walk -/

/-- A register lists what was entered so far, and what is noted stands for nothing else. -/
structure Tracks (c : Components) (r : Register) (s : Resolution) : Prop where
  types : s.types.map (·.name) = r.names
  declared : ∀ key name, (key, name) ∈ r → ∃ content, c.Declares key (.mk none content)
  entered : ∀ key name, (key, name) ∈ r → Table.find? key s.resolved = some (.complex name)
  noted : ∀ key t, Table.find? key s.resolved = some t →
    ∃ decl, c.Declares key decl ∧ c.IsMet r.keys (.structured key decl)

namespace Tracks

/-- At the start nothing is entered. -/
theorem start (c : Components) : Tracks c [] Resolution.start where
  types := rfl
  declared := by simp
  entered := by simp
  noted := by simp [Resolution.start, Table.find?]

/-- A register that is kept. -/
theorem of_isRegistered {stack : List TypeKey} (h : IsRegistered c r stack s) : Tracks c r s where
  types := h.types
  declared := h.declared
  entered := h.entered
  noted := by
    intro key t hfind
    obtain ⟨decl, μ, hdecl, hμ, hname⟩ := h.noted key t hfind
    refine ⟨decl, hdecl, μ, hμ, ?_⟩
    rintro x rfl
    cases hname with
    | structured hmem => exact Register.mem_keys_of_mem hmem

/-- What is in progress does not matter to the register. -/
theorem congr (h : Tracks c r s) (htypes : s'.types.map (·.name) = s.types.map (·.name))
    (hresolved : s'.resolved = s.resolved) : Tracks c r s' where
  types := htypes.trans h.types
  declared := h.declared
  entered := by
    rw [hresolved]
    exact h.entered
  noted := by
    rw [hresolved]
    exact h.noted

/-- A type is entered behind the others. -/
theorem enter (h : Tracks c r s) {key : TypeKey} {content : List Content}
    (hdecl : c.Declares key (.mk none content)) (hkey : key ∉ r.keys) (name : String) :
    Tracks c (r ++ [(key, name)]) (s.enter key name) where
  types := by rw [Register.names_append, Resolution.enter, List.map_append, h.types]; rfl
  declared := by
    intro x other hmem
    rcases List.mem_append.mp hmem with hmem | hmem
    · exact h.declared x other hmem
    · obtain ⟨rfl, rfl⟩ := Prod.mk.inj (List.mem_singleton.mp hmem)
      exact ⟨content, hdecl⟩
  entered := by
    intro x other hmem
    rw [Resolution.enter, Table.find?]
    rcases List.mem_append.mp hmem with hmem | hmem
    · have hne : key ≠ x := by
        rintro rfl
        exact hkey (Register.mem_keys_of_mem hmem)
      rw [if_neg hne]
      exact h.entered x other hmem
    · obtain ⟨rfl, rfl⟩ := Prod.mk.inj (List.mem_singleton.mp hmem)
      rw [if_pos rfl]
  noted := by
    intro x t hfind
    rw [Register.keys_append]
    rw [Resolution.enter, Table.find?] at hfind
    split at hfind
    · next heq =>
      subst heq
      refine ⟨_, hdecl, _, .itself, ?_⟩
      rintro _ ⟨⟩
      exact List.mem_append_right _ List.mem_cons_self
    · obtain ⟨decl, hx, hmet⟩ := h.noted x t hfind
      exact ⟨decl, hx, hmet.mono (List.subset_append_left _ _)⟩

/-- A type with simple content is noted, when what it stands for was met. -/
theorem note (hc : c.IsConsistent) (h : Tracks c r s) {key : TypeKey} {base : Option Reference}
    {content : List Content} (hdecl : c.Declares key (.mk (some base) content))
    (hmet : c.IsMet r.keys (.structured key (.mk (some base) content))) (t : TypeRef) :
    Tracks c r { s with resolved := (key, t) :: s.resolved } where
  types := h.types
  declared := h.declared
  entered := by
    intro x name hmem
    -- what is entered has no simple content, so this is another declaration
    have hne : key ≠ x := by
      rintro rfl
      obtain ⟨content', hdecl'⟩ := h.declared key name hmem
      cases hc.declares_unique hdecl hdecl'
    rw [Table.find?, if_neg hne]
    exact h.entered x name hmem
  noted := by
    intro x t' hfind
    rw [Table.find?] at hfind
    split at hfind
    · next heq =>
      subst heq
      exact ⟨_, hdecl, hmet⟩
    · exact h.noted x t' hfind

/-- What nothing is noted for is not entered. -/
theorem notMem_keys (h : Tracks c r s) {key : TypeKey}
    (hnone : Table.find? key s.resolved = none) : key ∉ r.keys := by
  intro hmem
  obtain ⟨name, hmem⟩ := Register.exists_mem_of_mem_keys hmem
  rw [h.entered key name hmem] at hnone
  cases hnone

/-- A state has one register. -/
theorem eq_of_isRegistered (hc : c.IsConsistent) {stack : List TypeKey} (h : Tracks c r s)
    (h' : IsRegistered c r' stack s) : r = r' := by
  refine Register.eq_of_names_eq (h.types.symm.trans h'.types) h'.names ?_
  rintro ⟨key, name⟩ hmem
  -- what is noted for a declaration without simple content is its own entry
  obtain ⟨content, hdecl⟩ := h.declared key name hmem
  obtain ⟨decl, μ, hdecl', hμ, hname⟩ := h'.noted key _ (h.entered key name hmem)
  obtain rfl := hc.declares_unique hdecl hdecl'
  obtain rfl := hμ.unique .itself
  cases hname with
  | structured hmem => exact hmem

end Tracks

/-- What a step of a resolution leads to: what it enters is what a walk through mentions meets. -/
def Walks (c : Components) (r : Register) (mentions : List Mention) :
    Except DescriptionError (α × Resolution) → Prop
  | .ok (_, s') => ∃ r', Tracks c r' s' ∧ c.Walk r.keys mentions r'.keys
  | .error _ => True

namespace Walks

theorem pure (h : Tracks c r s) (a : α) : Walks c r [] ((Pure.pure a : Resolve α) s) :=
  ⟨r, h, .done⟩

theorem error (e : DescriptionError) :
    Walks c r mentions (.error e : Except DescriptionError (α × Resolution)) :=
  trivial

/-- A result that does not depend on what has been resolved. -/
theorem lift (h : Tracks c r s) (result : Except DescriptionError α) :
    Walks c r [] (Schema.lift result s) := by
  cases result with
  | ok a => exact ⟨r, h, .done⟩
  | error e => trivial

/-- A result for a mention of something that was met. -/
theorem met (h : Tracks c r s) (hmet : c.IsMet r.keys mention) (a : α) :
    Walks c r [mention] ((Pure.pure a : Resolve α) s) :=
  ⟨r, h, .met hmet⟩

/-- One step after the other. -/
theorem bind {x : Resolve α} {f : α → Resolve β} (hx : Walks c r mentions (x s))
    (hf : ∀ r' s' a, Tracks c r' s' → x s = .ok (a, s') → Walks c r' mentions' (f a s')) :
    Walks c r (mentions ++ mentions') ((x >>= f) s) := by
  have hbind : (x >>= f) s = x s >>= fun p => f p.1 p.2 := rfl
  rw [hbind]
  cases hxs : x s with
  | error e => trivial
  | ok p =>
    rw [hxs] at hx
    obtain ⟨r', h, hwalk⟩ := hx
    have hfirst : (Except.ok p >>= fun p => f p.1 p.2) = f p.1 p.2 := rfl
    rw [hfirst]
    have hrest := hf r' p.2 p.1 h hxs
    cases hfp : f p.1 p.2 with
    | error e => trivial
    | ok q =>
      rw [hfp] at hrest
      obtain ⟨r'', h', hwalk'⟩ := hrest
      exact ⟨r'', h', hwalk.append hwalk'⟩

/-- A step, and what is made of its result. -/
theorem bind_nil {x : Resolve α} {f : α → Resolve β} (hx : Walks c r mentions (x s))
    (hf : ∀ r' s' a, Tracks c r' s' → Walks c r' [] (f a s')) :
    Walks c r mentions ((x >>= f) s) := by
  have h := hx.bind fun r' s' a h _ => hf r' s' a h
  rwa [List.append_nil] at h

/-- A mention is walked as another one that stands for the same. -/
theorem of_standsFor {result : Except DescriptionError (α × Resolution)}
    (h : Walks c r [mention'] result) (hμ : ∀ μ, c.StandsFor mention' μ → c.StandsFor mention μ) :
    Walks c r [mention] result := by
  cases result with
  | error e => trivial
  | ok p =>
    obtain ⟨r', htracks, hwalk⟩ := h
    exact ⟨r', htracks, hwalk.of_standsFor hμ⟩

end Walks

/-- Names are resolved by a walk through what they stand for. -/
def FollowsWalk (c : Components) (follow : Follow) : Prop :=
  ∀ target r s, Tracks c r s → Walks c r [.target target] (follow target s)

/-! ## Simple types and bases -/

theorem resolveSimple_walks {follow : Follow} (hfollow : FollowsWalk c follow) (depth : Nat)
    (decl : SimpleDecl) (h : Tracks c r s) :
    Walks c r [.simple decl] (resolveSimple c follow depth decl s) := by
  induction depth generalizing decl r s with
  | zero =>
    rw [resolveSimple]
    exact Walks.error _
  | succ depth ih =>
    cases decl with
    | text => exact Walks.met h (.primitive .text) _
    | restriction base inner =>
      cases base with
      | none =>
        cases inner with
        | none => exact Walks.met h (.primitive .restrictedNothing) _
        | some inner => exact (ih inner h).of_standsFor fun _ => .restrictedInner
      | some base =>
        rw [resolveSimple]
        cases base with
        | unbound text => exact Walks.error _
        | «to» name =>
          refine Walks.bind (Walks.lift h _) ?_
          rintro r' s' _ h' ⟨⟩
          by_cases hbuiltin : name.namespaceName = some namespaceName
          · rw [if_pos hbuiltin]
            exact Walks.met h' (.primitive (.restrictedBuiltin hbuiltin)) _
          · rw [if_neg hbuiltin]
            cases hfind : Table.find? name c.simpleTypes with
            | some base =>
              exact (ih base h').of_standsFor fun _ => .restrictedSimple hbuiltin hfind
            | none =>
              exact (hfollow _ _ _ h').of_standsFor fun _ => .restrictedOther hbuiltin hfind

/-- Looking up the fields of a type enters nothing. -/
theorem fieldsOf_walks (h : Tracks c r s) (name : String) : Walks c r [] (fieldsOf name s) := by
  rw [fieldsOf]
  cases s.fields? name with
  | some fields => exact ⟨r, h, .done⟩
  | none => trivial

theorem inheritedFields_walks {follow : Follow} (hfollow : FollowsWalk c follow) (base : QName)
    (h : Tracks c r s) :
    Walks c r [.target (.type base)] (inheritedFields c follow base s) := by
  rw [inheritedFields]
  refine Walks.bind (Walks.lift h _) ?_
  rintro r' s' - h' -
  refine Walks.bind_nil (hfollow _ _ _ h') ?_
  intro r'' s'' t h''
  cases t with
  | complex name => exact fieldsOf_walks h'' name
  | _ => exact Walks.pure h'' _

theorem baseFields_walks {follow : Follow} (hfollow : FollowsWalk c follow)
    (base : Option Reference) (h : Tracks c r s) :
    Walks c r ((rowsOfBase base).map Row.mention) (baseFields c follow base s) := by
  rw [baseFields]
  cases base with
  | none => exact Walks.pure h _
  | some reference =>
    cases reference with
    | unbound text => exact Walks.error _
    | «to» name => exact inheritedFields_walks hfollow name h

theorem simpleContentType_walks {follow : Follow} (hfollow : FollowsWalk c follow) (key : TypeKey)
    (base : Option Reference) (content : List Content) (h : Tracks c r s) :
    Walks c r [.structured key (.mk (some base) content)] (simpleContentType follow base s) := by
  rw [simpleContentType]
  cases base with
  | none => exact Walks.met h (.primitive .simpleText) _
  | some reference =>
    cases reference with
    | unbound text => exact Walks.error _
    | «to» name => exact (hfollow _ _ _ h).of_standsFor fun _ => .simpleContent

/-! ## Structured types -/

mutual

theorem resolveComplex_walks (hc : c.IsConsistent) {follow : Follow}
    (hfollow : FollowsWalk c follow) (key : TypeKey) (name : String) (decl : ComplexDecl)
    (hplaces : decl.places ⊆ c.places) (hdecl : c.Declares key decl) {r : Register}
    {s : Resolution} (h : Tracks c r s) (hkey : key ∉ r.keys) :
    Walks c r [.structured key decl] (resolveComplex c follow key name decl s) := by
  match decl with
  | .mk (some base) content =>
    have hsimple := simpleContentType_walks hfollow key base content h
    rw [resolveComplex]
    have hbind : ∀ x : Resolve TypeRef,
        (do
          let type ← x
          note key type
          pure type : Resolve TypeRef) s =
        (x s >>= fun p => .ok (p.1, { p.2 with resolved := (key, p.1) :: p.2.resolved })) :=
      fun _ => rfl
    rw [hbind]
    cases htype : simpleContentType follow base s with
    | error e => trivial
    | ok p =>
      rw [htype] at hsimple
      obtain ⟨r', h', hwalk⟩ := hsimple
      have hmet := hwalk.isMet _ List.mem_cons_self
      exact ⟨r', h'.note hc hdecl hmet p.1, hwalk⟩
  | .mk none content =>
    -- the type is met, and then what its content mentions
    have hcontent :=
      collectContents_walks hc hfollow false content hplaces (h.enter hdecl hkey name)
    rw [resolveComplex_eq]
    cases hcollect : collectContents c follow false content (s.enter key name) with
    | error e => trivial
    | ok p =>
      rw [hcollect] at hcontent
      obtain ⟨r', h', hwalk⟩ := hcontent
      rw [Register.keys_append] at hwalk
      have hleave : Tracks c r' (p.2.leave name p.1) := h'.congr Resolution.names_leave rfl
      exact ⟨r', hleave, .enter .itself hkey hdecl hwalk .done⟩

theorem collectContents_walks (hc : c.IsConsistent) {follow : Follow}
    (hfollow : FollowsWalk c follow) (isForced : Bool) (parts : List Content)
    (hplaces : placesOfAll parts ⊆ c.places) {r : Register} {s : Resolution} (h : Tracks c r s) :
    Walks c r ((rowsOfAll isForced parts).map Row.mention)
      (collectContents c follow isForced parts s) := by
  match parts with
  | [] => exact Walks.pure h _
  | part :: rest =>
    obtain ⟨hpartPlaces, hrestPlaces⟩ := List.append_subset.mp hplaces
    rw [collectContents, rowsOfAll, List.map_append]
    refine Walks.bind (collectContent_walks hc hfollow isForced part hpartPlaces h) ?_
    intro r₁ s₁ fields h₁ _
    refine Walks.bind_nil (collectContents_walks hc hfollow isForced rest hrestPlaces h₁) ?_
    exact fun _ _ _ h₂ => Walks.pure h₂ _

theorem collectContent_walks (hc : c.IsConsistent) {follow : Follow}
    (hfollow : FollowsWalk c follow) (isForced : Bool) (part : Content)
    (hplaces : part.places ⊆ c.places) {r : Register} {s : Resolution} (h : Tracks c r s) :
    Walks c r ((part.rows isForced).map Row.mention) (collectContent c follow isForced part s) := by
  match part with
  | .group occurs items =>
    rw [collectContent]
    exact collectContents_walks hc hfollow _ items hplaces h
  | .choice occurs items =>
    rw [collectContent]
    exact collectContents_walks hc hfollow true items hplaces h
  | .derived derivations =>
    rw [collectContent]
    exact collectDerivations_walks hc hfollow isForced derivations hplaces h
  | .elementRef occurs (.unbound text) => exact Walks.error _
  | .elementRef occurs (.to name) =>
    exact Walks.bind_nil (f := fun type => pure [fieldOf occurs isForced name.localName type])
      (hfollow (.element name) _ _ h) fun _ _ _ h' => Walks.pure h' _
  | .element occurs none type => exact Walks.error _
  | .element occurs (some name) type =>
    exact Walks.bind_nil (f := fun type => pure [fieldOf occurs isForced name type])
      (resolveElementType_walks hc hfollow name type hplaces h) fun _ _ _ h' => Walks.pure h' _

theorem collectDerivations_walks (hc : c.IsConsistent) {follow : Follow}
    (hfollow : FollowsWalk c follow) (isForced : Bool)
    (derivations : List (Option Reference × List Content))
    (hplaces : placesOfDerivations derivations ⊆ c.places) {r : Register} {s : Resolution}
    (h : Tracks c r s) :
    Walks c r ((rowsOfDerivations isForced derivations).map Row.mention)
      (collectDerivations c follow isForced derivations s) := by
  match derivations with
  | [] => exact Walks.pure h _
  | (base, content) :: rest =>
    obtain ⟨hcontentPlaces, hrestPlaces⟩ := List.append_subset.mp hplaces
    rw [collectDerivations, rowsOfDerivations, List.map_append, List.map_append, List.append_assoc]
    refine Walks.bind (baseFields_walks hfollow base h) ?_
    intro r₁ s₁ inherited h₁ _
    refine Walks.bind (collectContents_walks hc hfollow isForced content hcontentPlaces h₁) ?_
    intro r₂ s₂ added h₂ _
    refine Walks.bind_nil (collectDerivations_walks hc hfollow isForced rest hrestPlaces h₂) ?_
    exact fun _ _ _ h₃ => Walks.pure h₃ _

theorem resolveElementType_walks (hc : c.IsConsistent) {follow : Follow}
    (hfollow : FollowsWalk c follow) (name : String) (type : ElementType)
    (hplaces : type.places ⊆ c.places) {r : Register} {s : Resolution} (h : Tracks c r s) :
    Walks c r [.element type] (resolveElementType c follow name type s) := by
  match type with
  | .named (.unbound text) => exact Walks.error _
  | .named (.to target) => exact (hfollow (.type target) _ _ h).of_standsFor fun _ => .named
  | .simple decl =>
    rw [resolveElementType]
    exact (resolveSimple_walks hfollow _ decl h).of_standsFor fun _ => .simple
  | .any => exact Walks.met h (.primitive .any) _
  | .complex path decl =>
    obtain ⟨hpath, hplaces⟩ := List.cons_subset.mp hplaces
    have hdeclared : c.Declares (.inPlace path) decl := hpath
    have hmention : ∀ μ, c.StandsFor (.structured (.inPlace path) decl) μ →
        c.StandsFor (.element (.complex path decl)) μ := fun _ => .inPlace
    rw [resolveElementType]
    have hknown : ∀ f : Option TypeRef → Resolve TypeRef,
        (known? (.inPlace path) >>= f) s = f (Table.find? (.inPlace path) s.resolved) s :=
      fun _ => rfl
    rw [hknown]
    cases hfound : Table.find? (.inPlace path) s.resolved with
    | some t =>
      obtain ⟨decl', hdecl', hmet⟩ := h.noted _ t hfound
      obtain rfl := hc.declares_unique hdeclared hdecl'
      exact Walks.met h (hmet.of_standsFor hmention) _
    | none =>
      exact (resolveComplex_walks hc hfollow (.inPlace path) _ decl hplaces hdeclared h
        (h.notMem_keys hfound)).of_standsFor hmention

end

/-! ## Names -/

theorem resolveDeclared_walks (hc : c.IsConsistent) {follow : Follow}
    (hfollow : FollowsWalk c follow) {name : QName} (hname : ¬ IsBuiltin name) (h : Tracks c r s)
    (hkey : .named name ∉ r.keys) :
    Walks c r [.target (.type name)] (resolveDeclared c follow name s) := by
  rw [resolveDeclared]
  cases hcomplex : Table.find? name c.complexTypes with
  | some decl =>
    have hdecl : c.Declares (.named name) decl := ⟨hname, hcomplex⟩
    exact (resolveComplex_walks hc hfollow _ _ decl (c.places_subset_of_find? hcomplex) hdecl h
      hkey).of_standsFor fun _ => .complexType hdecl
  | none =>
    cases hsimple : Table.find? name c.simpleTypes with
    | some decl =>
      exact (resolveSimple_walks hfollow _ decl h).of_standsFor fun _ =>
        .simpleType hname hcomplex hsimple
    | none => exact Walks.error _

theorem resolveTarget_walks (hc : c.IsConsistent) {follow : Follow}
    (hfollow : FollowsWalk c follow) : FollowsWalk c (resolveTarget c follow) := by
  intro target r s h
  cases target with
  | type name =>
    rw [resolveTarget_type]
    by_cases hbuiltin : IsBuiltin name
    · rw [if_pos hbuiltin]
      exact Walks.met h (.primitive (.builtin hbuiltin)) _
    · rw [if_neg hbuiltin]
      cases hfound : Table.find? (.named name) s.resolved with
      | some t =>
        obtain ⟨decl, hdecl, hmet⟩ := h.noted _ t hfound
        exact Walks.met h (hmet.of_standsFor fun _ => .complexType hdecl) _
      | none =>
        by_cases hprogress : name ∈ s.inProgress
        · simp only [if_pos hprogress]
          exact Walks.error _
        · simp only [if_neg hprogress]
          have hbegun : Tracks c r { s with inProgress := name :: s.inProgress } := h.congr rfl rfl
          have hdeclared := resolveDeclared_walks hc hfollow hbuiltin hbegun (h.notMem_keys hfound)
          cases hresult : resolveDeclared c follow name
              { s with inProgress := name :: s.inProgress } with
          | error e => trivial
          | ok p =>
            rw [hresult] at hdeclared
            obtain ⟨r', h', hwalk⟩ := hdeclared
            exact ⟨r', h'.congr rfl rfl, hwalk⟩
  | element name =>
    rw [resolveTarget]
    cases helement : Table.find? name c.elements with
    | some decl =>
      have hplaces := c.places_subset_of_find?_elements helement
      exact (resolveElementType_walks hc hfollow _ decl.type hplaces h).of_standsFor fun _ =>
        .globalElement helement
    | none => exact Walks.error _

/-- A name is resolved by a walk through what it stands for, however many names may lie on the
way. -/
theorem resolveWithin_walks (hc : c.IsConsistent) (fuel : Nat) :
    FollowsWalk c (resolveWithin c fuel) := by
  induction fuel with
  | zero => exact fun _ _ _ _ => Walks.error _
  | succ fuel ih => exact resolveTarget_walks hc ih

/-- Names that are resolved one after the other are walked one after the other. -/
theorem forM_enterType_walks (hc : c.IsConsistent) (names : List QName) (h : Tracks c r s) :
    Walks c r (names.map nameMention) (names.forM (enterType c) s) := by
  induction names generalizing r s with
  | nil => exact Walks.pure h _
  | cons name rest ih =>
    have hcons : (name :: rest).forM (enterType c) =
        (enterType c name >>= fun _ => rest.forM (enterType c)) := rfl
    have hfirst : Walks c r [nameMention name] (enterType c name s) :=
      Walks.bind_nil (resolveWithin_walks hc _ (.type name) _ _ h) fun _ _ _ h' => Walks.pure h' _
    rw [hcons]
    exact Walks.bind hfirst fun _ _ _ h' _ => ih h'

end SoapClient.Schema
