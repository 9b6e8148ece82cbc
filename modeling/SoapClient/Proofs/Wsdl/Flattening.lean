import SoapClient.Proofs.Schema.Nodes
import SoapClient.Proofs.Wsdl.Collecting
import SoapClient.Proofs.Wsdl.Inheritance

/-!
# Content models are flattened

A type of the model has one field for each particle in the element that declares it, in the order of
the document and through all groups, and for each derivation in it the fields of the base
(`Interpretation.spreads_fields`). Whether a field is optional depends on its particle and on the
groups around it. No resolution changes the fields of a type that was entered before. Main
statement: `forall₂_isFieldOf_of_modelOf`.
-/

namespace SoapClient.Wsdl

open Outcome
open Xml (Element QName)
open Schema

variable {root : Element} {m : ServiceModel}

/-- The sources of the fields of a type, in the element that declares it. -/
def fieldSources (node : Element) : List FieldSource := sourcesOfAll [] node.children

namespace Interpretation

/-- An element declares a type of the model. -/
def DeclaredBy (I : Interpretation root m) (t : ComplexType) (node : Element) : Prop :=
  ∃ key path, (key, t.name) ∈ I.register ∧ I.components.Declares key (readComplex path node)

/-- The fields that a source gives to a type. -/
inductive Gives (I : Interpretation root m) (x : TypeKey) : FieldSource → List Parameter → Prop
  | particle {groups : List Element} {e : Element} {name : String} {t : TypeRef} :
    particleName? e = some name → (∀ item, t ≠ .array item) →
      Gives I x (.particle groups e) [fieldOf (occurrenceOf e) (groups.any makesOptional) name t]
  | underived {e : Element} : reference? e "base" = none → Gives I x (.derivation e) []
  | inherited {e : Element} {base : QName} {fields : List Parameter} :
    reference? e "base" = some (.to base) →
      Reads I.components I.register [] I.resolution x (.inherited base) fields →
      Gives I x (.derivation e) fields

/-- A type inherits the fields of another one by a derivation: the base of the derivation stands for
this type, and it is not early. -/
def Inherits (I : Interpretation root m) (t : ComplexType) (e : Element) (b : ComplexType) : Prop :=
  ∃ x y base, (x, t.name) ∈ I.register ∧ (y, b.name) ∈ I.register ∧ b ∈ m.types ∧
    reference? e "base" = some (.to base) ∧
    I.components.StandsFor (.target (.type base)) (.structured y) ∧ ¬ I.IsEarly y x

/-- A derivation gives the fields of the type that is inherited by it, and none without such. -/
theorem Gives.of_derivation {I : Interpretation root m} {x : TypeKey} {e : Element}
    {fields : List Parameter} (h : I.Gives x (.derivation e) fields) {t : ComplexType}
    (hkey : (x, t.name) ∈ I.register) :
    (∃ b, I.Inherits t e b ∧ fields = b.fields) ∨ fields = [] ∧ ∀ b, ¬ I.Inherits t e b := by
  cases h with
  | underived hnone =>
    refine .inr ⟨rfl, ?_⟩
    rintro b ⟨_, _, base, -, -, -, hbase, -, -⟩
    cases hnone.symm.trans hbase
  | @inherited _ base _ hbase hread =>
    cases hread with
    | unstructured hμ =>
      refine .inr ⟨rfl, ?_⟩
      rintro b ⟨_, y, base, -, -, -, hbase', hμ', -⟩
      cases hbase.symm.trans hbase'
      cases hμ.unique hμ'
    | @complete _ y name fields hμ hmem _ hno hfields =>
      have hmodel : ⟨name, fields⟩ ∈ m.types :=
        List.mem_of_find?_eq_some (I.fields?_eq_some_iff.mp hfields)
      exact .inl ⟨⟨name, fields⟩, ⟨x, y, base, hkey, hmem, hmodel, hbase, hμ, hno⟩, rfl⟩
    | early hμ _ hleads =>
      refine .inr ⟨rfl, ?_⟩
      rintro b ⟨x', y', base, hkey', -, -, hbase', hμ', hno⟩
      cases hbase.symm.trans hbase'
      cases hμ.unique hμ'
      obtain rfl := I.registered.key_unique hkey hkey'
      exact hno hleads

/-- The rows of a source with the names it needs are read into the fields it gives. -/
theorem gives_of_rows (I : Interpretation root m) {x : TypeKey} {source : FieldSource}
    {rows : List Row} {fields : List Parameter} (hcomplete : source.IsComplete)
    (hrows : GivesRows false source rows)
    (hread : Spreads (Reads I.components I.register [] I.resolution x) rows fields) :
    I.Gives x source fields := by
  match source with
  | .particle groups e =>
    obtain ⟨name, hname⟩ := Option.isSome_iff_exists.mp hcomplete
    obtain ⟨mention, rfl⟩ := hrows.exists_eq hname
    obtain ⟨chunk, _, hchunk, hnil, rfl⟩ := Spreads.cons_iff.mp hread
    obtain rfl := Spreads.nil_iff.mp hnil
    cases hchunk with
    | @particle _ _ _ _ μ t hμ ht =>
      refine .particle hname fun item heq => ?_
      subst heq
      cases ht
  | .derivation e =>
    cases hrows
    cases hbase : reference? e "base" with
    | none =>
      rw [hbase] at hread
      obtain rfl := Spreads.nil_iff.mp hread
      exact .underived hbase
    | some reference =>
      cases reference with
      | unbound text => exact absurd hbase (hcomplete text)
      | «to» base =>
        rw [hbase] at hread
        obtain ⟨chunk, _, hchunk, hnil, rfl⟩ := Spreads.cons_iff.mp hread
        obtain rfl := Spreads.nil_iff.mp hnil
        rw [List.append_nil]
        exact .inherited hbase hchunk

/-- The fields of a type are those that the sources in its element give. -/
theorem spreads_fields (I : Interpretation root m) {key : TypeKey} {path : List Nat}
    {node : Element} {t : ComplexType} (ht : t ∈ m.types) (hkey : (key, t.name) ∈ I.register)
    (hdecl : I.components.Declares key (readComplex path node)) :
    Spreads (I.Gives key) (fieldSources node) t.fields := by
  obtain ⟨content, hcontent⟩ := I.registered.declared key t.name hkey
  obtain rfl := content_eq_of_readComplex (I.consistent.declares_unique hdecl hcontent)
  obtain ⟨fields, hfields, hrows⟩ := I.exists_fields hkey hcontent
  have htype := Option.some.inj ((I.complexType?_of_mem ht).symm.trans hfields)
  obtain rfl : t.fields = fields := congrArg ComplexType.fields htype
  -- the sources have the names they need, or else the content would not have been collected
  obtain ⟨follow, hsucceeds⟩ := I.wasCollected hkey hcontent
  have hcomplete := isComplete_readContents false path [] node.children hsucceeds
  have hspreads : Spreads (GivesRows false) (fieldSources node)
      (rowsOfAll false (readContents path 0 node.children)) :=
    spreads_readContents false path 0 [] node.children
  -- the sources make up the rows, and these the fields
  refine (hspreads.comp hrows).imp_of_mem fun source hsource chunk hchunk => ?_
  obtain ⟨rows, hgives, hreads⟩ := hchunk
  exact I.gives_of_rows (hcomplete source hsource) hgives hreads

/-- Every type of the model is declared by an element of the document. -/
theorem exists_declaredBy (I : Interpretation root m) {t : ComplexType} (ht : t ∈ m.types) :
    ∃ node, IsInside root node ∧ node.is Schema.namespaceName "complexType" ∧
      I.DeclaredBy t node := by
  obtain ⟨key, hkey⟩ := I.exists_mem_register (List.mem_map.mpr ⟨t, ht, rfl⟩)
  obtain ⟨content, hcontent⟩ := I.registered.declared key t.name hkey
  obtain ⟨path, node, hinside, hcomplex, heq⟩ := exists_node_of_declares I.gathered hcontent
  exact ⟨node, hinside, hcomplex, key, path, hkey, heq ▸ hcontent⟩

/-- The types that are entered between two resolutions have the fields then that they have in the
model. -/
theorem complexType?_of_registered (I : Interpretation root m) {r r' : Register} {s : Resolution}
    (h : IsRegistered I.components r [] s) (hgrows : Grows r [] s r' [] I.resolution) :
    ∀ t ∈ s.types, m.complexType? t.name = some t := by
  intro t ht
  have hnodup : (s.types.map (·.name)).Nodup := by
    rw [h.types]
    exact h.names
  have hfields : s.fields? t.name = some t.fields := by
    rw [Resolution.fields?, find?_of_nodup hnodup ht, Option.map_some]
  have hname : t.name ∈ r.names := by
    rw [← h.types]
    exact List.mem_map.mpr ⟨t, ht, rfl⟩
  obtain ⟨⟨key, name⟩, hmem, hkey⟩ := List.mem_map.mp hname
  obtain rfl : name = t.name := hkey
  rw [← hgrows.fields key _ hmem List.not_mem_nil] at hfields
  exact I.fields?_eq_some_iff.mp hfields

/-- When some of the types at the top of the schemas are resolved, the types that are entered by
then have the fields that they have in the model: nothing that is resolved or bound later changes
them. -/
theorem exists_resolution_of_append (I : Interpretation root m) {before after : List QName}
    (hnames : I.components.typeNames = before ++ after) :
    ∃ s, before.forM (enterType I.components) Resolution.start = .ok ((), s) ∧
      ∀ t ∈ s.types, m.complexType? t.name = some t := by
  have hrepeated : firstRepeated? [] I.components.localTypeNames = none :=
    firstRepeated?_eq_none_iff.mpr ⟨I.consistent.localNames, by simp⟩
  have hsplit : (before ++ after).forM (enterType I.components) =
      (do before.forM (enterType I.components); after.forM (enterType I.components)) :=
    List.forM_append
  have hresolved := I.resolved
  rw [interpret_eq, resolveAll_eq, hrepeated, hnames, hsplit, bind_eq_ok_iff] at hresolved
  obtain ⟨⟨_, s₂⟩, hall, hservices⟩ := hresolved
  obtain ⟨_, s₁, hbefore, hafter⟩ := run_bind_eq_ok_iff.mp hall
  -- the register only grows while the other types are resolved, and while the services are bound
  have h₁ := (forM_enterType_upholds I.consistent before (.start I.components)).2
  rw [hbefore] at h₁
  obtain ⟨r₁, hregistered₁, -, -⟩ := h₁
  have h₂ := (forM_enterType_upholds I.consistent after hregistered₁).2
  rw [hafter] at h₂
  obtain ⟨r₂, hregistered₂, hgrows₂, -⟩ := h₂
  have h₃ := (bindServices_upholds (P := fun _ => True) (d := I.definitions) I.consistent
    (.of_forall fun _ => trivial) (.of_forall fun _ => trivial) hregistered₂ []
    I.description.services).2
  rw [hservices] at h₃
  obtain ⟨r₃, -, hgrows₃, -⟩ := h₃
  exact ⟨s₁, hbefore, I.complexType?_of_registered hregistered₁ (hgrows₂.trans hgrows₃)⟩

end Interpretation

/-! ## Particles -/

/-- Whether an element may be missing, by itself. -/
def MayBeMissing (e : Element) : Prop :=
  e.attribute? "minOccurs" = some "0" ∨ e.attribute? "nillable" = some "true"

theorem isOptional_occurrenceOf_iff {e : Element} :
    (occurrenceOf e).isOptional = true ↔ MayBeMissing e := by
  simp [occurrenceOf, MayBeMissing]

theorem makesOptional_iff {group : Element} :
    makesOptional group = true ↔ group.localName = "choice" ∨ MayBeMissing group := by
  simp [makesOptional, isOptional_occurrenceOf_iff]

/-- A field is that of a particle: it has the name of the particle, and it is optional where the
particle may be missing or a group around it makes it so. -/
inductive IsFieldOf : FieldSource → Parameter → Prop
  | particle {groups : List Element} {e : Element} {field : Parameter} :
    particleName? e = some field.name →
      (field.isOptional = true ↔ MayBeMissing e ∨
        ∃ group ∈ groups, group.localName = "choice" ∨ MayBeMissing group) →
      IsFieldOf (.particle groups e) field

/-- A particle gives its field. -/
theorem Interpretation.Gives.exists_isFieldOf {I : Interpretation root m} {x : TypeKey}
    {groups : List Element} {e : Element} {chunk : List Parameter}
    (h : I.Gives x (.particle groups e) chunk) :
    ∃ field, chunk = [field] ∧ IsFieldOf (.particle groups e) field := by
  cases h with
  | particle hname _ =>
    refine ⟨_, rfl, .particle hname ?_⟩
    simp only [fieldOf, Bool.or_eq_true, isOptional_occurrenceOf_iff, List.any_eq_true,
      makesOptional_iff]

/-- Without derivations the fields of a type are those of the particles in its element, one by one.
-/
theorem Interpretation.forall₂_isFieldOf (I : Interpretation root m) {t : ComplexType}
    (ht : t ∈ m.types) {node : Element} (hnode : I.DeclaredBy t node)
    (hderivation : ∀ e, .derivation e ∉ fieldSources node) :
    List.Forall₂ IsFieldOf (fieldSources node) t.fields := by
  obtain ⟨key, path, hkey, hdecl⟩ := hnode
  refine (I.spreads_fields ht hkey hdecl).forall₂ fun source hsource chunk hchunk => ?_
  match source with
  | .derivation e => exact absurd hsource (hderivation e)
  | .particle groups e => exact hchunk.exists_isFieldOf

/-- While a name is resolved that the type being collected mentions, no entered type gets other
fields: a type that is collected keeps its own, and one that is being collected has none. -/
theorem fields?_eq_of_resolveWithin {c : Components} (hc : c.IsConsistent) {r : Register}
    {stack : List TypeKey} {s s' : Resolution} {target : Target} {n : Nat} {t : TypeRef}
    (h : IsRegistered c r stack s) (hconcerns : Concerns c stack (.target target))
    (hresult : resolveWithin c n target s = .ok (t, s')) {key : TypeKey} {name : String}
    (hmem : (key, name) ∈ r) : s'.fields? name = s.fields? name := by
  have hkeeps := resolveWithin_keeps hc n target r stack s h hconcerns
  rw [hresult] at hkeeps
  obtain ⟨r', h', hgrows, -⟩ := hkeeps
  -- what is being collected has no fields before and behind the step
  by_cases hstack : key ∈ stack
  · rw [h.empty key name hmem hstack, h'.empty key name (hgrows.mem hmem) hstack]
  · exact hgrows.fields key name hmem hstack

/-- Every type of a model is declared by an element of the document. Where there is no derivation in
this element, the fields of the type are those of the particles that are reached in it through
groups, one by one and in the order of the document. No resolution changes the fields of a type that
was entered before it: not those that follow one another at the top of the schemas, and none of
those in between that a type needs whose content is being collected. -/
theorem forall₂_isFieldOf_of_modelOf (h : modelOf root = .ok m) :
    ∃ I : Interpretation root m,
      (∀ t ∈ m.types, ∃ node, IsInside root node ∧
        node.is Schema.namespaceName "complexType" ∧ I.DeclaredBy t node) ∧
      (∀ t ∈ m.types, ∀ node, I.DeclaredBy t node → (∀ e, .derivation e ∉ fieldSources node) →
        List.Forall₂ IsFieldOf (fieldSources node) t.fields) ∧
      (∀ before after, I.components.typeNames = before ++ after →
        ∃ s, before.forM (enterType I.components) Resolution.start = .ok ((), s) ∧
          ∀ t ∈ s.types, m.complexType? t.name = some t) ∧
      ∀ r stack s n target t s', IsRegistered I.components r stack s →
        Concerns I.components stack (.target target) →
        resolveWithin I.components n target s = .ok (t, s') →
        ∀ key name, (key, name) ∈ r → s'.fields? name = s.fields? name := by
  obtain ⟨I⟩ := exists_interpretation h
  refine ⟨I, ?declared, ?fields, ?prefixes, ?between⟩
  case declared => exact fun t ht => I.exists_declaredBy ht
  case fields => exact fun t ht node hnode => I.forall₂_isFieldOf ht hnode
  case prefixes => exact fun before after => I.exists_resolution_of_append
  case between =>
    intro r stack s n target t s' hregistered hconcerns hresult key name
    exact fields?_eq_of_resolveWithin I.consistent hregistered hconcerns hresult

/-- A type with particles in groups. -/
def orderElement : Element :=
  xsd "complexType" [("name", "Order")]
    [xsd "sequence" []
      [xsd "element" [("name", "code"), ("type", "xsd:int")] [],
       xsd "choice" []
        [xsd "element" [("name", "shop"), ("type", "xsd:string")] [],
         xsd "sequence" []
          [xsd "element" [("name", "copy"), ("type", "t:Order"), ("maxOccurs", "2")] []]],
       xsd "all" [("minOccurs", "0")] [xsd "element" [("ref", "t:note")] []]]]

/-- A document with this type. -/
def orderDocument : Element :=
  smallDocument
    [orderElement, xsd "element" [("name", "note"), ("type", "xsd:string")] []] []

/-- The fields of the type. -/
def orderFields : List Parameter :=
  [⟨"code", .primitive .int, false⟩, ⟨"shop", .primitive .string, true⟩,
   ⟨"copy", .array (.complex "Order"), true⟩, ⟨"note", .primitive .string, true⟩]

/-- The model of the document. -/
def orderModel : ServiceModel := ⟨some "urn:t", [], [⟨"Order", orderFields⟩]⟩

theorem Interpretation.declaredBy_orderElement (I : Interpretation orderDocument orderModel) :
    I.DeclaredBy ⟨"Order", orderFields⟩ orderElement := by
  have hdecls : typeDecls orderDocument =
      [(⟨some "urn:t", "Order"⟩, readComplex [0, 0] orderElement)] := rfl
  exact ⟨.named ⟨some "urn:t", "Order"⟩, [0, 0],
    I.mem_of_declares ⟨by decide, by rw [hdecls]; rfl⟩,
    I.declares_of_find? (by decide) (by rw [hdecls]; rfl)⟩

/-- The fields of this type are those of its particles, whatever groups these stand in. -/
theorem forall₂_isFieldOf_of_modelOf_orderDocument :
    modelOf orderDocument = .ok orderModel ∧
      List.Forall₂ IsFieldOf (fieldSources orderElement) orderFields := by
  have hmodel : modelOf orderDocument = .ok orderModel := by decide +kernel
  obtain ⟨I, -, hfields, -⟩ := forall₂_isFieldOf_of_modelOf hmodel
  refine ⟨hmodel, hfields _ List.mem_cons_self _ I.declaredBy_orderElement fun e he => ?_⟩
  simp [fieldSources, orderElement, xsd, smallElement, sourcesOfAll, sourcesOf] at he

end SoapClient.Wsdl
