import Mathlib.Data.Fintype.EquivFin
import Mathlib.Data.Fintype.Sets
import Mathlib.Order.WellFounded
import SoapClient.Proofs.Schema.Nodes
import SoapClient.Proofs.Schema.Register

/-!
# Names of fields

A field has the name of an element of a schema. What holds of the names of all these elements holds
of the names of all fields (`name_of_isRegistered`): of those that the content of a type declares,
and so of those that it takes over from a base, since no type takes fields over from itself
(`wellFounded_givesFields`).
-/

namespace SoapClient.Schema

open Outcome
open Xml (QName Element)

variable {P : String → Prop}

/-! ## Names in declarations -/

mutual

/-- The names of the elements that are declared by an element of a schema or inside of it. -/
def elementNames : Element → List String
  | e@⟨_, _, _, _, children, _⟩ =>
    (if e.is namespaceName "element" then (e.attribute? "name").toList else []) ++
      elementNamesOfAll children

/-- The names of the elements that are declared by some elements of a schema or inside of them. -/
def elementNamesOfAll : List Element → List String
  | [] => []
  | e :: rest => elementNames e ++ elementNamesOfAll rest

end

theorem elementNames_eq (e : Element) :
    elementNames e =
      (if e.is namespaceName "element" then (e.attribute? "name").toList else []) ++
        elementNamesOfAll e.children := by
  cases e
  rw [elementNames]

theorem elementNames_subset_of_mem {e : Element} {es : List Element} (h : e ∈ es) :
    elementNames e ⊆ elementNamesOfAll es := by
  induction es with
  | nil => cases h
  | cons first rest ih =>
    rcases List.mem_cons.mp h with rfl | h
    · exact List.subset_append_left _ _
    · exact List.Subset.trans (ih h) (List.subset_append_right _ _)

/-- The elements that are declared by an element of a schema or inside of it have names that meet a
condition. -/
def NamesElements (P : String → Prop) (e : Element) : Prop := ∀ name ∈ elementNames e, P name

namespace NamesElements

theorem child {e child : Element} (h : NamesElements P e) (hchild : child ∈ e.children) :
    NamesElements P child := by
  intro name hname
  refine h name ?_
  rw [elementNames_eq]
  exact List.mem_append_right _ (elementNames_subset_of_mem hchild hname)

theorem inside {e node : Element} (h : NamesElements P e) (hinside : IsInside e node) :
    NamesElements P node := by
  induction hinside with
  | refl => exact h
  | tail _ hchild ih => exact ih.child hchild

theorem own {e : Element} (h : NamesElements P e) (helement : e.is namespaceName "element")
    {name : String} (hname : e.attribute? "name" = some name) : P name := by
  refine h name ?_
  rw [elementNames_eq, if_pos helement, hname]
  refine List.mem_append_left _ ?_
  exact List.mem_singleton_self name

end NamesElements

/-- A particle has a name that meets a condition, or that of the global element it refers to. -/
def Row.IsNamed (P : String → Prop) : Row → Prop
  | .inherited _ => True
  | .particle _ _ name mention =>
    P name ∨ ∃ target, mention = .target (.element target) ∧ name = target.localName

/-- A structured type whose particles have such names. -/
def ComplexDecl.IsNamed (P : String → Prop) : ComplexDecl → Prop
  | .mk _ content => ∀ isForced, ∀ row ∈ rowsOfAll isForced content, row.IsNamed P

theorem isNamed_of_mem_rowsOfBase {base : Option Reference} :
    ∀ row ∈ rowsOfBase base, row.IsNamed P := by
  match base with
  | none => exact List.forall_mem_nil _
  | some (.unbound _) => exact List.forall_mem_nil _
  | some (.to name) => exact List.forall_mem_singleton.mpr trivial

/-- A particle has the name of its own element or of the one it refers to. -/
theorem GivesRows.isNamed {isForced : Bool} {node : Element} {source : FieldSource}
    {rows : List Row} (h : GivesRows isForced source rows) (hstands : source.StandsIn node)
    (hnames : NamesElements P node) : ∀ row ∈ rows, row.IsNamed P := by
  cases h with
  | derivation e => exact isNamed_of_mem_rowsOfBase
  | @elementRef _ e target _ =>
    cases target with
    | unbound text => exact List.forall_mem_nil _
    | «to» target => exact List.forall_mem_singleton.mpr (.inr ⟨target, rfl, rfl⟩)
  | @element _ e type _ =>
    obtain ⟨hinside, helement⟩ := hstands
    cases hname : e.attribute? "name" with
    | none => exact List.forall_mem_nil _
    | some name =>
      exact List.forall_mem_singleton.mpr (.inl ((hnames.inside hinside).own helement hname))

/-- Where all elements of a structured type have names that meet a condition, so have its
particles. -/
theorem isNamed_readComplex (path : List Nat) {node : Element} (h : NamesElements P node) :
    (readComplex path node).IsNamed P := by
  cases hread : readComplex path node with
  | mk base content =>
    obtain rfl := content_eq_of_readComplex hread
    intro isForced row hrow
    have hspreads := spreads_readContents isForced path 0 [] node.children
    rw [List.any_nil, Bool.or_false] at hspreads
    obtain ⟨source, hsource, rows, hgives, hrow⟩ := hspreads.exists_mem hrow
    have hstands := FieldSource.StandsIn.of_child (standsIn_sourcesOfAll [] _ source hsource)
    exact hgives.isNamed hstands h row hrow

/-- The declaration of an element at the top of a schema has the name of the element. -/
theorem NamesElements.of_readTopLevel {path : List Nat} {e : Element} (h : NamesElements P e)
    {name : String} {type : ElementType}
    (hread : readTopLevel path e = some (.element (some name) type)) : P name := by
  rw [readTopLevel] at hread
  split at hread
  · cases hread
  next hns =>
  rw [Decidable.not_not] at hns
  split at hread
  case h_4 hlocal =>
    have helement : e.is namespaceName "element" := by simp [Element.is, hns, hlocal]
    injection Option.some.inj hread with hname
    exact h.own helement hname
  all_goals cases hread

/-! ## Names in components -/

namespace Components

/-- Components in which all elements have names that meet a condition. -/
structure IsNamed (c : Components) (P : String → Prop) : Prop where
  types : ∀ key decl, c.Declares key decl → decl.IsNamed P
  elements : ∀ name ∈ Table.keys c.elements, P name.localName

variable {c c' : Components} {schema : SchemaDecl}

/-- Names meet what all names meet. -/
theorem IsNamed.of_forall (h : ∀ name, P name) : c.IsNamed P where
  types key decl _ := by
    cases decl with
    | mk base content =>
      intro isForced row _
      cases row with
      | inherited base => exact trivial
      | particle _ _ name mention => exact .inl (h name)
  elements name _ := h name.localName

/-- A declaration adds no other names of elements. -/
theorem elements_add {d : TopLevel}
    (hd : ∀ name type, d = .element (some name) type → P name)
    (hc : ∀ name ∈ Table.keys c.elements, P name.localName) (h : add schema c d = .ok c') :
    ∀ name ∈ Table.keys c'.elements, P name.localName := by
  match d with
  | .imported none =>
    obtain rfl := Except.ok.inj h
    exact hc
  | .imported (some _) => cases h
  | .included _ _ => cases h
  | .element none _ => cases h
  | .complexType none _ => cases h
  | .simpleType none _ => cases h
  | .element (some name) type =>
    obtain rfl := Except.ok.inj h
    intro key hkey
    rw [Table.keys_set] at hkey
    split at hkey
    · exact hc key hkey
    · rcases List.mem_append.mp hkey with hkey | hkey
      · exact hc key hkey
      · obtain rfl := List.mem_singleton.mp hkey
        exact hd name type rfl
  | .complexType (some name) decl =>
    obtain rfl := Except.ok.inj h
    exact hc
  | .simpleType (some name) decl =>
    obtain rfl := Except.ok.inj h
    exact hc

/-- The components of a document have the names that its elements give. -/
theorem isNamed_of_ofSchemas {root : Element} (h : ofSchemas (Wsdl.readSchemas root) = .ok c)
    (hroot : NamesElements P root) : c.IsNamed P where
  types key decl hdecl := by
    obtain ⟨path, node, hinside, -, rfl⟩ := exists_node_of_declares h hdecl
    exact isNamed_readComplex path (hroot.inside hinside)
  elements := by
    refine foldlM_keeps (I := fun c => ∀ name ∈ Table.keys c.elements, P name.localName)
      (fun schema hschema _ _ hc hadd => ?_) (List.forall_mem_nil _) h
    refine foldlM_keeps (fun d hd _ _ hc hadd => elements_add (fun name type heq => ?_) hc hadd)
      hc hadd
    obtain ⟨path, e, hinside, hread⟩ := exists_readTopLevel_eq hschema hd
    rw [heq] at hread
    exact (hroot.inside hinside).of_readTopLevel hread

/-- A global element that a type stands for has a name that meets the condition. -/
theorem IsNamed.localName (hc : c.IsNamed P) {name : QName} {μ : Meaning}
    (h : c.StandsFor (.target (.element name)) μ) : P name.localName := by
  cases h with
  | globalElement hfind _ =>
    exact hc.elements name (List.mem_map.mpr ⟨_, mem_of_find? hfind, rfl⟩)

end Components

/-! ## Fields that are taken over -/

section

variable {c : Components} {r : Register} {s : Resolution}

/-- An entered type can give its fields to another one: it is mentioned there, and does not lead to
it by way of types entered from itself on. -/
def GivesFields (c : Components) (r : Register) (b x : {key // key ∈ r.keys}) : Prop :=
  c.Refers x.1 b.1 ∧ ¬ c.Leads (r.since b.1) b.1 x.1

/-- What is entered no earlier than a declaration is entered from it on. -/
theorem Register.mem_since_of_idxOf_le {x y : TypeKey} (hx : x ∈ r.keys) (hy : y ∈ r.keys)
    (h : r.keys.idxOf x ≤ r.keys.idxOf y) : y ∈ r.since x := by
  obtain ⟨before, after, hkeys, hbefore, hsince⟩ := Register.exists_keys_eq hx
  rw [hsince]
  rw [hkeys, List.mem_append] at hy
  refine hy.resolve_left fun hmem => ?_
  have hlt : before.idxOf y < before.length := List.idxOf_lt_length_iff.mpr hmem
  rw [hkeys, List.idxOf_append_of_notMem hbefore, List.idxOf_append_of_mem hmem] at h
  omega

/-- No type gives fields to itself, be it by way of others. -/
theorem not_transGen_givesFields (x : {key // key ∈ r.keys}) :
    ¬ Relation.TransGen (GivesFields c r) x x := by
  intro hx
  -- of all types on the way the one that is entered first leads to the one before it
  obtain ⟨z, ⟨hxz, hzx⟩, hfirst⟩ :=
    (measure fun y : {key // key ∈ r.keys} => r.keys.idxOf y.1).wf.has_min
      {y | Relation.TransGen (GivesFields c r) x y ∧ Relation.TransGen (GivesFields c r) y x}
      ⟨x, hx, hx⟩
  have hleads : ∀ y, Relation.ReflTransGen (GivesFields c r) y z →
      Relation.TransGen (GivesFields c r) z y → c.Leads (r.since z.1) z.1 y.1 := by
    intro y hyz
    induction hyz using Relation.ReflTransGen.head_induction_on with
    | refl => exact fun _ => .refl
    | @head y y' hstep hrest ih =>
      intro hzy
      have hyx : Relation.TransGen (GivesFields c r) y x :=
        (Relation.TransGen.head' hstep hrest).trans hzx
      have hle : r.keys.idxOf z.1 ≤ r.keys.idxOf y.1 :=
        Nat.le_of_not_lt (hfirst y ⟨hxz.trans hzy, hyx⟩)
      exact (ih (hzy.tail hstep)).tail ⟨hstep.1, Register.mem_since_of_idxOf_le z.2 y.2 hle⟩
  obtain ⟨y, hzy, hyz⟩ := Relation.TransGen.head'_iff.mp (hzx.trans hxz)
  exact hzy.2 (hleads y hyz (.single hzy))

/-- Going from a type to one that gives it fields comes to an end. -/
theorem wellFounded_givesFields (c : Components) (r : Register) :
    WellFounded (GivesFields c r) := by
  have hirrefl : Std.Irrefl (Relation.TransGen (GivesFields c r)) := ⟨not_transGen_givesFields⟩
  exact Subrelation.wf Relation.TransGen.single (Finite.wellFounded_of_trans_of_irrefl _)

/-- The fields of every entered type have names that the elements of the schemas have. -/
theorem name_of_isRegistered (hc : c.IsNamed P) (h : IsRegistered c r [] s)
    {key : TypeKey} {name : String} {fields : List Parameter} (hmem : (key, name) ∈ r)
    (hfields : s.fields? name = some fields) : ∀ field ∈ fields, P field.name := by
  have hkey : key ∈ r.keys := Register.mem_keys_of_mem hmem
  induction hk : (⟨key, hkey⟩ : {key // key ∈ r.keys})
    using (wellFounded_givesFields c r).induction generalizing key name fields with
  | h k ih =>
  subst hk
  obtain ⟨content, fields', hdecl, hread, hfields'⟩ := h.collected key name hmem List.not_mem_nil
  obtain rfl := Option.some.inj (hfields.symm.trans hfields')
  intro field hfield
  obtain ⟨row, hrow, chunk, hread, hfield⟩ := hread.exists_row hfield
  have hnamed : row.IsNamed P := hc.types key _ hdecl false row hrow
  cases hread with
  | particle hμ ht =>
    obtain rfl := List.mem_singleton.mp hfield
    rcases hnamed with hname | ⟨target, rfl, rfl⟩
    · exact hname
    · exact hc.localName hμ
  | unstructured => cases hfield
  | early => cases hfield
  | @complete base b other _ hμ hb _ hleads hother =>
    have hrefers : c.Refers key b := Components.refers_of_mem hdecl hrow hμ
    exact ih ⟨b, Register.mem_keys_of_mem hb⟩ ⟨hrefers, hleads⟩ hb hother _ rfl field hfield

end

end SoapClient.Schema
