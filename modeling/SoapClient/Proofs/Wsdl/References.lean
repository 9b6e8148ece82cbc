import SoapClient.Proofs.Schema.Gathering
import SoapClient.Wsdl.Model
import SoapClient.Wsdl.Reader

/-!
# What names in a document refer to

The bindings and the port types of a document are gathered into tables by their names. A name is
found in such a table to mean the last declaration of its kind that the document makes under it
(`find?_bindings`, `find?_portTypes`), so that what a port or a binding refers to can be read off
the document (`bindingOf?`, `portTypeOf?`).
-/

namespace SoapClient.Wsdl

open Outcome
open Xml (Element QName)
open Schema

variable {root e : Element} {description : Description} {d d' : Definitions}

/-- The name that an attribute of an element refers to. -/
def referredName? (e : Element) (attributeName : String) : Option QName :=
  (e.attribute? attributeName).bind e.resolve?

/-- The name that an element of a document declares. -/
def declaredName? (root e : Element) : Option QName :=
  (e.attribute? "name").map fun name => ⟨root.attribute? "targetNamespace", name⟩

/-- The declaration of a kind that a name refers to: the last one under the name. -/
def declared? (root : Element) (kind : String) (name : QName) : Option Element :=
  (root.childrenNamed namespaceName kind).reverse.find? (declaredName? root · = some name)

/-- The binding that a port refers to. -/
def bindingOf? (root port : Element) : Option Element :=
  (referredName? port "binding").bind (declared? root "binding")

/-- The port type that a binding refers to. -/
def portTypeOf? (root binding : Element) : Option Element :=
  (referredName? binding "type").bind (declared? root "portType")

/-- A reference that is followed leads to the name that the attribute refers to. -/
theorem referredName?_of_follow {element attributeName : String} {name : QName}
    (h : Reference.followRequired element attributeName (reference? e attributeName) = .ok name) :
    referredName? e attributeName = some name := by
  rw [reference?] at h
  rw [referredName?]
  cases htext : e.attribute? attributeName with
  | none =>
    rw [htext] at h
    cases h
  | some text =>
    rw [htext, Option.map_some] at h
    cases hresolve : e.resolve? text with
    | none =>
      rw [hresolve] at h
      cases h
    | some found =>
      rw [hresolve] at h
      obtain rfl : found = name := Except.ok.inj h
      rw [Option.bind_some, hresolve]

/-! ## Tables of declarations -/

namespace Declaration

/-- The entry that a declaration makes among the bindings. -/
def bindingPair? (targetNamespace : Option String) : Declaration → Option (QName × BindingDecl)
  | .binding (some name) decl => some (⟨targetNamespace, name⟩, decl)
  | _ => none

/-- The entry that a declaration makes among the port types. -/
def portTypePair? (targetNamespace : Option String) :
    Declaration → Option (QName × List OperationDecl)
  | .portType (some name) operations => some (⟨targetNamespace, name⟩, operations)
  | _ => none

end Declaration

namespace Definitions

/-- A declaration sets its entry and leaves everything else. -/
theorem tables_of_add {decl : Declaration} (h : d.add decl = .ok d') :
    d'.targetNamespace = d.targetNamespace ∧
    d'.bindings = setAll ([decl].filterMap (·.bindingPair? d.targetNamespace)) d.bindings ∧
    d'.portTypes = setAll ([decl].filterMap (·.portTypePair? d.targetNamespace)) d.portTypes := by
  match decl with
  | .imported location => cases h
  | .message name parts =>
    rw [add, bind_eq_ok_iff] at h
    obtain ⟨key, -, h⟩ := h
    rw [bind_eq_ok_iff] at h
    obtain ⟨resolved, -, h⟩ := h
    obtain rfl := Except.ok.inj h
    exact ⟨rfl, rfl, rfl⟩
  | .portType none operations => cases h
  | .portType (some name) operations =>
    obtain rfl := Except.ok.inj h
    exact ⟨rfl, rfl, rfl⟩
  | .binding none decl => cases h
  | .binding (some name) decl =>
    obtain rfl := Except.ok.inj h
    exact ⟨rfl, rfl, rfl⟩

/-- Declarations one after the other set their entries in this order. -/
theorem tables_of_foldlM_add {decls : List Declaration} (h : decls.foldlM add d = .ok d') :
    d'.targetNamespace = d.targetNamespace ∧
    d'.bindings = setAll (decls.filterMap (·.bindingPair? d.targetNamespace)) d.bindings ∧
    d'.portTypes = setAll (decls.filterMap (·.portTypePair? d.targetNamespace)) d.portTypes := by
  induction decls generalizing d with
  | nil =>
    obtain rfl := Except.ok.inj h
    exact ⟨rfl, rfl, rfl⟩
  | cons decl rest ih =>
    rw [List.foldlM_cons, bind_eq_ok_iff] at h
    obtain ⟨d₁, hfirst, hrest⟩ := h
    obtain ⟨hns, hbindings, hportTypes⟩ := tables_of_add hfirst
    obtain ⟨hns', hbindings', hportTypes'⟩ := ih hrest
    rw [hns] at hns' hbindings' hportTypes'
    refine ⟨hns', ?_, ?_⟩
    · rw [hbindings', hbindings, ← setAll_append, ← List.filterMap_append, List.singleton_append]
    · rw [hportTypes', hportTypes, ← setAll_append, ← List.filterMap_append, List.singleton_append]

end Definitions

/-- Where every element has a key, an element is found in the table of all as it is among the
elements. -/
theorem find?_filterMap_key {α : Type} (key? : Element → Option QName) (entry : Element → α)
    (es : List Element) (name : QName) :
    Table.find? name (es.filterMap fun e => (key? e).map (·, entry e)) =
      (es.find? (key? · = some name)).map entry := by
  induction es with
  | nil => rfl
  | cons e rest ih =>
    cases hkey : key? e with
    | none => simp [hkey, ih]
    | some key =>
      by_cases hname : key = name
      · simp [hkey, hname, Table.find?]
      · simp [hkey, hname, Table.find?, ih]

/-! ## Declarations of a document -/

/-- Only a binding makes an entry among the bindings. -/
theorem bindingPair?_readDeclaration (root e : Element) :
    (readDeclaration e).bind (·.bindingPair? (root.attribute? "targetNamespace")) =
      if e.is namespaceName "binding" then (declaredName? root e).map (·, readBinding e)
      else none := by
  by_cases hns : e.namespaceName = some namespaceName
  · rw [readDeclaration, if_neg (not_not.mpr hns), declaredName?]
    split
    case h_4 hname =>
      rw [Option.bind_some, if_pos (by simp [Element.is, hname, hns])]
      cases e.attribute? "name" with
      | none => rfl
      | some name => rfl
    case h_5 hother =>
      rw [if_neg (by simpa [Element.is, hns] using hother)]
      rfl
    all_goals
      rw [if_neg (by simp [Element.is, *])]
      rfl
  · rw [readDeclaration, if_pos hns, if_neg (by simp [Element.is, hns])]
    rfl

/-- Only a port type makes an entry among the port types. -/
theorem portTypePair?_readDeclaration (root e : Element) :
    (readDeclaration e).bind (·.portTypePair? (root.attribute? "targetNamespace")) =
      if e.is namespaceName "portType" then
        (declaredName? root e).map
          (·, (e.childrenNamed namespaceName "operation").map readOperation)
      else none := by
  by_cases hns : e.namespaceName = some namespaceName
  · rw [readDeclaration, if_neg (not_not.mpr hns), declaredName?]
    split
    case h_3 hname =>
      rw [Option.bind_some, if_pos (by simp [Element.is, hname, hns])]
      cases e.attribute? "name" with
      | none => rfl
      | some name => rfl
    case h_5 hother _ =>
      rw [if_neg (by simpa [Element.is, hns] using hother)]
      rfl
    all_goals
      rw [if_neg (by simp [Element.is, *])]
      rfl
  · rw [readDeclaration, if_pos hns, if_neg (by simp [Element.is, hns])]
    rfl

/-- A description has the declarations of its document. -/
theorem declarations_of_readDescription (h : readDescription root = .ok description) :
    description.targetNamespace = root.attribute? "targetNamespace" ∧
    description.declarations = root.children.filterMap readDeclaration ∧
    description.services = (root.childrenNamed namespaceName "service").map readService := by
  rw [readDescription] at h
  split at h
  · obtain rfl := Except.ok.inj h
    exact ⟨rfl, rfl, rfl⟩
  · cases h

/-- Under a name the binding is found that the name refers to. -/
theorem find?_bindings (hread : readDescription root = .ok description)
    (h : Definitions.ofDescription description = .ok d) (name : QName) :
    Table.find? name d.bindings = (declared? root "binding" name).map readBinding := by
  obtain ⟨hns, hdeclarations, -⟩ := declarations_of_readDescription hread
  obtain ⟨-, hbindings, -⟩ := Definitions.tables_of_foldlM_add h
  rw [hbindings, find?_setAll, List.append_nil, hns, hdeclarations, List.filterMap_filterMap]
  simp only [bindingPair?_readDeclaration]
  rw [← List.filterMap_filter, ← List.filterMap_reverse, find?_filterMap_key]
  rfl

/-- Under a name the port type is found that the name refers to. -/
theorem find?_portTypes (hread : readDescription root = .ok description)
    (h : Definitions.ofDescription description = .ok d) (name : QName) :
    Table.find? name d.portTypes = (declared? root "portType" name).map fun e =>
      (e.childrenNamed namespaceName "operation").map readOperation := by
  obtain ⟨hns, hdeclarations, -⟩ := declarations_of_readDescription hread
  obtain ⟨-, -, hportTypes⟩ := Definitions.tables_of_foldlM_add h
  rw [hportTypes, find?_setAll, List.append_nil, hns, hdeclarations, List.filterMap_filterMap]
  simp only [portTypePair?_readDeclaration]
  rw [← List.filterMap_filter, ← List.filterMap_reverse, find?_filterMap_key]
  rfl

end SoapClient.Wsdl
