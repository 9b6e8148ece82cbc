import SoapClient.Xml.Scope
import SoapClient.Text.Blank

/-!
Elements: a tree in which every name is resolved to its namespace, and which remembers the
declarations in force so that names inside attribute values can be resolved later.
-/

namespace SoapClient.Xml

/-- An element with everything inside it. -/
structure Element where
  namespaceName : Option String
  localName : String
  /-- The attributes under their written names, without namespace declarations. -/
  attributes : List (String × String)
  /-- The declarations in force inside the element. -/
  scope : Scope
  children : List Element
  /-- The character data directly inside the element. -/
  text : String

namespace Element

/-- Whether the element has the given name. -/
def is (e : Element) (ns localName : String) : Bool :=
  e.localName = localName ∧ e.namespaceName = some ns

/-- The value of the attribute with a written name. -/
def attribute? (e : Element) (name : String) : Option String :=
  (e.attributes.find? (·.1 = name)).map (·.2)

/-- The value of the first attribute with a resolved name. An attribute without a qualifier is in
no namespace. -/
def attributeIn? (e : Element) (ns localName : String) : Option String :=
  e.attributes.findSome? fun (name, value) =>
    match splitName? name with
    | some (qualifier, loc) =>
      if loc = localName ∧ e.scope.find? qualifier = some ns then some value else none
    | none => none

/-- The children with a name, in order. -/
def childrenNamed (e : Element) (ns localName : String) : List Element :=
  e.children.filter (·.is ns localName)

/-- The first child with a name. -/
def child? (e : Element) (ns localName : String) : Option Element :=
  e.children.find? (·.is ns localName)

/-- The name that a text stands for inside the element. A name without a qualifier is in the
default namespace, and blanks around it do not count. -/
def resolve? (e : Element) (text : String) : Option QName :=
  match splitName? text with
  | some (qualifier, loc) => (e.scope.find? qualifier).map fun ns => ⟨some ns, loc⟩
  | none => some ⟨e.scope.find? "", Text.trim text⟩

end Element

end SoapClient.Xml
