import SoapClient.Text.Cut

/-!
Namespaces. A scope is the list of the declarations that are in force, the nearest one first; a
declaration of an empty name takes the binding of its qualifier away.
-/

namespace SoapClient.Xml

/-- A name with the namespace it belongs to. -/
structure QName where
  namespaceName : Option String
  localName : String
  deriving DecidableEq

/-- The name as shown to a reader. -/
def QName.text (name : QName) : String :=
  match name.namespaceName with
  | some ns => "\x7b" ++ ns ++ "\x7d" ++ name.localName
  | none => name.localName

/-- A written name, cut at its first colon into qualifier and local name. -/
def splitName? (name : String) : Option (String × String) := Text.splitFirst? ':' name

/-- The declarations in force, each a qualifier and a namespace, the nearest first. The default
namespace has the empty qualifier. -/
abbrev Scope := List (String × String)

namespace Scope

/-- What is declared around a document: the namespace of `xml`. -/
def outermost : Scope := [("xml", "http://www.w3.org/XML/1998/namespace")]

/-- The namespace that a qualifier is bound to, by its nearest declaration. -/
def find? : Scope → String → Option String
  | [], _ => none
  | (q, ns) :: outer, qualifier =>
    if q = qualifier then (if ns = "" then none else some ns) else find? outer qualifier

/-- The qualifier that the attribute of a name declares, the empty one for the default namespace. -/
def declared? (name : String) : Option String :=
  if name = "xmlns" then some ""
  else (Text.afterMarker? "xmlns:".toList name.toList).map String.ofList

/-- The scope inside an element: its own declarations are nearer than those around it, a later one
nearer than an earlier one. -/
def enter (outer : Scope) (attributes : List (String × String)) : Scope :=
  attributes.foldl (fun scope (name, value) =>
    match declared? name with
    | some qualifier => (qualifier, value) :: scope
    | none => scope) outer

end Scope

end SoapClient.Xml
