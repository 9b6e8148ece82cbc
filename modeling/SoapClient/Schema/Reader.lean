import SoapClient.Schema.Declaration
import SoapClient.Xml.Element
import SoapClient.Decimal.Digits

/-!
Reading the declarations of a schema from its elements. Reading never fails: what is wrong with a
declaration shows only when it is used.
-/

namespace SoapClient.Schema

open Xml (Element)

/-- What an attribute refers to. -/
def reference? (e : Element) (attributeName : String) : Option Reference :=
  (e.attribute? attributeName).map fun text =>
    match e.resolve? text with
    | some name => .to name
    | none => .unbound text

/-- How often a particle or a group may occur. Without a readable bound above one it occurs once. -/
def occurrenceOf (e : Element) : Occurrence where
  isOptional := e.attribute? "minOccurs" = some "0" || e.attribute? "nillable" = some "true"
  isRepeated :=
    match e.attribute? "maxOccurs" with
    | some max =>
      max = "unbounded" || (Decimal.Range.nat64.read? max.toList).any fun n => decide (1 < n)
    | none => false

mutual

/-- A simple type, by its first restriction. -/
def readSimple : Element → SimpleDecl
  | ⟨_, _, _, _, children, _⟩ => readRestriction children

/-- The first restriction among the children of a simple type. -/
def readRestriction : List Element → SimpleDecl
  | [] => .text
  | e :: rest =>
    if e.is namespaceName "restriction" then .restriction (reference? e "base") (readInner e)
    else readRestriction rest

/-- The simple type declared inside a restriction. -/
def readInner : Element → Option SimpleDecl
  | ⟨_, _, _, _, children, _⟩ => readFirstSimple children

/-- The first simple type among some elements. -/
def readFirstSimple : List Element → Option SimpleDecl
  | [] => none
  | e :: rest =>
    if e.is namespaceName "simpleType" then some (readSimple e) else readFirstSimple rest

end

/-- The base of the first simple content among the children of a structured type. -/
def readSimpleContent (e : Element) : Option (Option Reference) :=
  (e.child? namespaceName "simpleContent").map fun content =>
    content.children.findSome? (reference? · "base")

/-- The type of the element at a path: the one it names, else the structured one declared in it,
else a simple one declared in it. -/
def elementTypeOf (path : List Nat) (e : Element) (inPlace : Option ComplexDecl) : ElementType :=
  match reference? e "type", inPlace, readFirstSimple e.children with
  | some type, _, _ => .named type
  | none, some decl, _ => .complex path decl
  | none, none, some decl => .simple decl
  | none, none, none => .any

mutual

/-- A structured type at a path. -/
def readComplex (path : List Nat) : Element → ComplexDecl
  | e@⟨_, _, _, _, children, _⟩ => .mk (readSimpleContent e) (readContents path 0 children)

/-- The parts of a content model, numbered on from `i`. -/
def readContents (path : List Nat) (i : Nat) : List Element → List Content
  | [] => []
  | e :: rest =>
    match readContent (i :: path) e with
    | some c => c :: readContents path (i + 1) rest
    | none => readContents path i rest

/-- A part of a content model. -/
def readContent (path : List Nat) : Element → Option Content
  | e@⟨ns, localName, _, _, children, _⟩ =>
    if ns ≠ some namespaceName then none
    else if localName = "sequence" ∨ localName = "all" then
      some (.group (occurrenceOf e) (readContents path 0 children))
    else if localName = "choice" then
      some (.choice (occurrenceOf e) (readContents path 0 children))
    else if localName = "complexContent" then some (.derived (readDerivations path 0 children))
    else if localName = "element" then
      match reference? e "ref" with
      | some target => some (.elementRef (occurrenceOf e) target)
      | none =>
        some (.element (occurrenceOf e) (e.attribute? "name")
          (elementTypeOf path e (readFirstComplex path children)))
    else none

/-- The derivations in complex content, numbered on from `i`. Every child counts as one. -/
def readDerivations (path : List Nat) (i : Nat) :
    List Element → List (Option Reference × List Content)
  | [] => []
  | e :: rest =>
    (reference? e "base", readDerivation (i :: path) e) :: readDerivations path (i + 1) rest

/-- What a derivation adds. -/
def readDerivation (path : List Nat) : Element → List Content
  | ⟨_, _, _, _, children, _⟩ => readContents path 0 children

/-- The first structured type among some elements. -/
def readFirstComplex (path : List Nat) : List Element → Option ComplexDecl
  | [] => none
  | e :: rest =>
    if e.is namespaceName "complexType" then some (readComplex path e)
    else readFirstComplex path rest

end

/-- The type of the element at a path. -/
def readElementType (path : List Nat) (e : Element) : ElementType :=
  elementTypeOf path e (readFirstComplex path e.children)

/-- A declaration at the top of a schema, at a path. -/
def readTopLevel (path : List Nat) (e : Element) : Option TopLevel :=
  if e.namespaceName ≠ some namespaceName then none
  else
    match e.localName with
    | "import" => some (.imported (e.attribute? "schemaLocation"))
    | "include" | "redefine" => some (.included e.localName (e.attribute? "schemaLocation"))
    | "element" => some (.element (e.attribute? "name") (readElementType path e))
    | "complexType" => some (.complexType (e.attribute? "name") (readComplex path e))
    | "simpleType" => some (.simpleType (e.attribute? "name") (readSimple e))
    | _ => none

/-- The declarations at the top of a schema, numbered on from `i`. -/
def readTopLevels (path : List Nat) (i : Nat) : List Element → List TopLevel
  | [] => []
  | e :: rest =>
    match readTopLevel (i :: path) e with
    | some d => d :: readTopLevels path (i + 1) rest
    | none => readTopLevels path i rest

/-- The schema at a path. -/
def readSchema (path : List Nat) (e : Element) : SchemaDecl where
  targetNamespace := e.attribute? "targetNamespace"
  isQualified := e.attribute? "elementFormDefault" = some "qualified"
  declarations := readTopLevels path 0 e.children

end SoapClient.Schema
