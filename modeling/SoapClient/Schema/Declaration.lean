import SoapClient.DescriptionError

/-!
Declarations of a schema: what it says about types and elements, before any reference in it is
followed. What is of no account to a model, such as annotations or elements of other namespaces,
has no place here.
-/

namespace SoapClient.Schema

open Xml (QName)

/-- The namespace of schemas, which is also that of the built-in types. -/
def namespaceName : String := "http://www.w3.org/2001/XMLSchema"

/-- The namespace of the built-in types in encoded messages. -/
def encodingNamespace : String := "http://schemas.xmlsoap.org/soap/encoding/"

/-- A name that an attribute refers to. Whether it is bound matters only once it is followed. -/
inductive Reference where
  | to (name : QName)
  | unbound (text : String)
  deriving DecidableEq

/-- The name that is referred to. -/
def Reference.follow : Reference → Except DescriptionError QName
  | .to name => .ok name
  | .unbound text => .error (.unboundReference text)

/-- The name of a reference that may be absent. -/
def Reference.followOption : Option Reference → Except DescriptionError (Option QName)
  | some r => r.follow.map some
  | none => .ok none

/-- The name of a reference that an element must have in an attribute. -/
def Reference.followRequired (element attributeName : String) :
    Option Reference → Except DescriptionError QName
  | some r => r.follow
  | none => .error (.missingAttribute element attributeName)

/-- An attribute that an element must have. -/
def required (element attributeName : String) : Option String → Except DescriptionError String
  | some value => .ok value
  | none => .error (.missingAttribute element attributeName)

/-- A simple type. -/
inductive SimpleDecl where
  /-- A list or a union, which travels as text. -/
  | text
  /-- A restriction of a named type, or of one declared in place. -/
  | restriction (base : Option Reference) (inner : Option SimpleDecl)

/-- How often a particle or a group of particles may occur. -/
structure Occurrence where
  isOptional : Bool
  isRepeated : Bool
  deriving DecidableEq

mutual

/-- A structured type: the base of its simple content, where it has such, and its content model. -/
inductive ComplexDecl where
  | mk (simpleContent : Option (Option Reference)) (content : List Content)

/-- A part of a content model. -/
inductive Content where
  /-- Particles in a row, or in any order. -/
  | group (occurs : Occurrence) (items : List Content)
  /-- One of several particles. -/
  | choice (occurs : Occurrence) (items : List Content)
  /-- Complex content: the derivations in it, each with its base and what it adds. -/
  | derived (derivations : List (Option Reference × List Content))
  /-- A global element that is referred to. -/
  | elementRef (occurs : Occurrence) (target : Reference)
  /-- An element declared in place. -/
  | element (occurs : Occurrence) (name : Option String) (type : ElementType)

/-- The type of an element. -/
inductive ElementType where
  | named (type : Reference)
  /-- A structured type declared in place; the path of the declaration tells it from all others. -/
  | complex (path : List Nat) (decl : ComplexDecl)
  | simple (decl : SimpleDecl)
  /-- The element can hold anything. -/
  | any

end

/-- The base of simple content, where the type has such. -/
def ComplexDecl.simpleContent : ComplexDecl → Option (Option Reference)
  | .mk simpleContent _ => simpleContent

/-- The content model. -/
def ComplexDecl.content : ComplexDecl → List Content
  | .mk _ content => content

/-- The first base of the first complex content of a content model, `none` without complex
content. -/
def derivedBase? : List Content → Option (Option Reference)
  | [] => none
  | .derived derivations :: _ => some (derivations.findSome? (·.1))
  | _ :: rest => derivedBase? rest

/-- The base that a structured type is derived from: that of its complex content, and without
such that of its simple content. -/
def ComplexDecl.base? (d : ComplexDecl) : Option Reference :=
  ((derivedBase? d.content).orElse fun _ => d.simpleContent).join

/-- A declaration at the top of a schema. Names and locations are as their attributes have them. -/
inductive TopLevel where
  /-- A reference to another schema. -/
  | imported (location : Option String)
  /-- Declarations taken over from another document; `keyword` says how. -/
  | included (keyword : String) (location : Option String)
  | element (name : Option String) (type : ElementType)
  | complexType (name : Option String) (decl : ComplexDecl)
  | simpleType (name : Option String) (decl : SimpleDecl)

/-- A schema. -/
structure SchemaDecl where
  targetNamespace : Option String
  /-- Elements declared in place are in the target namespace too. -/
  isQualified : Bool
  declarations : List TopLevel

end SoapClient.Schema
