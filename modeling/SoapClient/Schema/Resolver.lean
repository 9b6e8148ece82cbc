import SoapClient.Schema.Resolution

/-!
Resolving the types of a description. What a declaration says in place is followed by recursion on
the declaration; only a name leads out of it. Resolving a name is therefore defined from a given
way to resolve the names met on the way, and the recursion over names is bounded by the number of
declarations.
-/

namespace SoapClient.Schema

open Xml (QName)

/-- A name that has to be resolved to a type. -/
inductive Target where
  | type (name : QName)
  | element (name : QName)
  deriving DecidableEq

/-- How the names that are met are resolved. -/
abbrev Follow := Target → Resolve TypeRef

/-- Lifts a result that does not depend on what has been resolved. -/
def lift (result : Except DescriptionError α) : Resolve α := fun s => result.map (·, s)

/-- How many simple types may be derived from one another. -/
def maxSimpleDepth : Nat := 32

/-- The kind of a built-in type. -/
def builtin (name : QName) : TypeRef := .primitive (.ofBuiltin name.localName)

/-- The type of a simple type that at most `depth` others are derived from. Without a restriction
it is a text. -/
def resolveSimple (c : Components) (follow : Follow) :
    (depth : Nat) → SimpleDecl → Resolve TypeRef
  | 0, _ => throw .deepSimpleType
  | _ + 1, .text => pure (.primitive .string)
  | depth + 1, .restriction (some base) _ => do
    let name ← lift base.follow
    if name.namespaceName = some namespaceName then pure (builtin name)
    else
      match Table.find? name c.simpleTypes with
      | some decl => resolveSimple c follow depth decl
      | none => follow (.type name)
  | depth + 1, .restriction none (some inner) => resolveSimple c follow depth inner
  | _ + 1, .restriction none none => pure (.primitive .string)

/-- Follows the bases of a structured type, and fails where one comes again. -/
def checkDerivation (c : Components) (start : QName) :
    (fuel : Nat) → (seen : List QName) → QName → Except DescriptionError Unit
  | 0, _, _ => .error .unfinished
  | fuel + 1, seen, name =>
    match Table.find? name c.complexTypes with
    | none => .ok ()
    | some decl => do
      let base ← Reference.followOption decl.base?
      if name ∈ seen then .error (.cyclicDerivation start)
      else
        match base with
        | some next => checkDerivation c start fuel (name :: seen) next
        | none => .ok ()

/-- The fields of a type of the model. -/
def fieldsOf (name : String) : Resolve (List Parameter) := fun s =>
  match s.fields? name with
  | some fields => .ok (fields, s)
  | none => .error (.unregistered name)

/-- The fields that are inherited from a base. Only a structured type has such. -/
def inheritedFields (c : Components) (follow : Follow) (base : QName) :
    Resolve (List Parameter) := do
  lift (checkDerivation c base (c.complexTypes.length + 1) [] base)
  let type ← follow (.type base)
  match type with
  | .complex name => fieldsOf name
  | _ => pure []

/-- The inherited fields of a derivation that may lack a base. -/
def baseFields (c : Components) (follow : Follow) (base : Option Reference) :
    Resolve (List Parameter) := do
  match ← lift (Reference.followOption base) with
  | some name => inheritedFields c follow name
  | none => pure []

/-- What a key stands for, where that is resolved. -/
def known? (key : TypeKey) : Resolve (Option TypeRef) := fun s =>
  .ok (Table.find? key s.resolved, s)

/-- Notes what a key stands for. -/
def note (key : TypeKey) (type : TypeRef) : Resolve Unit :=
  modify fun s => { s with resolved := (key, type) :: s.resolved }

/-- A field of a particle. -/
def fieldOf (occurs : Occurrence) (isForced : Bool) (name : String) (type : TypeRef) : Parameter :=
  ⟨name, if occurs.isRepeated then .array type else type, occurs.isOptional || isForced⟩

/-- The type of simple content. Without a base it is a text. -/
def simpleContentType (follow : Follow) (base : Option Reference) : Resolve TypeRef := do
  match ← lift (Reference.followOption base) with
  | some name => follow (.type name)
  | none => pure (.primitive .string)

mutual

/-- Resolves a structured type that is entered under a key and a model name. One with simple
content stands for the type of that; another one becomes a type of the model. -/
def resolveComplex (c : Components) (follow : Follow) (key : TypeKey) (modelName : String) :
    ComplexDecl → Resolve TypeRef
  | .mk (some base) _ => do
    let type ← simpleContentType follow base
    note key type
    pure type
  | .mk none content => do
    modify (·.enter key modelName)
    let fields ← collectContents c follow false content
    modify (·.leave modelName fields)
    pure (.complex modelName)

/-- The fields of the parts of a content model, in order. -/
def collectContents (c : Components) (follow : Follow) (isForced : Bool) :
    List Content → Resolve (List Parameter)
  | [] => pure []
  | part :: rest => do
    let fields ← collectContent c follow isForced part
    let others ← collectContents c follow isForced rest
    pure (fields ++ others)

/-- The fields of a part of a content model. Where `isForced` holds they are all optional. -/
def collectContent (c : Components) (follow : Follow) (isForced : Bool) :
    Content → Resolve (List Parameter)
  | .group occurs items => collectContents c follow (isForced || occurs.isOptional) items
  | .choice _ items => collectContents c follow true items
  | .derived derivations => collectDerivations c follow isForced derivations
  | .elementRef occurs target => do
    let name ← lift target.follow
    let type ← follow (.element name)
    pure [fieldOf occurs isForced name.localName type]
  | .element occurs name type => do
    let name ← lift (required "element" "name" name)
    let type ← resolveElementType c follow name type
    pure [fieldOf occurs isForced name type]

/-- The fields of derivations: for each the inherited ones, and then those it adds. -/
def collectDerivations (c : Components) (follow : Follow) (isForced : Bool) :
    List (Option Reference × List Content) → Resolve (List Parameter)
  | [] => pure []
  | (base, content) :: rest => do
    let inherited ← baseFields c follow base
    let added ← collectContents c follow isForced content
    let others ← collectDerivations c follow isForced rest
    pure (inherited ++ added ++ others)

/-- The type of an element with a name. A structured type declared in it is resolved once. -/
def resolveElementType (c : Components) (follow : Follow) (name : String) :
    ElementType → Resolve TypeRef
  | .named type => do
    let type ← lift type.follow
    follow (.type type)
  | .complex path decl => do
    match ← known? (.inPlace path) with
    | some type => pure type
    | none => do
      let s ← get
      resolveComplex c follow (.inPlace path) (s.anonymousName c.localTypeNames name) decl
  | .simple decl => resolveSimple c follow (maxSimpleDepth + 1) decl
  | .any => pure (.primitive .anyType)

end

/-- Resolves a named type that is declared in a schema. -/
def resolveDeclared (c : Components) (follow : Follow) (name : QName) : Resolve TypeRef :=
  match Table.find? name c.complexTypes with
  | some decl => resolveComplex c follow (.named name) name.localName decl
  | none =>
    match Table.find? name c.simpleTypes with
    | some decl => resolveSimple c follow (maxSimpleDepth + 1) decl
    | none => throw (.undefinedType name)

/-- Resolves a name, given how the names met on the way are resolved. A type that is met again
while it is being resolved is derived from itself. -/
def resolveTarget (c : Components) (follow : Follow) : Target → Resolve TypeRef
  | .type name => do
    if name.namespaceName = some namespaceName ∨ name.namespaceName = some encodingNamespace then
      pure (builtin name)
    else
      match ← known? (.named name) with
      | some type => pure type
      | none => do
        let s ← get
        if name ∈ s.inProgress then throw (.cyclicDerivation name)
        set { s with inProgress := name :: s.inProgress }
        let type ← resolveDeclared c follow name
        modify fun s => { s with inProgress := s.inProgress.erase name }
        pure type
  | .element name =>
    match Table.find? name c.elements with
    | some decl => resolveElementType c follow name.localName decl.type
    | none => throw (.undefinedElement name)

/-- Resolves a name by way of at most `fuel` names one after the other. -/
def resolveWithin (c : Components) : (fuel : Nat) → Follow
  | 0, _ => throw .unfinished
  | fuel + 1, target => resolveTarget c (resolveWithin c fuel) target

/-- More names than these cannot lie on the way from one to another. -/
def Components.wayLength (c : Components) : Nat :=
  2 * (c.complexTypes.length + c.simpleTypes.length + c.elements.length) + 2

/-- Resolves a name. -/
def resolve (c : Components) (target : Target) : Resolve TypeRef :=
  resolveWithin c c.wayLength target

/-- Resolves all structured types at the top of the schemas, in the order of their names. Two of
them may not share a local name, which is what they are called in the model. -/
def resolveAll (c : Components) : Resolve Unit := do
  match firstRepeated? [] c.localTypeNames with
  | some name => throw (.ambiguousType name)
  | none => c.typeNames.forM fun name => do
    let _ ← resolve c (.type name)

end SoapClient.Schema
