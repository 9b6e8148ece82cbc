import SoapClient.Schema.Declaration
import SoapClient.Table

/-!
The components of all schemas of a description, under their qualified names. Where a name is
declared twice, the last declaration counts.
-/

namespace SoapClient.Schema

open Xml (QName)

/-- A global element and whether the elements declared inside it are in its namespace. -/
structure ElementDecl where
  type : ElementType
  isQualified : Bool

/-- What the schemas declare. The tables keep the order in which the names first came. -/
structure Components where
  elements : List (QName × ElementDecl)
  complexTypes : List (QName × ComplexDecl)
  simpleTypes : List (QName × SimpleDecl)

namespace Components

/-- Nothing is declared. -/
def empty : Components := ⟨[], [], []⟩

/-- Adds a declaration of a schema. What stands in another document is refused. -/
def add (schema : SchemaDecl) (c : Components) : TopLevel → Except DescriptionError Components
  | .imported none => .ok c
  | .imported (some location) => .error (.externalSchema "import" location)
  | .included keyword location => .error (.externalSchema keyword (location.getD ""))
  | .element name type => do
    let name ← required "element" "name" name
    let key : QName := ⟨schema.targetNamespace, name⟩
    .ok { c with elements := Table.set key ⟨type, schema.isQualified⟩ c.elements }
  | .complexType name decl => do
    let name ← required "complexType" "name" name
    let key : QName := ⟨schema.targetNamespace, name⟩
    .ok { c with complexTypes := Table.set key decl c.complexTypes }
  | .simpleType name decl => do
    let name ← required "simpleType" "name" name
    let key : QName := ⟨schema.targetNamespace, name⟩
    .ok { c with simpleTypes := Table.set key decl c.simpleTypes }

/-- Adds a whole schema. -/
def addSchema (c : Components) (schema : SchemaDecl) : Except DescriptionError Components :=
  schema.declarations.foldlM (add schema) c

/-- The components of some schemas, in the order of the document. -/
def ofSchemas (schemas : List SchemaDecl) : Except DescriptionError Components :=
  schemas.foldlM addSchema empty

/-- The names of the structured types, in the order in which they first came. -/
def typeNames (c : Components) : List QName := Table.keys c.complexTypes

/-- The local names of the structured types. -/
def localTypeNames (c : Components) : List String := c.typeNames.map (·.localName)

end Components

/-- The first name of a list that stands in it already. -/
def firstRepeated? : (earlier : List String) → List String → Option String
  | _, [] => none
  | earlier, name :: rest =>
    if name ∈ earlier then some name else firstRepeated? (name :: earlier) rest

/-- Names without a repeated one are pairwise distinct, and differ from the earlier ones. -/
theorem firstRepeated?_eq_none_iff {earlier names : List String} :
    firstRepeated? earlier names = none ↔ names.Nodup ∧ ∀ name ∈ names, name ∉ earlier := by
  induction names generalizing earlier with
  | nil => simp [firstRepeated?]
  | cons name rest ih =>
    by_cases h : name ∈ earlier
    · simp [firstRepeated?, h]
    · simp only [firstRepeated?, h, ↓reduceIte, ih, List.nodup_cons, List.mem_cons, not_or,
        forall_eq_or_imp, not_false_eq_true, true_and]
      constructor
      · rintro ⟨hnd, hne⟩
        exact ⟨⟨fun hm => (hne name hm).1 rfl, hnd⟩, fun n hn => (hne n hn).2⟩
      · rintro ⟨⟨hnm, hnd⟩, hne⟩
        exact ⟨hnd, fun n hn => ⟨fun he => hnm (he ▸ hn), hne n hn⟩⟩

end SoapClient.Schema
