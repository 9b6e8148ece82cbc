import SoapClient.Model.Basic

/-!
Looking up services, operations and types by their exact names. The names in the model of a
description are distinct: its services have different names, and so have the operations of each
service and the types. A look-up then finds the only one with the name, in whatever order it looks.
-/

namespace SoapClient

/-- Why a look-up fails. -/
inductive LookupError where
  | serviceNotFound (service : String)
  | operationNotFound (service operation : String)
  deriving DecidableEq

/-- The failure as shown to a reader. -/
def LookupError.message : LookupError → String
  | .serviceNotFound service => "Service '" ++ service ++ "' not found"
  | .operationNotFound service operation =>
    "Operation '" ++ operation ++ "' not found in service '" ++ service ++ "'"

/-- What a caller of an operation has to know. -/
structure Signature where
  parameters : List Parameter
  returnType : TypeRef
  deriving DecidableEq

namespace ServiceModel

/-- The names of the services, in the order of the document. -/
def listServices (m : ServiceModel) : List String := m.services.map (·.name)

/-- The service with a name, which is the only one in the model of a description. -/
def lookupService (m : ServiceModel) (name : String) : Except LookupError Service :=
  match m.services.find? (·.name = name) with
  | some s => .ok s
  | none => .error (.serviceNotFound name)

/-- The names of the operations of a service, in the order of declaration. -/
def listOperations (m : ServiceModel) (service : String) : Except LookupError (List String) :=
  (m.lookupService service).map fun s => s.operations.map (·.name)

/-- The operation with a name, the only one of its service in the model of a description. -/
def lookupOperation (m : ServiceModel) (service operation : String) :
    Except LookupError Operation := do
  let s ← m.lookupService service
  match s.operations.find? (·.name = operation) with
  | some op => .ok op
  | none => .error (.operationNotFound service operation)

/-- The parameters and the result of an operation. -/
def describeOperation (m : ServiceModel) (service operation : String) :
    Except LookupError Signature :=
  (m.lookupOperation service operation).map fun op => ⟨op.parameters, op.returnType⟩

/-- The structured type with a name, which is the only one in the model of a description. -/
def complexType? (m : ServiceModel) (name : String) : Option ComplexType :=
  m.types.find? (·.name = name)

end ServiceModel

end SoapClient
