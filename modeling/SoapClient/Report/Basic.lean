import SoapClient.Report.Palette
import SoapClient.Model.Json
import SoapClient.Json.Writer
import SoapClient.Invocation
import SoapClient.Wsdl.Model

/-!
What is shown to a user: lists, signatures, values and failures.
-/

namespace SoapClient.Report

/-- A report as it is printed, set off by empty lines. -/
def shown (report : String) : String := "\n" ++ report ++ "\n"

/-- Lines of a list under a heading. -/
def listing (colored : Palette) (heading : String) (names : List String) : String :=
  Text.trimEnd (heading ++ "\n" ++
    String.join (names.map fun name => "  - " ++ colored.paint .green name ++ "\n"))

/-- The services of a description. -/
def ofServices (colored : Palette) (names : List String) : String :=
  if names.isEmpty then colored.paint .yellow "No services found."
  else listing colored "Available Services:" names

/-- The operations of a service. -/
def ofOperations (colored : Palette) (service : String) (names : List String) : String :=
  if names.isEmpty then colored.paint .yellow ("No operations found in '" ++ service ++ "'.")
  else listing colored ("Operations of " ++ colored.paint .green service ++ ":") names

/-- A type. -/
def ofTypeRef (colored : Palette) (t : TypeRef) : String := colored.paint .yellow t.text

/-- A slot with its type; a question mark says that it is optional. -/
def ofParameter (colored : Palette) (p : Parameter) : String :=
  p.name ++ (if p.isOptional then "?" else "") ++ ": " ++ ofTypeRef colored p.type

/-- The signature of an operation. -/
def ofOperation (colored : Palette) (op : Operation) : String :=
  colored.paint .cyan "operation" ++ " " ++ colored.paint .green op.name ++ "(" ++
    ", ".intercalate (op.parameters.map (ofParameter colored)) ++ ") " ++
    colored.paint .cyan "returns" ++ " " ++ ofTypeRef colored op.returnType ++ ";"

/-- A service with its address and the signatures of its operations. -/
def ofService (colored : Palette) (s : Service) : String :=
  let address :=
    match s.endpoint with
    | some endpoint => "  // " ++ endpoint ++ "\n"
    | none => ""
  colored.paint .cyan "service" ++ " " ++ colored.paint .green s.name ++ " \x7b\n" ++ address ++
    String.join (s.operations.map fun op => "  " ++ ofOperation colored op ++ "\n\n") ++ "\x7d"

/-- A structured type with its fields. -/
def ofComplexType (colored : Palette) (t : ComplexType) : String :=
  colored.paint .cyan "type" ++ " " ++ colored.paint .green t.name ++ " \x7b\n" ++
    String.join (t.fields.map fun field => "  " ++ ofParameter colored field ++ ";\n") ++ "\x7d"

/-- A value. -/
def ofValue (v : Json) : String := v.pretty

/-- A failure under a title. -/
def failure (title text : String) : String := title ++ "\n\n'" ++ text ++ "'"

/-- A description that cannot be loaded. The causes lead from what was tried to the reason. -/
def ofLoadFailure (colored : Palette) (causes : List String) : String :=
  failure (colored.paint .boldRed "Failed to load description:") (": ".intercalate causes)

/-- What keeps a description from being interpreted. -/
def ofParseFailure (colored : Palette) (message : String) : String :=
  failure (colored.paint .boldRed "Failed to parse description:") message

/-- A description that cannot be interpreted. -/
def ofParseError (colored : Palette) (e : ParseError) : String := ofParseFailure colored e.message

/-- A failed look-up. -/
def ofLookupError (colored : Palette) (e : LookupError) : String :=
  failure (colored.paint .boldRed "Lookup Failed:") e.message

/-- Whether a call failed on its way. -/
def invokeTitle : InvokeError → String
  | .transport _ => "Remote Call Failed:"
  | _ => "Call Failed:"

/-- A failed call. -/
def ofInvokeError (colored : Palette) (e : InvokeError) : String :=
  failure (colored.paint .boldRed (invokeTitle e)) e.message

/-- A type that the description does not have. -/
def ofMissingType (colored : Palette) (name : String) : String :=
  failure (colored.paint .boldRed "Type not found" ++ ":") name

end SoapClient.Report
