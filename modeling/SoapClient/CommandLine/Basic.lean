import SoapClient.Json.Basic

/-!
What a command line asks for.
-/

namespace SoapClient.CommandLine

/-- A length of time. -/
structure Duration where
  seconds : Nat
  nanoseconds : Nat
  nanoseconds_lt : nanoseconds < 1000000000
  deriving DecidableEq

/-- What is to be done with a description. -/
inductive Command where
  | call (service operation : String) (arguments : List Json) (endpoint : Option String)
      (timeout : Option Duration)
  | listServices
  | listOperations (service : String)
  | describeService (asJson : Bool) (service : String)
  | describeOperation (asJson : Bool) (service operation : String)
  | describeType (asJson : Bool) (name : String)

/-- A command line: the description to work on, and what is to be done with it. -/
structure Arguments where
  description : String
  isVerbose : Bool
  command : Command

/-- Why the value of an argument is refused. -/
inductive ValueError where
  | operationFormat (text : String)
  | emptyName
  | notArray
  | notJson
  | notSeconds (text : String)
  | negativeTime
  | endlessTime
  deriving DecidableEq

/-- The refusal as shown to a reader. -/
def ValueError.message : ValueError → String
  | .operationFormat text =>
    "Invalid operation format: '" ++ text ++ "'. Expected 'Service/Operation'"
  | .emptyName => "Service and Operation names cannot be empty"
  | .notArray => "Arguments must be a JSON array, e.g. '[2, 3]'"
  | .notJson => "Invalid JSON"
  | .notSeconds text => "Invalid timeout: '" ++ text ++ "'. Expected a number of seconds"
  | .negativeTime =>
    "Invalid timeout: cannot convert float seconds to Duration: value is negative"
  | .endlessTime =>
    "Invalid timeout: cannot convert float seconds to Duration: value is either too big or NaN"

/-- Why a command line is not carried out. -/
inductive Failure where
  /-- Help is asked for. -/
  | help
  /-- The version is asked for. -/
  | version
  /-- An argument is unknown, repeated, missing or too much. -/
  | usage
  | value (cause : ValueError)
  deriving DecidableEq

end SoapClient.CommandLine
