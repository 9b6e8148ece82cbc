import SoapClient.CommandLine.Level

/-!
Reading a whole command line: a description, a command and what belongs to it. The flag for more
messages may stand anywhere, the one for JSON anywhere behind `describe`. A fault inside a command
is reported before anything that is missing in front of it.
-/

namespace SoapClient.CommandLine

/-- Any word at all. -/
def anyWord : String → Except ValueError Unit := fun _ => .ok ()

/-- A word that can be read as a value. -/
def readable (read : String → Except ValueError α) : String → Except ValueError Unit := fun text =>
  (read text).map fun _ => ()

/-- A command without commands inside it. -/
def leaf (positional : Option (String → Except ValueError Unit)) (flags : List String) : Grammar :=
  ⟨[], positional, [], flags, false⟩

/-- The grammar of `call`. -/
def callGrammar : Grammar :=
  { leaf (some (readable readOperation)) ["verbose"] with
    options := [("args", readable readArguments), ("endpoint", anyWord),
      ("timeout", readable readDuration)] }

/-- The grammar of `list`. -/
def listGrammar : Grammar :=
  ⟨[("services", []), ("operations", [])], none, [], ["verbose"], false⟩

/-- The grammar of `describe`. -/
def describeGrammar : Grammar :=
  ⟨[("service", []), ("operation", []), ("type", [])], none, [], ["verbose", "json"], false⟩

/-- The grammar of a command line as a whole. -/
def topGrammar : Grammar :=
  { commands := [("call", []), ("list", ["services", "operations", "help"]),
      ("describe", ["service", "operation", "type", "help"])]
    positional := some anyWord
    options := []
    flags := ["verbose"]
    hasVersion := true }

/-- The words of a command without commands inside it. -/
def readLeaf (g : Grammar) (words : List String) : Except Failure Progress :=
  (g.read .start words).map (·.1)

/-- The words of a command up to the name of the one inside it, which has to be there. -/
def readBranch (g : Grammar) (words : List String) :
    Except Failure (Progress × String × List String) := do
  let (p, inner) ← g.read .start words
  match inner with
  | some (name, rest) => .ok (p, name, rest)
  | none => .error .usage

/-- The positional word, which has to be there. -/
def positionalWord (p : Progress) : Except Failure String :=
  match p.value? .positional with
  | some word => .ok word
  | none => .error .usage

/-- A command and the flags that were set along with it. -/
structure Parsed where
  command : Command
  flags : List String

/-- The value of an option that may be left out. -/
def optionValue (read : String → Except ValueError α) (p : Progress) (name : String) :
    Except Failure (Option α) :=
  match p.value? (.option name) with
  | some word => ((read word).mapError .value).map some
  | none => .ok none

/-- A call. -/
def parseCall (words : List String) : Except Failure Parsed := do
  let p ← readLeaf callGrammar words
  let (service, operation) ← (readOperation (← positionalWord p)).mapError .value
  let arguments ← optionValue readArguments p "args"
  let timeout ← optionValue readDuration p "timeout"
  let command := .call service operation (arguments.getD []) (p.value? (.option "endpoint")) timeout
  .ok ⟨command, p.flags⟩

/-- A listing. -/
def parseList (words : List String) : Except Failure Parsed := do
  let (outer, name, rest) ← readBranch listGrammar words
  if name = "services" then
    let p ← readLeaf (leaf none ["verbose"]) rest
    .ok ⟨.listServices, outer.flags ++ p.flags⟩
  else
    let p ← readLeaf (leaf (some anyWord) ["verbose"]) rest
    .ok ⟨.listOperations (← positionalWord p), outer.flags ++ p.flags⟩

/-- A look at one thing. -/
def parseDescribe (words : List String) : Except Failure Parsed := do
  let (outer, name, rest) ← readBranch describeGrammar words
  let positional := if name = "operation" then readable readOperation else anyWord
  let p ← readLeaf (leaf (some positional) ["verbose", "json"]) rest
  let word ← positionalWord p
  let flags := outer.flags ++ p.flags
  let asJson := flags.contains "json"
  if name = "service" then .ok ⟨.describeService asJson word, flags⟩
  else if name = "operation" then
    let (service, operation) ← (readOperation word).mapError .value
    .ok ⟨.describeOperation asJson service operation, flags⟩
  else .ok ⟨.describeType asJson word, flags⟩

/-- A command with a name. -/
def parseCommand (name : String) (words : List String) : Except Failure Parsed :=
  if name = "call" then parseCall words
  else if name = "list" then parseList words
  else parseDescribe words

/-- Reads a command line, without the name of the program. -/
def parse (words : List String) : Except Failure Arguments := do
  let (outer, name, rest) ← readBranch topGrammar words
  let parsed ← parseCommand name rest
  let description ← positionalWord outer
  .ok ⟨description, (outer.flags ++ parsed.flags).contains "verbose", parsed.command⟩

end SoapClient.CommandLine
