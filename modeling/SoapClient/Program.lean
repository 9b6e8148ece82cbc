import SoapClient.CommandLine.Parse
import SoapClient.Report.Basic
import SoapClient.Transport.Http

/-!
The program: it reads a command line, loads the description, carries the command out and reports.
Files and the network are given to it as functions.
-/

namespace SoapClient

/-- What a run of the program leaves behind. -/
structure Outcome where
  exitCode : Nat
  stdout : String
  stderr : String
  deriving DecidableEq

namespace Program

/-- A report of success. A line break follows it. -/
def succeed (report : String) : Outcome := ⟨0, Report.shown report ++ "\n", ""⟩

/-- A report of failure. A line break follows it. -/
def fail (report : String) : Outcome := ⟨1, "", Report.shown report ++ "\n"⟩

/-- What is outside of the program. -/
structure World where
  /-- Reports are coloured. -/
  colored : Report.Palette
  /-- The content of a file, or why it cannot be read. -/
  file : String → Except String (List UInt8)
  network : Http.Network

/-- Whether a description is fetched from an address. -/
def isUrl (source : String) : Bool :=
  source.startsWith "http://" || source.startsWith "https://"

/-- Why an answer with a status does not hold a description. -/
def statusFailure (status : Nat) (url : String) : String :=
  let side := if status < 500 then "client" else "server"
  "HTTP status " ++ side ++ " error (" ++ Decimal.natText status ++ ") for url (" ++ url ++ ")"

/-- Fetches a description. -/
def fetch (w : World) (url : String) : Except (List String) (List UInt8) :=
  let failed (causes : List String) : Except (List String) (List UInt8) :=
    .error (("Failed to fetch '" ++ url ++ "'") :: causes)
  let message : Http.Message := ⟨.get, url, none, none, ""⟩
  match message.failure? with
  | some causes => failed causes
  | none =>
    match w.network message with
    | .answer status body =>
      if 400 ≤ status ∧ status < 600 then failed [statusFailure status url] else .ok body
    | .failed causes => failed causes
    | .timedOut => failed [Http.sendFailure url]

/-- Loads a description. The causes of a failure lead from what was tried to the reason. -/
def load (w : World) (source : String) : Except (List String) (List UInt8) :=
  if isUrl source then fetch w source
  else (w.file source).mapError fun cause => ["Failed to read '" ++ source ++ "'", cause]

/-- Carries out a command on a description. -/
def execute (w : World) (m : ServiceModel) : CommandLine.Command → Outcome
  | .call service operation values endpoint _ =>
    match (invoke m (Http.transport w.network endpoint) service operation values).outcome with
    | .ok v => succeed (Report.ofValue v)
    | .error e => fail (Report.ofInvokeError w.colored e)
  | .listServices => succeed (Report.ofServices w.colored m.listServices)
  | .listOperations service =>
    match m.listOperations service with
    | .ok names => succeed (Report.ofOperations w.colored service names)
    | .error e => fail (Report.ofLookupError w.colored e)
  | .describeService asJson service =>
    match m.lookupService service with
    | .ok s =>
      succeed (if asJson then Report.ofValue s.toJson else Report.ofService w.colored s)
    | .error e => fail (Report.ofLookupError w.colored e)
  | .describeOperation asJson service operation =>
    match m.lookupOperation service operation with
    | .ok op =>
      succeed (if asJson then Report.ofValue op.toJson else Report.ofOperation w.colored op)
    | .error e => fail (Report.ofLookupError w.colored e)
  | .describeType asJson name =>
    match m.complexType? name with
    | some t =>
      succeed (if asJson then Report.ofValue t.toJson else Report.ofComplexType w.colored t)
    | none => fail (Report.ofMissingType w.colored name)

/-- Carries out what a command line asks for. -/
def perform (w : World) (arguments : CommandLine.Arguments) : Outcome :=
  match load w arguments.description with
  | .error causes => fail (Report.ofLoadFailure w.colored causes)
  | .ok bytes =>
    match ServiceModel.parse bytes with
    | .error e => fail (Report.ofParseError w.colored e)
    | .ok m => execute w m arguments.command

/-- How the program is called. -/
def usage : String :=
  "Usage: soapclient <DESCRIPTION> <COMMAND>\n\nCommands:\n" ++
    "  call <SERVICE/OPERATION> [--args <JSON>] [--endpoint <URL>] [--timeout <SECONDS>]\n" ++
    "  list services\n  list operations <SERVICE>\n" ++
    "  describe [--json] service|operation|type <NAME>\n"

/-- The version of the program. -/
def version : String := "soapclient 0.1.0\n"

/-- What a command line that is not carried out leaves behind. -/
def refuse : CommandLine.Failure → Outcome
  | .help => ⟨0, usage, ""⟩
  | .version => ⟨0, version, ""⟩
  | .usage => ⟨2, "", "error: wrong arguments\n\n" ++ usage⟩
  | .value cause => ⟨2, "", "error: " ++ cause.message ++ "\n"⟩

/-- Runs the program on a command line. -/
def run (w : World) (words : List String) : Outcome :=
  match CommandLine.parse words with
  | .ok arguments => perform w arguments
  | .error failure => refuse failure

end Program

end SoapClient
