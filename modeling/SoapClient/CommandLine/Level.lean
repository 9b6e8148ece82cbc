import SoapClient.CommandLine.Value

/-!
The words of one command, up to the name of a command inside it. A word that is given to a place
is looked at only when the next argument starts, so that a fault of the command line itself can
come before the fault of a value.
-/

namespace SoapClient.CommandLine

/-- What a command takes. -/
structure Grammar where
  /-- The commands inside it, each with those inside it. -/
  commands : List (String × List String)
  /-- How the word without an option is read, where there is one. -/
  positional : Option (String → Except ValueError Unit)
  /-- The options with a value, and how that is read. -/
  options : List (String × (String → Except ValueError Unit))
  /-- The long names of the flags. -/
  flags : List String
  /-- The version can be asked for. -/
  hasVersion : Bool

/-- What a word is given to. -/
inductive Slot where
  | positional
  | option (name : String)
  deriving DecidableEq

/-- How far the words of a command are read. -/
structure Progress where
  /-- What has been given so far. -/
  values : List (Slot × String)
  /-- The flags so far. -/
  flags : List String
  /-- The place that is open, and the word that was given to it. -/
  waiting : Option (Slot × Option String)
  /-- Every further word is a positional one. -/
  isTrailing : Bool

namespace Progress

/-- No word has been read. -/
def start : Progress := ⟨[], [], none, false⟩

/-- The word that was given to a place. -/
def value? (p : Progress) (slot : Slot) : Option String := p.values.lookup slot

/-- Whether the positional word has come, even if it has not been looked at. -/
def hasPositional (p : Progress) : Bool :=
  (p.value? .positional).isSome || p.waiting.any fun (slot, _) => slot = .positional

end Progress

namespace Grammar

/-- How the word of a place is read. -/
def reader? (g : Grammar) : Slot → Option (String → Except ValueError Unit)
  | .positional => g.positional
  | .option name => g.options.lookup name

/-- Gives a word to a place, which may happen once. -/
def give (g : Grammar) (p : Progress) (slot : Slot) (word : String) : Except Failure Progress :=
  if (p.value? slot).isSome then .error .usage
  else
    match g.reader? slot with
    | none => .error .usage
    | some read => do
      (read word).mapError .value
      .ok { p with values := (slot, word) :: p.values }

/-- Looks at the word that waits. A place without a word is a fault. -/
def settle (g : Grammar) (p : Progress) : Except Failure Progress :=
  match p.waiting with
  | none => .ok p
  | some (_, none) => .error .usage
  | some (slot, some word) => g.give { p with waiting := none } slot word

/-- Sets a flag, which may happen once. -/
def setFlag (g : Grammar) (p : Progress) (flag : String) : Except Failure Progress := do
  let p ← g.settle p
  if flag ∈ p.flags then .error .usage else .ok { p with flags := flag :: p.flags }

/-- Fails with what is asked for, once the word that waits is looked at. -/
def request (g : Grammar) (p : Progress) (wanted : Failure) : Except Failure Progress := do
  let _ ← g.settle p
  .error wanted

/-- A word `--name` or `--name=value`. -/
def readLong (g : Grammar) (p : Progress) (name : String) (attached : Option String) :
    Except Failure Progress :=
  if name ∈ g.options.map (·.1) then do
    let p ← g.settle p
    match attached with
    | some word => g.give p (.option name) word
    | none => .ok { p with waiting := some (.option name, none) }
  else if attached.isSome then .error .usage
  else if name ∈ g.flags then g.setFlag p name
  else if name = "help" then g.request p .help
  else if name = "version" ∧ g.hasVersion then g.request p .version
  else .error .usage

/-- The letters of a word with one hyphen. -/
def readShort (g : Grammar) (p : Progress) : List Char → Except Failure Progress
  | [] => .ok p
  | c :: rest =>
    if c = 'v' then do
      let p ← g.setFlag p "verbose"
      g.readShort p rest
    else if c = 'h' then g.request p .help
    else if c = 'V' ∧ g.hasVersion then g.request p .version
    else .error .usage

/-- A word without hyphens: the value that an option waits for, or the positional word. -/
def readWord (g : Grammar) (p : Progress) (word : String) : Except Failure Progress :=
  match p.isTrailing, p.waiting with
  | false, some (slot, none) => .ok { p with waiting := some (slot, some word) }
  | _, _ =>
    if g.positional.isNone ∨ p.hasPositional then .error .usage
    else do
      let p ← g.settle p
      .ok { p with waiting := some (.positional, some word) }

/-- A word that is not the name of a command. -/
def readToken (g : Grammar) (p : Progress) (token : String) : Except Failure Progress :=
  if p.isTrailing then g.readWord p token
  else
    match token.toList with
    | ['-', '-'] => .ok { p with isTrailing := true }
    | '-' :: '-' :: rest =>
      match Text.cutAt '=' rest with
      | some (name, value) => g.readLong p (String.ofList name) (some (String.ofList value))
      | none => g.readLong p (String.ofList rest) none
    | '-' :: c :: rest => g.readShort p (c :: rest)
    | _ => g.readWord p token

/-- Whether help can be given on the names of commands inside one another. -/
def hasHelpOn (g : Grammar) : List String → Bool
  | [] => true
  | name :: inner =>
    match g.commands.lookup name with
    | some commands =>
      match inner with
      | [] => true
      | [command] => command ∈ commands
      | _ => false
    | none => name = "help" ∧ inner = [] ∧ g.commands ≠ []

/-- Reads the words up to the name of a command. Gives what has been read, and that name with the
words behind it where there is one. -/
def read (g : Grammar) (p : Progress) :
    List String → Except Failure (Progress × Option (String × List String))
  | [] => do
    let p ← g.settle p
    .ok (p, none)
  | token :: rest =>
    if !p.isTrailing && g.commands ≠ [] && token = "help" then
      if g.hasHelpOn rest then .error .help else .error .usage
    else if !p.isTrailing && (g.commands.lookup token).isSome then do
      let p ← g.settle p
      .ok (p, some (token, rest))
    else do
      let p ← g.readToken p token
      g.read p rest

end Grammar

end SoapClient.CommandLine
