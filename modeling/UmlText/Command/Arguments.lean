/-!
# Command-line arguments

There are two commands, `import INPUT [--svg PATH]` and
`export INPUT [-o PATH] [--select NAME...]`. The options `-c PATH` and `--log-level LEVEL` may stand
on either side of the command.

Arguments are read from left to right. An option takes the next argument as its value, and a list of
names goes on up to the next argument that starts with a dash; a value may also be attached to the
option. Behind `--`, every argument is an operand. What is wrong with the arguments is a
`UsageError`; asking for help or for the version counts as one.
-/

namespace UmlText

/-- Why no command is run. -/
inductive UsageError where
  | help
  | version
  | nothingGiven
  | missingSubcommand
  | missingArgument
  | invalidSubcommand
  | unknownArgument
  | invalidValue
  | tooManyValues
  | conflict
deriving DecidableEq, Repr, Inhabited

/-- The name of a kind of usage error. -/
def UsageError.name : UsageError → String
  | help => "DisplayHelp"
  | version => "DisplayVersion"
  | nothingGiven => "DisplayHelpOnMissingArgumentOrSubcommand"
  | missingSubcommand => "MissingSubcommand"
  | missingArgument => "MissingRequiredArgument"
  | invalidSubcommand => "InvalidSubcommand"
  | unknownArgument => "UnknownArgument"
  | invalidValue => "InvalidValue"
  | tooManyValues => "TooManyValues"
  | conflict => "ArgumentConflict"

/-- What is printed where no command is run. -/
def usageText : String := "\n".intercalate [
  "Usage: umlbridge [OPTIONS] <COMMAND>",
  "",
  "Commands:",
  "  import <INPUT> [--svg <PATH>]",
  "  export <INPUT> [-o <PATH>] [--select <NAME>...]",
  "  help",
  "",
  "Options:",
  "  -c, --config <PATH>",
  "      --log-level <LEVEL>",
  "  -h, --help",
  "  -V, --version"]

/-- The options that take values. -/
inductive OptionName where
  | config
  | logLevel
  | svg
  | output
  | select
deriving DecidableEq, Repr, Inhabited

/-- Whether an option goes on taking values, and may be given again. -/
def OptionName.isList : OptionName → Bool
  | select => true
  | _ => false

/-- What an argument asks for by name. -/
inductive Switch where
  | option (name : OptionName)
  | help
  | version
deriving DecidableEq, Repr

/-- The names that are known on one side of the command, and the number of operands. -/
structure Interface where
  long : List (String × Switch)
  short : List (Char × Switch)
  operands : Nat
  subcommands : List String := []

def globalLong : List (String × Switch) :=
  [("config", .option .config), ("log-level", .option .logLevel), ("help", .help)]

def globalShort : List (Char × Switch) := [('c', .option .config), ('h', .help)]

/-- The arguments before the command. -/
def topInterface : Interface :=
  { long := globalLong ++ [("version", .version)]
    short := globalShort ++ [('V', .version)]
    operands := 0
    subcommands := ["import", "export", "help"] }

def importInterface : Interface :=
  { long := globalLong ++ [("svg", .option .svg)]
    short := globalShort
    operands := 1 }

def exportInterface : Interface :=
  { long := globalLong ++ [("output", .option .output), ("select", .option .select)]
    short := globalShort ++ [('o', .option .output)]
    operands := 1 }

/-- Arguments being read. -/
structure Scan where
  /-- The options whose values are complete. -/
  settled : List (OptionName × List String) := []
  /-- The option given last, with its values so far. -/
  pending : Option (OptionName × List String) := none
  /-- Whether the next argument may be a value of the pending option. -/
  taking : Bool := false
  operands : List String := []
  /-- Whether `--` was given. -/
  onlyOperands : Bool := false
deriving Repr

namespace Scan

/-- Completes the pending option: it needs a value, and only a list can be given twice. -/
def settle (s : Scan) : Except UsageError Scan :=
  match s.pending with
  | none => .ok s
  | some (_, []) => .error .invalidValue
  | some (name, values) =>
    match s.settled.lookup name with
    | some earlier =>
      if name.isList then
        .ok { s with
          pending := none
          settled := (name, earlier ++ values) :: s.settled.filter (·.1 ≠ name) }
      else
        .error .conflict
    | none => .ok { s with pending := none, settled := (name, values) :: s.settled }

/-- Starts an option, with its attached value if it has one. -/
def startOption (s : Scan) (name : OptionName) (attached : Option String) :
    Except UsageError Scan := do
  let s ← s.settle
  let started := { s with pending := some (name, attached.toList), taking := attached.isNone }
  if attached.isSome then
    return { (← started.settle) with taking := false }
  else
    return started

/-- Does what an argument asks for by name. -/
def apply (s : Scan) (switch : Switch) (attached : Option String) : Except UsageError Scan := do
  match switch with
  | .option name => s.startOption name attached
  | .help => let _ ← s.settle; throw .help
  | .version => let _ ← s.settle; throw .version

/-- Reads what follows `--` in an argument. -/
def long (face : Interface) (s : Scan) (body : List Char) : Except UsageError Scan :=
  let name := String.ofList (body.takeWhile (· ≠ '='))
  let attached :=
    match body.dropWhile (· ≠ '=') with
    | [] => none
    | _ :: value => some (String.ofList value)
  match face.long.lookup name with
  | none => .error .unknownArgument
  | some (.option option) => s.startOption option attached
  | some switch => if attached.isSome then .error .tooManyValues else s.apply switch none

/-- Reads what follows `-` in an argument. -/
def short (face : Interface) (s : Scan) : List Char → Except UsageError Scan
  | [] => .ok s
  | c :: rest =>
    match face.short.lookup c with
    | none => .error .unknownArgument
    | some switch =>
      let value := match rest with
        | '=' :: value => some (String.ofList value)
        | [] => none
        | value => some (String.ofList value)
      s.apply switch value

/-- Takes a value of the pending option. -/
def takeValue (s : Scan) (argument : String) : Scan :=
  match s.pending with
  | some (name, values) =>
    { s with pending := some (name, values ++ [argument]), taking := name.isList }
  | none => s

/-- Takes an operand. -/
def operand (face : Interface) (s : Scan) (argument : String) : Except UsageError Scan :=
  if s.operands.length < face.operands then
    s.settle.map fun s => { s with operands := s.operands ++ [argument], taking := false }
  else if s.onlyOperands && argument ∈ face.subcommands then .error .unknownArgument
  else if face.subcommands.isEmpty then .error .unknownArgument
  else .error .invalidSubcommand

/-- Reads one argument. -/
def step (face : Interface) (s : Scan) (argument : String) : Except UsageError Scan :=
  if s.onlyOperands then s.operand face argument
  else
    match argument.toList with
    | ['-', '-'] => .ok { s with onlyOperands := true }
    | '-' :: '-' :: body => s.long face body
    | '-' :: c :: body => s.short face (c :: body)
    | _ => if s.taking then .ok (s.takeValue argument) else s.operand face argument

end Scan

/-- Reads arguments up to a subcommand, if the interface has any. The scan is returned with the
subcommand and what is behind it. -/
def scanArguments (face : Interface) (s : Scan) :
    List String → Except UsageError (Scan × Option (String × List String))
  | [] => .ok (s, none)
  | argument :: rest => do
    if !s.onlyOperands && !s.taking && argument ∈ face.subcommands then
      return (s, some (argument, rest))
    scanArguments face (← s.step face argument) rest

/-- What to do. -/
inductive Action where
  | importText (input : String) (svg : Option String)
  | exportText (input : String) (output : Option String) (select : List String)
deriving DecidableEq, Repr

/-- The arguments of a run. -/
structure Arguments where
  action : Action
  config : Option String := none
  logLevel : String := "info"
deriving DecidableEq, Repr

/-- Where the text comes from. -/
def Arguments.input (a : Arguments) : String :=
  match a.action with
  | .importText input _ => input
  | .exportText input _ _ => input

/-- The value of an option that takes one. -/
def Scan.value? (s : Scan) (name : OptionName) : Option String :=
  (s.settled.lookup name).bind List.head?

/-- All values of an option. -/
def Scan.values (s : Scan) (name : OptionName) : List String :=
  (s.settled.lookup name).getD []

/-- Reads the arguments behind a subcommand. -/
def parseAction (face : Interface) (arguments : List String) (build : Scan → String → Action) :
    Except UsageError (Scan × Action) := do
  let (s, _) ← scanArguments face {} arguments
  let s ← s.settle
  match s.operands with
  | input :: _ => return (s, build s input)
  | [] => throw .missingArgument

def parseImport (arguments : List String) : Except UsageError (Scan × Action) :=
  parseAction importInterface arguments fun s input => .importText input (s.value? .svg)

def parseExport (arguments : List String) : Except UsageError (Scan × Action) :=
  parseAction exportInterface arguments fun s input =>
    .exportText input (s.value? .output) (s.values .select)

/-- Asking for help with subcommands: only the first word behind `help` can be one. -/
def helpFor : List String → UsageError
  | [] => .help
  | [name] => if name ∈ topInterface.subcommands then .help else .invalidSubcommand
  | _ => .invalidSubcommand

/-- Reads the arguments of a run. An option behind the command wins over one before it. -/
def Arguments.parse (arguments : List String) : Except UsageError Arguments := do
  let (top, command) ← scanArguments topInterface {} arguments
  match command with
  | none =>
    let top ← top.settle
    if top.settled.isEmpty then throw .nothingGiven else throw .missingSubcommand
  | some (name, rest) =>
    let (inner, action) ←
      if name = "import" then parseImport rest
      else if name = "export" then parseExport rest
      else throw (helpFor rest)
    let top ← top.settle
    return {
      action
      config := inner.value? .config <|> top.value? .config
      logLevel := ((inner.value? .logLevel) <|> top.value? .logLevel).getD "info" }

end UmlText
