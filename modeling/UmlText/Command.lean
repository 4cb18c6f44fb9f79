import UmlText.Command.Arguments
import UmlText.Command.Disk
import UmlText.Exchange
import UmlText.Preview
import UmlText.Settings.Toml
import UmlText.Store.Workspace

/-!
# The command line

`import` reads a text into a new workspace and prints where every element went; `export` writes the
imported model back as text. A run is a function of the arguments, the files and the standard input;
its result says what is printed and what the files are afterwards.
-/

namespace UmlText

/-- What a run does. -/
structure RunResult where
  printed : String := ""
  disk : Disk
  result : Except Failure Unit := .ok ()

namespace Command

/-! ### Configuration -/

/-- The configuration file of a project. -/
def projectConfig : String := "umlbridge/config.toml"

/-- The configuration file of a user, below the directory for such files. -/
def userConfig (configHome : String) : String := s!"{configHome}/umlbridge/config.toml"

/-- Reads a configuration file and checks its colors. -/
def loadConfig (disk : Disk) (path : String) : Except Failure Settings :=
  if !disk.pathExists path then .error (.config (.missingFile path))
  else
    match disk.read path with
    | .error error => .error (.io error)
    | .ok source =>
      match Toml.parse source with
      | .error detail => .error (.config (.malformed detail))
      | .ok value =>
        match Settings.ofValue? value with
        | none => .error (.config (.malformed "a value of the wrong type"))
        | some settings =>
          match settings.style.fault? with
          | some message => .error (.config (.invalid message))
          | none => .ok settings

/-- The settings of a run: from the file given as an argument, or else from the file of the project,
or else from that of the user. Without any of them the defaults apply. -/
def settings (disk : Disk) (configHome : Option String) (explicit : Option String) :
    Except Failure Settings :=
  match explicit with
  | some path => loadConfig disk path
  | none =>
    let candidates := projectConfig :: (configHome.map userConfig).toList
    match candidates.find? disk.pathExists with
    | some path => loadConfig disk path
    | none => .ok {}

/-! ### Input -/

/-- The last part of a path, as far as it names something. -/
def fileName? (path : String) : Option String :=
  ((Disk.pathParts path).filter fun part => part ≠ "" && part ≠ ".").getLast?.filter (· ≠ "..")

/-- A file name without its extension. A dot in front does not start one. -/
def stem (name : String) : String :=
  match Text.cutLast? '.' name.toList with
  | some (before, _) => if before.isEmpty then name else String.ofList before
  | none => name

/-- The name of the project that a text is imported into. -/
def projectName (input : String) : String :=
  if input = "-" then "stdin" else ((fileName? input).map stem).getD "stdin"

/-- The text to import; an empty one counts as none. -/
def readInput (disk : Disk) (stdin input : String) : Except ClipboardError (Option String) :=
  let source : Except FileError String := if input = "-" then .ok stdin else disk.read input
  match source with
  | .ok text => .ok (if text = "" then none else some text)
  | .error error => .error (.io error)

/-! ### Summary -/

/-- A text filled up with spaces to a number of characters. -/
def padRight (width : Nat) (text : String) : String :=
  text ++ String.ofList (List.replicate (width - text.length) ' ')

/-- The line of one placed element. -/
def entryLine (w : Workspace) (e : LayoutEntry) : String :=
  let name := padRight 24 ((w.element? e.element).elim "?" Element.name)
  let x := padRight 6 (toString e.position.x)
  let y := padRight 6 (toString e.position.y)
  s!"  {name} x={x} y={y} {e.size.width}x{e.size.height}"

/-- The lines that say what an import did. -/
def summaryLines (w : Workspace) (outcome : ImportOutcome) : List String :=
  let report := outcome.layout
  let kind := outcome.parsed.diagramKind.text
  let elements := report.entries.length
  let relationships := report.relationships.length
  let skipped := report.skippedElements.length
  [s!"{kind} diagram, {report.strategy.text} layout: "
    ++ s!"{elements} elements, {relationships} relationships"]
    ++ report.entries.map (entryLine w)
    ++ if skipped = 0 ∧ report.skippedRelationships = 0 then []
      else [s!"  skipped: {skipped} elements, {report.skippedRelationships} relationships"]

/-- Lines as they are printed. -/
def printLines (lines : List String) : String := String.join (lines.map (· ++ "\n"))

/-! ### Import -/

/-- Imports a text, prints the summary, and writes a preview if one is wanted. -/
def runImport (disk : Disk) (stdin : String) (s : Settings) (input : String)
    (svg : Option String) : RunResult :=
  match importFrom (Workspace.new (projectName input)) (readInput disk stdin input) s.layout with
  | (.error failure, _) => { disk, result := .error failure }
  | (.ok none, _) => { disk }
  | (.ok (some outcome), w) =>
    let printed := printLines (summaryLines w outcome)
    match svg with
    | none => { printed, disk }
    | some path =>
      match renderPreview w outcome.layout s.style with
      | .error error => { printed, disk, result := .error (.preview error) }
      | .ok text =>
        match disk.write path text with
        | .error error => { printed, disk, result := .error (.preview (.io error)) }
        | .ok disk => { printed, disk }

/-! ### Export -/

/-- The classes that no package and no other element owns. -/
def topLevelClasses (w : Workspace) : List ElementId :=
  (w.elements.filter fun e =>
    e.kind? = some .umlClass && e.parent = some Workspace.root).map Element.id

/-- The element that a name stands for: the one declared under it in the text, or else the first of
that name in the workspace. -/
def findNamed? (w : Workspace) (parsed : Parsed) (name : String) : Option ElementId :=
  parsed.element? name <|> (w.findByName? name).map Element.id

/-- The realized associations with both ends in a list of elements. -/
def associationsAmong (w : Workspace) (report : LayoutReport) (selected : List ElementId) :
    List ElementId :=
  report.relationships.filterMap fun view => do
    let element ← w.element? view.model
    let r ← element.body.relationship?
    if r.kind = .association ∧ r.source ∈ selected ∧ r.target ∈ selected then
      some element.id
    else
      none

/-- What is exported: the named elements, or all top-level classes if no names are given, and the
associations among them. -/
def exportSelectionOf (w : Workspace) (outcome : ImportOutcome) (names : List String) :
    List ElementId :=
  let selected :=
    if names.isEmpty then topLevelClasses w else names.filterMap (findNamed? w outcome.parsed)
  selected ++ associationsAmong w outcome.layout selected

/-- The text that exporting an imported text gives. -/
def exportedText (w : Workspace) (outcome : ImportOutcome) (names : List String) : String :=
  selectionText (w.select (exportSelectionOf w outcome names))

/-- Imports a text and writes the selected part of the model, to a file or to standard output. -/
def runExport (disk : Disk) (stdin : String) (s : Settings) (input : String)
    (output : Option String) (names : List String) : RunResult :=
  match importFrom (Workspace.new (projectName input)) (readInput disk stdin input) s.layout with
  | (.error failure, _) => { disk, result := .error failure }
  | (.ok none, _) => { disk }
  | (.ok (some outcome), w) =>
    let text := exportedText w outcome names
    match output with
    | none => { printed := text ++ "\n", disk }
    | some path =>
      match disk.write path text with
      | .error error => { disk, result := .error (.clipboard (.io error)) }
      | .ok disk => { disk }

/-- The paths that a run may read or write, apart from standard input. -/
def paths (configHome : Option String) (arguments : Arguments) : List String :=
  let config := projectConfig :: (configHome.map userConfig).toList ++ arguments.config.toList
  match arguments.action with
  | .importText input svg => config ++ [input] ++ svg.toList
  | .exportText input output _ => config ++ [input] ++ output.toList

/-- Runs a command. -/
def run (disk : Disk) (stdin : String) (configHome : Option String) (arguments : Arguments) :
    RunResult :=
  match settings disk configHome arguments.config with
  | .error failure => { disk, result := .error failure }
  | .ok s =>
    match arguments.action with
    | .importText input svg => runImport disk stdin s input svg
    | .exportText input output names => runExport disk stdin s input output names

end Command

end UmlText
