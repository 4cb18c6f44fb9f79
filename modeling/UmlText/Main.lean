import UmlText.Command

/-!
# The program

Looks at the files that a run may touch, runs the command on what it saw, and carries out what the
result says: prints, and writes the files that changed.
-/

namespace UmlText.Program

/-- All that is left on a stream. -/
partial def readAll (stream : IO.FS.Stream) (before : String := "") : IO String := do
  let line ← stream.getLine
  if line.isEmpty then return before else readAll stream (before ++ line)

/-- Adds what stands at a path to a disk. -/
def observe (disk : Disk) (parts : PathParts) : IO Disk := do
  try
    let contents ← IO.FS.readFile (Disk.absoluteText parts)
    return { disk with files := disk.files ++ [(parts, contents)] }
  catch
    | .inappropriateType .. => return { disk with directories := disk.directories ++ [parts] }
    | _ => return disk

/-- The disk around some paths, with the directories they are in. -/
def observeAll (workingDirectory : PathParts) (paths : List String) : IO Disk := do
  let targets := paths.map (Disk.resolve workingDirectory)
  (targets ++ targets.map List.dropLast).eraseDups.foldlM observe { workingDirectory }

/-- The directory for the configuration files of the user. -/
def configHome : IO (Option String) := do
  let explicit := (← IO.getEnv "XDG_CONFIG_HOME").filter fun path => path.startsWith "/"
  return explicit <|> (← IO.getEnv "HOME").map fun home => s!"{home}/.config"

/-- Runs a command on the files it asks for. -/
def runOnFiles (arguments : Arguments) : IO UInt32 := do
  let workingDirectory := Disk.resolve [] (← IO.currentDir).toString
  let configHome ← configHome
  let before ← observeAll workingDirectory (Command.paths configHome arguments)
  let stdin ← if arguments.input = "-" then readAll (← IO.getStdin) else pure ""
  let run := Command.run before stdin configHome arguments
  IO.print run.printed
  for (parts, contents) in Disk.changes before run.disk do
    IO.FS.writeFile (Disk.absoluteText parts) contents
  match run.result with
  | .ok _ => return 0
  | .error failure =>
    IO.eprintln failure.message
    for help in failure.help? do
      IO.eprintln s!"help: {help}"
    return 1

/-- Says how the program is used. -/
def explainUsage (error : UsageError) : IO UInt32 := do
  match error with
  | .help => IO.println usageText; return 0
  | .version => IO.println "umlbridge 0.1.0"; return 0
  | _ => IO.eprintln s!"error: {error.name}\n\n{usageText}"; return 2

end UmlText.Program

def main (arguments : List String) : IO UInt32 :=
  match UmlText.Arguments.parse arguments with
  | .ok arguments => UmlText.Program.runOnFiles arguments
  | .error error => UmlText.Program.explainUsage error
