import UmlText.Clipboard

/-!
# Failures

Reading and layout always come to an end with a result. What can fail is the traffic around them:
files, clipboards, configuration and previews.
-/

namespace UmlText

/-- Why a preview could not be produced. -/
inductive PreviewError where
  | render (message : String)
  | io (error : FileError)
deriving DecidableEq, Repr, Inhabited

def PreviewError.message : PreviewError → String
  | render message => s!"Render error: {message}"
  | io error => s!"I/O error: {error.message}"

/-- Why a configuration could not be used. -/
inductive ConfigError where
  | malformed (detail : String)
  | missingFile (path : String)
  | invalid (message : String)
deriving DecidableEq, Repr, Inhabited

def ConfigError.message : ConfigError → String
  | malformed detail => s!"Failed to parse TOML configuration: {detail}"
  | missingFile path => s!"Missing configuration file: {path}"
  | invalid message => s!"Validation error: {message}"

/-- What stops a command. -/
inductive Failure where
  | io (error : FileError)
  | clipboard (error : ClipboardError)
  | preview (error : PreviewError)
  | config (error : ConfigError)
deriving DecidableEq, Repr, Inhabited

namespace Failure

def message : Failure → String
  | io error => s!"I/O error: {error.message}"
  | clipboard error => s!"Clipboard error: {error.message}"
  | preview error => s!"Export error: {error.message}"
  | config error => s!"Config error: {error.message}"

/-- The code shown with a failure. -/
def code : Failure → String
  | io _ => "umlbridge::io"
  | clipboard _ => "umlbridge::clipboard"
  | preview _ => "umlbridge::export"
  | config _ => "umlbridge::config"

/-- What the user can do about a failure. -/
def help? : Failure → Option String
  | config _ => some "check the file given with --config, or remove it to use the defaults"
  | clipboard _ => some "use `-` to read from standard input"
  | io _ | preview _ => none

/-- The cause that a failure passes on. -/
def cause? : Failure → Option String
  | io error => some error.message
  | clipboard error => some error.message
  | preview _ | config _ => none

end Failure

end UmlText
