/-!
# Clipboards

The text that is imported comes from a clipboard, and exported text goes to one. A clipboard may be
out of order, in which case it answers every request with the reason.
-/

namespace UmlText

/-- Why a file could not be read or written. -/
inductive FileError where
  | notFound
  | notDirectory
  | isDirectory
deriving DecidableEq, Repr, Inhabited

def FileError.message : FileError → String
  | notFound => "No such file or directory (os error 2)"
  | notDirectory => "Not a directory (os error 20)"
  | isDirectory => "Is a directory (os error 21)"

/-- Why a clipboard did not answer. -/
inductive ClipboardError where
  | unavailable (reason : String)
  | io (error : FileError)
deriving DecidableEq, Repr, Inhabited

def ClipboardError.message : ClipboardError → String
  | unavailable reason => s!"clipboard is not available: {reason}"
  | io error => s!"clipboard I/O failed: {error.message}"

/-- A clipboard held in memory. -/
structure Clipboard where
  contents : Option String := none
  /-- Why the clipboard is out of order, if it is. -/
  outage : Option String := none
deriving DecidableEq, Repr, Inhabited

namespace Clipboard

def read (c : Clipboard) : Except ClipboardError (Option String) :=
  match c.outage with
  | some reason => .error (.unavailable reason)
  | none => .ok c.contents

def write (c : Clipboard) (text : String) : Except ClipboardError Clipboard :=
  match c.outage with
  | some reason => .error (.unavailable reason)
  | none => .ok { c with contents := some text }

end Clipboard

end UmlText
