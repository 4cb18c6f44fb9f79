import UmlText.Store
import UmlText.Text.Span

/-!
# Diagnostics

Reading never fails as a whole. Whatever it skips, it reports in a diagnostic: a message with a
code, labels on spans of the text, and help. `Issue` lists the causes of the diagnostics that
reading itself reports, with their wording.
-/

namespace UmlText

open Text (Span)

/-- The class of a diagnostic. -/
inductive WarningCode where
  | w100
  | w101
  | w102
  | w103
  | w104
deriving DecidableEq, Repr, Inhabited

namespace WarningCode

/-- The name of a class of diagnostics. -/
def text : WarningCode → String
  | w100 => "W100"
  | w101 => "W101"
  | w102 => "W102"
  | w103 => "W103"
  | w104 => "W104"

/-- The class of diagnostics with a name. -/
def ofText? : String → Option WarningCode
  | "W100" => some w100
  | "W101" => some w101
  | "W102" => some w102
  | "W103" => some w103
  | "W104" => some w104
  | _ => none

/-- What a class of diagnostics is about. -/
def description : WarningCode → String
  | w100 => "unrecognized line"
  | w101 => "unresolved relationship endpoint"
  | w102 => "unsupported arrow"
  | w103 => "unbalanced braces"
  | w104 => "element rejected by the model store"

end WarningCode

/-- A message on a span. The primary labels mark what was skipped, the others its context. -/
structure Label where
  span : Span
  message : String
  isPrimary : Bool := true
deriving DecidableEq, Repr, Inhabited

/-- A warning about skipped text. -/
structure Diagnostic where
  code : Option WarningCode := none
  message : String
  labels : List Label := []
  help : Option String := none
deriving DecidableEq, Repr, Inhabited

namespace Diagnostic

/-- The span of the first primary label. -/
def primarySpan? (d : Diagnostic) : Option Span :=
  (d.labels.find? Label.isPrimary).map Label.span

/-- The headline of a diagnostic. -/
def headline (d : Diagnostic) : String :=
  match d.code with
  | some code => s!"warning[{code.text}]: {d.message}"
  | none => s!"warning: {d.message}"

end Diagnostic

/-- Why reading skipped something. -/
inductive Issue where
  | unrecognizedLine
  | unrecognizedMember (owner : ElementKind)
  | elementRefused (kind : ElementKind) (name : String) (error : StoreError)
  | memberRefused (error : StoreError)
  | unresolvedEndpoint (name : String)
  | unsupportedArrow (arrow : String)
  | nothingToClose
  | unclosedBlock (opened : Span)
deriving DecidableEq, Repr, Inhabited

/-- The diagnostic of an issue at a span: the line it is about, or the end of the text for a block
that was never closed. -/
def Issue.diagnostic (span : Span) : Issue → Diagnostic
  | unrecognizedLine =>
    { code := some .w100
      message := "unrecognized line"
      labels := [{ span, message := "line skipped" }] }
  | unrecognizedMember owner =>
    { code := some .w100
      message := s!"unrecognized {owner.keyword} member"
      labels := [{ span, message := "line skipped" }] }
  | elementRefused kind name error =>
    { code := some .w104
      message := s!"{kind.keyword} `{name}` was not created: {error.message}"
      labels := [{ span, message := "declaration skipped" }] }
  | memberRefused error =>
    { code := some .w104
      message := s!"member not added: {error.message}"
      labels := [{ span, message := "member skipped" }] }
  | unresolvedEndpoint name =>
    { code := some .w101
      message := s!"unresolved endpoint `{name}`"
      labels := [{ span, message := "relationship dropped" }]
      help := some s!"declare `{name}` before using it in a relationship" }
  | unsupportedArrow arrow =>
    { code := some .w102
      message := s!"unsupported arrow `{arrow}`"
      labels := [{ span, message := "relationship dropped" }] }
  | nothingToClose =>
    { code := some .w103
      message := "unbalanced `\x7d`"
      labels := [{ span, message := "nothing to close here" }] }
  | unclosedBlock opened =>
    { code := some .w103
      message := "block not closed before end of input"
      labels := [
        { span, message := "input ends here" },
        { span := opened, message := "block opened here", isPrimary := false }] }

end UmlText
