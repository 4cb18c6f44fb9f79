import UmlText.Settings.Toml.Quoted
import UmlText.Settings.Toml.Scalar
import UmlText.Settings.Toml.Tree

/-!
# Configuration files

Configuration files are in TOML: keys and their values, in tables that headers open. A file is read
expression by expression, and the first one that is wrong makes the whole file malformed.
-/

namespace UmlText.Toml

/-! ### Between expressions -/

/-- Skips a comment; one with a control character cannot be skipped. -/
def skipComment? (cs : List Char) : Option (List Char) :=
  match cs with
  | '#' :: rest =>
    let isInside (c : Char) : Bool := c ≠ '\n' && c ≠ '\r'
    if (rest.takeWhile isInside).all isPlain then some (rest.dropWhile isInside) else none
  | _ => some cs

/-- The text behind the end of a line, in front of which a comment may stand. The end of the file
ends a line too. -/
def lineEnd? (cs : List Char) : Option (List Char) := do
  let rest ← skipComment? (skipSpace cs)
  if rest.isEmpty then some [] else newline? rest

/-- Skips white space, ends of lines and comments; the fuel bounds their number. -/
def skipGapFor? : Nat → List Char → Option (List Char)
  | 0, _ => none
  | fuel + 1, cs => do
    let rest ← skipComment? (skipSpace cs)
    match newline? rest with
    | some rest => skipGapFor? fuel rest
    | none => return rest

def skipGap? (cs : List Char) : Option (List Char) := skipGapFor? (cs.length + 1) cs

/-! ### Values -/

/-- Reads items up to a closing character. A comma stands between two items and may stand behind the
last one; the fuel bounds the number of items. -/
def itemsFor? {α : Type} (item? : List Char → Option (α × List Char)) (closing : Char) :
    Nat → List Char → Option (List α × List Char)
  | 0, _ => none
  | fuel + 1, cs => do
    match ← skipGap? cs with
    | [] => none
    | c :: rest =>
      if c = closing then return ([], rest)
      let (item, rest) ← item? (c :: rest)
      match ← skipGap? rest with
      | ',' :: rest =>
        let (items, rest) ← itemsFor? item? closing fuel rest
        return (item :: items, rest)
      | c :: rest => if c = closing then return ([item], rest) else none
      | [] => none

def items? {α : Type} (item? : List Char → Option (α × List Char)) (closing : Char)
    (cs : List Char) : Option (List α × List Char) :=
  itemsFor? item? closing (cs.length + 1) cs

/-- Reads a key and its value. -/
def keyValue? (value? : List Char → Option (ConfigValue × List Char)) (cs : List Char) :
    Option ((List String × ConfigValue) × List Char) := do
  let (key, rest) ← key? cs
  match rest with
  | '=' :: rest =>
    let (value, rest) ← value? (skipSpace rest)
    return ((key, value), rest)
  | _ => none

/-- A table of keys and values. -/
def tableOf? (entries : List (List String × ConfigValue)) : Option Fields :=
  entries.foldlM (fun fields (key, value) => assign? value key fields) []

/-- Reads a value in which arrays and tables are at most `depth` deep. -/
def valueFor? : Nat → List Char → Option (ConfigValue × List Char)
  | depth, '[' :: rest =>
    match depth with
    | 0 => none
    | depth + 1 => do
      let (values, rest) ← items? (valueFor? depth) ']' rest
      return (.list values false, rest)
  | depth, '{' :: rest =>
    match depth with
    | 0 => none
    | depth + 1 => do
      let (entries, rest) ← items? (keyValue? (valueFor? depth)) '}' rest
      return (.table (fieldValues (← tableOf? entries)), rest)
  | _, cs =>
    if cs.head? = some '"' ∨ cs.head? = some apostrophe then
      (string? cs).map fun (text, rest) => (.text text, rest)
    else
      let (word, rest) := cutWord cs
      (wordValue? word).map (·, rest)

/-- How deep arrays and tables may be in each other. -/
def deepest : Nat := 80

def value? (cs : List Char) : Option (ConfigValue × List Char) := valueFor? deepest cs

/-! ### Documents -/

/-- A document read so far: its fields, and the path of the table that keys go to. -/
structure Document where
  fields : Fields := []
  table : List String := []

/-- Reads a header up to its closing brackets. -/
def header? (closing : List Char) (cs : List Char) : Option (List String × List Char) := do
  let (path, rest) ← key? cs
  if closing.isPrefixOf rest then return (path, rest.drop closing.length) else none

/-- Reads an expression: a header, or a key with its value. -/
def Document.add? (d : Document) (cs : List Char) : Option (Document × List Char) :=
  match cs with
  | '[' :: '[' :: rest => do
    let (path, rest) ← header? [']', ']'] rest
    return ({ fields := ← openHeader? append? path d.fields, table := path }, rest)
  | '[' :: rest => do
    let (path, rest) ← header? [']'] rest
    return ({ fields := ← openHeader? declare? path d.fields, table := path }, rest)
  | cs => do
    let ((key, value), rest) ← keyValue? value? cs
    return ({ d with fields := ← inTable? (assign? value key) d.table d.fields }, rest)

/-- Reads the expressions of a text into a document, or gives back the text from the first wrong one
on; the fuel bounds their number. -/
def Document.addAll : Nat → Document → List Char → Except (List Char) Document
  | 0, _, cs => .error cs
  | fuel + 1, d, cs =>
    match skipGap? cs with
    | none => .error cs
    | some [] => .ok d
    | some cs =>
      match d.add? cs with
      | none => .error cs
      | some (d, rest) =>
        match lineEnd? rest with
        | none => .error cs
        | some rest => d.addAll fuel rest

/-- The number of the line in which the rest of a text starts. -/
def lineNumber (source rest : List Char) : Nat := source.count '\n' - rest.count '\n' + 1

/-- Reads a configuration file. A byte order mark in front does not count. -/
def parse (source : String) : Except String ConfigValue :=
  let cs := source.toList
  let cs := if cs.head? = some '\uFEFF' then cs.tail else cs
  match ({} : Document).addAll (cs.length + 1) cs with
  | .ok d => .ok (.table (fieldValues d.fields))
  | .error rest => .error s!"invalid line {lineNumber cs rest}"

end UmlText.Toml
