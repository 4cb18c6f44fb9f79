import UmlText.Text.Digit

/-!
# Strings and keys of configuration files

A string stands between two double quotes, where a backslash escapes, or between two single quotes,
where nothing does. A string between three quotes of a kind may go over several lines. A key is made
of dotted parts, each a bare word or a string on one line.
-/

namespace UmlText.Toml

def isSpace (c : Char) : Bool := c = ' ' || c = '\t'

def skipSpace (cs : List Char) : List Char := cs.dropWhile isSpace

/-- A character that may stand in a string or a comment as it is. -/
def isPlain (c : Char) : Bool := c = '\t' || (' ' ≤ c && c ≠ '\x7f')

/-- The text behind the end of a line, if it stands in front. -/
def newline? : List Char → Option (List Char)
  | '\n' :: rest => some rest
  | '\r' :: '\n' :: rest => some rest
  | _ => none

/-- A single quotation mark. -/
def apostrophe : Char := Char.ofNat 39

/-! ### Cutting -/

/-- Cuts a text at the first quote that no backslash escapes. -/
def cutQuote? (quote : Char) (escapes : Bool) : List Char → Option (List Char × List Char)
  | [] => none
  | [c] => if c = quote then some ([], []) else none
  | c :: d :: rest =>
    if c = quote then some ([], d :: rest)
    else if escapes && c = '\\' then
      (cutQuote? quote escapes rest).map fun (body, rest) => (c :: d :: body, rest)
    else (cutQuote? quote escapes (d :: rest)).map fun (body, rest) => (c :: body, rest)

/-- Cuts a text at the first three quotes that no backslash escapes. Up to two quotes in front of
the closing ones belong to the text. -/
def cutTripleQuote? (quote : Char) (escapes : Bool) : List Char → Option (List Char × List Char)
  | c :: d :: e :: rest =>
    if c = quote ∧ d = quote ∧ e = quote then
      let extra := (rest.take 2).takeWhile (· = quote)
      some (extra, rest.drop extra.length)
    else if escapes && c = '\\' then
      (cutTripleQuote? quote escapes (e :: rest)).map fun (body, rest) => (c :: d :: body, rest)
    else
      (cutTripleQuote? quote escapes (d :: e :: rest)).map fun (body, rest) => (c :: body, rest)
  | _ => none

/-! ### Escapes -/

/-- The character with a code given in hexadecimal digits. -/
def codeChar? (digits : List Char) : Option Char := do
  let code ← Text.numeral? 16 digits
  if code.isValidChar then some (Char.ofNat code) else none

/-- The character that a letter behind a backslash stands for. -/
def escapedChar? : Char → Option Char
  | 'b' => some '\x08'
  | 't' => some '\t'
  | 'n' => some '\n'
  | 'f' => some '\x0c'
  | 'r' => some '\r'
  | 'e' => some '\x1b'
  | '"' => some '"'
  | '\\' => some '\\'
  | _ => none

def isBlank (c : Char) : Bool := isSpace c || c = '\n' || c = '\r'

/-- Resolves the escapes of a text. A backslash at the end of a line is dropped together with all
white space behind it; `dropping` tells whether that is going on. -/
def unescape? (dropping : Bool) : List Char → Option (List Char)
  | [] => some []
  | '\\' :: 'x' :: a :: b :: rest => do
    return (← codeChar? [a, b]) :: (← unescape? false rest)
  | '\\' :: 'u' :: a :: b :: c :: d :: rest => do
    return (← codeChar? [a, b, c, d]) :: (← unescape? false rest)
  | '\\' :: 'U' :: a :: b :: c :: d :: e :: f :: g :: h :: rest => do
    return (← codeChar? [a, b, c, d, e, f, g, h]) :: (← unescape? false rest)
  | '\\' :: c :: rest =>
    if isBlank c then
      if (newline? (skipSpace (c :: rest))).isSome then unescape? true rest else none
    else do
      return (← escapedChar? c) :: (← unescape? false rest)
  | c :: rest => do
    if dropping && isBlank c then unescape? true rest
    else return c :: (← unescape? false rest)

/-! ### Strings -/

/-- Whether a text may stand in a string over several lines. -/
def isPlainText : List Char → Bool
  | [] => true
  | '\r' :: '\n' :: rest => isPlainText rest
  | c :: rest => (isPlain c || c = '\n') && isPlainText rest

/-- The value of the text between quotes. -/
def content? (escapes : Bool) (body : List Char) : Option String :=
  (if escapes then unescape? false body else some body).map String.ofList

/-- Reads a string on one line, behind its opening quote. -/
def lineString? (quote : Char) (cs : List Char) : Option (String × List Char) := do
  let escapes := quote = '"'
  let (body, rest) ← cutQuote? quote escapes cs
  if body.all isPlain then return (← content? escapes body, rest) else none

/-- Reads a string over several lines, behind its opening quotes. The end of a line right behind
them does not count. -/
def blockString? (quote : Char) (cs : List Char) : Option (String × List Char) := do
  let escapes := quote = '"'
  let (body, rest) ← cutTripleQuote? quote escapes ((newline? cs).getD cs)
  if isPlainText body then return (← content? escapes body, rest) else none

/-- Reads a string in either kind of quotes. -/
def string? : List Char → Option (String × List Char)
  | c :: d :: e :: rest =>
    if c ≠ '"' ∧ c ≠ apostrophe then none
    else if c = d ∧ d = e then blockString? c rest
    else lineString? c (d :: e :: rest)
  | c :: rest => if c = '"' ∨ c = apostrophe then lineString? c rest else none
  | [] => none

/-! ### Keys -/

def isBareKeyChar (c : Char) : Bool := c.isAlphanum || c = '_' || c = '-'

/-- Reads one part of a key. -/
def keyPart? : List Char → Option (String × List Char)
  | [] => none
  | c :: rest =>
    if c = '"' ∨ c = apostrophe then lineString? c rest
    else
      let word := (c :: rest).takeWhile isBareKeyChar
      if word.isEmpty then none else some (String.ofList word, rest.dropWhile isBareKeyChar)

/-- Reads a key of dotted parts and the white space behind it; the fuel bounds their number. -/
def keyFor? : Nat → List Char → Option (List String × List Char)
  | 0, _ => none
  | fuel + 1, cs => do
    let (part, rest) ← keyPart? (skipSpace cs)
    match skipSpace rest with
    | '.' :: rest =>
      let (parts, rest) ← keyFor? fuel rest
      return (part :: parts, rest)
    | rest => return ([part], rest)

def key? (cs : List Char) : Option (List String × List Char) := keyFor? (cs.length + 1) cs

end UmlText.Toml
