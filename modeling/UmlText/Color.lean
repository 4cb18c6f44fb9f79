import UmlText.Color.Keyword
import UmlText.Decimal.Nearest
import UmlText.Decimal.Shortest
import UmlText.Text.Blank
import UmlText.Text.Digit

/-!
# Colors

Style settings give colors as text: `#` with hexadecimal digits, `rgb(...)` or `rgba(...)`, or a
color keyword. A color keyword is written back as it is, in lower case; every other color as its
components, scaled to 255 and computed in single precision.
-/

namespace UmlText

/-- Why a text is no color. -/
inductive ColorFault where
  | unknownIdentifier
  | unknownForm
  | wrongHexDigits
  | trailingText
  | noArguments
  | unknownComponent
  | noComma
  | noClosingParenthesis
deriving DecidableEq, Repr, Inhabited

def ColorFault.message : ColorFault → String
  | unknownIdentifier => "unknown color identifier"
  | unknownForm => "unknown color syntax"
  | wrongHexDigits => "wrong number of hex digits"
  | trailingText => "expected end of string"
  | noArguments => "expected arguments"
  | unknownComponent => "unknown color component"
  | noComma => "expected comma"
  | noClosingParenthesis => "expected closing parenthesis"

/-- A component of a color between 0 and 1; none if it is left open. -/
abbrev ColorComponent := Option Float32

/-- A color, as a keyword or by components. -/
inductive Color where
  | keyword (name : String)
  | components (red green blue alpha : ColorComponent)

namespace Color

/-! ### Reading -/

/-- A reader that fails with a fault. -/
abbrev Reading (α : Type) := Except ColorFault (α × List Char)

/-- White space inside a color. -/
def isSpace (c : Char) : Bool := c ∈ [' ', '\t', '\r', '\n']

/-- The text behind the first `*/`, if there is one. -/
def behindComment? : List Char → Option (List Char)
  | '*' :: '/' :: rest => some rest
  | _ :: rest => behindComment? rest
  | [] => none

/-- Skips white space and comments; the fuel bounds their number. -/
def skipSpaceFor : Nat → List Char → List Char
  | 0, cs => cs
  | fuel + 1, cs =>
    match cs.dropWhile isSpace with
    | '/' :: '*' :: inside =>
      match behindComment? inside with
      | some rest => skipSpaceFor fuel rest
      | none => '/' :: '*' :: inside
    | rest => rest

def skipSpace (cs : List Char) : List Char := skipSpaceFor (cs.length + 1) cs

/-- Reads the longest run of identifier characters, given how many were read and whether the first
one was a dash: a digit cannot stand first, nor second behind a dash. -/
def identifierRun (count : Nat) (dash : Bool) : List Char → List Char × List Char
  | [] => ([], [])
  | c :: cs =>
    let digitAllowed := 2 ≤ count || (count = 1 && !dash)
    if c.isAlpha || c = '_' || c = '-' || (digitAllowed && c.isDigit) then
      let (word, rest) := identifierRun (count + 1) (if count = 0 then c = '-' else dash) cs
      (c :: word, rest)
    else
      ([], c :: cs)

/-- Reads an identifier; a dash alone and a double dash in front are none. -/
def identifier? (cs : List Char) : Option (List Char × List Char) :=
  let (word, rest) := identifierRun 0 false cs
  if (word.take 2).all (· = '-') then none else some (word, rest)

/-- The value of a run of decimal digits. -/
def digitsValue (digits : List Char) : Nat := (Text.numeral? 10 digits).getD 0

/-- Reads the exponent of a number; zero where there is none. -/
def exponent (cs : List Char) : Int × List Char :=
  match cs with
  | [] => (0, [])
  | c :: tail =>
    if c = 'e' ∨ c = 'E' then
      let (negative, digits) :=
        match tail with
        | '+' :: digits => (false, digits)
        | '-' :: digits => (true, digits)
        | digits => (false, digits)
      let run := digits.takeWhile Char.isDigit
      if run.isEmpty then (0, cs)
      else
        let value : Int := digitsValue run
        (if negative then -value else value, digits.dropWhile Char.isDigit)
    else
      (0, cs)

/-- Reads a decimal number. -/
def number? (cs : List Char) : Option (Float × List Char) :=
  let (negative, cs) :=
    match cs with
    | '+' :: rest => (false, rest)
    | '-' :: rest => (true, rest)
    | _ => (false, cs)
  let whole := cs.takeWhile Char.isDigit
  let behind := cs.dropWhile Char.isDigit
  let (fraction, rest) :=
    match behind with
    | '.' :: tail =>
      let run := tail.takeWhile Char.isDigit
      if run.isEmpty then ([], behind) else (run, tail.dropWhile Char.isDigit)
    | _ => ([], behind)
  if whole.isEmpty && fraction.isEmpty then none
  else
    let (e, rest) := exponent rest
    let value := Decimal.toDouble (digitsValue (whole ++ fraction)) (e - fraction.length)
    some (if negative then -value else value, rest)

/-- Reads a component: a number times `scale`, a percentage, or `none` in either case of
letters. -/
def component (scale : Float) (cs : List Char) : Reading (Option Float) :=
  let cs := skipSpace cs
  match number? cs with
  | some (value, '%' :: rest) => .ok (some (value * 0.01), rest)
  | some (value, rest) =>
    if (identifier? rest).isSome then .error .unknownComponent else .ok (some (value * scale), rest)
  | none =>
    match identifier? cs with
    | some (word, rest) =>
      if word.map Char.toLower = "none".toList then .ok (none, rest) else .error .unknownComponent
    | none => .error .unknownComponent

/-- A value between 0 and 1. -/
def unit (x : Float) : Float :=
  if x < 0 then 0 else if 1 < x then 1 else x

/-- Reads one of red, green and blue. -/
def channel (cs : List Char) : Reading (Option Float) :=
  (component (1 / 255) cs).map fun (value, rest) => (value.map unit, rest)

/-- Takes the separator in front of an opacity. The slash that starts an unclosed comment is
none. -/
def separated? (separator : Char) (cs : List Char) : Option (List Char) :=
  match skipSpace cs with
  | '/' :: '*' :: _ => none
  | c :: rest => if c = separator then some rest else none
  | [] => none

/-- Reads the opacity behind its separator; a color without one is opaque. -/
def opacity (separator : Char) (cs : List Char) : Reading (Option Float) :=
  match separated? separator cs with
  | some rest => (component 1 rest).map fun (value, rest) => (value.map unit, rest)
  | none => .ok (some 1, cs)

/-- Reads the arguments of `rgb`. A comma behind the first one asks for a comma behind the second
and for one before the opacity; without commas, the opacity stands behind a slash. -/
def arguments (cs : List Char) : Except ColorFault (Color × List Char) := do
  let cs ← match cs with
    | '(' :: rest => pure rest
    | _ => throw .noArguments
  let (red, cs) ← channel cs
  let (commas, cs) := match skipSpace cs with
    | ',' :: rest => (true, rest)
    | rest => (false, rest)
  let (green, cs) ← channel cs
  let cs ← match commas, skipSpace cs with
    | true, ',' :: rest => pure rest
    | true, _ => throw .noComma
    | false, rest => pure rest
  let (blue, cs) ← channel cs
  let (alpha, cs) ← opacity (if commas then ',' else '/') cs
  match skipSpace cs with
  | ')' :: rest =>
    let single (x : Option Float) : ColorComponent := x.map Float.toFloat32
    return (components (single red) (single green) (single blue) (single alpha), rest)
  | _ => throw .noClosingParenthesis

/-- The component that a byte stands for. -/
def ofByte (byte : Nat) : ColorComponent :=
  some (Float32.ofNat byte * ((1 : Float32) / 255))

/-- The color of 3, 4, 6 or 8 hexadecimal digits; a single digit stands for two equal ones. -/
def ofHexDigits? (digits : List Nat) : Option Color :=
  let rgba (r g b a : Nat) : Option Color :=
    some (components (ofByte r) (ofByte g) (ofByte b) (ofByte a))
  match digits with
  | [r, g, b] => rgba (17 * r) (17 * g) (17 * b) 255
  | [r, g, b, a] => rgba (17 * r) (17 * g) (17 * b) (17 * a)
  | [r, r', g, g', b, b'] => rgba (16 * r + r') (16 * g + g') (16 * b + b') 255
  | [r, r', g, g', b, b', a, a'] =>
    rgba (16 * r + r') (16 * g + g') (16 * b + b') (16 * a + a')
  | _ => none

/-- Reads up to eight hexadecimal digits. -/
def hexadecimal (cs : List Char) : Reading Color :=
  let digits := (cs.take 8).takeWhile (Text.isDigitIn 16)
  match ofHexDigits? (digits.filterMap (Text.digitValue? 16)) with
  | some color => .ok (color, cs.drop digits.length)
  | none => .error .wrongHexDigits

/-- Reads a color at the front of a text. -/
def read : List Char → Reading Color
  | '#' :: cs => hexadecimal cs
  | cs =>
    match identifier? cs with
    | none => .error .unknownForm
    | some (word, rest) =>
      let name := String.ofList (word.map Char.toLower)
      if name = "rgb" ∨ name = "rgba" then arguments rest
      else if name ∈ keywords then .ok (keyword name, rest)
      else .error .unknownIdentifier

/-- The color that a text stands for; white space around it is ignored. -/
def ofText (text : String) : Except ColorFault Color := do
  let (color, rest) ← read (Text.trim text.toList)
  if rest.isEmpty then return color else throw .trailingText

/-- The message for a text that is no color. -/
def faultMessage (text : String) (fault : ColorFault) : String :=
  s!"invalid color `{text}`: {fault.message}"

/-! ### Writing -/

/-- The color of lines where no other is set. -/
def standard : Color := keyword "black"

/-- Whether a color is the standard one, given by its name. -/
def isStandard : Color → Bool
  | keyword name => name = "black"
  | components .. => false

/-- A component times `scale`. -/
def componentText (scale : Float32) (c : ColorComponent) : String :=
  c.elim "none" fun x => Decimal.singleText (x * scale)

/-- Whether an opacity is below one; one left open counts as zero. -/
def isTransparent (alpha : ColorComponent) : Bool :=
  alpha.elim true fun x => x < 1

/-- A color as text. The opacity is written only if it is below one. -/
def text : Color → String
  | keyword name => name
  | components red green blue alpha =>
    let channels := [red, green, blue].map (componentText 255)
    if isTransparent alpha then
      let all := ", ".intercalate (channels ++ [componentText 1 alpha])
      s!"rgba({all})"
    else
      let all := ", ".intercalate channels
      s!"rgb({all})"

end Color

end UmlText
