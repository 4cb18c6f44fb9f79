import UmlText.Decimal.Nearest
import UmlText.Settings.Value
import UmlText.Text.Digit
import UmlText.Text.Search

/-!
# Words of configuration files

A value without quotes is a word: a Boolean, an integer, a float, or a date or time. Of these only
integers are used as settings; the others are checked and then told apart no further.
-/

namespace UmlText.Toml

/-! ### Integers -/

/-- Whether underscores stand only between digits. -/
def underscoresSeparate : List Char → Bool
  | [] => true
  | ['_'] => false
  | '_' :: '_' :: _ => false
  | _ :: rest => underscoresSeparate rest

/-- The digits of a run in which underscores may separate digits. -/
def digits? (base : Nat) (cs : List Char) : Option (List Char) :=
  let digits := cs.filter (· ≠ '_')
  let separated := cs.head? ≠ some '_' && underscoresSeparate cs
  if separated && !digits.isEmpty && digits.all (Text.isDigitIn base) then some digits else none

/-- The digits of a decimal number without leading zeros. -/
def wholeDigits? (cs : List Char) : Option (List Char) := do
  let digits ← digits? 10 cs
  if 1 < digits.length && digits.head? = some '0' then none else some digits

/-- A sign, and what is behind it. -/
def signed (cs : List Char) : Bool × List Char :=
  match cs with
  | '+' :: rest => (false, rest)
  | '-' :: rest => (true, rest)
  | _ => (false, cs)

/-- The base that a letter behind a leading zero stands for. -/
def baseOf? : Char → Option Nat
  | 'x' => some 16
  | 'o' => some 8
  | 'b' => some 2
  | _ => none

/-- A number in the base that its second character stands for; it has no sign. -/
def based? : List Char → Option Nat
  | '0' :: mark :: rest => do
    let base ← baseOf? mark
    Text.numeral? base (← digits? base rest)
  | _ => none

/-- The value of an integer, of any size. -/
def integer? (cs : List Char) : Option Int :=
  let (negative, body) := signed cs
  (based? cs).map Int.ofNat <|> do
    let value ← Text.numeral? 10 (← wholeDigits? body)
    return if negative then -(value : Int) else value

/-- The smallest integer of 128 bits with a sign. -/
def lowest : Int := -170141183460469231731687303715884105728

/-- The largest integer of 128 bits without a sign. -/
def highest : Int := 340282366920938463463374607431768211455

/-! ### Floats -/

/-- The exponent of a float. -/
def exponent? (cs : List Char) : Option Int := do
  let (negative, body) := signed cs
  let value ← Text.numeral? 10 (← digits? 10 body)
  return if negative then -(value : Int) else value

/-- The digits in front of the point and behind it, of which the latter may be missing. -/
def fractional? (cs : List Char) : Option (List Char × List Char) :=
  match Text.cutFirst? '.' cs with
  | some (whole, fraction) => do return (← wholeDigits? whole, ← digits? 10 fraction)
  | none => do return (← wholeDigits? cs, [])

/-- A decimal with a fraction, an exponent or both, as a mantissa and a power of ten. -/
def decimal? (cs : List Char) : Option (Nat × Int) := do
  let (body, exponent) ← match Text.cutFirst? 'e' (cs.map Char.toLower) with
    | some (body, behind) => do pure (body, ← exponent? behind)
    | none => if '.' ∈ cs then pure (cs, 0) else none
  let (whole, fraction) ← fractional? body
  return (← Text.numeral? 10 (whole ++ fraction), exponent - fraction.length)

/-- Whether a word is a float: one of the special ones, or a decimal that is not beyond all finite
doubles. -/
def isFloat (cs : List Char) : Bool :=
  let (_, body) := signed cs
  body = "inf".toList || body = "nan".toList
    || (decimal? body).any fun (mantissa, exponent) =>
      Decimal.doubleBits mantissa exponent < Decimal.infinityBits

/-! ### Dates and times -/

/-- Reads a number of exactly `count` digits. -/
def fixedDigits? (count : Nat) (cs : List Char) : Option (Nat × List Char) := do
  let digits := cs.take count
  if digits.length = count then return (← Text.numeral? 10 digits, cs.drop count) else none

/-- Reads a separator and a number of two digits behind it. -/
def separated? (separator : Char) : List Char → Option (Nat × List Char)
  | [] => none
  | c :: rest => if c = separator then fixedDigits? 2 rest else none

def isLeapYear (year : Nat) : Bool :=
  year % 4 = 0 && (year % 100 ≠ 0 || year % 400 = 0)

/-- The number of days of a month, counted from one. -/
def daysIn (year month : Nat) : Nat :=
  if month = 2 then if isLeapYear year then 29 else 28
  else if month ∈ [4, 6, 9, 11] then 30
  else 31

/-- The text behind a date. -/
def date? (cs : List Char) : Option (List Char) := do
  let (year, cs) ← fixedDigits? 4 cs
  let (month, cs) ← separated? '-' cs
  let (day, cs) ← separated? '-' cs
  if 1 ≤ month ∧ month ≤ 12 ∧ 1 ≤ day ∧ day ≤ daysIn year month then some cs else none

/-- The text behind the fraction of a second, which may be missing. -/
def secondFraction? : List Char → Option (List Char)
  | '.' :: rest =>
    match rest.takeWhile Char.isDigit with
    | [] => none
    | _ => some (rest.dropWhile Char.isDigit)
  | cs => some cs

/-- The text behind a time of day, of which the seconds may be missing. -/
def time? (cs : List Char) : Option (List Char) := do
  let (hour, cs) ← fixedDigits? 2 cs
  let (minute, cs) ← separated? ':' cs
  if 23 < hour ∨ 59 < minute then none
  else
    match cs with
    | ':' :: _ =>
      let (second, cs) ← separated? ':' cs
      if 60 < second then none else secondFraction? cs
    | cs => some cs

/-- Whether a text is nothing or an offset from universal time. -/
def isOffset (cs : List Char) : Bool :=
  match cs with
  | [] | ['Z'] | ['z'] => true
  | sign :: cs =>
    (sign = '+' || sign = '-') &&
      match fixedDigits? 2 cs with
      | some (hours, cs) =>
        hours ≤ 23 && (separated? ':' cs).any fun (minutes, cs) => minutes ≤ 59 && cs.isEmpty
      | none => false

/-- Whether a word is a date, a time of day, or both. -/
def isMoment (cs : List Char) : Bool :=
  match date? cs with
  | some [] => true
  | some (c :: rest) => (c = 'T' || c = 't' || c = ' ') && (time? rest).any isOffset
  | none => time? cs = some []

/-! ### Words -/

def isWordChar (c : Char) : Bool := c ∉ [' ', '\t', '\n', '\r', '#', ',', ']', '}']

/-- Cuts off the word in front of a text. One space may stand between a date and a time. -/
def cutWord (cs : List Char) : List Char × List Char :=
  let word := cs.takeWhile isWordChar
  let rest := cs.dropWhile isWordChar
  match rest with
  | ' ' :: c :: more =>
    if date? word = some [] && c.isDigit then
      (word ++ ' ' :: (c :: more).takeWhile isWordChar, more.dropWhile isWordChar)
    else (word, rest)
  | _ => (word, rest)

/-- The value of a word. A date is a table of parts, none of which is a setting. -/
def wordValue? (word : List Char) : Option ConfigValue :=
  if word = "true".toList ∨ word = "false".toList then some .other
  else
    match integer? word with
    | some n => if lowest ≤ n ∧ n ≤ highest then some (.integer n) else none
    | none =>
      if isFloat word then some .other
      else if isMoment word then some (.table [])
      else none

end UmlText.Toml
