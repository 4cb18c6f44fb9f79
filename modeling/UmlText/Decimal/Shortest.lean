/-!
# The shortest decimal that reads back

A binary floating-point number stands for every real that rounds to it. Of the decimals in that
interval, the ones on the coarsest decimal grid have the fewest digits; the text of the number is
the nearest of them, written without an exponent.
-/

namespace UmlText.Decimal

/-- A positive number `mantissa * 2 ^ exponent`. If `isLowest` it is the least one with its
exponent, so that the gap below it is half as wide as the gap above. -/
structure Binary where
  mantissa : Nat
  exponent : Int
  isLowest : Bool
deriving DecidableEq, Repr

/-- A quarter of the unit in the last place is `quarterNum / quarterDen`. -/
def Binary.quarterNum (b : Binary) : Nat := Nat.pow 2 (b.exponent - 2).toNat

def Binary.quarterDen (b : Binary) : Nat := Nat.pow 2 (2 - b.exponent).toNat

/-- Whether `num / den` rounds to the number: it is within half a gap, and at exactly half a gap
the even mantissa wins. -/
def Binary.reads (b : Binary) (num den : Nat) : Bool :=
  let low := (4 * b.mantissa - if b.isLowest then 1 else 2) * b.quarterNum * den
  let high := (4 * b.mantissa + 2) * b.quarterNum * den
  let x := num * b.quarterDen
  if b.mantissa % 2 = 0 then low ≤ x && x ≤ high else low < x && x < high

/-- The multiple of `10 ^ place` nearest to the number among the two around it that read back; the
upper one if both are equally near. -/
def Binary.nearestAt? (b : Binary) (place : Int) : Option Nat :=
  let gridNum := Nat.pow 10 place.toNat
  let gridDen := Nat.pow 10 (-place).toNat
  let num := 4 * b.mantissa * b.quarterNum * gridDen
  let den := b.quarterDen * gridNum
  let below := num / den
  let candidates := if 2 * (num % den) < den then [below, below + 1] else [below + 1, below]
  candidates.find? fun k => b.reads (k * gridNum) gridDen

/-- The decimal places that single-precision numbers need, coarsest first. -/
def places : List Int := (List.range 100).map fun (i : Nat) => 39 - (i : Int)

/-- The shortest decimal of a number, as a multiple of `10 ^ place`. -/
def Binary.shortest? (b : Binary) : Option (Nat × Int) :=
  places.findSome? fun place => (b.nearestAt? place).map (·, place)

/-- A multiple of `10 ^ place` without an exponent. -/
def positional (k : Nat) (place : Int) : String :=
  if 0 ≤ place then toString (k * Nat.pow 10 place.toNat)
  else
    let digits := (-place).toNat
    let unit := Nat.pow 10 digits
    let fraction := toString (k % unit)
    let zeros := String.ofList (List.replicate (digits - fraction.length) '0')
    s!"{k / unit}.{zeros}{fraction}"

/-- The number of values of the fraction field of a single-precision number. -/
def fractionRange : Nat := 8388608

/-- The number of values of its exponent field. -/
def exponentRange : Nat := 256

/-- The bits of a finite single-precision number other than zero, without its sign, as mantissa and
exponent. -/
def Binary.ofSingle (bits : Nat) : Binary :=
  let field := bits / fractionRange % exponentRange
  let fraction := bits % fractionRange
  if field = 0 then ⟨fraction, -149, false⟩
  else ⟨fraction + fractionRange, (field : Int) - 150, fraction = 0 && 1 < field⟩

/-- The shortest text of a finite single-precision number. Zero keeps its sign. -/
def singleText (x : Float32) : String :=
  let bits := x.toBits.toNat
  let signWeight := fractionRange * exponentRange
  let sign := if signWeight ≤ bits then "-" else ""
  let magnitude := bits % signWeight
  let digits :=
    if magnitude = 0 then "0"
    else ((Binary.ofSingle magnitude).shortest?.map fun (k, place) => positional k place).getD "0"
  sign ++ digits

end UmlText.Decimal
