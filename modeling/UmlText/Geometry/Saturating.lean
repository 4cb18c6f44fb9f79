/-!
# Saturating arithmetic on grid coordinates

The diagram grid has 32-bit signed coordinates. Where user settings can push a coordinate off the
grid, sums and products stop at its border instead of leaving it.
-/

namespace UmlText.Saturating

/-- The smallest grid coordinate. -/
def lowest : Int := -2147483648

/-- The largest grid coordinate. -/
def highest : Int := 2147483647

/-- Whether `n` is a grid coordinate. -/
def onGrid (n : Int) : Bool := lowest ≤ n && n ≤ highest

/-- The grid coordinate nearest to `n`. -/
def clamp (n : Int) : Int := max lowest (min highest n)

/-- A sum, stopped at the border of the grid. -/
def add (a b : Int) : Int := clamp (a + b)

/-- A product, stopped at the border of the grid. -/
def mul (a b : Int) : Int := clamp (a * b)

/-- A count as a coordinate; one that is too large for the grid becomes `fallback`. -/
def ofNat (n : Nat) (fallback : Int) : Int :=
  if (n : Int) ≤ highest then n else fallback

end UmlText.Saturating
