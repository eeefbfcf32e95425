import Toolpath.Decimal

/-!
The numbers that lengths, angles and feeds are made of. Everything that computes with them is
written against this interface, so that it runs on doubles and can be reasoned about on reals.
-/

set_option autoImplicit false

namespace Toolpath

/-- Arithmetic, trigonometry, rounding to whole numbers, and the way to and from decimals. -/
class Scalar (α : Type) extends
    Add α, Sub α, Mul α, Div α, Neg α, LT α, LE α, BEq α, NatCast α, OfScientific α where
  decideLt : DecidableRel (fun a b : α => a < b)
  decideLe : DecidableRel (fun a b : α => a ≤ b)
  pi : α
  sqrt : α → α
  /-- Length of the hypotenuse, without overflow on the way. -/
  hypot : α → α → α
  sin : α → α
  cos : α → α
  /-- Angle of the direction `(x, y)`, given as `atan2 y x`. -/
  atan2 : α → α → α
  /-- Remainder of the division that truncates towards zero. -/
  remainder : α → α → α
  /-- Greatest natural number not above the value, and zero where there is none. -/
  floorNat : α → Nat
  /-- Least natural number not below the value, as far as counters reach. -/
  ceilNat : α → Nat
  /-- A total order that tells apart what `≤` does not; what is no number comes first. -/
  totalCompare : α → α → Ordering
  /-- The nearest number of so many places, a half going to the even neighbour. -/
  roundTo : Nat → α → Numeral
  /-- The number with the fewest digits that reads back as the value. -/
  shortest : α → Numeral
  ofDecimal : Decimal → α

namespace Scalar

variable {α : Type} [Scalar α]

instance (x y : α) : Decidable (x < y) := decideLt x y

instance (x y : α) : Decidable (x ≤ y) := decideLe x y

def abs (x : α) : α := if x < 0.0 then -x else x

/-- The greater of two values, or the one that is a number. -/
def max (x y : α) : α := if x < y then y else if x ≤ x then x else y

def min (x y : α) : α := if y < x then y else if x ≤ x then x else y

def clamp (x lo hi : α) : α := if x < lo then lo else if hi < x then hi else x

def square (x : α) : α := x * x

/-- A value that is neither infinite nor undefined differs from itself by zero. -/
def isFinite (x : α) : Bool := decide (x - x ≤ x - x)

/-- A value that is not comparable with itself is undefined. -/
def isNaN (x : α) : Bool := !decide (x ≤ x)

/-- Remainder that is never negative. -/
def modulo (x y : α) : α :=
  let r := remainder x y
  if r < 0.0 then r + abs y else r

def radians (degrees : α) : α := degrees * (pi / 180.0)

def degrees (radians : α) : α := radians * (180.0 / pi)

/-- The same direction as an angle from 0 up to, but not including, 360 degrees. -/
def normalizeDegrees (angle : α) : α :=
  let a := modulo angle 360.0
  -- A tiny negative angle may round up to the full circle.
  if 360.0 ≤ a then 0.0 else a

def sum (xs : List α) : α := xs.foldl (· + ·) 0.0

def fixed (places : Nat) (x : α) : String := (roundTo places x).text

/-- The shortest text that reads back as the value, never with a power of ten. -/
def plain (x : α) : String := (shortest x).text

def coordinateNumeral (x : α) : Numeral :=
  if abs x < 0.0005 then .finite ⟨false, 0, -3⟩ else roundTo 3 x

def coordinate (x : α) : String := (coordinateNumeral x).text

end Scalar

end Toolpath
