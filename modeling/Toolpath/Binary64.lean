import Toolpath.Scalar

/-!
Double precision numbers as scalars. A double is taken apart into sign, mantissa and power of two;
remainders, hypotenuses, decimals and their texts are computed on whole numbers and rounded once,
to the nearest double with ties to even.
-/

set_option autoImplicit false

namespace Toolpath.Binary64

/-- What a double stands for: `± mantissa · 2 ^ exponent` where it is finite. -/
inductive Parts
  | nan
  | infinite (negative : Bool)
  | finite (negative : Bool) (mantissa : Nat) (exponent : Int)

def leastExponent : Int := -1074

def parts (x : Float) : Parts :=
  let bits := x.toBits.toNat
  let negative := decide (twoPow 63 ≤ bits)
  let biased := bits / twoPow 52 % 2048
  let fraction := bits % twoPow 52
  if biased = 2047 then
    if fraction = 0 then .infinite negative else .nan
  else if biased = 0 then .finite negative fraction leastExponent
  else .finite negative (twoPow 52 + fraction) (leastExponent + (biased - 1 : Nat))

/-- The double with the given sign and the bits of a double that is not negative. -/
def withSign (negative : Bool) (bits : Nat) : Float :=
  Float.ofBits (UInt64.ofNat (if negative then twoPow 63 + bits else bits))

def infiniteBits : Nat := 2047 * twoPow 52

/-- The quotient rounded to the nearest whole number, a half to the even one. -/
def roundDiv (num den : Nat) : Nat :=
  let q := num / den
  let twice := 2 * (num % den)
  if twice < den then q
  else if den < twice then q + 1
  else if q % 2 = 0 then q else q + 1

/-- `num / den · 2 ^ k` as a quotient of whole numbers. -/
def scaled (num den : Nat) (k : Int) : Nat × Nat :=
  if 0 ≤ k then (num * twoPow k.toNat, den) else (num, den * twoPow (-k).toNat)

/-- The double nearest to `± num / den · 2 ^ k`, for a positive `den`. -/
def ofQuotient (negative : Bool) (num den : Nat) (k : Int) : Float :=
  if num = 0 then withSign negative 0
  else
    -- The quotient lies between 2 ^ (guess - 1) and 2 ^ (guess + 1).
    let guess : Int := (num.log2 : Int) - den.log2 + k
    let place (e : Int) : Nat × Nat := scaled num den (k - e)
    let low : Int := max leastExponent (guess - 53)
    let (n, d) := place low
    -- One place further if 53 bits do not hold the quotient.
    let e := if n / d < twoPow 53 then low else low + 1
    let (n, d) := place e
    let bits := (e - leastExponent).toNat * twoPow 52 + roundDiv n d
    withSign negative (min bits infiniteBits)

def ofDecimal (d : Decimal) : Float :=
  if d.mantissa = 0 then withSign d.negative 0
  else
    -- Bounds on the position of the leading digit keep the powers of ten small.
    let leading : Int := d.mantissa.log2 / 4 + d.exponent
    let trailing : Int := d.mantissa.log2 + 1 + d.exponent
    if 400 < leading then withSign d.negative infiniteBits
    else if trailing < -400 then withSign d.negative 0
    else if 0 ≤ d.exponent then
      ofQuotient d.negative (d.mantissa * tenPow d.exponent.toNat) 1 0
    else ofQuotient d.negative d.mantissa (tenPow (-d.exponent).toNat) 0

/-- The whole part of the square root of `n`, reached from a guess that is not below it: the mean of
a guess and its quotient is not below it either, and nearer as long as the guess is too great. -/
def rootFrom (n guess : Nat) : Nat :=
  let next := (guess + n / guess) / 2
  if next < guess then rootFrom n next else guess
termination_by guess

/-- The greatest whole number whose square is not above `n`. -/
def isqrt (n : Nat) : Nat := if n = 0 then 0 else rootFrom n (twoPow (n.log2 / 2 + 1))

/-- The length of the hypotenuse: the exact sum of squares, and one rounding of its root. -/
def hypot (x y : Float) : Float :=
  match parts x, parts y with
  | .infinite _, _ => withSign false infiniteBits
  | _, .infinite _ => withSign false infiniteBits
  | .nan, _ => x
  | _, .nan => y
  | .finite _ m e, .finite _ n f =>
    let ahead : Int := (m.log2 + e) - (n.log2 + f)
    -- A leg that is shorter by so much does not reach half of the last place.
    if m = 0 ∨ n ≠ 0 ∧ ahead < -60 then y.abs
    else if n = 0 ∨ 60 < ahead then x.abs
    else
      let low := min e f
      let a := m * twoPow (e - low).toNat
      let b := n * twoPow (f - low).toNat
      let squares := a * a + b * b
      -- Eight binary places below the root, and one more that tells whether they are exact.
      let root := isqrt (squares * twoPow 16)
      let exact := root * root = squares * twoPow 16
      ofQuotient false (if exact then 2 * root else 2 * root + 1) 1 (low - 9)

/-- The remainder of the truncating division, exact and with the sign of the dividend. -/
def remainder (x y : Float) : Float :=
  match parts x, parts y with
  | .finite s m e, .finite _ n f =>
    if n = 0 then 0.0 / 0.0
    else
      let low := min e f
      let r := (m * twoPow (e - low).toNat) % (n * twoPow (f - low).toNat)
      ofQuotient s r 1 low
  | .finite _ _ _, .infinite _ => x
  | _, _ => 0.0 / 0.0

def greatestCount : Nat := twoPow 64 - 1

def floorNat (x : Float) : Nat :=
  match parts x with
  | .finite false m e =>
    let (n, d) := scaled m 1 e
    min (n / d) greatestCount
  | .infinite false => greatestCount
  | _ => 0

def ceilNat (x : Float) : Nat :=
  match parts x with
  | .finite false m e =>
    let (n, d) := scaled m 1 e
    min ((n + d - 1) / d) greatestCount
  | .infinite false => greatestCount
  | _ => 0

/-- The position of a double among all: what is no number first, negative zero just below zero. -/
def rank (x : Float) : Int :=
  let bits := x.toBits.toNat
  if x.isNaN then -(twoPow 64 : Int)
  else if bits < twoPow 63 then bits
  else twoPow 63 - 1 - (bits : Int)

def roundTo (places : Nat) (x : Float) : Numeral :=
  match parts x with
  | .nan => .nan
  | .infinite s => .infinite s
  | .finite s m e =>
    let (n, d) := scaled (m * tenPow places) 1 e
    .finite ⟨s, roundDiv n d, -(places : Int)⟩

/-- `num / den · 10 ^ k` as a quotient of whole numbers. -/
def shifted (num den : Nat) (k : Int) : Nat × Nat :=
  if 0 ≤ k then (num * tenPow k.toNat, den) else (num, den * tenPow (-k).toNat)

/-- The place of the leading digit of `num / den`: the quotient is at least `10 ^ place`. -/
def leadingPlace (num den : Nat) : Int :=
  -- Thirty bits are a little more than nine digits, so the guess is at most a few places low.
  let guess : Int := ((num.log2 : Int) - den.log2 - 1) * 30103 / 100000 - 1
  let fits (k : Int) : Bool :=
    let (n, d) := shifted num den (-k)
    decide (d ≤ n)
  if fits (guess + 3) then guess + 3
  else if fits (guess + 2) then guess + 2
  else if fits (guess + 1) then guess + 1
  else guess

/-- The nearest number of so many significant digits, at least one. -/
def roundSignificant (digits : Nat) (x : Float) : Numeral :=
  match parts x with
  | .nan => .nan
  | .infinite s => .infinite s
  | .finite s m e =>
    if m = 0 then .finite ⟨s, 0, 0⟩
    else
      let (num, den) := scaled m 1 e
      let unit := leadingPlace num den - (digits - 1 : Nat)
      let (n, d) := shifted num den (-unit)
      let q := roundDiv n d
      -- Rounding up may need one more digit, which is then a zero at the end.
      if q = tenPow digits then .finite ⟨s, q / 10, unit + 1⟩ else .finite ⟨s, q, unit⟩

/-- The value of a decimal grid at `unit` that lies in the range from `low` to `high`, ends
included or not, and is nearest to the middle, the upper one of two at the same distance. -/
def nearestInside (low middle high den : Nat) (ends : Bool) (unit : Int) : Option Nat :=
  let (m, d) := shifted middle den (-unit)
  let (l, _) := shifted low den (-unit)
  let (h, _) := shifted high den (-unit)
  let below := m / d
  let inside (k : Nat) : Bool :=
    let v := k * d
    if ends then decide (l ≤ v ∧ v ≤ h) else decide (l < v ∧ v < h)
  match inside below, inside (below + 1) with
  | true, true => if 2 * (m % d) < d then some below else some (below + 1)
  | true, false => some below
  | false, true => some (below + 1)
  | false, false => none

/-- The first grid with a point in the range, from coarse to fine. -/
def shortestDigits (low middle high den : Nat) (ends : Bool) : Nat → Int → Decimal
  | 0, unit =>
    let (m, d) := shifted middle den (-unit)
    ⟨false, roundDiv m d, unit⟩
  | fuel + 1, unit =>
    match nearestInside low middle high den ends unit with
    | some k => ⟨false, k, unit⟩
    | none => shortestDigits low middle high den ends fuel (unit - 1)

/-- The fewest digits that read back as the same double, and the nearest of these. -/
def shortest (x : Float) : Numeral :=
  match parts x with
  | .nan => .nan
  | .infinite s => .infinite s
  | .finite s m e =>
    if m = 0 then .finite ⟨s, 0, 0⟩
    else
      -- In quarters of the last place; below a power of two the gap is half as wide.
      let narrow := m = twoPow 52 ∧ leastExponent < e
      let (middle, den) := scaled (4 * m) 1 (e - 2)
      let (high, _) := scaled (4 * m + 2) 1 (e - 2)
      let (low, _) := scaled (if narrow then 4 * m - 1 else 4 * m - 2) 1 (e - 2)
      let start := leadingPlace middle den + 1
      let d := shortestDigits low middle high den (m % 2 = 0) 18 start
      .finite ({ d with negative := s } : Decimal).reduced

instance : Scalar Float where
  decideLt := fun a b => inferInstanceAs (Decidable (a < b))
  decideLe := fun a b => inferInstanceAs (Decidable (a ≤ b))
  natCast := Float.ofNat
  pi := 3.141592653589793
  sqrt := Float.sqrt
  hypot := hypot
  sin := Float.sin
  cos := Float.cos
  atan2 := Float.atan2
  remainder := remainder
  floorNat := floorNat
  ceilNat := ceilNat
  totalCompare x y := compare (rank x) (rank y)
  roundTo := roundTo
  shortest := shortest
  ofDecimal := ofDecimal

def scientific (x : Float) : String := (shortest x).scientific

/-- The text of ten significant digits with a power of ten, and one zero for all that is less than
a billionth. -/
def tenDigits (x : Float) : String :=
  if Scalar.abs x < 1e-9 then "0" else (roundSignificant 10 x).scientific

end Toolpath.Binary64
