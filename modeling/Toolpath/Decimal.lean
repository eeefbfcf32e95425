import Toolpath.Powers

/-!
Decimal numbers and the one positional way in which they are printed. A fixed number of places and
the fewest digits differ only in the decimal that is chosen, so both are printed by `Numeral.text`.
-/

set_option autoImplicit false

namespace Toolpath

/-- The number `± mantissa · 10 ^ exponent`; the sign is kept for zero too. -/
structure Decimal where
  negative : Bool
  mantissa : Nat
  exponent : Int
  deriving DecidableEq, Repr

inductive Numeral
  | nan
  | infinite (negative : Bool)
  | finite (value : Decimal)
  deriving DecidableEq, Repr

namespace Decimal

/-- `n` in exactly `places` digits, as long as it has no more than these. -/
def padded (places n : Nat) : List Char :=
  let digits := Nat.toDigits 10 n
  List.replicate (places - digits.length) '0' ++ digits

/-- The digits of `mantissa · 10 ^ exponent`, with a point if the exponent is negative. -/
def magnitude (mantissa : Nat) : Int → List Char
  | .ofNat zeros =>
    if mantissa = 0 then ['0'] else Nat.toDigits 10 mantissa ++ List.replicate zeros '0'
  | .negSucc k =>
    let unit := tenPow (k + 1)
    Nat.toDigits 10 (mantissa / unit) ++ '.' :: padded (k + 1) (mantissa % unit)

/-- The positional text: as many places as the exponent asks for. -/
def text (d : Decimal) : List Char :=
  let digits := magnitude d.mantissa d.exponent
  if d.negative then '-' :: digits else digits

/-- The text with one digit before the point and the exponent after an `e`. -/
def scientific (d : Decimal) : List Char :=
  let digits := Nat.toDigits 10 d.mantissa
  let exponent : Int := if d.mantissa = 0 then 0 else d.exponent + (digits.length - 1 : Nat)
  let body := match digits with
    | first :: next :: rest => first :: '.' :: next :: rest
    | short => short
  (if d.negative then ['-'] else []) ++ body ++ 'e' :: (toString exponent).toList

/-- The same number without zeros at the end of its mantissa; `fuel` bounds their count. -/
def dropZeros : Nat → Nat → Int → Nat × Int
  | 0, m, e => (m, e)
  | fuel + 1, m, e => if m % 10 = 0 then dropZeros fuel (m / 10) (e + 1) else (m, e)

/-- The decimal of the same value with the shortest mantissa. -/
def reduced (d : Decimal) : Decimal :=
  if d.mantissa = 0 then ⟨d.negative, 0, 0⟩
  else
    let (m, e) := dropZeros d.mantissa.log2 d.mantissa d.exponent
    ⟨d.negative, m, e⟩

end Decimal

namespace Numeral

/-- The text of a number that is not finite, and of a finite one as `digits` writes it. -/
def textBy (digits : Decimal → List Char) : Numeral → String
  | .nan => "NaN"
  | .infinite false => "inf"
  | .infinite true => "-inf"
  | .finite d => String.ofList (digits d)

def text (n : Numeral) : String := n.textBy Decimal.text

def scientific (n : Numeral) : String := n.textBy Decimal.scientific

end Numeral

end Toolpath
