import Toolpath.Decimal

/-!
Number texts as parameters hold them: an optional sign, digits with at most one point among them,
and an optional power of ten. The names of infinity and of no number are read as absent, because no
parameter may take such a value.
-/

set_option autoImplicit false

namespace Toolpath.Decimal

def takeDigits (cs : List Char) : List Char × List Char := cs.span Char.isDigit

def takeSign : List Char → Bool × List Char
  | '-' :: rest => (true, rest)
  | '+' :: rest => (false, rest)
  | rest => (false, rest)

/-- A power of ten that fills the rest of the text, or no text at all. -/
def readExponent? : List Char → Option Int
  | [] => some 0
  | c :: rest =>
    if c = 'e' ∨ c = 'E' then
      let (negative, digits) := takeSign rest
      if digits ≠ [] ∧ digits.all Char.isDigit then
        let n : Int := Nat.ofDigitChars 10 digits 0
        some (if negative then -n else n)
      else none
    else none

def ofText? (text : List Char) : Option Decimal :=
  let (negative, unsigned) := takeSign text
  let (whole, rest) := takeDigits unsigned
  let (places, rest) := match rest with
    | '.' :: rest => takeDigits rest
    | rest => ([], rest)
  if whole = [] ∧ places = [] then none
  else do
    let exponent ← readExponent? rest
    some ⟨negative, Nat.ofDigitChars 10 (whole ++ places) 0, exponent - places.length⟩

end Toolpath.Decimal
