import Toolpath.Decimal.Reading
import Toolpath.Json

/-!
Reading values from their written form, which allows neither comments nor anything after the value.
-/

set_option autoImplicit false

namespace Toolpath.Json

def isSpace (c : Char) : Bool := c == ' ' || c == '\t' || c == '\n' || c == '\r'

def skipSpace (cs : List Char) : List Char := cs.dropWhile isSpace

def hexValue? (c : Char) : Option Nat :=
  if c.isDigit then some (c.toNat - 48)
  else if 'a' ≤ c ∧ c ≤ 'f' then some (c.toNat - 87)
  else if 'A' ≤ c ∧ c ≤ 'F' then some (c.toNat - 55)
  else none

def hexNumber? (a b c d : Char) : Option Nat := do
  return (((← hexValue? a) * 16 + (← hexValue? b)) * 16 + (← hexValue? c)) * 16 + (← hexValue? d)

def escaped? : Char → Option Char
  | '"' => some '"'
  | '\\' => some '\\'
  | '/' => some '/'
  | 'b' => some '\x08'
  | 'f' => some '\x0c'
  | 'n' => some '\n'
  | 'r' => some '\r'
  | 't' => some '\t'
  | _ => none

inductive Unit16
  | char (c : Char)
  | high (n : Nat)
  | low (n : Nat)

def unitOf (n : Nat) : Unit16 :=
  if 0xD800 ≤ n ∧ n < 0xDC00 then .high (n - 0xD800)
  else if 0xDC00 ≤ n ∧ n < 0xE000 then .low (n - 0xDC00)
  else .char (Char.ofNat n)

/-- The units of a text up to the closing quotation mark, the last one first, and what follows. -/
def units? (read : List Unit16) : List Char → Option (List Unit16 × List Char)
  | '\\' :: 'u' :: a :: b :: c :: d :: rest => do
    let n ← hexNumber? a b c d
    units? (unitOf n :: read) rest
  | '\\' :: e :: rest => do
    let c ← escaped? e
    units? (.char c :: read) rest
  | '"' :: rest => some (read, rest)
  | c :: rest => if c = '\\' ∨ c.toNat < 32 then none else units? (.char c :: read) rest
  | [] => none

/-- The characters of units, unless half of a surrogate pair is missing. -/
def joinUnits? : List Unit16 → Option (List Char)
  | [] => some []
  | .char c :: rest => (joinUnits? rest).map (c :: ·)
  | .high h :: .low l :: rest =>
    (joinUnits? rest).map (Char.ofNat (0x10000 + h * 1024 + l) :: ·)
  | _ => none

/-- The text up to the closing quotation mark, if it has all its characters, and what follows. -/
def text? (cs : List Char) : Option (Option String × List Char) := do
  let (units, rest) ← units? [] cs
  return ((joinUnits? units.reverse).map String.ofList, rest)

/-- Digits of which only a single one may be a zero in front, and what follows them. -/
def whole? (cs : List Char) : Option (List Char × List Char) :=
  match Decimal.takeDigits cs with
  | ([], _) => none
  | ('0' :: _ :: _, _) => none
  | found => some found

/-- The places after a point, if there is one, and what follows them. -/
def places? : List Char → Option (List Char × List Char)
  | '.' :: rest =>
    match Decimal.takeDigits rest with
    | ([], _) => none
    | found => some found
  | rest => some ([], rest)

/-- The power of ten after an `e`, if there is one, and what follows it. -/
def power? : List Char → Option (Option Int × List Char)
  | [] => some (none, [])
  | c :: rest =>
    if c = 'e' ∨ c = 'E' then
      let (negative, rest) := Decimal.takeSign rest
      match Decimal.takeDigits rest with
      | ([], _) => none
      | (digits, rest) =>
        let n : Int := Nat.ofDigitChars 10 digits 0
        some (some (if negative then -n else n), rest)
    else some (none, c :: rest)

/-- The number that digits continue as long as it fits into 64 bits, and the digits left over. -/
def fitting : Nat → List Char → Nat × List Char
  | n, [] => (n, [])
  | n, c :: rest =>
    let next := n * 10 + (c.toNat - 48)
    if next < twoPow 64 then fitting next rest else (n, c :: rest)

/-- A number after its sign, and what follows it. Digits that do not fit are dropped, and a negative
zero is not a whole number. -/
def number? (negative : Bool) (cs : List Char) : Option (Json × List Char) := do
  let (whole, rest) ← whole? cs
  let (places, rest) ← places? rest
  let (power, rest) ← power? rest
  let (n, dropped) := fitting 0 whole
  if places.isEmpty && power.isNone && dropped.isEmpty && !(negative && n == 0) then
    return (.int (if negative then -n else n), rest)
  else
    let (mantissa, unread) := fitting n places
    let exponent := power.getD 0 + dropped.length - (places.length - unread.length : Nat)
    return (.real ⟨negative, mantissa, exponent⟩, rest)

/-- The rest of a text after a word at its front. -/
def after? (word : String) (cs : List Char) : Option (List Char) :=
  if word.toList.isPrefixOf cs then some (cs.drop word.length) else none

mutual

def value? : Nat → List Char → Option (Json × List Char)
  | 0, _ => none
  | fuel + 1, cs =>
    match skipSpace cs with
    | 'n' :: rest => (after? "ull" rest).map fun rest => (.null, rest)
    | 't' :: rest => (after? "rue" rest).map fun rest => (.bool true, rest)
    | 'f' :: rest => (after? "alse" rest).map fun rest => (.bool false, rest)
    | '-' :: rest => number? true rest
    | '"' :: rest => do
      let (text, rest) ← text? rest
      return (text.elim .broken .string, rest)
    | '[' :: rest =>
      match skipSpace rest with
      | ']' :: rest => some (.array [], rest)
      | _ => items? fuel [] rest
    | '\x7b' :: rest =>
      match skipSpace rest with
      | '\x7d' :: rest => some (.object [], rest)
      | _ => entries? fuel (some []) rest
    | rest => number? false rest

/-- The values of an array up to its end, after those read so far, the last one first. -/
def items? : Nat → List Json → List Char → Option (Json × List Char)
  | 0, _, _ => none
  | fuel + 1, read, cs => do
    let (item, rest) ← value? fuel cs
    match skipSpace rest with
    | ',' :: rest => items? fuel (item :: read) rest
    | ']' :: rest => return (.array (item :: read).reverse, rest)
    | _ => none

/-- The entries of an object up to its end, after those read so far, the last one first, unless one
of their keys could not be read. -/
def entries? : Nat → Option (List (String × Json)) → List Char → Option (Json × List Char)
  | 0, _, _ => none
  | fuel + 1, read, cs =>
    match skipSpace cs with
    | '"' :: rest => do
      let (key, rest) ← text? rest
      match skipSpace rest with
      | ':' :: rest => do
        let (item, rest) ← value? fuel rest
        let read := do return (← key, item) :: (← read)
        match skipSpace rest with
        | ',' :: rest => entries? fuel read rest
        | '\x7d' :: rest => return (read.elim .broken fun read => .object read.reverse, rest)
        | _ => none
      | _ => none
    | _ => none

end

def ofText? (text : String) : Option Json := do
  let cs := text.toList
  let (value, rest) ← value? (cs.length + 1) cs
  if (skipSpace rest).isEmpty then some value else none

end Toolpath.Json
