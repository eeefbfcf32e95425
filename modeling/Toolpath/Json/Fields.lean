import Toolpath.Json
import Toolpath.Scalar

/-!
Taking values apart. A record is an object whose keys are the names of its fields, in any order and
with others among them, or an array of its fields in the order of their names. A choice is such a
record with a tag besides its fields.
-/

set_option autoImplicit false

namespace Toolpath.Json

/-- The entry of a key, `none` inside if there is none; a key may not be repeated. -/
def member? (entries : List (String × Json)) (key : String) : Option (Option Json) :=
  match entries.filter fun e => e.1 == key with
  | [] => some none
  | [(_, value)] => some (some value)
  | _ => none

def fields? (names : List String) : Json → Option (List (Option Json))
  | object entries => names.mapM (member? entries)
  | array items =>
    if items.length ≤ names.length then
      some (items.map some ++ List.replicate (names.length - items.length) none)
    else none
  | _ => none

/-- The tag of a choice, and the record of its fields. -/
def tagged? (tag : String) : Json → Option (Json × Json)
  | object entries => do
    let value ← (← member? entries tag)
    return (value, object (entries.filter fun e => e.1 != tag))
  | array (value :: items) => some (value, array items)
  | _ => none

/-- The name of a choice, given by name or, where `counted`, by its place among all names. -/
def choice? (counted : Bool) (names : List String) : Json → Option String
  | string name => if names.contains name then some name else none
  | int n => if counted && 0 ≤ n then names[n.toNat]? else none
  | _ => none

/-- A word, alone or as the only key of an object that holds nothing. -/
def word? : Json → Option String
  | string word => some word
  | object [(word, null)] => some word
  | _ => none

def bool? : Json → Option Bool
  | bool b => some b
  | _ => none

def string? : Json → Option String
  | string s => some s
  | _ => none

def word64? : Json → Option Int
  | int n => if -(twoPow 63 : Int) ≤ n ∧ n < twoPow 63 then some n else none
  | _ => none

def list? {β : Type} (read : Json → Option β) : Json → Option (List β)
  | array items => items.mapM read
  | _ => none

def nullable? {β : Type} (read : Json → Option β) : Json → Option (Option β)
  | null => some none
  | value => (read value).map some

def orDefault {β : Type} (default : β) (read : Json → Option β) : Option Json → Option β
  | some value => read value
  | none => some default

/-- The only character of a text. -/
def letter? (text : String) : Option Char :=
  match text.toList with
  | [c] => some c
  | _ => none

variable {α : Type} [Scalar α]

def power (k : Nat) : α := Scalar.ofDecimal ⟨false, 1, k⟩

def greatestPower : Nat := 308

/-- A value divided by `10 ^ k`, in several steps if the power is great, as long as it is not zero
yet. -/
def divideByPower : Nat → α → Nat → α
  | 0, x, k => x / power k
  | fuel + 1, x, k =>
    if k ≤ greatestPower then x / power k
    else if x ≤ 0.0 then x
    else divideByPower fuel (x / power greatestPower) (k - greatestPower)

/-- A number, not negative, from its mantissa, which is rounded first, and its power of ten. -/
def magnitude? (mantissa : Nat) (exponent : Int) : Option α :=
  let x : α := (mantissa : α)
  if exponent < 0 then
    let k := (-exponent).toNat
    some (divideByPower (k / greatestPower) x k)
  else if mantissa = 0 then some x
  else if greatestPower < exponent.toNat then none
  else
    let scaled := x * power exponent.toNat
    if Scalar.isFinite scaled then some scaled else none

def scalar? : Json → Option α
  | int n => (magnitude? n.natAbs 0).map fun x => if n < 0 then -x else x
  | real d => (magnitude? d.mantissa d.exponent).map fun x => if d.negative then -x else x
  | _ => none

def ofScalar (x : α) : Json :=
  match Scalar.shortest x with
  | .finite d => real d
  | _ => null

end Toolpath.Json
