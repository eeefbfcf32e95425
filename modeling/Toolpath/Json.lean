import Toolpath.Decimal

/-!
Values of the data format in which jobs are written. Numbers keep their decimal and whether they
were written as whole numbers; objects keep the order of their entries and repeated keys.
-/

set_option autoImplicit false

namespace Toolpath

inductive Json
  | null
  | bool (value : Bool)
  /-- A number written without point and power of ten. -/
  | int (value : Int)
  | real (value : Decimal)
  | string (value : String)
  | array (items : List Json)
  | object (entries : List (String × Json))
  /-- A value with half of a surrogate pair in one of its texts: it can be skipped but not read. -/
  | broken

namespace Json

def hexDigits (n : Nat) : List Char :=
  [n / 4096 % 16, n / 256 % 16, n / 16 % 16, n % 16].map Nat.digitChar

def escape (c : Char) : List Char :=
  if c = '"' then ['\\', '"']
  else if c = '\\' then ['\\', '\\']
  else if c = '\n' then ['\\', 'n']
  else if c.toNat < 32 then '\\' :: 'u' :: hexDigits c.toNat
  else [c]

def quote (text : String) : String := "\"" ++ String.ofList (text.toList.flatMap escape) ++ "\""

mutual

def render : Json → String
  | null => "null"
  | bool b => if b then "true" else "false"
  | int n => toString n
  | real d => String.ofList d.scientific
  | string s => quote s
  | array items => "[" ++ ",".intercalate (renderItems items) ++ "]"
  | object entries => "\x7b" ++ ",".intercalate (renderEntries entries) ++ "\x7d"
  | broken => "null"

def renderItems : List Json → List String
  | [] => []
  | item :: rest => render item :: renderItems rest

def renderEntries : List (String × Json) → List String
  | [] => []
  | (key, value) :: rest => (quote key ++ ":" ++ render value) :: renderEntries rest

end

mutual

/-- How deep arrays and objects are nested, if every text in them can be read and every number is
in range. -/
def depth? (inRange : Decimal → Bool) : Json → Option Nat
  | array items => (depthItems? inRange items).map (· + 1)
  | object entries => (depthEntries? inRange entries).map (· + 1)
  | real d => if inRange d then some 0 else none
  | broken => none
  | _ => some 0

def depthItems? (inRange : Decimal → Bool) : List Json → Option Nat
  | [] => some 0
  | item :: rest => do return max (← depth? inRange item) (← depthItems? inRange rest)

def depthEntries? (inRange : Decimal → Bool) : List (String × Json) → Option Nat
  | [] => some 0
  | (_, value) :: rest => do
    return max (← depth? inRange value) (← depthEntries? inRange rest)

end

/-- Values that are read may be nested at most so deep; those that are skipped, deeper. -/
def maxDepth : Nat := 127

end Json

end Toolpath
