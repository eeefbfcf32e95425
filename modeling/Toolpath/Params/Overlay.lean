import Toolpath.Decimal.Reading
import Toolpath.Diagnostic
import Toolpath.Params.Field
import Toolpath.Params.Substitution

/-!
The parameters that one level sets. They are read from texts; what is wrong with an entry is
reported, and the other entries count.
-/

set_option autoImplicit false

namespace Toolpath

/-- The values that one level of a drawing sets. -/
structure Overlay (α : Type) where
  level : Level
  context : Context α
  values : Field → Option α

/-- What can be wrong with the text of a parameter. -/
inductive ParamError
  | unknownKey (key : Char)
  | notAllowed (field : Field) (level : Level)
  | unbound (letter : Char)
  | invalidValue (field : Field) (text : String)
  deriving DecidableEq, Repr

def ParamError.message : ParamError → String
  | unknownKey key => "Unknown parameter '" ++ key.toString ++ "'"
  | notAllowed field level =>
    "Parameter '" ++ field.key.toString ++ "' is not allowed on " ++ level.name
  | unbound letter => "Variable '$" ++ letter.toString ++ "' is not bound"
  | invalidValue field text => "Invalid value for '" ++ field.key.toString ++ "': " ++ text

def Field.rangeProblem {α : Type} [Scalar α] (f : Field) (value : α) : Option String :=
  match f.constraint with
  | .positive =>
    if value ≤ 0.0 then some (f.name ++ " must be positive, got " ++ Scalar.plain value) else none
  | .nonNegative =>
    if value < 0.0 then some (f.name ++ " must not be negative, got " ++ Scalar.plain value)
    else none
  | .any => none

namespace Overlay

variable {α : Type}

def empty (level : Level) (context : Context α) : Overlay α := ⟨level, context, fun _ => none⟩

def set (o : Overlay α) (f : Field) (value : α) : Overlay α :=
  { o with values := fun g => if g = f then some value else o.values g }

def get? (o : Overlay α) (f : Field) : Option α := o.values f

def isEmpty (o : Overlay α) : Bool := Field.all.all fun f => (o.values f).isNone

def fields (o : Overlay α) : List (Field × α) :=
  Field.all.filterMap fun f => (o.values f).map fun value => (f, value)

variable [Scalar α]

def readEntry (level : Level) (bindings : Bindings) (key : Char) (text : String) :
    Except ParamError (Field × α) :=
  match Field.ofKey? key with
  | none => .error (.unknownKey key)
  | some field =>
    if !level.allows field then .error (.notAllowed field level)
    else
      match bindings.substitute text.toList with
      | .error letter => .error (.unbound letter)
      | .ok value =>
        match (Decimal.ofText? (Text.trim value)).map Scalar.ofDecimal with
        | some (value : α) =>
          if Scalar.isFinite value then .ok (field, value) else .error (.invalidValue field text)
        | none => .error (.invalidValue field text)

/-- The overlay with one entry read, or what is wrong with the entry. -/
def addEntry (bindings : Bindings) (o : Overlay α) (key : Char) (text : String) :
    Overlay α × List (Diagnostic α) :=
  match readEntry o.level bindings key text with
  | .error e => (o, [.error o.context "{0}" [e.message]])
  | .ok (field, value) =>
    match field.rangeProblem value with
    | some problem => (o, [.error o.context "{0}" [problem]])
    | none => (o.set field value, [])

def addEntries (bindings : Bindings) (o : Overlay α) :
    List (Char × String) → Overlay α × List (Diagnostic α)
  | [] => (o, [])
  | (key, text) :: rest =>
    let (o, problems) := o.addEntry bindings key text
    let (o, later) := o.addEntries bindings rest
    (o, problems ++ later)

def read (level : Level) (context : Context α) (texts : ParamTexts) (bindings : Bindings) :
    Overlay α × List (Diagnostic α) :=
  (empty level context).addEntries bindings texts.entries

end Overlay

end Toolpath
