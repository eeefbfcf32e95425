import Toolpath.Text.Alphanumeric
import Toolpath.Text.Blank
import Toolpath.Text.LowerCase

/-!
Names of paths. What follows the first point of a name is a variant and does not count, digits
compare as numbers, and letters without regard to case; so `part9`, `PART09` and `part9.b` are one
name, and it comes before `part10`.
-/

set_option autoImplicit false

namespace Toolpath

/-- The name of a path, without white space at its ends, and the file it was read from. -/
structure PathName where
  text : String
  source : Option String
  trimmed : Text.trim text.toList = text.toList

namespace PathName

def ofText (text : String) : PathName where
  text := String.ofList (Text.trim text.toList)
  source := none
  trimmed := by simp [Text.trim_trim]

def withSource (text source : String) : PathName := { ofText text with source := some source }

def key (name : PathName) : List Char := Text.trim (name.text.toList.takeWhile (· != '.'))

/-- The name as part of a file name: an underscore for all but letters, digits and `-_.`. -/
def fileStem (name : PathName) : String :=
  name.text.map fun c =>
    if Text.isAlphanumeric c || c == '-' || c == '_' || c == '.' then c else '_'

/-- A run of digits without zeros in front, or a run of other characters in lower case. -/
inductive Group
  | number (digits : List Char)
  | word (letters : List Char)
  deriving DecidableEq, Repr

namespace Group

def ofDigits (digits : List Char) : Group :=
  match digits.dropWhile (· == '0') with
  | [] => .number ['0']
  | significant => .number significant

def ofLetters (letters : List Char) : Group := .word (Text.lower letters)

def compareTexts : List Char → List Char → Ordering
  | [], [] => .eq
  | [], _ :: _ => .lt
  | _ :: _, [] => .gt
  | a :: as, b :: bs => (Ord.compare a.toNat b.toNat).then (compareTexts as bs)

/-- Numbers by value, which without zeros in front is by length first; words after numbers. -/
def compare : Group → Group → Ordering
  | .number x, .number y => (Ord.compare x.length y.length).then (compareTexts x y)
  | .number _, .word _ => .lt
  | .word _, .number _ => .gt
  | .word x, .word y => compareTexts x y

end Group

def runs : List Char → List (List Char)
  | [] => []
  | c :: rest =>
    match runs rest with
    | (d :: run) :: later =>
      if c.isDigit = d.isDigit then (c :: d :: run) :: later else [c] :: (d :: run) :: later
    | later => [c] :: later

def groupOf (run : List Char) : Group :=
  match run with
  | c :: _ => if c.isDigit then .ofDigits run else .ofLetters run
  | [] => .ofLetters []

/-- What two spellings of one name have in common. -/
def groups (name : PathName) : List Group := (runs name.key).map groupOf

/-- Lists of groups, by the first difference; a list before those that continue it. -/
def compareGroups : List Group → List Group → Ordering
  | [], [] => .eq
  | [], _ :: _ => .lt
  | _ :: _, [] => .gt
  | a :: as, b :: bs => (a.compare b).then (compareGroups as bs)

def compare (a b : PathName) : Ordering := compareGroups a.groups b.groups

/-- Whether two names name one path. -/
def same (a b : PathName) : Bool := a.compare b == .eq

instance : BEq PathName := ⟨same⟩

/-- What a hash is computed from: bytes and texts in a row. -/
inductive HashInput
  | byte (value : UInt8)
  | text (characters : String)
  deriving Hashable

/-- A group in a hash: a byte that tells numbers from words, and the text of the group. -/
def Group.hashInputs : Group → List HashInput
  | number digits => [.byte 0, .text (.ofList digits)]
  | word letters => [.byte 1, .text (.ofList letters)]

def hashInputs (name : PathName) : List HashInput := name.groups.flatMap Group.hashInputs

instance : Hashable PathName := ⟨fun name => hash name.hashInputs⟩

end PathName

end Toolpath
