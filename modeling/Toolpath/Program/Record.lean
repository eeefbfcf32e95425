import Toolpath.Scalar

/-!
The lines of a program. A record carries the text of its line together with the distance and the
feed of the move, so that nothing later has to read the text again.
-/

set_option autoImplicit false

namespace Toolpath

inductive RecordKind
  /-- A move without cutting that keeps the height. -/
  | travel
  /-- A move without cutting that changes the height. -/
  | lift
  | mill
  | drill
  | comment
  | other
  deriving DecidableEq, Repr

structure Record (α : Type) where
  kind : RecordKind
  text : String
  /-- Distance of the move in millimetres. -/
  distance : α
  /-- Feed of the move in millimetres per minute, if it is known. -/
  feed : Option α
  deriving BEq

namespace RecordKind

def isCutting : RecordKind → Bool
  | mill | drill => true
  | _ => false

def isTravel : RecordKind → Bool
  | travel | lift => true
  | _ => false

end RecordKind

namespace Record

variable {α : Type} [Scalar α]

def commentMark : String := "; "

def comment (text : String) : Record α := ⟨.comment, commentMark ++ text, 0.0, none⟩

def other (text : String) : Record α := ⟨.other, text, 0.0, none⟩

omit [Scalar α] in
def asComment (r : Record α) : Record α :=
  if r.kind = .comment then r
  else { r with kind := .comment, text := commentMark ++ r.text, feed := none }

end Record

end Toolpath
