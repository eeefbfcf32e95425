import Toolpath.Program.Record
import Toolpath.Geometry.Shape
import Toolpath.Setup

/-!
Writing moves. The writer holds the records written so far, each with the positions of the head
around it, and the position of the head, on the bed and at nominal height; moves that would not move
the head are left out. All writing goes through `Writer.push`, which adds one record at the end of
`Writer.records`.
-/

set_option autoImplicit false

namespace Toolpath

/-- A record and where the head was before and after it. -/
structure Written (α : Type) where
  record : Record α
  before : Head α
  after : Head α

/-- What is written of a program so far, and where the head is after it. -/
structure Writer (α : Type) where
  /-- The records, the last one first. -/
  written : List (Written α)
  head : Head α

def commandText (code : String) (words : List (Char × String)) : String :=
  code ++ String.join (words.map fun (letter, value) => " " ++ letter.toString ++ value)

namespace Writer

variable {α : Type} [Scalar α]

/-- Differences of height or place up to this are no move. -/
def moveTolerance : α := 1e-6

def start (head : Head α) : Writer α := ⟨[], head⟩

def feedText (feed : α) : String := Scalar.fixed 1 feed

def records (w : Writer α) : List (Record α) := w.written.reverse.map Written.record

def push (w : Writer α) (r : Record α) (head : Head α) : Writer α :=
  ⟨⟨r, w.head, head⟩ :: w.written, head⟩

omit [Scalar α] in
@[simp] theorem records_start (head : Head α) : (start head).records = [] := rfl

omit [Scalar α] in
@[simp] theorem head_start (head : Head α) : (start head).head = head := rfl

omit [Scalar α] in
@[simp] theorem records_push (w : Writer α) (r : Record α) (head : Head α) :
    (w.push r head).records = w.records ++ [r] := by
  simp [records, push]

omit [Scalar α] in
@[simp] theorem head_push (w : Writer α) (r : Record α) (head : Head α) :
    (w.push r head).head = head := rfl

def comment (w : Writer α) (text : String) : Writer α := w.push (.comment text) w.head

def other (w : Writer α) (text : String) : Writer α := w.push (.other text) w.head

def lift (w : Writer α) (z : α) (text : String) : Writer α :=
  let distance := Scalar.abs (w.head.z - z)
  if distance ≤ moveTolerance then w
  else w.push ⟨.lift, commandText "G00" [('Z', text)], distance, none⟩ { w.head with z := z }

/-- A rapid to a height above everything, which needs no correction. -/
def rapidTo (w : Writer α) (z : α) : Writer α := w.lift z (Scalar.coordinate z)

/-- A rapid to a height at the material, with the correction at the place of the head. -/
def rapidToCorrected (w : Writer α) (setup : Setup α) (z : α) : Writer α :=
  w.lift z (setup.heightText w.head.xy z)

/-- A move at the height of the head, as a rapid or at a feed. -/
def travelTo (w : Writer α) (dest : Point α) (rate : Option α) : Writer α :=
  let distance := w.head.xy.distance dest
  if distance ≤ moveTolerance then w
  else
    let target := [('X', Scalar.coordinate dest.x), ('Y', Scalar.coordinate dest.y)]
    let text := match rate with
      | some rate => commandText "G01" (target ++ [('F', feedText rate)])
      | none => commandText "G00" target
    w.push ⟨.travel, text, distance, rate⟩ { w.head with x := dest.x, y := dest.y }

def cutTo (w : Writer α) (kind : RecordKind) (setup : Setup α) (z feed : α) : Writer α :=
  let text := commandText "G01"
    [('Z', setup.heightText w.head.xy z), ('F', feedText feed)]
  w.push ⟨kind, text, Scalar.abs (w.head.z - z), some feed⟩ { w.head with z := z }

def plunge (w : Writer α) (setup : Setup α) (z feed : α) : Writer α := w.cutTo .mill setup z feed

def drillTo (w : Writer α) (setup : Setup α) (z feed : α) : Writer α := w.cutTo .drill setup z feed

def moveToHeight (w : Writer α) (setup : Setup α) (z plungeFeed : α) : Writer α :=
  if z + moveTolerance < w.head.z then w.plunge setup z plungeFeed
  else if w.head.z < z - moveTolerance then w.rapidToCorrected setup z
  else w

def millLine (w : Writer α) (setup : Setup α) (dest : Point α) (z feed : α) : Writer α :=
  let target := dest.atHeight z
  let text := commandText "G01"
    [('X', Scalar.coordinate dest.x), ('Y', Scalar.coordinate dest.y),
     ('Z', setup.heightText dest z), ('F', feedText feed)]
  w.push ⟨.mill, text, w.head.distance target, some feed⟩ target

/-- A circular cut around `center`, a helix if the height changes. `length` is its length in the
plane; a target at the place of the head stands for a full circle. -/
def millArc (w : Writer α) (setup : Setup α) (dest center : Point α) (ccw : Bool)
    (z length feed : α) : Writer α :=
  let text := commandText (if ccw then "G03" else "G02")
    [('X', Scalar.coordinate dest.x), ('Y', Scalar.coordinate dest.y),
     ('Z', setup.heightText dest z),
     ('I', Scalar.coordinate (center.x - w.head.x)),
     ('J', Scalar.coordinate (center.y - w.head.y)), ('F', feedText feed)]
  w.push ⟨.mill, text, Scalar.hypot length (w.head.z - z), some feed⟩ (dest.atHeight z)

end Writer

/-- The feeds of a cut in millimetres per minute. -/
structure CutFeeds (α : Type) where
  feed : α
  plunge : α
  deriving BEq

variable {α : Type} [Scalar α]

/-- Cuts a shape from `zStart` at its start, where the head must be, to `zEnd` at its end. -/
def Shape.mill (shape : Shape α) (w : Writer α) (setup : Setup α) (zStart zEnd : α)
    (feeds : CutFeeds α) : Writer α :=
  let w := w.moveToHeight setup zStart feeds.plunge
  match shape with
  | .line l => w.millLine setup (setup.apply l.stop) zEnd feeds.feed
  | .arc a =>
    let placed := a.place setup.placement
    w.millArc setup placed.stop placed.center placed.ccw zEnd a.length feeds.feed

end Toolpath
