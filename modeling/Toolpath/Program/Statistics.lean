import Toolpath.Program.Record

/-!
Totals over the records of a program.
-/

set_option autoImplicit false

namespace Toolpath

/-- Lengths in millimetres and times in minutes by kind of move, and the count of commands. -/
structure Statistics (α : Type) where
  millLength : α
  drillLength : α
  sweepLength : α
  millMinutes : α
  drillMinutes : α
  sweepMinutes : α
  commands : Nat

namespace Statistics

variable {α : Type} [Scalar α]

def empty : Statistics α := ⟨0.0, 0.0, 0.0, 0.0, 0.0, 0.0, 0⟩

/-- The time of a move, counted only if its feed is known and positive. -/
def minutes (r : Record α) : α :=
  match r.feed with
  | some feed => if 0.0 < feed then r.distance / feed else 0.0
  | none => 0.0

def record (s : Statistics α) (r : Record α) : Statistics α :=
  match r.kind with
  | .comment => s
  | .other => { s with commands := s.commands + 1 }
  | .mill =>
    { s with
      millLength := s.millLength + r.distance
      millMinutes := s.millMinutes + minutes r
      commands := s.commands + 1 }
  | .drill =>
    { s with
      drillLength := s.drillLength + r.distance
      drillMinutes := s.drillMinutes + minutes r
      commands := s.commands + 1 }
  | .travel | .lift =>
    { s with
      sweepLength := s.sweepLength + r.distance
      sweepMinutes := s.sweepMinutes + minutes r
      commands := s.commands + 1 }

def ofRecords (records : List (Record α)) : Statistics α := records.foldl record empty

def merge (s t : Statistics α) : Statistics α where
  millLength := s.millLength + t.millLength
  drillLength := s.drillLength + t.drillLength
  sweepLength := s.sweepLength + t.sweepLength
  millMinutes := s.millMinutes + t.millMinutes
  drillMinutes := s.drillMinutes + t.drillMinutes
  sweepMinutes := s.sweepMinutes + t.sweepMinutes
  commands := s.commands + t.commands

def totalMinutes (s : Statistics α) : α := s.millMinutes + s.drillMinutes + s.sweepMinutes

def roundedMinutes (s : Statistics α) : Nat := Scalar.ceilNat s.totalMinutes

end Statistics

end Toolpath
