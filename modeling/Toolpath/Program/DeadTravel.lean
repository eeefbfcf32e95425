import Toolpath.Pattern
import Toolpath.Program.Record

/-!
Travels that lead nowhere. A travel that is followed by another one, with at most comments between
them, reaches nothing; it stays in the program as a comment, and only the last travel of such a run
is a move.
-/

set_option autoImplicit false

namespace Toolpath.DeadTravel

variable {α : Type}

/-- A run of at least two travels, with any comments between them. -/
def deadRun : Pattern RecordKind :=
  .seq
    [.oneOrMore (.seq [.leaf .travel, .zeroOrMore (.leaf .comment)]),
     .leaf .travel]

/-- The records with the travels from `start` up to, but not including, `last` as comments. -/
def silence (records : List (Record α)) (start last : Nat) : List (Record α) :=
  records.mapIdx fun i r =>
    if start ≤ i ∧ i < last ∧ r.kind = .travel then r.asComment else r

def silenceRuns : Nat → List (Record α) → Nat → List (Record α)
  | 0, records, _ => records
  | fuel + 1, records, start =>
    match deadRun.find (records.map (·.kind)).toArray start with
    | none => records
    | some (first, stop) => silenceRuns fuel (silence records first (stop - 1)) first

/-- The records with every travel that another one follows as a comment. -/
def remove (records : List (Record α)) : List (Record α) :=
  -- Each step silences at least one travel.
  silenceRuns (records.length + 1) records 0

end Toolpath.DeadTravel
