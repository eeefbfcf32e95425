import Toolpath.Geometry.Placement

/-!
How a path lies on the bed: the placement of its coordinates, and the probes that measure how high
the bed is. With probes, a height is written as an expression over machine parameters, in which a
probing run stores what it measured; each probe counts by the inverse square of its distance.
-/

set_option autoImplicit false

namespace Toolpath

/-- A place where the bed is measured, and the height expected there. -/
structure BedProbe (α : Type) where
  position : Point α
  target : α

/-- The placement of a path and the probes of the bed. -/
structure Setup (α : Type) where
  placement : Placement α
  probes : List (BedProbe α)

def firstProbeVariable : Nat := 1000

def probeVariable (index : Nat) : Nat := firstProbeVariable + index

/-- The correction by one probe, as it is printed: a weight times a measurement less a target. -/
structure HeightTerm where
  weight : Numeral
  probe : Nat
  /-- A target below zero is printed as a number to be added. -/
  added : Bool
  target : Numeral

/-- A height as it is printed: a number, with the corrections of probes if there are any. -/
structure HeightExpr where
  nominal : Numeral
  terms : List HeightTerm

def HeightTerm.text (t : HeightTerm) : String :=
  "+" ++ t.weight.text ++ "*[#" ++ toString (probeVariable t.probe) ++
    (if t.added then "+" else "-") ++ t.target.text ++ "]"

def HeightExpr.text (e : HeightExpr) : String :=
  match e.terms with
  | [] => e.nominal.text
  | terms => "[" ++ e.nominal.text ++ String.join (terms.map HeightTerm.text) ++ "]"

namespace Setup

variable {α : Type} [Scalar α]

def identity : Setup α := ⟨.identity, []⟩

def hasCorrection (s : Setup α) : Bool := !s.probes.isEmpty

def nested (s : Setup α) (inner : Placement α) : Setup α := ⟨inner.andThen s.placement, s.probes⟩

def apply (s : Setup α) (p : Point α) : Point α := s.placement.apply p

/-- The probes that count at a point, by index, with their weights. The first probe that stands at
the point counts alone. -/
def weights (s : Setup α) (world : Point α) : List (Nat × α) :=
  match s.probes.findIdx? fun probe => probe.position.coincides world with
  | some i => [(i, 1.0)]
  | none =>
    let raw := s.probes.map fun probe => 1.0 / Scalar.square (probe.position.distance world)
    let total := Scalar.sum raw
    raw.zipIdx.map fun (w, i) => (i, w / total)

def weighted (s : Setup α) (world : Point α) : List (Nat × BedProbe α × α) :=
  (s.weights world).filterMap fun (i, w) => s.probes[i]?.map fun probe => (i, probe, w)

def term (i : Nat) (probe : BedProbe α) (weight : α) : HeightTerm where
  weight := Scalar.roundTo 4 weight
  probe := i
  added := probe.target < 0.0
  target := Scalar.coordinateNumeral (if probe.target < 0.0 then -probe.target else probe.target)

def heightExpr (s : Setup α) (world : Point α) (nominal : α) : HeightExpr where
  nominal := Scalar.coordinateNumeral nominal
  terms := (s.weighted world).map fun (i, probe, w) => term i probe w

def heightText (s : Setup α) (world : Point α) (nominal : α) : String :=
  (s.heightExpr world nominal).text

/-- The height that the machine takes once the probes are measured; one that is not measured has
its target as its measurement. -/
def heightAt (s : Setup α) (world : Point α) (nominal : α) (measured : List α) : α :=
  Scalar.sum ((s.weighted world).map fun (i, probe, w) =>
    w * ((measured[i]?).getD probe.target - probe.target)) + nominal

end Setup

end Toolpath
