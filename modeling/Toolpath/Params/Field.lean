/-!
The parameters of a cut, and where in a drawing each of them may be written.
-/

set_option autoImplicit false

namespace Toolpath

/-- The parameters, in the order in which they are listed. -/
inductive Field
  | feedRate
  | plungeRate
  | sweepRate
  | sweepHeight
  | bitDiameter
  | top
  | bottom
  | step
  | barMargin
  | barWidth
  | barRun
  | barRamp
  | barHeight
  | probeHeight
  deriving DecidableEq, Repr

/-- The levels of a drawing at which parameters are written, in the order of their listing. -/
inductive Level
  | path
  | chain
  | mill
  | mark
  | helix
  | drill
  | sweep
  | backSweep
  | subPath
  | zProbe
  deriving DecidableEq, Repr

inductive Constraint
  | positive
  | nonNegative
  | any
  deriving DecidableEq, Repr

namespace Field

def all : List Field :=
  [feedRate, plungeRate, sweepRate, sweepHeight, bitDiameter, top, bottom, step, barMargin,
   barWidth, barRun, barRamp, barHeight, probeHeight]

def key : Field → Char
  | feedRate => 'F'
  | plungeRate => 'P'
  | sweepRate => 'R'
  | sweepHeight => 'S'
  | bitDiameter => 'D'
  | top => 'T'
  | bottom => 'B'
  | step => 'I'
  | barMargin => 'O'
  | barWidth => 'W'
  | barRun => 'U'
  | barRamp => 'L'
  | barHeight => 'H'
  | probeHeight => 'Z'

/-- The parameter of a letter, small or capital. -/
def ofKey? (c : Char) : Option Field := all.find? fun f => f.key == c.toUpper

def name : Field → String
  | feedRate => "FeedRate"
  | plungeRate => "PlungeRate"
  | sweepRate => "SweepRate"
  | sweepHeight => "SweepHeight"
  | bitDiameter => "BitDiameter"
  | top => "Top"
  | bottom => "Bottom"
  | step => "Step"
  | barMargin => "BarMargin"
  | barWidth => "BarWidth"
  | barRun => "BarRun"
  | barRamp => "BarRamp"
  | barHeight => "BarHeight"
  | probeHeight => "ProbeHeight"

def constraint : Field → Constraint
  | feedRate | plungeRate | sweepRate | bitDiameter | step | barWidth | barRun => .positive
  | barMargin | barRamp | barHeight => .nonNegative
  | sweepHeight | top | bottom | probeHeight => .any

theorem mem_all (f : Field) : f ∈ all := by
  cases f <;> decide

theorem ofKey?_key (f : Field) : ofKey? f.key = some f := by
  cases f <;> decide

end Field

namespace Level

def all : List Level :=
  [path, chain, mill, mark, helix, drill, sweep, backSweep, subPath, zProbe]

def allows (l : Level) : Field → Bool
  | .feedRate | .plungeRate | .top | .bottom | .step =>
    [path, chain, mill, mark, helix, drill].contains l
  | .sweepRate => [path, sweep, backSweep].contains l
  | .sweepHeight => [path, chain, sweep, backSweep, helix, drill].contains l
  | .bitDiameter => [path, helix].contains l
  | .barMargin | .barWidth | .barRun | .barRamp | .barHeight => [path, chain, mill].contains l
  | .probeHeight => [path, zProbe].contains l

def fields (l : Level) : List Field := Field.all.filter l.allows

def name : Level → String
  | path => "Path"
  | chain => "Chain"
  | mill => "Mill"
  | mark => "Mark"
  | helix => "Helix"
  | drill => "Drill"
  | sweep => "Sweep"
  | backSweep => "BackSweep"
  | subPath => "SubPath"
  | zProbe => "ZProbe"

def keyword : Level → String
  | path => "path"
  | chain => "chain"
  | mill => "mill"
  | mark => "mark"
  | helix => "helix"
  | drill => "drill"
  | sweep => "sweep"
  | backSweep => "back_sweep"
  | subPath => "sub_path"
  | zProbe => "z_probe"

def ofKeyword? (word : String) : Option Level := all.find? fun l => l.keyword == word

theorem mem_all (l : Level) : l ∈ all := by
  cases l <;> decide

end Level

end Toolpath
