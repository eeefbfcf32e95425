import Toolpath.Main
import Toolpath.Proofs.Builder.Memo
import Toolpath.Proofs.Builder.Settings
import Toolpath.Proofs.Model.Travels
import Toolpath.Proofs.Pattern.Exactness
import Toolpath.Proofs.Program.Meaning
import Toolpath.Proofs.Layers.Depths
import Toolpath.Proofs.MillChain.Layering
import Toolpath.Proofs.Geometry.Angles
import Toolpath.Proofs.Geometry.Slices
import Toolpath.Proofs.Geometry.Bridges
import Toolpath.Proofs.Model.Sources
import Toolpath.Proofs.Program.Rapids
import Toolpath.Proofs.Model.Descents
import Toolpath.Proofs.Model.Lines
import Toolpath.Proofs.Builder.Names
import Toolpath.Proofs.Job.Lines
import Toolpath.Proofs.Params.Required
import Toolpath.Proofs.Builder.Contents
import Toolpath.Proofs.Model.Required
import Toolpath.Proofs.Builder.Failures
import Toolpath.Proofs.Builder.Library
import Toolpath.Proofs.Builder.Roots
import Toolpath.Proofs.Job.Files
import Toolpath.Proofs.Job.Insertion
import Toolpath.Proofs.Diagnostic.Firsts
import Toolpath.Proofs.Model.NominalHeights
import Toolpath.Proofs.Model.Positions
import Toolpath.Proofs.Scalar.Rounding
import Toolpath.Proofs.Setup.Compensation
import Toolpath.Proofs.Builder.Ends
import Toolpath.Proofs.MillChain.Circles
import Toolpath.Proofs.Model.LastStep
import Toolpath.Proofs.Route.DrawingDirection
import Toolpath.Proofs.Route.EqualElements
import Toolpath.Proofs.PathName.Keys
import Toolpath.Proofs.Json.Elements
import Toolpath.Proofs.Program.Superseded
import Toolpath.Proofs.Geometry.BridgeSpacing
import Toolpath.Proofs.Geometry.Anchors
import Toolpath.Proofs.Geometry.PlacedShapes
import Toolpath.Proofs.Layers.Descent
import Toolpath.Proofs.Setup.Blend
import Toolpath.Proofs.Builder.NarrowHelix
import Toolpath.Proofs.Hole.Pecks
import Toolpath.Proofs.Hole.Spiral
import Toolpath.Proofs.Params.Variables
import Toolpath.Proofs.Diagnostic.Placeholders
import Toolpath.Proofs.Diagnostic.Distinct
import Toolpath.Proofs.Builder.LevelTexts
import Toolpath.Proofs.Params.Blame
import Toolpath.Proofs.Program.Replay
import Toolpath.Proofs.Model.Blocks
import Toolpath.Proofs.Pattern.Repetitions
