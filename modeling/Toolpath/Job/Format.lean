import Toolpath.Json.Fields
import Toolpath.Layer

/-!
The written form of drawings: points, shapes, elements, layers and defaults, each with its reader
and its writer.
-/

set_option autoImplicit false

namespace Toolpath

variable {α : Type} [Scalar α]

namespace Point

def ofJson? (value : Json) : Option (Point α) := do
  match ← value.fields? ["x", "y"] with
  | [x, y] => return ⟨← (← x).scalar?, ← (← y).scalar?⟩
  | _ => none

def toJson (p : Point α) : Json := .object [("x", .ofScalar p.x), ("y", .ofScalar p.y)]

end Point

namespace Line

def ofJson? (value : Json) : Option (Line α) := do
  match ← value.fields? ["start", "end"] with
  | [start, stop] => return ⟨← Point.ofJson? (← start), ← Point.ofJson? (← stop)⟩
  | _ => none

def fields (l : Line α) : List (String × Json) :=
  [("start", l.start.toJson), ("end", l.stop.toJson)]

end Line

namespace Arc

def ofJson? (value : Json) : Option (Arc α) := do
  match ← value.fields? ["center", "radius", "start_angle", "end_angle", "ccw"] with
  | [center, radius, startAngle, endAngle, ccw] =>
    return ⟨← Point.ofJson? (← center), ← (← radius).scalar?, ← (← startAngle).scalar?,
      ← (← endAngle).scalar?, ← Json.orDefault true Json.bool? ccw⟩
  | _ => none

def fields (a : Arc α) : List (String × Json) :=
  [("center", a.center.toJson), ("radius", .ofScalar a.radius),
   ("start_angle", .ofScalar a.startAngle), ("end_angle", .ofScalar a.endAngle),
   ("ccw", .bool a.ccw)]

end Arc

namespace Shape

def ofJson? (counted : Bool) (value : Json) : Option (Shape α) := do
  let (tag, record) ← value.tagged? "type"
  match ← tag.choice? counted ["line", "arc"] with
  | "line" => (Line.ofJson? record).map line
  | _ => (Arc.ofJson? record).map arc

def toJson : Shape α → Json
  | line l => .object (("type", .string "line") :: l.fields)
  | arc a => .object (("type", .string "arc") :: a.fields)

end Shape

namespace ParamTexts

def ofJson? : Json → Option ParamTexts
  | .object entries => do
    let read ← entries.mapM fun (key, value) => do
      return (← Json.letter? key, ← value.string?)
    return ofList read
  | _ => none

def toJson (texts : ParamTexts) : Json :=
  .object (texts.entries.map fun (key, text) => (key.toString, .string text))

end ParamTexts

namespace ElementKind

def names : List String :=
  ["chain", "helix", "drill", "sweep", "back_sweep", "sub_path", "z_probe"]

def endsOf? (value : Json) : Option (Point α × Point α) := do
  match ← value.fields? ["start", "end"] with
  | [start, stop] => return (← Point.ofJson? (← start), ← Point.ofJson? (← stop))
  | _ => none

def ofFields? (name : String) (value : Json) : Option (ElementKind α) := do
  let mark := Json.orDefault false Json.bool?
  match name with
  | "chain" =>
    match ← value.fields? ["geometry", "mark"] with
    | [shape, isMark] => return cut (← Shape.ofJson? true (← shape)) (← mark isMark)
    | _ => none
  | "helix" =>
    match ← value.fields? ["center", "radius", "mark"] with
    | [center, radius, isMark] =>
      return helix (← Point.ofJson? (← center)) (← (← radius).scalar?) (← mark isMark)
    | _ => none
  | "drill" =>
    match ← value.fields? ["center", "mark"] with
    | [center, isMark] => return drill (← Point.ofJson? (← center)) (← mark isMark)
    | _ => none
  | "sweep" =>
    let (start, stop) ← endsOf? value
    return sweep start stop
  | "back_sweep" =>
    let (start, stop) ← endsOf? value
    return backSweep start stop
  | "sub_path" =>
    match ← value.fields? ["start", "end", "target"] with
    | [start, stop, target] =>
      return subPath (← Point.ofJson? (← start)) (← Point.ofJson? (← stop))
        (.ofText (← (← target).string?))
    | _ => none
  | "z_probe" =>
    match ← value.fields? ["position"] with
    | [position] => return probe (← Point.ofJson? (← position))
    | _ => none
  | _ => none

def fields : ElementKind α → List (String × Json)
  | cut shape mark =>
    [("type", .string "chain"), ("geometry", shape.toJson), ("mark", .bool mark)]
  | helix center radius mark =>
    [("type", .string "helix"), ("center", center.toJson), ("radius", .ofScalar radius),
     ("mark", .bool mark)]
  | drill center mark =>
    [("type", .string "drill"), ("center", center.toJson), ("mark", .bool mark)]
  | sweep start stop =>
    [("type", .string "sweep"), ("start", start.toJson), ("end", stop.toJson)]
  | backSweep start stop =>
    [("type", .string "back_sweep"), ("start", start.toJson), ("end", stop.toJson)]
  | subPath start stop target =>
    [("type", .string "sub_path"), ("start", start.toJson), ("end", stop.toJson),
     ("target", .string target.text)]
  | probe position => [("type", .string "z_probe"), ("position", position.toJson)]

end ElementKind

namespace Element

def ofJson? (room : Nat) (value : Json) : Option (Element α) := do
  match value with
  | .object entries =>
    let depth ← value.depth? fun d => (Json.scalar? (.real d) : Option α).isSome
    if room < depth then none
    else
      let order ← Json.member? entries "order"
      let params ← Json.member? entries "params"
      let others := entries.filter fun e => e.1 != "order" && e.1 != "params"
      let (tag, record) ← (Json.object others).tagged? "type"
      let kind ← ElementKind.ofFields? (← tag.choice? true ElementKind.names) record
      return ⟨kind, ← Json.orDefault none (Json.nullable? Json.word64?) order,
        ← Json.orDefault ∅ ParamTexts.ofJson? params⟩
  | _ => none

def toJson (e : Element α) : Json :=
  .object (e.kind.fields ++
    [("order", e.order.elim .null .int), ("params", e.params.toJson)])

end Element

namespace Anchor

def ofJson? (value : Json) : Option (Anchor α) := do
  match ← value.fields? ["kind", "position"] with
  | [kind, position] =>
    let kind : AnchorKind ← match ← (← kind).word? with
      | "start" => some .start
      | "end" => some .stop
      | _ => none
    return ⟨kind, ← Point.ofJson? (← position)⟩
  | _ => none

def toJson (a : Anchor α) : Json :=
  .object [("kind", .string a.kind.text), ("position", a.position.toJson)]

end Anchor

def Level.ofJson? (value : Json) : Option Level := do Level.ofKeyword? (← value.word?)

namespace Layer

/-- Reads the texts of levels; of two for one level the later count. -/
def levelsOfJson? : Json → Option (List (Level × ParamTexts))
  | .object entries => entries.mapM fun (key, value) => do
    return (← Level.ofKeyword? key, ← ParamTexts.ofJson? value)
  | _ => none

def ofJson? (room : Nat) (value : Json) : Option (Layer α) := do
  match ← value.fields? ["name", "params", "level_params", "anchors", "segments"] with
  | [name, params, levels, anchors, elements] =>
    let name ← (← name).string?
    let params ← Json.orDefault ∅ ParamTexts.ofJson? params
    let levels ← Json.orDefault [] levelsOfJson? levels
    let anchors ← Json.orDefault [] (Json.list? Anchor.ofJson?) anchors
    let elements ← Json.orDefault [] (Json.list? (Element.ofJson? (room - 2))) elements
    let layer : Layer α := ⟨.ofText name, params, fun _ => none, anchors, elements⟩
    return levels.foldl (fun layer (level, texts) => layer.setLevel level texts) layer
  | _ => none

def toJson (l : Layer α) : Json :=
  .object
    [("name", .string l.name.text), ("params", l.params.toJson),
     ("level_params", .object (Level.all.filterMap fun level =>
       (l.levelParams level).map fun texts => (level.keyword, texts.toJson))),
     ("anchors", .array (l.anchors.map Anchor.toJson)),
     ("segments", .array (l.elements.map Element.toJson))]

end Layer

namespace Defaults

def ofJson? (value : Json) : Option (Defaults α) := do
  let standard : Defaults α := .standard
  match ← value.fields?
    ["feed_rate", "plunge_rate", "sweep_rate", "sweep_height", "bit_diameter"] with
  | [feedRate, plungeRate, sweepRate, sweepHeight, bitDiameter] =>
    return ⟨← Json.orDefault standard.feedRate Json.scalar? feedRate,
      ← Json.orDefault standard.plungeRate (Json.nullable? Json.scalar?) plungeRate,
      ← Json.orDefault standard.sweepRate Json.scalar? sweepRate,
      ← Json.orDefault standard.sweepHeight Json.scalar? sweepHeight,
      ← Json.orDefault standard.bitDiameter Json.scalar? bitDiameter⟩
  | _ => none

def toJson (d : Defaults α) : Json :=
  .object
    [("feed_rate", .ofScalar d.feedRate),
     ("plunge_rate", d.plungeRate.elim .null .ofScalar),
     ("sweep_rate", .ofScalar d.sweepRate), ("sweep_height", .ofScalar d.sweepHeight),
     ("bit_diameter", .ofScalar d.bitDiameter)]

end Defaults

end Toolpath
