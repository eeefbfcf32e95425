import Toolpath.Model
import Toolpath.Route

/-!
Building models from a library. A model is built once for a path and its variables and kept; a path
that would be placed inside itself, and paths placed too deep inside each other, are refused.
-/

set_option autoImplicit false

namespace Toolpath

/-- What a model is kept under: the path and its variables. -/
structure ModelKey where
  name : PathName
  bindings : Bindings

def ModelKey.same (a b : ModelKey) : Bool := a.name == b.name && a.bindings == b.bindings

/-- The models built so far, those that failed among them, and all problems found. -/
structure BuildState (α : Type) where
  memo : List (ModelKey × Option (Model α))
  problems : List (Diagnostic α)
  /-- The models that are being built, the outermost first. -/
  stack : List ModelKey

namespace BuildState

variable {α : Type}

def report (s : BuildState α) (ds : List (Diagnostic α)) : BuildState α :=
  { s with problems := s.problems ++ ds }

def keep (s : BuildState α) (key : ModelKey) (outcome : Option (Model α)) : BuildState α :=
  { s with memo := s.memo ++ [(key, outcome)] }

def find? (s : BuildState α) (key : ModelKey) : Option (Option (Model α)) :=
  (s.memo.find? fun entry => entry.1.same key).map Prod.snd

def enter (s : BuildState α) (key : ModelKey) : BuildState α := { s with stack := s.stack ++ [key] }

def leave (s : BuildState α) : BuildState α := { s with stack := s.stack.dropLast }

end BuildState

abbrev Build (α : Type) := StateM (BuildState α)

namespace Build

variable {α : Type}

def initial : BuildState α := ⟨[], [], []⟩

def report (ds : List (Diagnostic α)) : Build α Unit := modify fun s => s.report ds

/-- Takes a result and reports the problems that came with it. -/
def take {β : Type} (result : β × List (Diagnostic α)) : Build α β := do
  report result.2
  return result.1

def keep (key : ModelKey) (outcome : Option (Model α)) : Build α Unit :=
  modify fun s => s.keep key outcome

def lookup (key : ModelKey) : Build α (Option (Option (Model α))) := do
  let s ← get
  return s.find? key

def inProgress : Build α (List ModelKey) := do
  let s ← get
  return s.stack

def during {β : Type} (key : ModelKey) (step : Build α β) : Build α β := do
  modify fun s => s.enter key
  let result ← step
  modify BuildState.leave
  return result

/-- The only mark of a kind on a layer, and what is wrong with the marks. -/
def anchor (layer : Layer α) (kind : AnchorKind) : Option (Point α) × List (Diagnostic α) :=
  match layer.positions kind with
  | [position] => (some position, [])
  | [] => (none, [.error (.ofPath layer.name) "no {0} mark" [kind.text]])
  | many =>
    (none, [.error (.ofPath layer.name) "{0} {1} marks, expected one"
      [toString many.length, kind.text]])

variable [Scalar α]

/-- What is the same for all elements of a layer. -/
structure Scope (α : Type) where
  path : PathName
  bindings : Bindings
  base : Settings α
  /-- The overlays of the levels that the layer sets. -/
  levels : List (Overlay α)

omit [Scalar α] in
def Scope.level? (scope : Scope α) (level : Level) : Option (Overlay α) :=
  scope.levels.find? fun o => o.level = level

omit [Scalar α] in
def Scope.outer (scope : Scope α) (e : Element α) : Settings α :=
  e.levels.foldl (fun settings level => settings.push? (scope.level? level)) scope.base

/-- The overlays of the levels that a layer sets, and what is wrong with their texts. -/
def levelOverlays (layer : Layer α) (bindings : Bindings) :
    List (Overlay α) × List (Diagnostic α) :=
  let read := Level.all.filterMap fun level => (layer.levelParams level).map fun texts =>
    Overlay.read level (.ofPath layer.name) texts bindings
  (read.map Prod.fst, read.flatMap Prod.snd)

def scopeOf (defaults : Defaults α) (layer : Layer α) (bindings : Bindings) :
    Scope α × List (Diagnostic α) :=
  let (own, problems) := Overlay.read .path (.ofPath layer.name) layer.params bindings
  let base := (Settings.ofDefaults defaults).push own
  let (levels, later) := levelOverlays layer bindings
  (⟨layer.name, bindings, base, levels⟩, problems ++ base.problems ++ later)

/-- The settings of an element, and what is wrong with its texts. The texts of a placed path are
variables and set nothing. -/
def settingsOf (scope : Scope α) (e : Element α) : Settings α × List (Diagnostic α) :=
  let context := e.context scope.path
  match e.kind with
  | .subPath .. => ((scope.outer e).push (.empty .subPath context), [])
  | _ =>
    let (own, problems) := Overlay.read e.level context e.params scope.bindings
    ((scope.outer e).push own, problems)

/-- The variables that a placed path gets, or the first variable in their texts without a value. -/
def childBindings (bindings : Bindings) :
    List (Char × String) → Bindings → Except Char Bindings
  | [], child => .ok child
  | (key, text) :: rest, child => do
    let value ← bindings.substitute text.toList
    childBindings bindings rest (child.insert key.toUpper (String.ofList value))

/-- Warns of a helix that is not wider than the bit. -/
def helixProblems (settings : Settings α) (context : Context α) (radius : α) :
    List (Diagnostic α) :=
  match settings.get? .bitDiameter with
  | some bit =>
    if radius ≤ bit / 2.0 then
      [.warning context
        "helix radius {0} is not larger than the bit radius {1}, drilling instead"
        [Scalar.coordinate radius, Scalar.coordinate (bit / 2.0)]]
    else []
  | none => []

def fit (context : Context α) (target : PathName) (start stop : Point α) (model : Model α) :
    Option (Placement α) × List (Diagnostic α) :=
  match Placement.ofAnchors model.start model.stop start stop with
  | .ok placement => (some placement, [])
  | .error mismatch =>
    (none, [.error context "sub-path {0} does not fit: {1}" [target.text, mismatch.message]])

/-- Resolves an element of a route; `place` gives the model of a placed path. -/
def resolve (place : ModelKey → Build α (Option (Model α))) (scope : Scope α) (e : Element α) :
    Build α (Option (Placed α (Model α))) := do
  let settings ← take (settingsOf scope e)
  report settings.problems
  let context := e.context scope.path
  match e.kind with
  | .helix _ radius _ =>
    report (helixProblems settings context radius)
    return some ⟨e, settings, none⟩
  | .subPath start stop target =>
    match childBindings scope.bindings e.params.entries ∅ with
    | .error letter =>
      report [.error context "{0}" [(ParamError.unbound letter).message]]
      return none
    | .ok child =>
      match ← place ⟨target, child⟩ with
      | none => return none
      | some model =>
        let placement ← take (fit context target start stop model)
        return placement.map fun t => ⟨e, settings, some (model, t)⟩
  | _ => return some ⟨e, settings, none⟩

/-- The probes of a placed path in the coordinates of the path around it. -/
def placedProbes (p : Placed α (Model α)) : List (BedProbe α) :=
  match p.sub with
  | some (model, placement) =>
    model.probes.map fun probe => ⟨placement.apply probe.position, probe.target⟩
  | none => []

/-- The bed probe that a probe element stands for, and what is wrong with it. -/
def bedProbe (scope : Scope α) (e : Element α) : Option (BedProbe α) × List (Diagnostic α) :=
  let (settings, problems) := settingsOf scope e
  match (settings.get? .probeHeight).or (settings.get? .top) with
  | some target => (some ⟨e.start, target⟩, problems)
  | none =>
    (none, problems ++ [.error (e.context scope.path) "probe height is not set" []])

/-- The model of a layer with a route, if the route is complete and all that is on it is
resolved. -/
def modelOf (scope : Scope α) (start stop : Point α) (route : Route α)
    (placed : List (Option (Placed α (Model α)))) : Option (Model α) :=
  let probes := route.probes.map fun e => (bedProbe scope e).1
  if route.complete && placed.all Option.isSome && probes.all Option.isSome then
    let elements := placed.filterMap id
    some ⟨scope.path, scope.base, start, stop, elements,
      elements.flatMap placedProbes ++ probes.filterMap id⟩
  else none

def construct (place : ModelKey → Build α (Option (Model α))) (defaults : Defaults α)
    (layer : Layer α) (bindings : Bindings) : Build α (Option (Model α)) := do
  let start ← take (anchor layer .start)
  let stop ← take (anchor layer .stop)
  let scope ← take (scopeOf defaults layer bindings)
  match start, stop with
  | some start, some stop =>
    let route ← take (Route.assemble layer.name layer.elements start stop)
    let placed ← route.elements.mapM (resolve place scope)
    report (route.probes.flatMap fun e => (bedProbe scope e).2)
    return modelOf scope start stop route placed
  | _, _ => return none

/-- Paths are placed inside each other at most so deep. -/
def maxNesting : Nat := 32

omit [Scalar α] in
/-- What a path is refused with that is being built already: all paths from there on, and again the
path. -/
def cycleProblem (cycle : List ModelKey) (key : ModelKey) : Diagnostic α :=
  .error (.ofPath key.name) "sub-path cycle: {0}"
    [" -> ".intercalate (cycle.map (·.name.text) ++ [key.name.text])]

omit [Scalar α] in
def nestingProblem (key : ModelKey) : Diagnostic α :=
  .error (.ofPath key.name) "sub-paths nested deeper than {0} levels" [toString maxNesting]

omit [Scalar α] in
def undefinedProblem (key : ModelKey) : Diagnostic α :=
  .error (.ofPath key.name) "undefined path" []

/-- The model for a key, where paths can be placed `room` deep. -/
def buildWithin (lib : Library α) : Nat → ModelKey → Build α (Option (Model α))
  | room, key => do
    match ← lookup key with
    | some outcome => return outcome
    | none =>
      match (← inProgress).dropWhile fun k => !(k.name == key.name) with
      | first :: later =>
        report [cycleProblem (first :: later) key]
        return none
      | [] =>
        match room with
        | 0 =>
          report [nestingProblem key]
          return none
        | room + 1 =>
          match lib.get? key.name with
          | none =>
            report [undefinedProblem key]
            return none
          | some layer =>
            let model ← during key
              (construct (buildWithin lib room) lib.defaults layer key.bindings)
            keep key model
            return model

/-- The model of a path with some variables, or nothing if the path has errors. The models that are
being built leave less room. -/
def build (lib : Library α) (name : PathName) (bindings : Bindings) :
    Build α (Option (Model α)) := do
  let stack ← inProgress
  buildWithin lib (maxNesting - stack.length) ⟨name, bindings⟩

/-- The models of all paths that no path places, in the order of their names. -/
def roots (lib : Library α) : Build α (List (Model α)) := do
  if lib.roots.isEmpty && !lib.layers.isEmpty then
    report [.error .nowhere
      "every path is placed inside another path; nothing to compile" []]
  let models ← lib.roots.mapM fun name => build lib name ∅
  return models.filterMap id

def programs : List (Model α) → List (Program α) × List (Diagnostic α)
  | [] => ([], [])
  | model :: rest =>
    let (later, problems) := programs rest
    match model.generate with
    | .ok program => (program :: later, problems)
    | .error e => (later, .error (.ofPath model.name) "{0}" [e.message] :: problems)

def compileAll (lib : Library α) : Build α (List (Program α)) := do
  let models ← roots lib
  take (programs models)

end Build

end Toolpath
