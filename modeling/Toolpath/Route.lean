import Toolpath.Element

/-!
Routes through a layer. Its elements are drawn in any order and direction; the route walks from the
start mark, always on to an element that touches the place it has reached, and turns that element
round if it was drawn the other way.
-/

set_option autoImplicit false

namespace Toolpath

structure Route (α : Type) where
  /-- The elements in the order and direction of travel. -/
  elements : List (Element α)
  /-- The bed probes, which are not part of the route. -/
  probes : List (Element α)
  /-- Whether every element was reached and the route ends at the end mark. -/
  complete : Bool

namespace Route

variable {α : Type} [Scalar α]

def touches (e : Element α) (p : Point α) : Bool := e.start.coincides p || e.stop.coincides p

/-- The element turned so that it starts at a point that it touches. -/
def orient (e : Element α) (p : Point α) : Element α :=
  if e.start.coincides p then e else e.reversed

def better (best : Option (Element α × Nat)) (e : Element α × Nat) : Option (Element α × Nat) :=
  match best with
  | none => some e
  | some b => if e.1.branchCompare b.1 == .lt then some e else some b

/-- The element to go on with from a point, and its place in the list. -/
def pick (elements : List (Element α)) (p : Point α) : Option (Element α × Nat) :=
  (elements.zipIdx.filter fun (e, _) => touches e p).foldl better none

/-- The elements of a walk of at most so many steps, and those that it does not reach. -/
def walk : Nat → Point α → List (Element α) → List (Element α) × List (Element α)
  | 0, _, left => ([], left)
  | steps + 1, p, left =>
    match pick left p with
    | none => ([], left)
    | some (e, i) =>
      let next := orient e p
      let (placed, left) := walk steps next.stop (left.eraseIdx i)
      (next :: placed, left)

/-- Where a walk from `start` over some elements ends. -/
def cursor (start : Point α) (placed : List (Element α)) : Point α :=
  match placed.getLast? with
  | some e => e.stop
  | none => start

/-- What is wrong with a walk that placed some elements and left others. -/
def problems (path : PathName) (start stop : Point α) (placed left : List (Element α)) :
    List (Diagnostic α) :=
  let reached := cursor start placed
  if reached.coincides stop then
    if left.isEmpty then []
    else [.error (.ofPath path) "{0} segments unreached" [toString left.length]]
  else
    let context := match placed.getLast? with
      | some e => e.context path
      | none => .ofPath path
    (if left.isEmpty then []
      else [.error context "no further segment found at {0}" [reached.text]]) ++
    [.error context "lost end: route stops at {0}, end is at {1}" [reached.text, stop.text]]

/-- The route through the elements of a layer, and what is wrong with it. -/
def assemble (path : PathName) (elements : List (Element α)) (start stop : Point α) :
    Route α × List (Diagnostic α) :=
  let (probes, drawn) := elements.partition Element.isProbe
  let (placed, left) := walk drawn.length start drawn
  let complete := (cursor start placed).coincides stop && left.isEmpty
  (⟨placed, probes, complete⟩, problems path start stop placed left)

end Route

end Toolpath
