import Toolpath.Proofs.Program.Words
import Toolpath.Proofs.Scalar.Coordinates

/-!
Where a printed program takes the machine. The machine starts where the head starts, and each line
that is a move overwrites the coordinates that it says. Heads are kept in doubles and coordinates
are printed with three places; as every coordinate is printed anew and none is relative to the one
before it, the machine is half a thousandth from the head at most, however many lines there are.
-/

set_option autoImplicit false

namespace Toolpath

namespace Record

variable {α : Type}

def IsMove (r : Record α) : Prop := r.kind ≠ .comment ∧ r.kind ≠ .other

instance (r : Record α) : Decidable r.IsMove := inferInstanceAs (Decidable (_ ∧ _))

/-- On the axis of a letter a line says where the head is behind it, or it says nothing and the head
is where it was. -/
inductive Says (r : Record Float) (letter : Char) (before after : Float) : Prop
  | nothing (word : r.word? letter = none) (same : after = before)
  | coordinate (word : r.word? letter = some (Scalar.coordinate after).toList)
      (finite : after.isFinite = true)

namespace IsCommand

variable {r : Record Float} {code : String} {args : List (Char × String)} {letter : Char}
  {before after : Float} (h : r.IsCommand code args) (hletter : letter ≠ 'G')

include h hletter

private theorem says_nothing (absent : args.find? (fun a => a.1 == letter) = none)
    (same : after = before) :
    r.Says letter before after :=
  .nothing (by rw [h.word?_eq hletter, absent, Option.map_none]) same

private theorem says_coordinate
    (present : args.find? (fun a => a.1 == letter) = some (letter, Scalar.coordinate after))
    (finite : after.isFinite = true) : r.Says letter before after :=
  .coordinate (by rw [h.word?_eq hletter, present, Option.map_some]) finite

end IsCommand

end Record

/-- A coordinate of the machine: the one before the program, or the last one that it read. -/
inductive Replay.Coordinate
  | initial (x : Float)
  | read (v : ℚ)

structure Replay where
  x : Replay.Coordinate
  y : Replay.Coordinate
  z : Replay.Coordinate

namespace Replay

namespace Coordinate

def step (letter : Char) (r : Record Float) (c : Coordinate) : Option Coordinate :=
  match r.word? letter with
  | none => some c
  | some word => (Decimal.number? word).map read

/-- A coordinate of the machine is that of the head, up to half a thousandth once it was read. -/
def Near : Coordinate → Float → Prop
  | initial x, head => x = head
  | read v, head => head.isFinite = true ∧ |v - Binary64.value head| ≤ 1 / 2000

private theorem exists_step {c : Coordinate} {r : Record Float} {letter : Char}
    {before after : Float} (near : c.Near before) (said : r.Says letter before after) :
    ∃ c', c.step letter r = some c' ∧ c'.Near after := by
  cases said with
  | nothing word same =>
    refine ⟨c, ?_, same ▸ near⟩
    rw [step, word]
  | coordinate word finite =>
    obtain ⟨v, hv, hclose⟩ := Binary64.exists_number?_coordinate finite
    refine ⟨.read v, ?_, finite, hclose⟩
    rw [step, word]
    exact congrArg (Option.map read) hv

end Coordinate

def start (head : Head Float) : Replay := ⟨.initial head.x, .initial head.y, .initial head.z⟩

def step (m : Replay) (r : Record Float) : Option Replay :=
  if r.IsMove then do
    let x ← m.x.step 'X' r
    let y ← m.y.step 'Y' r
    let z ← m.z.step 'Z' r
    some ⟨x, y, z⟩
  else some m

def run (m : Replay) (records : List (Record Float)) : Option Replay := records.foldlM step m

structure Near (m : Replay) (head : Head Float) : Prop where
  x : m.x.Near head.x
  y : m.y.Near head.y
  z : m.z.Near head.z

private theorem near_start (head : Head Float) : (start head).Near head := ⟨rfl, rfl, rfl⟩

end Replay

/-- A line says on each axis where it takes the head. -/
structure Written.Locates (line : Written Float) : Prop where
  x : line.record.Says 'X' line.before.x line.after.x
  y : line.record.Says 'Y' line.before.y line.after.y
  z : line.record.Says 'Z' line.before.z line.after.z

/-- A line leaves the head where it was unless it is a move; a move says where it takes the head if
what it was asked for is `plain`. -/
structure Written.Tells (plain : Prop) (line : Written Float) : Prop where
  rests : ¬ line.record.IsMove → line.after = line.before
  moves : plain → line.record.IsMove → line.Locates

private theorem Replay.exists_step {plain : Prop} {line : Written Float} (h : line.Tells plain)
    (holds : plain) {m : Replay} (near : m.Near line.before) :
    ∃ m', m.step line.record = some m' ∧ m'.Near line.after := by
  unfold step
  split
  · next hmove =>
    have hlocates := h.moves holds hmove
    obtain ⟨x, hx, hnearX⟩ := Coordinate.exists_step near.x hlocates.x
    obtain ⟨y, hy, hnearY⟩ := Coordinate.exists_step near.y hlocates.y
    obtain ⟨z, hz, hnearZ⟩ := Coordinate.exists_step near.z hlocates.z
    exact ⟨⟨x, y, z⟩, by simp [hx, hy, hz], hnearX, hnearY, hnearZ⟩
  · next hrest => exact ⟨m, rfl, h.rests hrest ▸ near⟩

private theorem Setup.heightText_of_flat {α : Type} [Scalar α] {setup : Setup α}
    (h : setup.probes = [])
    (world : Point α) (z : α) : setup.heightText world z = Scalar.coordinate z := by
  simp [heightText, heightExpr, weighted, HeightExpr.text, Scalar.coordinate, h]

namespace Writer

/-- At most one line is written, and the head is where the line ends. -/
inductive Step (P : Written Float → Prop) (w : Writer Float) : Writer Float → Prop
  | nothing : Step P w w
  | line (r : Record Float) (head : Head Float) (holds : P ⟨r, w.head, head⟩) :
    Step P w (w.push r head)

variable {plain : Prop} {w : Writer Float}

section Primitives

private theorem step_note {r : Record Float} (h : ¬ r.IsMove) :
    Step (Written.Tells plain) w (w.push r w.head) :=
  .line _ _ ⟨fun _ => rfl, fun _ hmove => absurd hmove h⟩

private theorem step_move {r : Record Float} {head : Head Float} (h : r.IsMove)
    (locates : plain → Written.Locates ⟨r, w.head, head⟩) :
    Step (Written.Tells plain) w (w.push r head) :=
  .line _ _ ⟨fun hrest => absurd h hrest, fun hplain _ => locates hplain⟩

private theorem step_lift (z : Float) {text : String} (blank : ' ' ∉ text.toList)
    (h : plain → z.isFinite = true ∧ text = Scalar.coordinate z) :
    Step (Written.Tells plain) w (w.lift z text) := by
  have hadds := commands_lift (w := w) z blank
  unfold lift at hadds ⊢
  dsimp only at hadds ⊢
  by_cases hnear : Scalar.abs (w.head.z - z) ≤ moveTolerance
  · rw [if_pos hnear]
    exact .nothing
  · rw [if_neg hnear] at hadds ⊢
    obtain ⟨-, hcommand⟩ := hadds.of_push
    refine step_move (by simp [Record.IsMove]) fun hplain => ?_
    obtain ⟨hfinite, rfl⟩ := h hplain
    exact ⟨hcommand.says_nothing (by decide) rfl rfl, hcommand.says_nothing (by decide) rfl rfl,
      hcommand.says_coordinate (by decide) rfl hfinite⟩

private theorem step_travelTo (dest : Point Float) (rate : Option Float)
    (h : plain → dest.x.isFinite = true ∧ dest.y.isFinite = true) :
    Step (Written.Tells plain) w (w.travelTo dest rate) := by
  have hadds := commands_travelTo (w := w) dest rate
  unfold travelTo at hadds ⊢
  dsimp only at hadds ⊢
  by_cases hnear : w.head.xy.distance dest ≤ moveTolerance
  · rw [if_pos hnear]
    exact .nothing
  · rw [if_neg hnear] at hadds ⊢
    obtain ⟨-, code, -, hcommand⟩ := hadds.of_push
    refine step_move (by simp [Record.IsMove]) fun hplain => ?_
    obtain ⟨hx, hy⟩ := h hplain
    exact ⟨hcommand.says_coordinate (by decide) rfl hx, hcommand.says_coordinate (by decide) rfl hy,
      hcommand.says_nothing (by decide) (by cases rate <;> rfl) rfl⟩

private theorem step_cutTo {kind : RecordKind} (cuts : kind.isCutting = true) (setup : Setup Float)
    (z feed : Float) (h : plain → setup.probes = [] ∧ z.isFinite = true) :
    Step (Written.Tells plain) w (w.cutTo kind setup z feed) := by
  obtain ⟨-, hcommand⟩ := (commands_cutTo (w := w) cuts setup z feed).of_push
  have hmove : kind ≠ .comment ∧ kind ≠ .other := by
    constructor <;> rintro rfl <;> cases cuts
  refine step_move hmove fun hplain => ?_
  obtain ⟨hflat, hfinite⟩ := h hplain
  have hheight := Setup.heightText_of_flat hflat w.head.xy z
  exact ⟨hcommand.says_nothing (by decide) rfl rfl, hcommand.says_nothing (by decide) rfl rfl,
    hcommand.says_coordinate (by decide) (congrArg (fun text => some ('Z', text)) hheight) hfinite⟩

private theorem step_millTo {r : Record Float} {code : String} {setup : Setup Float}
    {dest : Point Float} {z : Float} {rest : List (Char × String)} (hkind : r.kind = .mill)
    (command : r.IsCommand code (('X', Scalar.coordinate dest.x) ::
      ('Y', Scalar.coordinate dest.y) :: ('Z', setup.heightText dest z) :: rest))
    (h : plain → setup.probes = [] ∧ dest.x.isFinite = true ∧ dest.y.isFinite = true ∧
      z.isFinite = true) :
    Step (Written.Tells plain) w (w.push r (dest.atHeight z)) := by
  refine step_move (by simp [Record.IsMove, hkind]) fun hplain => ?_
  obtain ⟨hflat, hx, hy, hz⟩ := h hplain
  have hheight := Setup.heightText_of_flat hflat dest z
  exact ⟨command.says_coordinate (by decide) rfl hx, command.says_coordinate (by decide) rfl hy,
    command.says_coordinate (by decide) (congrArg (fun text => some ('Z', text)) hheight) hz⟩

end Primitives

inductive Operation
  | comment (text : String)
  | other (text : String)
  | rapidTo (z : Float)
  | rapidToCorrected (setup : Setup Float) (z : Float)
  | travelTo (dest : Point Float) (rate : Option Float)
  | moveToHeight (setup : Setup Float) (z plungeFeed : Float)
  | plunge (setup : Setup Float) (z feed : Float)
  | drillTo (setup : Setup Float) (z feed : Float)
  | millLine (setup : Setup Float) (dest : Point Float) (z feed : Float)
  | millArc (setup : Setup Float) (dest center : Point Float) (ccw : Bool) (z length feed : Float)

namespace Operation

def run (w : Writer Float) : Operation → Writer Float
  | comment text => w.comment text
  | other text => w.other text
  | rapidTo z => w.rapidTo z
  | rapidToCorrected setup z => w.rapidToCorrected setup z
  | travelTo dest rate => w.travelTo dest rate
  | moveToHeight setup z plungeFeed => w.moveToHeight setup z plungeFeed
  | plunge setup z feed => w.plunge setup z feed
  | drillTo setup z feed => w.drillTo setup z feed
  | millLine setup dest z feed => w.millLine setup dest z feed
  | millArc setup dest center ccw z length feed => w.millArc setup dest center ccw z length feed

/-- The head is taken to finite coordinates, and no probe has a say in the height. -/
def Plain : Operation → Prop
  | comment _ | other _ => True
  | rapidTo z => z.isFinite = true
  | travelTo dest _ => dest.x.isFinite = true ∧ dest.y.isFinite = true
  | rapidToCorrected setup z | moveToHeight setup z _ | plunge setup z _ | drillTo setup z _ =>
    setup.probes = [] ∧ z.isFinite = true
  | millLine setup dest z _ | millArc setup dest _ _ z _ _ =>
    setup.probes = [] ∧ dest.x.isFinite = true ∧ dest.y.isFinite = true ∧ z.isFinite = true

private theorem step_run (op : Operation) (w : Writer Float) :
    Step (Written.Tells op.Plain) w (op.run w) := by
  have hcorrected (setup : Setup Float) (z : Float) :
      Step (Written.Tells (setup.probes = [] ∧ z.isFinite = true)) w (w.rapidToCorrected setup z) :=
    step_lift z (blank_notMem_height setup _ z) fun h => ⟨h.2, Setup.heightText_of_flat h.1 _ z⟩
  cases op with
  | comment text => exact step_note (by simp [Record.IsMove, Record.comment])
  | other text => exact step_note (by simp [Record.IsMove, Record.other])
  | rapidTo z => exact step_lift z (blank_notMem_coordinate z) fun h => ⟨h, rfl⟩
  | rapidToCorrected setup z => exact hcorrected setup z
  | travelTo dest rate => exact step_travelTo dest rate id
  | moveToHeight setup z plungeFeed =>
    change Step _ w (w.moveToHeight setup z plungeFeed)
    unfold Writer.moveToHeight
    split
    · exact step_cutTo rfl setup z plungeFeed id
    · split
      · exact hcorrected setup z
      · exact .nothing
  | plunge setup z feed => exact step_cutTo rfl setup z feed id
  | drillTo setup z feed => exact step_cutTo rfl setup z feed id
  | millLine setup dest z feed =>
    obtain ⟨hkind, hcommand⟩ := (commands_millLine (w := w) setup dest z feed).of_push
    exact step_millTo hkind hcommand id
  | millArc setup dest center ccw z length feed =>
    obtain ⟨hkind, hcommand⟩ :=
      (commands_millArc (w := w) setup dest center ccw z length feed).of_push
    exact step_millTo hkind hcommand id

end Operation

def run (w : Writer Float) (ops : List Operation) : Writer Float := ops.foldl Operation.run w

/-- A machine that starts at `head` can read the program, and is where the writer has its head. -/
def Tracked (head : Head Float) (w : Writer Float) : Prop :=
  ∃ m, (Replay.start head).run w.records = some m ∧ m.Near w.head

private theorem Tracked.step {head : Head Float} {w w' : Writer Float} (h : Tracked head w)
    (step : Step (Written.Tells plain) w w') (holds : plain) : Tracked head w' := by
  cases step with
  | nothing => exact h
  | line r next tells =>
    obtain ⟨m, hm, hnear⟩ := h
    obtain ⟨m', hstep, hnext⟩ := Replay.exists_step tells holds hnear
    refine ⟨m', ?_, hnext⟩
    rw [records_push, Replay.run, List.foldlM_append]
    simp only [Replay.run] at hm
    simp [hm, hstep]

private theorem tracked_run {head : Head Float} {ops : List Operation}
    (plain : ∀ op ∈ ops, op.Plain)
    {w : Writer Float} (h : Tracked head w) : Tracked head (w.run ops) := by
  induction ops generalizing w with
  | nil => exact h
  | cons op ops ih =>
    refine ih (fun other hother => plain other (List.mem_cons_of_mem op hother)) ?_
    exact h.step (op.step_run w) (plain op List.mem_cons_self)

private theorem Step.head_eq {w' : Writer Float} (h : Step (Written.Tells plain) w w')
    (still : ∀ line ∈ w.since w', ¬ line.record.IsMove) : w'.head = w.head := by
  cases h with
  | nothing => rfl
  | line r head tells =>
    exact tells.rests (still _ (Adds.mem_since_of_push (.refl (fun _ => True) _)))

/-- After each operation, the machine that has obeyed all lines so far is no further than half a
thousandth from the head on any axis; and an operation that writes no move leaves the head alone. -/
theorem machine_follows_head (head : Head Float) (ops : List Operation)
    (plain : ∀ op ∈ ops, op.Plain) :
    (∀ n, ∃ m, (Replay.start head).run ((start head).run (ops.take n)).records = some m ∧
      m.Near ((start head).run (ops.take n)).head) ∧
    ∀ (op : Operation) (w : Writer Float),
      (∀ line ∈ w.since (op.run w), ¬ line.record.IsMove) → (op.run w).head = w.head := by
  constructor
  · intro n
    have htake : ∀ op ∈ ops.take n, op.Plain := fun op hop => plain op (List.mem_of_mem_take hop)
    exact tracked_run htake ⟨.start head, rfl, Replay.near_start head⟩
  · intro op w still
    exact (op.step_run w).head_eq still

def wayDown : List Operation :=
  [.rapidTo 2.0, .travelTo ⟨1.0004, -0.0003⟩ none, .comment "down",
    .moveToHeight .identity (-0.25) 100.0, .millLine .identity ⟨3.0, 4.0⟩ (-0.5) 300.0]

theorem machine_follows_head_wayDown :
    (∀ op ∈ wayDown, op.Plain) ∧
    (∀ n, ∃ m,
      (Replay.start ⟨0.0, 0.0, 5.0⟩).run ((start ⟨0.0, 0.0, 5.0⟩).run (wayDown.take n)).records =
        some m ∧
      m.Near ((start ⟨0.0, 0.0, 5.0⟩).run (wayDown.take n)).head) ∧
    ∀ (op : Operation) (w : Writer Float),
      (∀ line ∈ w.since (op.run w), ¬ line.record.IsMove) → (op.run w).head = w.head := by
  have plain : ∀ op ∈ wayDown, op.Plain := by
    simp only [wayDown, List.forall_mem_cons, Operation.Plain]
    refine ⟨?_, ?_, trivial, ?_, ?_, by simp⟩
    · decide +kernel
    · decide +kernel
    · exact ⟨rfl, by decide +kernel⟩
    · exact ⟨rfl, by decide +kernel⟩
  exact ⟨plain, machine_follows_head ⟨0.0, 0.0, 5.0⟩ wayDown plain⟩

end Writer

end Toolpath
