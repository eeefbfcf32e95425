import Toolpath.Binary64
import Toolpath.Job.Format
import Mathlib.Data.Option.Basic

/-!
Written elements are read back. Each writer puts every field down under its name, and the reader
finds there what was written; so an element comes back as it was, as far as its numbers do.
-/

set_option autoImplicit false

namespace Toolpath

variable {α : Type} [Scalar α]

/-- A number that is read back as it was written. -/
def Json.Survives (x : α) : Prop := Json.scalar? (Json.ofScalar x) = some x

instance (x : Float) : Decidable (Json.Survives x) :=
  have hmodel : Function.Injective Float.toModel := fun _ _ h => congrArg Float.ofModel h
  decidable_of_iff
    ((Json.scalar? (Json.ofScalar x)).map Float.toModel = (some x).map Float.toModel)
    (Option.map_injective hmodel).eq_iff

namespace Json

variable {k : Nat}

/-- A value of numbers in range that is nested at most `k` deep. -/
def Shallow (α : Type) [Scalar α] (k : Nat) (value : Json) : Prop :=
  ∃ depth, value.depth? (fun d => (scalar? (.real d) : Option α).isSome) = some depth ∧ depth ≤ k

private theorem Shallow.mono {m : Nat} {value : Json} (h : Shallow α k value) (hle : k ≤ m) :
    Shallow α m value :=
  let ⟨depth, hdepth, hk⟩ := h
  ⟨depth, hdepth, Nat.le_trans hk hle⟩

@[simp]
theorem shallow_string (text : String) : Shallow α k (string text) :=
  ⟨0, by simp [depth?], k.zero_le⟩

@[simp]
theorem shallow_bool (b : Bool) : Shallow α k (bool b) :=
  ⟨0, by simp [depth?], k.zero_le⟩

private theorem shallow_object {entries : List (String × Json)}
    (h : ∀ e ∈ entries, Shallow α k e.2) :
    Shallow α (k + 1) (.object entries) := by
  have hentries : ∃ depth, depthEntries? (fun d => (scalar? (.real d) : Option α).isSome) entries =
      some depth ∧ depth ≤ k := by
    induction entries with
    | nil => exact ⟨0, rfl, k.zero_le⟩
    | cons e entries ih =>
      obtain ⟨first, hfirst, hfirstle⟩ := h e List.mem_cons_self
      obtain ⟨later, hlater, hlaterle⟩ := ih fun f hf => h f (List.mem_cons_of_mem e hf)
      refine ⟨max first later, ?_, Nat.max_le.mpr ⟨hfirstle, hlaterle⟩⟩
      rw [depthEntries?, hfirst, hlater]
      rfl
  obtain ⟨depth, hdepth, hle⟩ := hentries
  exact ⟨depth + 1, by rw [depth?, hdepth]; rfl, Nat.succ_le_succ hle⟩

private theorem Survives.shallow {x : α} (h : Survives x) : Shallow α k (ofScalar x) := by
  rw [Survives, ofScalar] at h
  rw [ofScalar]
  split at h
  · exact ⟨0, by simp [depth?, h], k.zero_le⟩
  · simp [scalar?] at h

end Json

namespace Point

omit [Scalar α] in
def numbers (p : Point α) : List α := [p.x, p.y]

private theorem ofJson?_toJson {p : Point α} (h : ∀ x ∈ p.numbers, Json.Survives x) :
    ofJson? p.toJson = some p := by
  have hx : Json.scalar? (Json.ofScalar p.x) = some p.x := h p.x (by simp [numbers])
  have hy : Json.scalar? (Json.ofScalar p.y) = some p.y := h p.y (by simp [numbers])
  have hfields : p.toJson.fields? ["x", "y"] =
      some [some (.ofScalar p.x), some (.ofScalar p.y)] := rfl
  rw [ofJson?, hfields]
  simp [hx, hy]

private theorem shallow_toJson {p : Point α} (h : ∀ x ∈ p.numbers, Json.Survives x) :
    Json.Shallow α 1 p.toJson := by
  have hx : Json.Survives p.x := h p.x (by simp [numbers])
  have hy : Json.Survives p.y := h p.y (by simp [numbers])
  exact Json.shallow_object (by simpa [Point.toJson] using ⟨hx.shallow, hy.shallow⟩)

end Point

namespace Line

omit [Scalar α] in
def numbers (l : Line α) : List α := l.start.numbers ++ l.stop.numbers

private theorem ofJson?_fields {l : Line α} (h : ∀ x ∈ l.numbers, Json.Survives x) :
    ofJson? (.object l.fields) = some l := by
  have hstart := Point.ofJson?_toJson fun x hx => h x (List.mem_append_left _ hx)
  have hstop := Point.ofJson?_toJson fun x hx => h x (List.mem_append_right _ hx)
  have hfields : (Json.object l.fields).fields? ["start", "end"] =
      some [some l.start.toJson, some l.stop.toJson] := rfl
  rw [ofJson?, hfields]
  simp [hstart, hstop]

private theorem shallow_fields {l : Line α} (h : ∀ x ∈ l.numbers, Json.Survives x) :
    ∀ e ∈ l.fields, Json.Shallow α 1 e.2 := by
  have hstart := Point.shallow_toJson fun x hx => h x (List.mem_append_left _ hx)
  have hstop := Point.shallow_toJson fun x hx => h x (List.mem_append_right _ hx)
  simp [fields, hstart, hstop]

end Line

namespace Arc

omit [Scalar α] in
def numbers (a : Arc α) : List α := a.center.numbers ++ [a.radius, a.startAngle, a.endAngle]

private theorem ofJson?_fields {a : Arc α} (h : ∀ x ∈ a.numbers, Json.Survives x) :
    ofJson? (.object a.fields) = some a := by
  have hcenter := Point.ofJson?_toJson fun x hx => h x (List.mem_append_left _ hx)
  have hradius : Json.scalar? (Json.ofScalar a.radius) = some a.radius :=
    h a.radius (by simp [numbers])
  have hstart : Json.scalar? (Json.ofScalar a.startAngle) = some a.startAngle :=
    h a.startAngle (by simp [numbers])
  have hend : Json.scalar? (Json.ofScalar a.endAngle) = some a.endAngle :=
    h a.endAngle (by simp [numbers])
  have hfields : (Json.object a.fields).fields?
      ["center", "radius", "start_angle", "end_angle", "ccw"] =
      some [some a.center.toJson, some (.ofScalar a.radius), some (.ofScalar a.startAngle),
        some (.ofScalar a.endAngle), some (.bool a.ccw)] := rfl
  rw [ofJson?, hfields]
  simp [hcenter, hradius, hstart, hend, Json.orDefault, Json.bool?]

private theorem shallow_fields {a : Arc α} (h : ∀ x ∈ a.numbers, Json.Survives x) :
    ∀ e ∈ a.fields, Json.Shallow α 1 e.2 := by
  have hcenter := Point.shallow_toJson fun x hx => h x (List.mem_append_left _ hx)
  have hradius : Json.Survives a.radius := h a.radius (by simp [numbers])
  have hstart : Json.Survives a.startAngle := h a.startAngle (by simp [numbers])
  have hend : Json.Survives a.endAngle := h a.endAngle (by simp [numbers])
  simp [fields, hcenter, hradius.shallow, hstart.shallow, hend.shallow]

end Arc

namespace Shape

omit [Scalar α] in
def numbers : Shape α → List α
  | line l => l.numbers
  | arc a => a.numbers

private theorem ofJson?_toJson (counted : Bool) {s : Shape α}
    (h : ∀ x ∈ s.numbers, Json.Survives x) :
    ofJson? counted s.toJson = some s := by
  cases s with
  | line l =>
    have htag : (line l).toJson.tagged? "type" = some (.string "line", .object l.fields) := rfl
    rw [ofJson?, htag]
    simp [Json.choice?, Line.ofJson?_fields h]
  | arc a =>
    have htag : (arc a).toJson.tagged? "type" = some (.string "arc", .object a.fields) := rfl
    rw [ofJson?, htag]
    simp [Json.choice?, Arc.ofJson?_fields h]

private theorem shallow_toJson {s : Shape α} (h : ∀ x ∈ s.numbers, Json.Survives x) :
    Json.Shallow α 2 s.toJson := by
  cases s with
  | line l =>
    exact Json.shallow_object
      (List.forall_mem_cons.mpr ⟨Json.shallow_string "line", Line.shallow_fields h⟩)
  | arc a =>
    exact Json.shallow_object
      (List.forall_mem_cons.mpr ⟨Json.shallow_string "arc", Arc.shallow_fields h⟩)

end Shape

namespace ParamTexts

private theorem put_of_last {key : Char} {value : String} {entries : List (Char × String)}
    (h : ∀ e ∈ entries, e.1.toNat < key.toNat) :
    put key value entries = entries ++ [(key, value)] := by
  induction entries with
  | nil => rfl
  | cons e entries ih =>
    have hlt : e.1.toNat < key.toNat := h e List.mem_cons_self
    have hne : key ≠ e.1 := fun heq => by
      rw [heq] at hlt
      exact Nat.lt_irrefl _ hlt
    have hnot : ¬ key.toNat < e.1.toNat := Nat.lt_asymm hlt
    rw [put, if_neg hne, if_neg hnot, ih fun f hf => h f (List.mem_cons_of_mem e hf)]
    rfl

private theorem entries_foldl_insert (texts : ParamTexts) {entries : List (Char × String)}
    (h : (texts.entries ++ entries).Pairwise fun a b => a.1.toNat < b.1.toNat) :
    (entries.foldl (fun texts (key, value) => texts.insert key value) texts).entries =
      texts.entries ++ entries := by
  induction entries generalizing texts with
  | nil => exact (List.append_nil _).symm
  | cons e entries ih =>
    have hlast : (texts.insert e.1 e.2).entries = texts.entries ++ [e] :=
      put_of_last fun f hf => (List.pairwise_append.mp h).2.2 f hf e List.mem_cons_self
    rw [List.foldl_cons, ih, hlast, List.append_assoc]
    · rfl
    · rw [hlast, List.append_assoc]
      exact h

private theorem ofList_entries (texts : ParamTexts) : ofList texts.entries = texts := by
  have hentries : (ofList texts.entries).entries = texts.entries :=
    entries_foldl_insert empty texts.sorted
  generalize ofList texts.entries = other at hentries
  obtain ⟨entries, sorted⟩ := texts
  obtain ⟨entries', sorted'⟩ := other
  obtain rfl : entries' = entries := hentries
  rfl

private theorem ofJson?_toJson (texts : ParamTexts) : ofJson? texts.toJson = some texts := by
  rw [toJson, ofJson?]
  have hread : ∀ entries : List (Char × String),
      (entries.map fun e => (e.1.toString, Json.string e.2)).mapM
        (fun e => do return (← Json.letter? e.1, ← e.2.string?)) = some entries := by
    intro entries
    induction entries with
    | nil => rfl
    | cons e entries ih =>
      have hletter : Json.letter? e.1.toString = some e.1 := by
        simp [Json.letter?, Char.toString]
      rw [List.map_cons, List.mapM_cons, ih]
      simp only [hletter, Json.string?]
      rfl
  refine (congrArg (fun read => read >>= fun entries => some (ofList entries))
    (hread texts.entries)).trans ?_
  exact congrArg some (ofList_entries texts)

private theorem shallow_toJson (texts : ParamTexts) : Json.Shallow α 1 texts.toJson := by
  refine Json.shallow_object fun e he => ?_
  obtain ⟨entry, -, rfl⟩ := List.mem_map.mp he
  exact Json.shallow_string entry.2

end ParamTexts

/-- The name without its file, which is for messages only and not written. -/
def PathName.unsourced (name : PathName) : PathName := { name with source := none }

private theorem PathName.ofText_text (name : PathName) : ofText name.text = name.unsourced := by
  obtain ⟨text, source, trimmed⟩ := name
  simp [ofText, unsourced, trimmed]

namespace ElementKind

omit [Scalar α] in
def numbers : ElementKind α → List α
  | cut shape _ => shape.numbers
  | helix center radius _ => radius :: center.numbers
  | drill center _ => center.numbers
  | sweep start stop | backSweep start stop | subPath start stop _ => start.numbers ++ stop.numbers
  | probe position => position.numbers

omit [Scalar α] in
def unsourced : ElementKind α → ElementKind α
  | subPath start stop target => subPath start stop target.unsourced
  | kind => kind

omit [Scalar α] in
def tag : ElementKind α → String
  | cut .. => "chain"
  | helix .. => "helix"
  | drill .. => "drill"
  | sweep .. => "sweep"
  | backSweep .. => "back_sweep"
  | subPath .. => "sub_path"
  | probe .. => "z_probe"

omit [Scalar α] in
private theorem choice?_tag (kind : ElementKind α) :
    (Json.string kind.tag).choice? true names = some kind.tag := by
  cases kind <;> rfl

private theorem tagged?_fields (kind : ElementKind α) :
    (Json.object kind.fields).tagged? "type" =
      some (.string kind.tag, .object kind.fields.tail) := by
  cases kind <;> rfl

section Beside

-- The rank and the texts stand beside the fields, none of which has the name of either.
variable (kind : ElementKind α) (rank texts : Json)

private theorem member?_order :
    Json.member? (kind.fields ++ [("order", rank), ("params", texts)]) "order" =
      some (some rank) := by
  cases kind <;> rfl

private theorem member?_params :
    Json.member? (kind.fields ++ [("order", rank), ("params", texts)]) "params" =
      some (some texts) := by
  cases kind <;> rfl

end Beside

private theorem filter_fields (kind : ElementKind α) :
    kind.fields.filter (fun e => e.1 != "order" && e.1 != "params") = kind.fields := by
  cases kind <;> rfl

private theorem endsOf?_fields {start stop : Point α}
    (h : ∀ x ∈ start.numbers ++ stop.numbers, Json.Survives x) :
    endsOf? (.object [("start", start.toJson), ("end", stop.toJson)]) = some (start, stop) := by
  have hstart := Point.ofJson?_toJson fun x hx => h x (List.mem_append_left _ hx)
  have hstop := Point.ofJson?_toJson fun x hx => h x (List.mem_append_right _ hx)
  have hfields : (Json.object [("start", start.toJson), ("end", stop.toJson)]).fields?
      ["start", "end"] = some [some start.toJson, some stop.toJson] := rfl
  rw [endsOf?, hfields]
  simp [hstart, hstop]

private theorem ofFields?_fields {kind : ElementKind α} (h : ∀ x ∈ kind.numbers, Json.Survives x) :
    ofFields? kind.tag (.object kind.fields.tail) = some kind.unsourced := by
  cases kind with
  | cut shape mark =>
    have hfields : (Json.object (cut shape mark).fields.tail).fields? ["geometry", "mark"] =
        some [some shape.toJson, some (.bool mark)] := rfl
    simp [ofFields?, tag, hfields, Shape.ofJson?_toJson true h, Json.orDefault, Json.bool?,
      unsourced]
  | helix center radius mark =>
    have hradius : Json.scalar? (Json.ofScalar radius) = some radius := h radius List.mem_cons_self
    have hcenter := Point.ofJson?_toJson fun x hx => h x (List.mem_cons_of_mem radius hx)
    have hfields : (Json.object (helix center radius mark).fields.tail).fields?
        ["center", "radius", "mark"] =
        some [some center.toJson, some (.ofScalar radius), some (.bool mark)] := rfl
    simp [ofFields?, tag, hfields, hradius, hcenter, Json.orDefault, Json.bool?, unsourced]
  | drill center mark =>
    have hfields : (Json.object (drill center mark).fields.tail).fields? ["center", "mark"] =
        some [some center.toJson, some (.bool mark)] := rfl
    simp [ofFields?, tag, hfields, Point.ofJson?_toJson h, Json.orDefault, Json.bool?, unsourced]
  | sweep start stop =>
    simp [ofFields?, tag, fields, endsOf?_fields h, unsourced]
  | backSweep start stop =>
    simp [ofFields?, tag, fields, endsOf?_fields h, unsourced]
  | subPath start stop target =>
    have hstart := Point.ofJson?_toJson fun x hx => h x (List.mem_append_left _ hx)
    have hstop := Point.ofJson?_toJson fun x hx => h x (List.mem_append_right _ hx)
    have hfields : (Json.object (subPath start stop target).fields.tail).fields?
        ["start", "end", "target"] =
        some [some start.toJson, some stop.toJson, some (.string target.text)] := rfl
    simp [ofFields?, tag, hfields, hstart, hstop, Json.string?, PathName.ofText_text, unsourced]
  | probe position =>
    have hfields : (Json.object (probe position).fields.tail).fields? ["position"] =
        some [some position.toJson] := rfl
    simp [ofFields?, tag, hfields, Point.ofJson?_toJson h, unsourced]

private theorem shallow_fields {kind : ElementKind α} (h : ∀ x ∈ kind.numbers, Json.Survives x) :
    ∀ e ∈ kind.fields, Json.Shallow α 2 e.2 := by
  have hpoint : ∀ p : Point α, (∀ x ∈ p.numbers, x ∈ kind.numbers) → Json.Shallow α 2 p.toJson :=
    fun p hp => (Point.shallow_toJson fun x hx => h x (hp x hx)).mono (by decide)
  cases kind with
  | cut shape mark => simp [fields, Shape.shallow_toJson h]
  | helix center radius mark =>
    have hradius : Json.Survives radius := h radius List.mem_cons_self
    have hcenter := hpoint center fun x hx => List.mem_cons_of_mem radius hx
    simp [fields, hradius.shallow, hcenter]
  | drill center mark => simp [fields, hpoint center fun x hx => hx]
  | sweep start stop | backSweep start stop | subPath start stop target =>
    have hstart := hpoint start fun x hx => List.mem_append_left _ hx
    have hstop := hpoint stop fun x hx => List.mem_append_right _ hx
    simp [fields, hstart, hstop]
  | probe position => simp [fields, hpoint position fun x hx => hx]

end ElementKind

namespace Element

omit [Scalar α] in
def numbers (e : Element α) : List α := e.kind.numbers

omit [Scalar α] in
def unsourced (e : Element α) : Element α := { e with kind := e.kind.unsourced }

private theorem nullable?_order {order : Option Int}
    (h : ∀ n ∈ order, -(twoPow 63 : Int) ≤ n ∧ n < twoPow 63) :
    Json.nullable? Json.word64? (order.elim .null .int) = some order := by
  cases order with
  | none => rfl
  | some n =>
    have hfits := h n rfl
    simp [Json.nullable?, Json.word64?, hfits]

private theorem shallow_toJson {e : Element α} (h : ∀ x ∈ e.numbers, Json.Survives x) :
    Json.Shallow α 3 e.toJson := by
  have horder : Json.Shallow α 2 (e.order.elim .null .int) := by
    cases e.order <;> exact ⟨0, by simp [Json.depth?], by decide⟩
  have hparams : Json.Shallow α 2 e.params.toJson :=
    (ParamTexts.shallow_toJson e.params).mono (by decide)
  refine Json.shallow_object fun entry hentry => ?_
  rcases List.mem_append.mp hentry with hkind | hother
  · exact ElementKind.shallow_fields h entry hkind
  · simp only [List.mem_cons, List.not_mem_nil, or_false] at hother
    rcases hother with rfl | rfl
    · exact horder
    · exact hparams

/-- What is written of an element is read back as that element: its kind with every field of it,
its rank and its texts. Only the file that the name of a placed path is tagged with is not written;
it is no part of the name. -/
theorem ofJson?_written {room : Nat} (hroom : 3 ≤ room) {e : Element α}
    (hnumbers : ∀ x ∈ e.numbers, Json.Survives x)
    (horder : ∀ n ∈ e.order, -(twoPow 63 : Int) ≤ n ∧ n < twoPow 63) :
    ofJson? room e.toJson = some e.unsourced := by
  obtain ⟨depth, hdepth, hle⟩ := shallow_toJson hnumbers
  have hfits : ¬ room < depth := Nat.not_lt.mpr (Nat.le_trans hle hroom)
  rw [toJson] at hdepth
  rw [toJson, ofJson?, hdepth]
  simp [hfits, ElementKind.member?_order, ElementKind.member?_params, ElementKind.filter_fields,
    ElementKind.tagged?_fields, ElementKind.choice?_tag, ElementKind.ofFields?_fields hnumbers,
    Json.orDefault, nullable?_order horder, ParamTexts.ofJson?_toJson, unsourced]

def longTurn : Element Float :=
  ⟨.cut (.arc ⟨⟨2.5, -3.0⟩, 10.0, 450.0, -90.0, false⟩) true, some (-2),
    .ofList [('p', "5"), ('h', "-2.5")]⟩

def placedVariant : Element Float :=
  ⟨.subPath ⟨0.0, 0.0⟩ ⟨10.0, 0.0⟩ (.ofText " Lid.B "), none, .empty⟩

theorem ofJson?_written_longTurn :
    ofJson? Json.maxDepth longTurn.toJson = some longTurn ∧
      ofJson? Json.maxDepth placedVariant.toJson = some placedVariant :=
  ⟨ofJson?_written (by decide) (by decide +kernel) (by decide),
    ofJson?_written (by decide) (by decide +kernel) (by decide)⟩

end Element

end Toolpath
