import Mathlib.Algebra.GroupWithZero.Nat
import Mathlib.Data.List.Basic
import Toolpath.Model
import Toolpath.Proofs.Program.Meaning
import Toolpath.Proofs.Program.Moves

/-!
Programs line by line. The text of a program is cut into lines at its breaks, so a program has a
line for each record and one more for each break inside of a record. Every move adds plain records
only, whatever its numbers are, and so do holes and passes; and plain records make programs with one
line for each record, also if dead travels are removed.
-/

set_option autoImplicit false

namespace Toolpath

variable {α : Type}

private theorem length_splitOn (c : Char) (text : List Char) :
    (text.splitOn c).length = text.count c + 1 := by
  induction text with
  | nil => rfl
  | cons x text ih =>
    rw [List.splitOn_cons_eq_if_modifyHead, List.count_cons]
    split
    · rw [List.length_cons, ih]
    · rw [List.length_modifyHead, ih]

private theorem splitOn_join (texts : List String) :
    (String.join (texts.map (· ++ "\n"))).toList.splitOn '\n' =
      (texts.flatMap fun text => text.toList.splitOn '\n') ++ [[]] := by
  induction texts with
  | nil => rfl
  | cons text texts ih =>
    have hfirst : (String.join ((text :: texts).map (· ++ "\n"))).toList =
        text.toList ++ '\n' :: (String.join (texts.map (· ++ "\n"))).toList := by
      simp [String.toList_join]
    rw [hfirst, List.splitOn_append_cons_self, ih, List.flatMap_cons, List.append_assoc]

theorem splitOn_join_of_oneLine {texts : List String} (h : ∀ text ∈ texts, OneLine text) :
    (String.join (texts.map (· ++ "\n"))).toList.splitOn '\n' =
      texts.map String.toList ++ [[]] := by
  rw [splitOn_join, List.map_eq_flatMap]
  congr 1
  exact List.flatMap_congr fun text htext => List.splitOn_eq_singleton (h text htext)

namespace Program

def lines (p : Program α) : List (List Char) := (p.text.toList.splitOn '\n').dropLast

/-- A program with one line for each record, and with no other lines that a machine obeys than those
of records that are no comments. -/
structure LineByLine (p : Program α) : Prop where
  lines : p.lines = p.records.map fun r => r.text.toList
  commands : ∀ line ∈ p.lines, line.head? ≠ some ';' →
    ∃ r ∈ p.records, r.kind ≠ .comment ∧ r.text.toList = line

private theorem lines_eq_flatMap (p : Program α) :
    p.lines = p.records.flatMap fun r => r.text.toList.splitOn '\n' := by
  have htext : p.text = String.join ((p.records.map Record.text).map (· ++ "\n")) := by
    rw [text, List.map_map]
    rfl
  rw [lines, htext, splitOn_join, List.dropLast_concat, List.flatMap_map]

private theorem length_lines (p : Program α) :
    p.lines.length = p.records.length + (p.records.map fun r => r.text.toList.count '\n').sum := by
  rw [lines_eq_flatMap, List.length_flatMap]
  simp only [length_splitOn]
  induction p.records with
  | nil => rfl
  | cons r records ih =>
    simp only [List.map_cons, List.sum_cons, List.length_cons]
    omega

theorem LineByLine.oneLine {p : Program α} (h : p.LineByLine) :
    ∀ r ∈ p.records, OneLine r.text := by
  have hlength := p.length_lines
  rw [h.lines, List.length_map, Nat.left_eq_add, List.sum_eq_zero_iff_forall_eq_nat] at hlength
  intro r hr
  exact List.count_eq_zero.mp (hlength _ (List.mem_map_of_mem hr))

private theorem lineByLine_of_plain (p : Program α) (plain : ∀ r ∈ p.records, r.Plain) :
    p.LineByLine := by
  have hlines : p.lines = p.records.map fun r => r.text.toList := by
    have hpiece : ∀ r ∈ p.records, r.text.toList.splitOn '\n' = [r.text.toList] := by
      intro r hr
      exact List.splitOn_eq_singleton (plain r hr).oneLine
    rw [lines_eq_flatMap, List.map_eq_flatMap]
    exact List.flatMap_congr hpiece
  refine ⟨hlines, fun line hline hcommand => ?_⟩
  rw [hlines] at hline
  obtain ⟨r, hr, rfl⟩ := List.mem_map.mp hline
  exact ⟨r, hr, fun hcomment => hcommand ((plain r hr).marked hcomment), rfl⟩

theorem lineByLine_ofRecords [Scalar α] (name : PathName) {records : List (Record α)}
    (plain : ∀ r ∈ records, r.Plain) : (ofRecords name records).LineByLine :=
  lineByLine_of_plain _ plain

end Program

namespace DeadTravel

theorem plain_remove {records : List (Record α)} (h : ∀ r ∈ records, r.Plain) :
    ∀ r ∈ remove records, r.Plain :=
  forall_remove (P := Record.Plain) (fun _ hplain => hplain.asComment) h

theorem mem_remove {records : List (Record α)} {r : Record α} (h : r ∈ records)
    (comment : r.kind = .comment) : r ∈ remove records := by
  refine remove_induction (Q := fun rs => r ∈ rs) (fun rs _ first stop _ h => ?_) h
  obtain ⟨i, hi, rfl⟩ := List.getElem_of_mem h
  exact List.mem_mapIdx.mpr ⟨i, hi, by simp [comment]⟩

end DeadTravel

def Written.Plain (line : Written α) : Prop := line.record.Plain

open Writer (Adds)

variable [Scalar α]

namespace Writer

variable {w : Writer α}

theorem plain_comment {text : String} (h : OneLine text) : Adds Written.Plain w (w.comment text) :=
  .push _ _ _ (.comment h)

theorem plain_other {text : String} (h : OneLine text) : Adds Written.Plain w (w.other text) :=
  .push _ _ _ (.of_oneLine (by simp [Record.other]) h)

private theorem plain_lift (z : α) {text : String} (h : OneLine text) :
    Adds Written.Plain w (w.lift z text) := by
  unfold lift
  dsimp only
  split
  · exact .refl _ _
  · exact .push _ _ _ (.of_oneLine (by simp) (by simp +decide [h]))

private theorem plain_rapidTo (z : α) :
    Adds Written.Plain w (w.rapidTo z) := plain_lift z (.coordinate z)

private theorem plain_rapidToCorrected (setup : Setup α) (z : α) :
    Adds Written.Plain w (w.rapidToCorrected setup z) :=
  plain_lift z (.height setup _ z)

theorem plain_travelTo (dest : Point α) (rate : Option α) :
    Adds Written.Plain w (w.travelTo dest rate) := by
  unfold travelTo
  dsimp only
  split
  · exact .refl _ _
  · refine .push _ _ _ (.of_oneLine (by simp) ?_)
    cases rate with
    | none => simp +decide
    | some rate => simp +decide

private theorem plain_cutTo {kind : RecordKind} (cuts : kind ≠ .comment) (setup : Setup α)
    (z feed : α) :
    Adds Written.Plain w (w.cutTo kind setup z feed) :=
  .push _ _ _ (.of_oneLine cuts (by simp +decide))

private theorem plain_millLine (setup : Setup α) (dest : Point α) (z feed : α) :
    Adds Written.Plain w (w.millLine setup dest z feed) :=
  .push _ _ _ (.of_oneLine (by simp) (by simp +decide))

private theorem plain_millArc (setup : Setup α) (dest center : Point α) (ccw : Bool)
    (z length feed : α) :
    Adds Written.Plain w (w.millArc setup dest center ccw z length feed) := by
  have hcode : OneLine (if ccw then "G03" else "G02") := by
    split <;> decide
  exact .push _ _ _ (.of_oneLine (by simp) (by simp +decide [hcode]))

theorem plain_primitives : Primitives (α := α) Written.Plain where
  comment _ _ line := plain_comment line
  rapid _ := plain_rapidTo
  corrected _ := plain_rapidToCorrected
  travel _ := plain_travelTo
  cut _ _ cuts := plain_cutTo fun hcomment => by simp [hcomment, RecordKind.isCutting] at cuts
  line _ := plain_millLine
  arc _ := plain_millArc

end Writer

end Toolpath
