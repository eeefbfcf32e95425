import Toolpath.Program.Writer
import Toolpath.Proofs.Diagnostic.Filling

/-!
The texts of lines. Numbers and command lines have no line break in them, and a comment has one only
if what it says has one. A record whose text is on one line and, if it is a comment, begins with the
sign of comments is plain.
-/

set_option autoImplicit false

namespace Toolpath

/-- A text on one line. -/
def OneLine (text : String) : Prop := '\n' ∉ text.toList

instance (text : String) : Decidable (OneLine text) := inferInstanceAs (Decidable (¬ _))

namespace OneLine

@[simp] theorem append_iff (s t : String) : OneLine (s ++ t) ↔ OneLine s ∧ OneLine t := by
  simp [OneLine]

@[simp] theorem join_iff (texts : List String) :
    OneLine (String.join texts) ↔ ∀ s ∈ texts, OneLine s := by
  simp [OneLine, String.toList_join]

@[simp] theorem push_iff (s : String) (c : Char) : OneLine (s.push c) ↔ OneLine s ∧ c ≠ '\n' := by
  simp [OneLine, eq_comm]

@[simp] theorem numeral (n : Numeral) : OneLine n.text := by
  intro h
  have hprinted := Numeral.isPrinted_of_mem_text h
  unfold Numeral.IsPrinted at hprinted
  revert hprinted
  decide

@[simp] theorem nat (n : Nat) : OneLine n.repr := by
  intro h
  have hdigit : '\n'.isDigit = true :=
    Nat.isDigit_of_mem_toDigits (b := 10) (by decide) (by decide) (by simpa using h)
  revert hdigit
  decide

@[simp] theorem command_iff (code : String) (words : List (Char × String)) :
    OneLine (commandText code words) ↔
      OneLine code ∧ ∀ word ∈ words, word.1 ≠ '\n' ∧ OneLine word.2 := by
  have hblank : OneLine " " := by decide
  rw [commandText, append_iff, join_iff, List.forall_mem_map]
  simp [hblank]

variable {α : Type} [Scalar α]

@[simp] theorem coordinate (x : α) : OneLine (Scalar.coordinate x) := numeral _

@[simp] theorem fixed (places : Nat) (x : α) : OneLine (Scalar.fixed places x) := numeral _

@[simp] theorem feed (x : α) : OneLine (Writer.feedText x) := fixed 1 x

theorem point (p : Point α) : OneLine p.text := by
  simp +decide [Point.text]

private theorem term (t : HeightTerm) : OneLine t.text := by
  have hsign : OneLine (if t.added then "+" else "-") := by
    split <;> decide
  simp +decide [HeightTerm.text, hsign]

@[simp] theorem height (setup : Setup α) (world : Point α) (z : α) :
    OneLine (setup.heightText world z) := by
  unfold Setup.heightText HeightExpr.text
  split
  · exact numeral _
  · simp +decide [term]

@[simp] theorem comment_iff (text : String) :
    OneLine (Record.comment text : Record α).text ↔ OneLine text := by
  have hmark : OneLine Record.commentMark := by decide
  simp [Record.comment, hmark]

end OneLine

variable {α : Type}

/-- A record on one line, with the sign of comments in front if it is one. -/
structure Record.Plain (r : Record α) : Prop where
  oneLine : OneLine r.text
  marked : r.kind = .comment → r.text.toList.head? = some ';'

namespace Record.Plain

theorem of_oneLine {r : Record α} (move : r.kind ≠ .comment) (text : OneLine r.text) : r.Plain :=
  ⟨text, fun hcomment => absurd hcomment move⟩

private theorem head?_commentMark (text : String) :
    (commentMark ++ text).toList.head? = some ';' := by
  rw [String.toList_append]
  rfl

theorem asComment {r : Record α} (h : r.Plain) : r.asComment.Plain := by
  have hmark : OneLine commentMark := by decide
  unfold Record.asComment
  split
  · exact h
  · exact ⟨by simp [hmark, h.oneLine], fun _ => head?_commentMark r.text⟩

variable [Scalar α]

theorem comment {text : String} (h : OneLine text) : (Record.comment text : Record α).Plain :=
  ⟨(OneLine.comment_iff text).mpr h, fun _ => head?_commentMark text⟩

end Record.Plain

end Toolpath
