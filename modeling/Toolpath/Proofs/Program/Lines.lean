import Toolpath.Hole
import Toolpath.MillChain

/-!
What is added to a program. A writer is only written to at its end, so the lines between two of its
states are known, and what holds of every line that a move adds holds of all lines that moves one
after the other add. All moves but `travelTo` add no travel.
-/

set_option autoImplicit false

namespace Toolpath

variable {α : Type}

namespace Writer

def since (w w' : Writer α) : List (Written α) :=
  (w'.written.take (w'.written.length - w.written.length)).reverse

/-- The first writer, with some more lines, all of one kind. -/
def Adds (P : Written α → Prop) (w w' : Writer α) : Prop :=
  ∃ lines, w'.written = lines ++ w.written ∧ ∀ line ∈ lines, P line

def Still (line : Written α) : Prop := line.record.kind ≠ .travel

namespace Adds

variable {P Q : Written α → Prop} {w w' w'' : Writer α}

theorem refl (P : Written α → Prop) (w : Writer α) : Adds P w w := ⟨[], rfl, by simp⟩

theorem trans (h : Adds P w w') (k : Adds P w' w'') : Adds P w w'' := by
  obtain ⟨first, hfirst, hP⟩ := h
  obtain ⟨later, hlater, hQ⟩ := k
  refine ⟨later ++ first, by rw [hlater, hfirst, List.append_assoc], ?_⟩
  intro line hline
  exact (List.mem_append.mp hline).elim (hQ line) (hP line)

theorem imp (h : Adds P w w') (himp : ∀ line, P line → Q line) : Adds Q w w' := by
  obtain ⟨lines, hlines, hP⟩ := h
  exact ⟨lines, hlines, fun line hline => himp line (hP line hline)⟩

theorem push (w : Writer α) (r : Record α) (head : Head α) (h : P ⟨r, w.head, head⟩) :
    Adds P w (w.push r head) :=
  ⟨[⟨r, w.head, head⟩], rfl, by simpa using h⟩

theorem foldl {β : Type} {f : Writer α → β → Writer α} (h : ∀ w b, Adds P w (f w b)) (bs : List β)
    (w : Writer α) : Adds P w (bs.foldl f w) := by
  induction bs generalizing w with
  | nil => exact refl P w
  | cons b bs ih => exact (h w b).trans (ih (f w b))

theorem of_mem_since (h : Adds P w w') {line : Written α} (hline : line ∈ w.since w') :
    P line := by
  obtain ⟨lines, hlines, hP⟩ := h
  refine hP line ?_
  simpa [since, hlines] using hline

theorem written_reverse (h : Adds P w w') :
    w'.written.reverse = w.written.reverse ++ w.since w' := by
  obtain ⟨lines, hlines, -⟩ := h
  simp [since, hlines]

theorem records_eq (h : Adds P w w') :
    w'.records = w.records ++ (w.since w').map Written.record := by
  rw [Writer.records, Writer.records, h.written_reverse, List.map_append]

theorem records_subset (h : Adds P w w') : w.records ⊆ w'.records := by
  rw [h.records_eq]
  exact List.subset_append_left _ _

theorem forall_records {Q : Record α → Prop} {head : Head α}
    (h : Adds (fun line => Q line.record) (.start head) w) : ∀ r ∈ w.records, Q r := by
  obtain ⟨lines, hlines, hQ⟩ := h
  intro r hr
  obtain ⟨line, hline, rfl⟩ := List.mem_map.mp hr
  exact hQ line (by simpa [hlines, Writer.start] using hline)

theorem mem_since {v : Writer α} {r : Record α} {head : Head α} (first : Adds P w v)
    (later : Adds Q (v.push r head) w') : ⟨r, v.head, head⟩ ∈ w.since w' := by
  obtain ⟨front, hfront, -⟩ := first
  obtain ⟨rest, hrest, -⟩ := later
  have hwritten : w'.written = rest ++ ⟨r, v.head, head⟩ :: front ++ w.written := by
    rw [hrest, Writer.push, hfront, List.append_assoc, List.cons_append]
  have hadds : Adds (fun _ => True) w w' :=
    ⟨rest ++ ⟨r, v.head, head⟩ :: front, hwritten, fun _ _ => trivial⟩
  have hlines := hadds.written_reverse
  rw [hwritten, List.reverse_append, List.append_cancel_left_eq] at hlines
  simp [← hlines]

theorem mem_since_of_push {r : Record α} {head : Head α} (h : Adds P (w.push r head) w') :
    ⟨r, w.head, head⟩ ∈ w.since w' :=
  mem_since (.refl P w) h

theorem of_push {r : Record α} {head : Head α} (h : Adds P w (w.push r head)) :
    P ⟨r, w.head, head⟩ :=
  h.of_mem_since (mem_since_of_push (.refl P _))

end Adds

/-- The second writer has the lines of the first and, behind them, some more. -/
def Writes (w : Writer α) (lines : List (Written α)) (w' : Writer α) : Prop :=
  w'.written = lines.reverse ++ w.written

namespace Writes

variable {w w' w'' : Writer α} {lines later : List (Written α)}

theorem refl (w : Writer α) : Writes w [] w := rfl

theorem push (w : Writer α) (r : Record α) (head : Head α) :
    Writes w [⟨r, w.head, head⟩] (w.push r head) := rfl

theorem trans (h : Writes w lines w') (k : Writes w' later w'') :
    Writes w (lines ++ later) w'' := by
  unfold Writes at h k ⊢
  rw [k, h, List.reverse_append, List.append_assoc]

end Writes

theorem Adds.exists_writes {P : Written α → Prop} {w w' : Writer α} (h : Adds P w w') :
    ∃ lines, Writes w lines w' ∧ ∀ line ∈ lines, P line := by
  obtain ⟨lines, hlines, hP⟩ := h
  refine ⟨lines.reverse, ?_, by simpa using hP⟩
  rw [Writes, hlines, List.reverse_reverse]

variable [Scalar α] {w : Writer α}

theorem still_comment (text : String) : Adds Still w (w.comment text) :=
  .push _ _ _ (by simp [Still, Record.comment])

theorem still_other (text : String) : Adds Still w (w.other text) :=
  .push _ _ _ (by simp [Still, Record.other])

private theorem still_lift (z : α) (text : String) : Adds Still w (w.lift z text) := by
  unfold lift
  dsimp only
  split
  · exact .refl _ _
  · exact .push _ _ _ (by simp [Still])

theorem still_rapidTo (z : α) : Adds Still w (w.rapidTo z) := still_lift z _

theorem still_rapidToCorrected (setup : Setup α) (z : α) :
    Adds Still w (w.rapidToCorrected setup z) :=
  still_lift z _

private theorem still_plunge (setup : Setup α) (z feed : α) :
    Adds Still w (w.plunge setup z feed) :=
  .push _ _ _ (by simp [Still])

theorem still_drillTo (setup : Setup α) (z feed : α) : Adds Still w (w.drillTo setup z feed) :=
  .push _ _ _ (by simp [Still])

theorem still_moveToHeight (setup : Setup α) (z feed : α) :
    Adds Still w (w.moveToHeight setup z feed) := by
  unfold moveToHeight
  split
  · exact still_plunge setup z feed
  · split
    · exact still_rapidToCorrected setup z
    · exact .refl _ _

theorem still_millLine (setup : Setup α) (dest : Point α) (z feed : α) :
    Adds Still w (w.millLine setup dest z feed) :=
  .push _ _ _ (by simp [Still])

theorem still_millArc (setup : Setup α) (dest center : Point α) (ccw : Bool) (z length feed : α) :
    Adds Still w (w.millArc setup dest center ccw z length feed) :=
  .push _ _ _ (by simp [Still])

theorem travelTo_adds {P : Written α → Prop} (dest : Point α) (rate : Option α)
    (h : ∀ line : Written α, line.before = w.head → P line) : Adds P w (w.travelTo dest rate) := by
  unfold travelTo
  dsimp only
  split
  · exact .refl _ _
  · exact .push _ _ _ (h _ rfl)

/-- Lines that are no moves are added, and the head is where it was. -/
structure Notes (w w' : Writer α) : Prop where
  notes : Adds (fun line => line.record.kind = .comment ∨ line.record.kind = .other) w w'
  head : w'.head = w.head

namespace Notes

theorem other (w : Writer α) (text : String) : Notes w (w.other text) :=
  ⟨.push _ _ _ (Or.inr rfl), rfl⟩

omit [Scalar α] in
theorem still {w w' : Writer α} (h : Notes w w') : Adds Still w w' :=
  h.notes.imp fun _ hkind htravel => by simp [htravel] at hkind

omit [Scalar α] in
theorem trans {w w' w'' : Writer α} (h : Notes w w') (k : Notes w' w'') : Notes w w'' :=
  ⟨h.notes.trans k.notes, k.head.trans h.head⟩

end Notes

/-- Comments are added, and the head is where it was. -/
structure Comments (w w' : Writer α) : Prop where
  comments : Adds (fun line => line.record.kind = .comment) w w'
  head : w'.head = w.head

namespace Comments

theorem comment (w : Writer α) (text : String) : Comments w (w.comment text) :=
  ⟨.push _ _ _ rfl, rfl⟩

omit [Scalar α] in
theorem trans {w w' w'' : Writer α} (h : Comments w w') (k : Comments w' w'') : Comments w w'' :=
  ⟨h.comments.trans k.comments, k.head.trans h.head⟩

omit [Scalar α] in
theorem foldl {β : Type} {f : Writer α → β → Writer α} (h : ∀ w b, Comments w (f w b))
    (bs : List β) (w : Writer α) : Comments w (bs.foldl f w) := by
  induction bs generalizing w with
  | nil => exact ⟨.refl _ _, rfl⟩
  | cons b bs ih => exact (h w b).trans (ih (f w b))

omit [Scalar α] in
theorem notes {w w' : Writer α} (h : Comments w w') : Notes w w' :=
  ⟨h.comments.imp fun _ hkind => Or.inl hkind, h.head⟩

end Comments

end Writer

end Toolpath
