import Mathlib.Data.List.Basic
import Toolpath.Proofs.Program.Moves

/-!
The words of lines. A machine obeys the words of the lines that are no comments: they set absolute
or relative coordinates, and they say how far to go on an axis. All moves are written as commands of
a code and its arguments, so every record that they add is regular: it keeps absolute coordinates,
only a travel takes the tool to a place without working, and it says both coordinates of the place.
-/

set_option autoImplicit false

namespace Toolpath

variable {α : Type}

namespace Record

def words (r : Record α) : List (List Char) :=
  if r.kind = .comment then [] else r.text.toList.splitOn ' '

def word? (r : Record α) (letter : Char) : Option (List Char) :=
  (r.words.find? fun word => word.head? == some letter).map List.tail

/-- Whether coordinates are absolute behind a record, if they are in front of it. -/
def mode (absolute : Bool) (r : Record α) : Bool :=
  if ['G', '9', '0'] ∈ r.words then true
  else if ['G', '9', '1'] ∈ r.words then false
  else absolute

/-- A line that a machine obeys by a move along a circle. -/
def Circular (r : Record α) : Prop :=
  r.words.head? = some ['G', '0', '2'] ∨ r.words.head? = some ['G', '0', '3']

def SaysPlace (r : Record α) : Prop := (r.word? 'X').isSome = true ∧ (r.word? 'Y').isSome = true

def works (r : Record α) : Bool := r.kind.isCutting || r.words.contains ['G', '3', '8', '.', '2']

/-- A record that does no work and takes the tool nowhere. -/
structure Silent (r : Record α) : Prop where
  works : r.works = false
  x : r.word? 'X' = none
  y : r.word? 'Y' = none

theorem silent_iff (r : Record α) :
    r.Silent ↔ r.works = false ∧ r.word? 'X' = none ∧ r.word? 'Y' = none :=
  ⟨fun h => ⟨h.works, h.x, h.y⟩, fun h => ⟨h.1, h.2.1, h.2.2⟩⟩

instance (r : Record α) : Decidable r.Silent := decidable_of_iff' _ r.silent_iff

/-- A record that leaves absolute coordinates absolute, and that takes the tool to a place if it is
a travel and nowhere if it is neither a travel nor work. -/
structure Regular (r : Record α) : Prop where
  mode : r.mode true = true
  travel : r.kind = .travel → r.SaysPlace ∧ r.works = false
  other : r.kind ≠ .travel → r.works = false → r.Silent

theorem Silent.regular {r : Record α} (h : r.Silent) (kind : r.kind ≠ .travel)
    (mode : r.mode true = true) : r.Regular :=
  ⟨mode, fun htravel => absurd htravel kind, fun _ _ => h⟩

theorem words_of_comment {r : Record α} (h : r.kind = .comment) : r.words = [] := by
  simp [words, h]

theorem silent_of_comment {r : Record α} (h : r.kind = .comment) : r.Silent := by
  have hwords := words_of_comment h
  exact ⟨by simp [works, hwords, h, RecordKind.isCutting], by simp [word?, hwords],
    by simp [word?, hwords]⟩

theorem regular_of_comment {r : Record α} (h : r.kind = .comment) : r.Regular :=
  (silent_of_comment h).regular (by simp [h]) (by simp [mode, words_of_comment h])

private theorem kind_asComment (r : Record α) : r.asComment.kind = .comment := by
  unfold asComment
  split
  · assumption
  · rfl

end Record

section Commands

theorem splitOn_words {front : List Char} {words : List (List Char)} (hfront : ' ' ∉ front)
    (hwords : ∀ word ∈ words, ' ' ∉ word) :
    (front ++ words.flatMap (' ' :: ·)).splitOn ' ' = front :: words := by
  induction words generalizing front with
  | nil => simp [List.splitOn_eq_singleton hfront]
  | cons word words ih =>
    have hrest := ih (hwords word List.mem_cons_self)
      fun other hother => hwords other (List.mem_cons_of_mem word hother)
    rw [List.flatMap_cons, List.cons_append, List.splitOn_append_cons_self, hrest,
      List.splitOn_eq_singleton hfront, List.singleton_append]

private theorem blank_notMem_numeral (n : Numeral) : ' ' ∉ n.text.toList := by
  intro h
  have hprinted := Numeral.isPrinted_of_mem_text h
  unfold Numeral.IsPrinted at hprinted
  revert hprinted
  decide

/-- A line of a code and its arguments, none of which can be taken for a code. -/
structure Record.IsCommand (r : Record α) (code : String) (args : List (Char × String)) : Prop where
  obeyed : r.kind ≠ .comment
  text : r.text = commandText code args
  code : ' ' ∉ code.toList ∧ code.toList.head? = some 'G'
  args : ∀ a ∈ args, a.1 ≠ ' ' ∧ a.1 ≠ 'G' ∧ ' ' ∉ a.2.toList

namespace Record.IsCommand

variable {r : Record α} {code : String} {args : List (Char × String)} (h : r.IsCommand code args)

include h

private theorem words : r.words = code.toList :: args.map fun a => a.1 :: a.2.toList := by
  have hlist : (commandText code args).toList =
      code.toList ++ (args.map fun a => a.1 :: a.2.toList).flatMap (' ' :: ·) := by
    simp [commandText, String.toList_join, List.flatMap_map]
  have hblank : ∀ word ∈ args.map fun a => a.1 :: a.2.toList, ' ' ∉ word := by
    intro word hword
    obtain ⟨a, ha, rfl⟩ := List.mem_map.mp hword
    obtain ⟨hletter, -, hvalue⟩ := h.args a ha
    simp [hletter.symm, hvalue]
  rw [Record.words, if_neg h.obeyed, h.text, hlist, splitOn_words h.code.1 hblank]

private theorem mem_words_iff (said : List Char) :
    'G' :: said ∈ r.words ↔ 'G' :: said = code.toList := by
  have hnone : ('G' :: said) ∉ args.map fun a => a.1 :: a.2.toList := by
    intro hmem
    obtain ⟨a, ha, hsame⟩ := List.mem_map.mp hmem
    exact (h.args a ha).2.1 (List.cons_eq_cons.mp hsame).1
  rw [h.words, List.mem_cons, or_iff_left hnone]

theorem word?_eq {letter : Char} (hletter : letter ≠ 'G') :
    r.word? letter = (args.find? fun a => a.1 == letter).map fun a => a.2.toList := by
  have hcode : (code.toList.head? == some letter) = false := by
    simp [h.code.2, hletter.symm]
  rw [word?, h.words, List.find?_cons_of_neg (by simp [hcode]), List.find?_map, Option.map_map]
  rfl

theorem circular_iff : r.Circular ↔ code = "G02" ∨ code = "G03" := by
  have hfirst (other : String) : r.words.head? = some other.toList ↔ code = other := by
    rw [h.words, List.head?_cons, Option.some_inj, String.toList_inj]
  exact or_congr (hfirst "G02") (hfirst "G03")

theorem works_iff : r.works = true ↔ r.kind.isCutting = true ∨ code = "G38.2" := by
  have hmeasures : code = "G38.2" ↔ ['G', '3', '8', '.', '2'] ∈ r.words := by
    rw [h.mem_words_iff, ← String.toList_inj, eq_comm]
    rfl
  rw [hmeasures, Record.works, Bool.or_eq_true, List.contains_iff_mem]

theorem mode_eq (hcode : code ≠ "G90" ∧ code ≠ "G91") (absolute : Bool) :
    r.mode absolute = absolute := by
  have hnot {other : String} (hother : code ≠ other) {said : List Char}
      (hsaid : other.toList = 'G' :: said) : 'G' :: said ∉ r.words := by
    rw [h.mem_words_iff, ← hsaid, String.toList_inj]
    exact hother.symm
  have habsolute : ['G', '9', '0'] ∉ r.words := hnot hcode.1 rfl
  have hrelative : ['G', '9', '1'] ∉ r.words := hnot hcode.2 rfl
  rw [Record.mode, if_neg habsolute, if_neg hrelative]

theorem silent {height : String} (hargs : args = [('Z', height)])
    (rests : r.kind.isCutting = false ∧ code ≠ "G38.2") : r.Silent := by
  subst hargs
  have hworks : ¬ r.works = true := by
    rw [h.works_iff]
    simp [rests]
  exact ⟨by simpa using hworks, by simp [h.word?_eq], by simp [h.word?_eq]⟩

private theorem regular_of_height {height : String} (hargs : args = [('Z', height)])
    (rests : r.kind.isCutting = false ∧ r.kind ≠ .travel) (hcode : code = "G00") : r.Regular := by
  subst hcode
  exact (h.silent hargs ⟨rests.1, by decide⟩).regular rests.2 (h.mode_eq (by decide) true)

private theorem regular_of_travel {x y : String} {rest : List (Char × String)}
    (hargs : args = ('X', x) :: ('Y', y) :: rest) (travel : r.kind = .travel)
    (hcode : code = "G00" ∨ code = "G01") : r.Regular := by
  subst hargs
  have hother : code ≠ "G38.2" ∧ code ≠ "G90" ∧ code ≠ "G91" := by
    rcases hcode with rfl | rfl <;> decide
  have hworks : ¬ r.works = true := by
    rw [h.works_iff]
    simp [travel, hother.1, RecordKind.isCutting]
  exact ⟨h.mode_eq hother.2 true,
    fun _ => ⟨⟨by simp [h.word?_eq], by simp [h.word?_eq]⟩, by simpa using hworks⟩,
    fun hnot => absurd travel hnot⟩

private theorem regular_of_cut (cuts : r.kind.isCutting = true)
    (hcode : code = "G01" ∨ code = "G02" ∨ code = "G03") : r.Regular := by
  have hother : code ≠ "G90" ∧ code ≠ "G91" := by
    rcases hcode with rfl | rfl | rfl <;> decide
  have hworks : r.works = true := h.works_iff.mpr (Or.inl cuts)
  refine ⟨h.mode_eq hother true, fun htravel => ?_, fun _ hrests => ?_⟩
  · simp [htravel, RecordKind.isCutting] at cuts
  · rw [hworks] at hrests
    cases hrests

end Record.IsCommand

variable [Scalar α]

private theorem blank_notMem_term (t : HeightTerm) : ' ' ∉ t.text.toList := by
  have hsign : ' ' ∉ (if t.added then "+" else "-").toList := by
    split <;> decide
  have hprobe : ' ' ∉ (toString (probeVariable t.probe)).toList := by
    intro h
    have hdigit : ' '.isDigit = true :=
      Nat.isDigit_of_mem_toDigits (b := 10) (by decide) (by decide) (by simpa using h)
    revert hdigit
    decide
  simp only [HeightTerm.text, String.toList_append, List.mem_append, hsign, hprobe,
    blank_notMem_numeral, or_false]
  decide

@[simp] theorem blank_notMem_coordinate (x : α) : ' ' ∉ (Scalar.coordinate x).toList :=
  blank_notMem_numeral _

@[simp] theorem blank_notMem_feed (x : α) : ' ' ∉ (Writer.feedText x).toList :=
  blank_notMem_numeral _

@[simp] theorem blank_notMem_height (setup : Setup α) (world : Point α) (z : α) :
    ' ' ∉ (setup.heightText world z).toList := by
  unfold Setup.heightText HeightExpr.text
  split
  · exact blank_notMem_numeral _
  · simp [String.toList_join, blank_notMem_numeral, blank_notMem_term]

end Commands

theorem Record.Regular.asComment (r : Record α) : r.asComment.Regular :=
  Record.regular_of_comment r.kind_asComment

def Written.Regular (line : Written α) : Prop := line.record.Regular

open Writer (Adds)

namespace Writer

variable [Scalar α] {w : Writer α}

theorem commands_lift (z : α) {text : String} (h : ' ' ∉ text.toList) :
    Adds (fun line => line.record.kind = .lift ∧ line.record.IsCommand "G00" [('Z', text)]) w
      (w.lift z text) := by
  unfold lift
  dsimp only
  split
  · exact .refl _ _
  · exact .push _ _ _ ⟨rfl, by simp, rfl, by decide, by simp [h]⟩

theorem commands_travelTo (dest : Point α) (rate : Option α) :
    Adds (fun line => line.record.kind = .travel ∧ ∃ code, (code = "G00" ∨ code = "G01") ∧
      line.record.IsCommand code
        (('X', Scalar.coordinate dest.x) :: ('Y', Scalar.coordinate dest.y) ::
          (rate.map fun feed => ('F', feedText feed)).toList)) w
      (w.travelTo dest rate) := by
  unfold travelTo
  dsimp only
  split
  · exact .refl _ _
  · refine .push _ _ _ ⟨rfl, ?_⟩
    cases rate with
    | none => exact ⟨"G00", Or.inl rfl, by simp, rfl, by decide, by simp⟩
    | some rate => exact ⟨"G01", Or.inr rfl, by simp, rfl, by decide, by simp⟩

theorem commands_cutTo {kind : RecordKind} (cuts : kind.isCutting = true) (setup : Setup α)
    (z feed : α) :
    Adds (fun line => line.record.kind = kind ∧ line.record.IsCommand "G01"
        [('Z', setup.heightText line.before.xy z), ('F', feedText feed)]) w
      (w.cutTo kind setup z feed) := by
  refine .push _ _ _ ⟨rfl, ?_, rfl, by decide, by simp⟩
  rintro rfl
  cases cuts

theorem commands_millLine (setup : Setup α) (dest : Point α) (z feed : α) :
    Adds (fun line => line.record.kind = .mill ∧ line.record.IsCommand "G01"
        [('X', Scalar.coordinate dest.x), ('Y', Scalar.coordinate dest.y),
          ('Z', setup.heightText dest z), ('F', feedText feed)]) w
      (w.millLine setup dest z feed) :=
  .push _ _ _ ⟨rfl, by simp, rfl, by decide, by simp⟩

theorem commands_millArc (setup : Setup α) (dest center : Point α) (ccw : Bool)
    (z length feed : α) :
    Adds (fun line => line.record.kind = .mill ∧
      line.record.IsCommand (if ccw then "G03" else "G02")
        [('X', Scalar.coordinate dest.x), ('Y', Scalar.coordinate dest.y),
          ('Z', setup.heightText dest z), ('I', Scalar.coordinate (center.x - line.before.x)),
          ('J', Scalar.coordinate (center.y - line.before.y)), ('F', feedText feed)]) w
      (w.millArc setup dest center ccw z length feed) := by
  refine .push _ _ _ ⟨rfl, by simp, rfl, ?_, by simp⟩
  cases ccw <;> decide

private theorem regular_lift (z : α) {text : String} (h : ' ' ∉ text.toList) :
    Adds Written.Regular w (w.lift z text) :=
  (commands_lift z h).imp fun _ ⟨hkind, hcommand⟩ =>
    hcommand.regular_of_height rfl (by simp [hkind, RecordKind.isCutting]) rfl

theorem regular_travelTo (dest : Point α) (rate : Option α) :
    Adds Written.Regular w (w.travelTo dest rate) :=
  (commands_travelTo dest rate).imp fun _ ⟨hkind, _, hcode, hcommand⟩ =>
    hcommand.regular_of_travel rfl hkind hcode

private theorem regular_cutTo {kind : RecordKind} (cuts : kind.isCutting = true) (setup : Setup α)
    (z feed : α) : Adds Written.Regular w (w.cutTo kind setup z feed) :=
  (commands_cutTo cuts setup z feed).imp fun _ ⟨hkind, hcommand⟩ =>
    hcommand.regular_of_cut (hkind ▸ cuts) (Or.inl rfl)

private theorem regular_millLine (setup : Setup α) (dest : Point α) (z feed : α) :
    Adds Written.Regular w (w.millLine setup dest z feed) :=
  (commands_millLine setup dest z feed).imp fun _ ⟨hkind, hcommand⟩ =>
    hcommand.regular_of_cut (by simp [hkind, RecordKind.isCutting]) (Or.inl rfl)

private theorem regular_millArc (setup : Setup α) (dest center : Point α) (ccw : Bool)
    (z length feed : α) :
    Adds Written.Regular w (w.millArc setup dest center ccw z length feed) := by
  refine (commands_millArc setup dest center ccw z length feed).imp ?_
  intro line ⟨hkind, hcommand⟩
  refine hcommand.regular_of_cut (by simp [hkind, RecordKind.isCutting]) (Or.inr ?_)
  cases ccw with
  | false => exact Or.inl rfl
  | true => exact Or.inr rfl

theorem regular_comment (text : String) : Adds Written.Regular w (w.comment text) :=
  .push _ _ _ (Record.regular_of_comment rfl)

theorem regular_primitives : Primitives (α := α) Written.Regular where
  comment _ text _ := regular_comment text
  rapid _ z := regular_lift z (blank_notMem_coordinate z)
  corrected _ setup z := regular_lift z (blank_notMem_height setup _ z)
  travel _ := regular_travelTo
  cut _ _ cuts := regular_cutTo cuts
  line _ := regular_millLine
  arc _ := regular_millArc

theorem travelTo_eq_self {dest : Point α} (near : w.head.xy.distance dest ≤ moveTolerance)
    (rate : Option α) : w.travelTo dest rate = w := by
  unfold travelTo
  exact if_pos near

theorem exists_records_travelTo {dest : Point α} (far : ¬ w.head.xy.distance dest ≤ moveTolerance)
    (rate : Option α) :
    ∃ r : Record α, r.kind = .travel ∧ r.Regular ∧
      (w.travelTo dest rate).records = w.records ++ [r] := by
  have hregular := (regular_travelTo dest rate : Adds Written.Regular w _)
  unfold travelTo at hregular ⊢
  dsimp only at hregular ⊢
  rw [if_neg far] at hregular ⊢
  exact ⟨_, rfl, hregular.of_push, records_push _ _ _⟩

end Writer

end Toolpath
