import Toolpath.Params.Substitution
import Toolpath.Proofs.Text.Letters
import Toolpath.Proofs.Text.Slots
import Toolpath.Proofs.Text.Trimming

/-!
Variables in parameter texts. A text is read once, from left to right: a dollar sign and a letter
are a variable wherever they come next, and what a variable is replaced by is not read again. The
first variable without a value is the one that is reported.
-/

set_option autoImplicit false

namespace Toolpath

open Text (Reads expand)

namespace ParamTexts

variable {entries : List (Char × String)} {a b : Char}

private theorem find?_either (sorted : entries.Pairwise fun e e' => e.1.toNat < e'.1.toNat)
    (h : a.toNat < b.toNat) :
    entries.find? (fun e => decide (e.1 = a ∨ e.1 = b)) =
      (entries.find? fun e => e.1 == a).or (entries.find? fun e => e.1 == b) := by
  induction entries with
  | nil => rfl
  | cons e entries ih =>
    obtain ⟨hfirst, hsorted⟩ := List.pairwise_cons.mp sorted
    simp only [List.find?_cons]
    by_cases ha : e.1 = a
    · simp [ha]
    · have hne : (e.1 == a) = false := beq_false_of_ne ha
      by_cases hb : e.1 = b
      · have hnone : entries.find? (fun e => e.1 == a) = none := by
          refine List.find?_eq_none.mpr fun e' he' heq => ?_
          have hlater := hfirst e' he'
          rw [hb, beq_iff_eq.mp heq] at hlater
          omega
        rw [hne, hnone]
        simp [hb]
      · rw [hne, beq_false_of_ne hb]
        simpa [ha, hb] using ih hsorted

end ParamTexts

namespace Bindings

def spelling (letter : Char) : List Char := ['$', letter]

/-- Some binding is for the letter, small or capital. -/
def Bound (bindings : Bindings) (letter : Char) : Prop :=
  ∃ entry ∈ bindings.entries, entry.1.toUpper = letter.toUpper

/-- A letter stands for the text of its capital form, or else of its small form, without the white
space at its ends. -/
def Binds (bindings : Bindings) (letter : Char) (value : List Char) : Prop :=
  ∃ text, Text.Trimmed text.toList value ∧
    (bindings.get? letter.toUpper = some text ∨
      bindings.get? letter.toUpper = none ∧ bindings.get? letter.toLower = some text)

variable {bindings : Bindings} {letter : Char}

private theorem prefixFree_spelling :
    Text.PrefixFree spelling fun letter => letter.isAlpha = true where
  ne_nil _ _ := List.cons_ne_nil _ _
  eq_of_prefix a b _ _ h := by
    simpa [spelling, List.cons_prefix_cons] using h

private theorem lookup?_eq_none_iff : bindings.lookup? letter = none ↔ ¬ bindings.Bound letter := by
  simp [lookup?, Bound]

private theorem exists_lookup?_of_bound (h : bindings.Bound letter) :
    ∃ value, bindings.lookup? letter = some value :=
  Option.ne_none_iff_exists'.mp fun hnone => lookup?_eq_none_iff.mp hnone h

private theorem lookup?_eq (h : letter.isAlpha = true) :
    bindings.lookup? letter =
      ((bindings.get? letter.toUpper).or (bindings.get? letter.toLower)).map fun text =>
        Text.trim text.toList := by
  have hsame : (fun e : Char × String => e.1.toUpper == letter.toUpper) =
      fun e => decide (e.1 = letter.toUpper ∨ e.1 = letter.toLower) := by
    funext e
    rw [Bool.beq_eq_decide_eq]
    exact decide_eq_decide.mpr (Text.toUpper_eq_iff h e.1)
  rw [lookup?, hsame, ParamTexts.find?_either bindings.sorted (Text.toUpper_lt_toLower h),
    ParamTexts.get?, ParamTexts.get?, ← Option.map_or, Option.map_map]
  rfl

private theorem lookup?_eq_some_iff (h : letter.isAlpha = true) {value : List Char} :
    bindings.lookup? letter = some value ↔ bindings.Binds letter value := by
  rw [lookup?_eq h, Option.map_eq_some_iff, Binds]
  refine exists_congr fun text => ?_
  rw [Text.trimmed_iff, Option.or_eq_some_iff, and_comm, eq_comm]

private theorem substitute_slot_of_some (h : letter.isAlpha = true) {value : List Char}
    (bound : bindings.lookup? letter = some value) (rest : List Char) :
    bindings.substitute (spelling letter ++ rest) =
      (bindings.substitute rest).map (value ++ ·) := by
  change bindings.substitute ('$' :: letter :: rest) = _
  rw [substitute, if_pos ⟨rfl, h⟩, bound]

private theorem substitute_slot_of_none (h : letter.isAlpha = true)
    (unbound : bindings.lookup? letter = none) (rest : List Char) :
    bindings.substitute (spelling letter ++ rest) = .error letter.toUpper := by
  change bindings.substitute ('$' :: letter :: rest) = _
  rw [substitute, if_pos ⟨rfl, h⟩, unbound]

private theorem substitute_letter {c : Char} {rest : List Char}
    (free : ∀ letter : Char, letter.isAlpha = true → ¬ spelling letter <+: c :: rest) :
    bindings.substitute (c :: rest) = (bindings.substitute rest).map (c :: ·) := by
  cases rest with
  | nil => rfl
  | cons d rest =>
    have hnot : ¬ (c = '$' ∧ d.isAlpha = true) := by
      rintro ⟨rfl, hd⟩
      exact free d hd (List.prefix_append ['$', d] rest)
    rw [substitute, if_neg hnot]

section Rows

variable {raw : List Char} {row : List (Char ⊕ Char)}

private theorem substitute_of_bound
    (reads : Reads spelling (fun letter => letter.isAlpha = true) raw row) {put : Char → List Char}
    (bound : ∀ letter, .inr letter ∈ row → bindings.lookup? letter = some (put letter)) :
    bindings.substitute raw = .ok (expand put row) := by
  induction reads with
  | done => rfl
  | slot hletter _ ih =>
    rw [substitute_slot_of_some hletter (bound _ List.mem_cons_self),
      ih fun letter hmem => bound letter (List.mem_cons_of_mem _ hmem)]
    rfl
  | letter hfree _ ih =>
    rw [substitute_letter hfree, ih fun letter hmem => bound letter (List.mem_cons_of_mem _ hmem)]
    rfl

private theorem substitute_of_unbound
    (reads : Reads spelling (fun letter => letter.isAlpha = true) raw row)
    {front back : List (Char ⊕ Char)} (split : row = front ++ .inr letter :: back)
    (bound : ∀ other, .inr other ∈ front → bindings.Bound other)
    (unbound : ¬ bindings.Bound letter) :
    bindings.substitute raw = .error letter.toUpper := by
  induction reads generalizing front with
  | done => simp at split
  | slot hletter _ ih =>
    cases front with
    | nil =>
      obtain ⟨heq, -⟩ := List.cons_eq_cons.mp split
      obtain rfl := Sum.inr.inj heq
      exact substitute_slot_of_none hletter (lookup?_eq_none_iff.mpr unbound) _
    | cons x front =>
      obtain ⟨rfl, hrest⟩ := List.cons_eq_cons.mp split
      obtain ⟨value, hvalue⟩ := exists_lookup?_of_bound (bound _ List.mem_cons_self)
      have hbound := fun other hmem => bound other (List.mem_cons_of_mem _ hmem)
      rw [substitute_slot_of_some hletter hvalue, ih hrest hbound]
      rfl
  | letter hfree _ ih =>
    rw [substitute_letter hfree]
    cases front with
    | nil => simp at split
    | cons x front =>
      obtain ⟨-, hrest⟩ := List.cons_eq_cons.mp split
      rw [ih hrest fun other hmem => bound other (List.mem_cons_of_mem _ hmem)]
      rfl

private theorem bound_or_exists_first (bindings : Bindings) (row : List (Char ⊕ Char)) :
    (∀ letter, .inr letter ∈ row → bindings.Bound letter) ∨
      ∃ front letter back, row = front ++ .inr letter :: back ∧
        (∀ other, .inr other ∈ front → bindings.Bound other) ∧ ¬ bindings.Bound letter := by
  induction row with
  | nil => exact .inl (by simp)
  | cons x row ih =>
    by_cases hx : ∀ letter, x = .inr letter → bindings.Bound letter
    · rcases ih with hall | ⟨front, letter, back, rfl, hfront, hletter⟩
      · exact .inl fun letter hmem => (List.mem_cons.mp hmem).elim (fun h => hx letter h.symm)
          (hall letter)
      · refine .inr ⟨x :: front, letter, back, rfl, fun other hmem => ?_, hletter⟩
        exact (List.mem_cons.mp hmem).elim (fun h => hx other h.symm) (hfront other)
    · push Not at hx
      obtain ⟨letter, rfl, hletter⟩ := hx
      exact .inr ⟨[], letter, row, rfl, by simp, hletter⟩

private theorem bound_of_substitute
    (reads : Reads spelling (fun letter => letter.isAlpha = true) raw row)
    {text : List Char} (h : bindings.substitute raw = .ok text) (letter : Char)
    (hletter : .inr letter ∈ row) : bindings.Bound letter := by
  rcases bound_or_exists_first bindings row with hall | ⟨front, other, back, hsplit, hfront, hnot⟩
  · exact hall letter hletter
  · rw [substitute_of_unbound reads hsplit hfront hnot] at h
    cases h

private theorem exists_values (bound : ∀ letter, .inr letter ∈ row → bindings.Bound letter) :
    ∃ put : Char → List Char,
      ∀ letter, .inr letter ∈ row → bindings.lookup? letter = some (put letter) := by
  refine ⟨fun letter => (bindings.lookup? letter).getD [], fun letter hletter => ?_⟩
  obtain ⟨value, hvalue⟩ := exists_lookup?_of_bound (bound letter hletter)
  simp [hvalue]

end Rows

/-- Substitution in one pass. A text has one reading. If all its variables have values, where case
does not count, the result is the text with these values in place of them; otherwise the first
variable that has none is reported, by its capital letter. -/
theorem substitute_reading (bindings : Bindings) (raw : List Char) :
    ∃ row, (∀ other, Reads spelling (fun letter => letter.isAlpha = true) raw other ↔
        other = row) ∧
      ((∃ text, bindings.substitute raw = .ok text) ↔
        ∀ letter, .inr letter ∈ row → bindings.Bound letter) ∧
      (∀ text, bindings.substitute raw = .ok text ↔
        ∃ put : Char → List Char,
          (∀ letter, .inr letter ∈ row → bindings.Binds letter (put letter)) ∧
            text = expand put row) ∧
      (∀ missing, bindings.substitute raw = .error missing ↔
        ∃ front letter back, row = front ++ .inr letter :: back ∧
          (∀ other, .inr other ∈ front → bindings.Bound other) ∧ ¬ bindings.Bound letter ∧
            missing = letter.toUpper) := by
  obtain ⟨row, hrow⟩ := Text.existsUnique_reads prefixFree_spelling raw
  have hreads := (hrow row).mpr rfl
  have hbinds (letter : Char) (hletter : .inr letter ∈ row) (value : List Char) :
      bindings.lookup? letter = some value ↔ bindings.Binds letter value :=
    lookup?_eq_some_iff (hreads.known_of_mem hletter)
  refine ⟨row, hrow, ⟨?_, ?_⟩, fun text => ⟨?_, ?_⟩, fun missing => ⟨?_, ?_⟩⟩
  · rintro ⟨text, hok⟩
    exact bound_of_substitute hreads hok
  · intro hall
    obtain ⟨put, hput⟩ := exists_values hall
    exact ⟨_, substitute_of_bound hreads hput⟩
  · intro hok
    obtain ⟨put, hput⟩ := exists_values (bound_of_substitute hreads hok)
    rw [substitute_of_bound hreads hput] at hok
    exact ⟨put, fun letter hletter => (hbinds letter hletter _).mp (hput letter hletter),
      (Except.ok.inj hok).symm⟩
  · rintro ⟨put, hput, rfl⟩
    exact substitute_of_bound hreads fun letter hletter =>
      (hbinds letter hletter _).mpr (hput letter hletter)
  · intro herror
    rcases bound_or_exists_first bindings row with hall | ⟨front, letter, back, hsplit, hfront, hnot⟩
    · obtain ⟨put, hput⟩ := exists_values hall
      rw [substitute_of_bound hreads hput] at herror
      cases herror
    · rw [substitute_of_unbound hreads hsplit hfront hnot] at herror
      exact ⟨front, letter, back, hsplit, hfront, hnot, (Except.error.inj herror).symm⟩
  · rintro ⟨front, letter, back, hsplit, hfront, hnot, rfl⟩
    exact substitute_of_unbound hreads hsplit hfront hnot

-- The value of `a` has a variable in it, which is left as it is.
example : Bindings.substitute (ParamTexts.ofList [('a', " $b ")]) "$$A1$".toList =
    .ok "$$b1$".toList := rfl

end Bindings

end Toolpath
