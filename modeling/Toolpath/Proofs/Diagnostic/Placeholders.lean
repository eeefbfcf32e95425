import Mathlib.Data.List.Infix
import Toolpath.Binary64
import Toolpath.Proofs.Diagnostic.Filling
import Toolpath.Proofs.Text.Slots

/-!
Messages with all their parameters put in at once. The parameters are put in one after the other,
and the text of each is searched for the places of those after it. So a message reads as it was
written exactly as long as no text that is put in makes a new place, in particular if there are no
braces in these texts; the name of a path may have some.
-/

set_option autoImplicit false

namespace Toolpath

namespace Text

def occurrences (pattern text : List Char) : Nat :=
  text.tails.countP fun rest => pattern.isPrefixOf rest

private theorem occurrences_cons (pattern : List Char) (c : Char) (rest : List Char) :
    occurrences pattern (c :: rest) =
      occurrences pattern rest + if pattern <+: c :: rest then 1 else 0 := by
  simp only [occurrences, List.tails, List.countP_cons, List.isPrefixOf_iff_prefix]

end Text

namespace Diagnostic

open Text (Reads expand settle occurrences)

variable {index : Nat} {rest front : List Char}

private theorem brace_notMem_tail (index : Nat) : '{' ∉ (placeholder index).tail := by
  have hdigits := Decimal.digits_toDigits index
  intro h
  rcases List.mem_append.mp h with h | h
  · have := hdigits _ h
    simp at this
  · simp at h

private theorem placeholder_eq (index : Nat) :
    placeholder index = '{' :: (placeholder index).tail := rfl

private theorem not_prefix_of_ne {c : Char} (h : c ≠ '{') (index : Nat) (rest : List Char) :
    ¬ placeholder index <+: c :: rest := by
  rw [placeholder_eq, List.cons_prefix_cons]
  exact fun hprefix => h hprefix.1.symm

private theorem prefixFree_placeholder (known : Nat → Prop) :
    Text.PrefixFree placeholder known where
  ne_nil _ _ := List.cons_ne_nil _ _
  eq_of_prefix i j _ _ h := by
    have hdigits (n : Nat) (rest : List Char) :
        (Nat.toDigits 10 n ++ ['}'] ++ rest).takeWhile Char.isDigit = Nat.toDigits 10 n := by
      rw [List.append_assoc, List.takeWhile_append_of_pos (Decimal.digits_toDigits n)]
      simp
    obtain ⟨rest, hrest⟩ := h
    have htail : Nat.toDigits 10 i ++ ['}'] ++ rest = Nat.toDigits 10 j ++ ['}'] ++ [] := by
      simpa [placeholder] using hrest
    have hsame := congrArg (List.takeWhile Char.isDigit) htail
    rw [hdigits, hdigits] at hsame
    have hvalue (n : Nat) : Nat.ofDigitChars 10 (Nat.toDigits 10 n) 0 = n :=
      Nat.ofDigitChars_toDigits (by decide) (by decide)
    rw [← hvalue i, hsame, hvalue]

private theorem reads_plain {known : Nat → Prop} {row : List (Char ⊕ Nat)} (h : '{' ∉ front)
    (later : Reads placeholder known rest row) :
    Reads placeholder known (front ++ rest) (front.map .inl ++ row) := by
  induction front with
  | nil => exact later
  | cons c front ih =>
    obtain ⟨hc, hfront⟩ := not_or.mp (mt List.mem_cons.mpr h)
    exact .letter (fun i _ => not_prefix_of_ne (Ne.symm hc) i _) (ih hfront)

private theorem reads_placeholder {known : Nat → Prop} {row : List (Char ⊕ Nat)} (h : ¬ known index)
    (later : Reads placeholder known rest row) :
    Reads placeholder known (placeholder index ++ rest) ((placeholder index).map .inl ++ row) := by
  refine .letter (fun i hi hprefix => h ?_) (reads_plain (brace_notMem_tail index) later)
  have hfree := prefixFree_placeholder fun _ => True
  exact hfree.unique trivial trivial hprefix (List.prefix_append _ _) ▸ hi

private theorem reads_narrow {known keep : Nat → Prop} [DecidablePred keep]
    {row : List (Char ⊕ Nat)}
    (h : ∀ i, keep i → known i) (reads : Reads placeholder known rest row) :
    Reads placeholder keep rest (settle placeholder keep row) := by
  induction reads with
  | done => exact .done
  | @slot i _ _ _ _ ih =>
    rw [Text.settle_slot]
    split
    · next hkeep => exact .slot hkeep ih
    · next hkeep => exact reads_placeholder hkeep ih
  | letter free _ ih => exact .letter (fun i hi => free i (h i hi)) ih

section OnePlace

variable {replacement : List Char} {row : List (Char ⊕ Nat)}

private theorem replaceFrom_skip (pattern replacement front rest : List Char) :
    replaceFrom pattern replacement front.length (front ++ rest) =
      replaceFrom pattern replacement 0 rest := by
  induction front with
  | nil => rfl
  | cons c front ih => exact ih

private theorem replaceFrom_placeholder (index : Nat) (replacement rest : List Char) :
    replaceFrom (placeholder index) replacement 0 (placeholder index ++ rest) =
      replacement ++ replaceFrom (placeholder index) replacement 0 rest := by
  have hprefix : (placeholder index).isPrefixOf (placeholder index ++ rest) = true :=
    List.isPrefixOf_iff_prefix.mpr (List.prefix_append _ _)
  rw [placeholder_eq, List.cons_append] at hprefix ⊢
  rw [replaceFrom, if_pos hprefix]
  exact congrArg (replacement ++ ·) (replaceFrom_skip _ _ _ _)

private theorem replaceFrom_letter {c : Char} (h : ¬ placeholder index <+: c :: rest) :
    replaceFrom (placeholder index) replacement 0 (c :: rest) =
      c :: replaceFrom (placeholder index) replacement 0 rest := by
  rw [replaceFrom, if_neg (mt List.isPrefixOf_iff_prefix.mp h)]

private theorem replaceFrom_eq (reads : Reads placeholder (· = index) rest row)
    (replacement : List Char) :
    replaceFrom (placeholder index) replacement 0 rest = expand (fun _ => replacement) row := by
  induction reads with
  | done => rfl
  | slot hknown _ ih => rw [hknown, replaceFrom_placeholder, ih, Text.expand_slot]
  | letter free _ ih => rw [replaceFrom_letter (free index rfl), ih, Text.expand_letter]

private theorem occurrences_plain (h : '{' ∉ front) (index : Nat) (rest : List Char) :
    occurrences (placeholder index) (front ++ rest) = occurrences (placeholder index) rest := by
  induction front with
  | nil => rfl
  | cons c front ih =>
    obtain ⟨hc, hfront⟩ := not_or.mp (mt List.mem_cons.mpr h)
    rw [List.cons_append, Text.occurrences_cons, if_neg (not_prefix_of_ne (Ne.symm hc) index _),
      ih hfront]
    rfl

private theorem occurrences_eq (reads : Reads placeholder (· = index) rest row) :
    occurrences (placeholder index) rest = row.countP Sum.isRight := by
  induction reads with
  | done => rfl
  | @slot i rest _ hknown _ ih =>
    subst hknown
    have hprefix : placeholder i <+: '{' :: ((placeholder i).tail ++ rest) :=
      List.prefix_append _ _
    change occurrences (placeholder i) ('{' :: ((placeholder i).tail ++ rest)) = _
    rw [Text.occurrences_cons, if_pos hprefix, occurrences_plain (brace_notMem_tail i), ih,
      List.countP_cons_of_pos rfl]
  | letter free _ ih =>
    rw [Text.occurrences_cons, if_neg (free index rfl), ih, List.countP_cons_of_neg (by simp)]
    rfl

private theorem exists_letters (h : '{' ∉ front) (same : expand placeholder row = front ++ rest) :
    ∃ later, row = front.map .inl ++ later ∧ expand placeholder later = rest := by
  induction front generalizing row with
  | nil => exact ⟨row, rfl, same⟩
  | cons c front ih =>
    obtain ⟨hc, hfront⟩ := not_or.mp (mt List.mem_cons.mpr h)
    cases row with
    | nil => cases same
    | cons x row =>
      cases x with
      | inl c' =>
        obtain ⟨rfl, hsame⟩ := List.cons_eq_cons.mp same
        obtain ⟨later, rfl, hlater⟩ := ih hfront hsame
        exact ⟨later, rfl, hlater⟩
      | inr i => exact absurd (List.cons_eq_cons.mp same).1 hc

private theorem spelledOut_of_reads {row' : List (Char ⊕ Nat)}
    (reads : Reads placeholder (· = index) rest row) (slots : ∀ i, .inr i ∈ row' → i = index)
    (same : expand placeholder row' = rest) : Text.SpelledOut placeholder row row' := by
  induction reads generalizing row' with
  | done =>
    cases row' with
    | nil => exact .done
    | cons x _ => cases x <;> cases same
  | @slot i _ _ hi _ ih =>
    subst hi
    cases row' with
    | nil => cases same
    | cons x row' =>
      cases x with
      | inl c =>
        -- the brace is plain text here, and so is all that follows up to the other brace
        obtain ⟨rfl, htail⟩ := List.cons_eq_cons.mp same
        obtain ⟨later, rfl, hlater⟩ := exists_letters (brace_notMem_tail i) htail
        exact .spell i (ih (fun j hj => slots j
          (List.mem_cons_of_mem _ (List.mem_append_right _ hj))) hlater)
      | inr j =>
        obtain rfl := slots j List.mem_cons_self
        exact .keep _ (ih (fun i hi => slots i (List.mem_cons_of_mem _ hi))
          (List.append_cancel_left same))
  | letter free _ ih =>
    cases row' with
    | nil => cases same
    | cons x row' =>
      cases x with
      | inl c =>
        obtain ⟨rfl, hsame⟩ := List.cons_eq_cons.mp same
        exact .keep _ (ih (fun i hi => slots i (List.mem_cons_of_mem _ hi)) hsame)
      | inr j =>
        have hj := slots j List.mem_cons_self
        exact absurd (same ▸ List.prefix_append _ _) (free j hj)

private theorem replaceFrom_eq_iff (slots : ∀ i, .inr i ∈ row → i = index)
    (replacement : List Char) :
    replaceFrom (placeholder index) replacement 0 (expand placeholder row) =
        expand (fun _ => replacement) row ↔
      replacement = placeholder index ∨
        occurrences (placeholder index) (expand placeholder row) = row.countP Sum.isRight := by
  obtain ⟨full, hfull⟩ := Text.exists_reads (prefixFree_placeholder (· = index))
    (expand placeholder row)
  have hspelled := spelledOut_of_reads hfull slots rfl
  rw [replaceFrom_eq hfull, occurrences_eq hfull, eq_comm, eq_comm (a := full.countP _)]
  exact hspelled.expand_eq_iff (fun i hi => congrArg placeholder (hfull.known_of_mem hi)) replacement

end OnePlace

/-- The message with all parameters put in at once: it is read before anything is put in. -/
def FilledAtOnce (message : List Char) (parameters : List String) (text : List Char) : Prop :=
  ∃ row, Reads placeholder (· < parameters.length) message row ∧
    text = expand (fun i => (parameters.getD i "").toList) row

def stage (parameters : List String) (count index : Nat) : List Char :=
  if index < count then (parameters.getD index "").toList else placeholder index

section Stages

variable {parameters : List String} {message : List Char} {row : List (Char ⊕ Nat)} {count : Nat}

private theorem fill_concat (message : List Char) (parameters : List String) (parameter : String) :
    fill message (parameters ++ [parameter]) =
      replaceFrom (placeholder parameters.length) parameter.toList 0 (fill message parameters) := by
  rw [fill, List.zipIdx_append, Nat.zero_add, List.foldl_append, fill]
  rfl

private theorem fill_take_succ (h : count < parameters.length) :
    fill message (parameters.take (count + 1)) =
      replaceFrom (placeholder count) parameters[count].toList 0
        (fill message (parameters.take count)) := by
  rw [List.take_add_one, List.getElem?_eq_getElem h, Option.toList_some, fill_concat,
    List.length_take_of_le h.le]

private theorem filledAtOnce_iff (reads : Reads placeholder (· < parameters.length) message row)
    (h : count ≤ parameters.length) {text : List Char} :
    FilledAtOnce message (parameters.take count) text ↔
      text = expand (stage parameters count) row := by
  have hlength : (parameters.take count).length = count := List.length_take_of_le h
  have hreads : Reads placeholder (· < (parameters.take count).length) message
      (settle placeholder (· < count) row) := by
    rw [hlength]
    exact reads_narrow (fun i hi => Nat.lt_of_lt_of_le hi h) reads
  have hexpand : expand (fun i => ((parameters.take count).getD i "").toList)
      (settle placeholder (· < count) row) = expand (stage parameters count) row := by
    rw [Text.expand_settle]
    refine Text.expand_congr fun i _ => ?_
    rw [stage]
    split
    · next hi => rw [List.getD_eq_getElem?_getD, List.getElem?_take_of_lt hi,
        List.getD_eq_getElem?_getD]
    · rfl
  constructor
  · rintro ⟨row', hrow', rfl⟩
    rw [hrow'.unique (prefixFree_placeholder _) hreads, hexpand]
  · rintro rfl
    exact ⟨_, hreads, hexpand.symm⟩

private theorem expand_stage (row : List (Char ⊕ Nat)) (h : count < parameters.length) :
    expand placeholder (settle (stage parameters count) (· = count) row) =
        expand (stage parameters count) row ∧
      expand (fun _ => parameters[count].toList) (settle (stage parameters count) (· = count) row) =
        expand (stage parameters (count + 1)) row := by
  constructor
  · rw [Text.expand_settle]
    refine Text.expand_congr fun i _ => ?_
    split
    · next hi => rw [hi, stage, if_neg (Nat.lt_irrefl count)]
    · rfl
  · rw [Text.expand_settle]
    refine Text.expand_congr fun i _ => ?_
    split
    · next hi => rw [hi, stage, if_pos (Nat.lt_succ_self count),
        List.getD_eq_getElem?_getD, List.getElem?_eq_getElem h, Option.getD_some]
    · next hi => simp only [stage, Nat.lt_succ_iff_lt_or_eq, hi, or_false]

private theorem step_iff (reads : Reads placeholder (· < parameters.length) message row)
    (h : count < parameters.length) :
    replaceFrom (placeholder count) parameters[count].toList 0
          (expand (stage parameters count) row) = expand (stage parameters (count + 1)) row ↔
      parameters[count].toList = placeholder count ∨
        occurrences (placeholder count) (expand (stage parameters count) row) =
          occurrences (placeholder count) message := by
  have hmessage : occurrences (placeholder count) message =
      (settle (stage parameters count) (· = count) row).countP Sum.isRight := by
    rw [occurrences_eq (reads_narrow (fun i (hi : i = count) => hi ▸ h) reads)]
    exact Text.countP_settle _ _ _ _
  obtain ⟨hbefore, hafter⟩ := expand_stage row h
  rw [← hbefore, ← hafter, hmessage]
  exact replaceFrom_eq_iff (fun i hi => (Text.mem_settle _ _ _ hi).1) _

private theorem fill_take_eq (reads : Reads placeholder (· < parameters.length) message row)
    (steps : ∀ count parameter, parameters[count]? = some parameter →
      parameter.toList = placeholder count ∨
        occurrences (placeholder count) (expand (stage parameters count) row) =
          occurrences (placeholder count) message)
    (h : count ≤ parameters.length) :
    fill message (parameters.take count) = expand (stage parameters count) row := by
  induction count with
  | zero => exact reads.expand_spell.symm
  | succ count ih =>
    rw [fill_take_succ h, ih (Nat.le_of_succ_le h)]
    exact (step_iff reads h).mpr (steps count _ (List.getElem?_eq_getElem h))

private theorem reads_expand {put : Nat → List Char} (plain : .inl '{' ∉ row)
    (slots : ∀ i, .inr i ∈ row → i ≠ index → '{' ∉ put i ∨ put i = placeholder i)
    (own : put index = placeholder index) :
    Reads placeholder (· = index) (expand put row) (settle put (· = index) row) := by
  induction row with
  | nil => exact .done
  | cons x row ih =>
    obtain ⟨hx, hplain⟩ := not_or.mp (mt List.mem_cons.mpr plain)
    have hlater := ih hplain fun i hi => slots i (List.mem_cons_of_mem _ hi)
    cases x with
    | inl c =>
      have hc : c ≠ '{' := fun heq => hx (congrArg _ heq.symm)
      exact .letter (fun i _ => not_prefix_of_ne hc i _) hlater
    | inr i =>
      rw [Text.expand_slot, Text.settle_slot]
      split
      · next hi =>
        subst hi
        rw [own]
        exact .slot rfl hlater
      · next hi =>
        rcases slots i List.mem_cons_self hi with hfree | hplace
        · exact reads_plain hfree hlater
        · rw [hplace]
          exact reads_placeholder hi hlater

private theorem occurrences_stage (reads : Reads placeholder (· < parameters.length) message row)
    (plain : .inl '{' ∉ row) (h : count < parameters.length)
    (free : ∀ parameter ∈ parameters.take count, '{' ∉ parameter.toList) :
    occurrences (placeholder count) (expand (stage parameters count) row) =
      occurrences (placeholder count) message := by
  have hslots (i : Nat) (_ : .inr i ∈ row) (_ : i ≠ count) :
      '{' ∉ stage parameters count i ∨ stage parameters count i = placeholder i := by
    rw [stage]
    split
    · next hi =>
      have hlength : i < (parameters.take count).length := by
        rw [List.length_take_of_le h.le]
        exact hi
      refine .inl ?_
      rw [List.getD_eq_getElem?_getD, ← List.getElem?_take_of_lt hi,
        List.getElem?_eq_getElem hlength]
      exact free _ (List.getElem_mem hlength)
    · exact .inr rfl
  have hown : stage parameters count count = placeholder count := if_neg (Nat.lt_irrefl count)
  rw [occurrences_eq (reads_expand plain hslots hown),
    occurrences_eq (reads_narrow (fun i (hi : i = count) => hi ▸ h) reads)]
  exact Text.countP_settle _ _ _ _

end Stages

variable {α : Type}

/-- The problem with its first parameters only. -/
def upTo (d : Diagnostic α) (count : Nat) : Diagnostic α :=
  { d with parameters := d.parameters.take count }

private theorem text_upTo_iff [Scalar α] (d : Diagnostic α) (count : Nat) (filled : List Char) :
    (d.upTo count).text = lead d.context ++ String.ofList filled ↔
      fill d.message.toList (d.parameters.take count) = filled := by
  have htext : (d.upTo count).text =
      lead d.context ++ String.ofList (fill d.message.toList (d.parameters.take count)) :=
    text_eq_lead_append _
  rw [htext, String.append_right_inj, String.ofList_inj]

/-- When a problem reads as if its parameters were put in at once. That is what `filled` gives, for
so many of the first parameters. The problem reads so with as many as there are and with fewer, if
and only if no text that is put in makes a new place for the next parameter, or that parameter is
its own place. None does if there are no braces in the parameters before the last one and those of
the message begin places. -/
theorem text_filled_iff [Scalar α] (d : Diagnostic α) :
    ∃ filled : Nat → List Char,
      (∀ count ≤ d.parameters.length, ∀ text,
        FilledAtOnce d.message.toList (d.parameters.take count) text ↔ text = filled count) ∧
      ((∀ count ≤ d.parameters.length,
          (d.upTo count).text = lead d.context ++ String.ofList (filled count)) ↔
        ∀ count parameter, d.parameters[count]? = some parameter →
          parameter.toList = placeholder count ∨
            occurrences (placeholder count) (filled count) =
              occurrences (placeholder count) d.message.toList) ∧
      ((∀ row, Reads placeholder (· < d.parameters.length) d.message.toList row →
          .inl '{' ∉ row) →
        (∀ parameter ∈ d.parameters.dropLast, '{' ∉ parameter.toList) →
          d.text = lead d.context ++ String.ofList (filled d.parameters.length)) := by
  obtain ⟨row, hrow⟩ := Text.exists_reads
    (prefixFree_placeholder (· < d.parameters.length)) d.message.toList
  refine ⟨fun count => expand (stage d.parameters count) row,
    fun count hcount text => filledAtOnce_iff hrow hcount, ⟨?_, ?_⟩, ?_⟩
  · intro hall count parameter hparameter
    obtain ⟨hcount, rfl⟩ := List.getElem?_eq_some_iff.mp hparameter
    have hbefore := (text_upTo_iff d count _).mp (hall count hcount.le)
    have hafter := (text_upTo_iff d (count + 1) _).mp (hall (count + 1) hcount)
    rw [fill_take_succ hcount, hbefore] at hafter
    exact (step_iff hrow hcount).mp hafter
  · intro steps count hcount
    exact (text_upTo_iff d count _).mpr (fill_take_eq hrow steps hcount)
  · intro plain free
    have hall := fill_take_eq hrow ?_ (le_refl d.parameters.length)
    · rw [List.take_length] at hall
      rw [text_eq_lead_append, hall]
    intro count parameter hparameter
    obtain ⟨hcount, rfl⟩ := List.getElem?_eq_some_iff.mp hparameter
    refine .inr (occurrences_stage hrow (plain row hrow) hcount fun parameter hmem => ?_)
    refine free parameter ?_
    rw [List.dropLast_eq_take]
    exact List.take_subset_take_left _ (Nat.le_sub_one_of_lt hcount) hmem

section Misplaced

open Binary64

def misplaced : Diagnostic Float :=
  .error .nowhere "sub-path {0} does not fit: {1}" ["{1}", "too far"]

theorem reason_put_in_for_name : ∃ filled,
    FilledAtOnce misplaced.message.toList misplaced.parameters filled ∧
      misplaced.text ≠ lead misplaced.context ++ String.ofList filled := by
  have hreads : Reads placeholder (· < 2)
      ("sub-path ".toList ++ (placeholder 0 ++ (" does not fit: ".toList ++ (placeholder 1 ++ []))))
      ("sub-path ".toList.map .inl ++ .inr 0 :: (" does not fit: ".toList.map .inl ++ [.inr 1])) :=
    reads_plain (by decide +kernel) (.slot (by decide)
      (reads_plain (by decide +kernel) (.slot (by decide) .done)))
  have hmessage : misplaced.message.toList = "sub-path ".toList ++
      (placeholder 0 ++ (" does not fit: ".toList ++ (placeholder 1 ++ []))) := by
    decide +kernel
  exact ⟨_, ⟨_, hmessage ▸ hreads, rfl⟩, by decide +kernel⟩

end Misplaced

end Diagnostic

end Toolpath
