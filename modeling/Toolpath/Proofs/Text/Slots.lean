import Mathlib.Data.List.Infix

/-!
Texts with slots: variables, or places for parameters. Some spellings stand for something that is
put in for them, and every other character stands for itself. Where no spelling begins with another
one, such a text is read from left to right in exactly one way, whatever is put in.
-/

set_option autoImplicit false

namespace Toolpath.Text

variable {β : Type}

/-- A text read from left to right as a row of slots and characters. The spelling of a known slot is
that slot wherever it comes next, and a character is itself where none does. -/
inductive Reads (spell : β → List Char) (known : β → Prop) :
    List Char → List (Char ⊕ β) → Prop
  | done : Reads spell known [] []
  | slot {b : β} {rest : List Char} {row : List (Char ⊕ β)} (hb : known b)
      (later : Reads spell known rest row) : Reads spell known (spell b ++ rest) (.inr b :: row)
  | letter {c : Char} {rest : List Char} {row : List (Char ⊕ β)}
      (free : ∀ b, known b → ¬ spell b <+: c :: rest) (later : Reads spell known rest row) :
      Reads spell known (c :: rest) (.inl c :: row)

def expand (put : β → List Char) (row : List (Char ⊕ β)) : List Char :=
  row.flatMap (Sum.elim (fun c => [c]) put)

section Expand

variable (put : β → List Char) (row row' : List (Char ⊕ β))

@[simp]
theorem expand_nil : expand put [] = [] := rfl

@[simp]
theorem expand_letter (c : Char) : expand put (.inl c :: row) = c :: expand put row := rfl

@[simp]
theorem expand_slot (b : β) : expand put (.inr b :: row) = put b ++ expand put row := rfl

@[simp]
theorem expand_append : expand put (row ++ row') = expand put row ++ expand put row' :=
  List.flatMap_append

end Expand

theorem expand_congr {put put' : β → List Char} {row : List (Char ⊕ β)}
    (h : ∀ b, .inr b ∈ row → put b = put' b) : expand put row = expand put' row := by
  refine List.flatMap_congr fun x hx => ?_
  cases x with
  | inl c => rfl
  | inr b => exact h b hx

/-- A row in which only the slots that are kept are slots, and the others are the characters that
are put in for them. -/
def settle (put : β → List Char) (keep : β → Prop) [DecidablePred keep] (row : List (Char ⊕ β)) :
    List (Char ⊕ β) :=
  row.flatMap (Sum.elim (fun c => [.inl c]) fun b => if keep b then [.inr b] else (put b).map .inl)

section Settle

variable (put : β → List Char) (keep : β → Prop) [DecidablePred keep] (row : List (Char ⊕ β))

@[simp]
theorem settle_letter (c : Char) :
    settle put keep (.inl c :: row) = .inl c :: settle put keep row :=
  rfl

@[simp]
theorem settle_slot (b : β) : settle put keep (.inr b :: row) =
    (if keep b then [.inr b] else (put b).map .inl) ++ settle put keep row := rfl

private theorem expand_letters (q : β → List Char) (cs : List Char) :
    expand q (cs.map .inl) = cs := by
  induction cs with
  | nil => rfl
  | cons c cs ih => rw [List.map_cons, expand_letter, ih]

theorem expand_settle (q : β → List Char) : expand q (settle put keep row) =
    expand (fun b => if keep b then q b else put b) row := by
  induction row with
  | nil => rfl
  | cons x row ih =>
    cases x with
    | inl c => rw [settle_letter, expand_letter, expand_letter, ih]
    | inr b =>
      rw [settle_slot, expand_append, expand_slot, ih]
      split
      · rw [expand_slot, expand_nil, List.append_nil]
      · rw [expand_letters]

theorem mem_settle {b : β} (h : .inr b ∈ settle put keep row) : keep b ∧ .inr b ∈ row := by
  obtain ⟨x, hx, hb⟩ := List.mem_flatMap.mp h
  cases x with
  | inl c => simp at hb
  | inr b' =>
    simp only [Sum.elim_inr] at hb
    split at hb
    · next hkeep =>
      obtain rfl := Sum.inr.inj (List.mem_singleton.mp hb)
      exact ⟨hkeep, hx⟩
    · simp at hb

private theorem countP_letters (cs : List Char) :
    (cs.map (.inl : Char → Char ⊕ β)).countP Sum.isRight = 0 :=
  List.countP_eq_zero.mpr (by simp)

theorem countP_settle (put' : β → List Char) : (settle put keep row).countP Sum.isRight =
    (settle put' keep row).countP Sum.isRight := by
  induction row with
  | nil => rfl
  | cons x row ih =>
    cases x with
    | inl c => simpa using ih
    | inr b =>
      rw [settle_slot, settle_slot, List.countP_append, List.countP_append, ih]
      split
      · rfl
      · rw [countP_letters, countP_letters]

end Settle

/-- The same row with some of its slots written out in characters, as they are spelled. -/
inductive SpelledOut (spell : β → List Char) : List (Char ⊕ β) → List (Char ⊕ β) → Prop
  | done : SpelledOut spell [] []
  | keep (x : Char ⊕ β) {row row' : List (Char ⊕ β)} (later : SpelledOut spell row row') :
      SpelledOut spell (x :: row) (x :: row')
  | spell (b : β) {row row' : List (Char ⊕ β)} (later : SpelledOut spell row row') :
      SpelledOut spell (.inr b :: row) ((spell b).map .inl ++ row')

namespace SpelledOut

variable {spell : β → List Char} {pattern : List Char} {row row' : List (Char ⊕ β)}

private theorem countP_le (h : SpelledOut spell row row') :
    row'.countP Sum.isRight ≤ row.countP Sum.isRight := by
  induction h with
  | done => exact le_rfl
  | keep x _ ih => simpa only [List.countP_cons] using Nat.add_le_add_right ih _
  | spell b _ ih =>
    rw [List.countP_append, countP_letters, Nat.zero_add, List.countP_cons_of_pos rfl]
    exact Nat.le_succ_of_le ih

private theorem length_expand (h : SpelledOut spell row row')
    (single : ∀ b, .inr b ∈ row → spell b = pattern) (text : List Char) :
    (expand (fun _ => text) row').length + row.countP Sum.isRight * text.length +
        row'.countP Sum.isRight * pattern.length =
      (expand (fun _ => text) row).length + row'.countP Sum.isRight * text.length +
        row.countP Sum.isRight * pattern.length := by
  induction h with
  | done => rfl
  | keep x _ ih =>
    have hlater := ih fun b hb => single b (List.mem_cons_of_mem _ hb)
    cases x with
    | inl c =>
      rw [List.countP_cons_of_neg (by simp), List.countP_cons_of_neg (by simp), expand_letter,
        expand_letter, List.length_cons, List.length_cons]
      omega
    | inr b =>
      rw [List.countP_cons_of_pos rfl, List.countP_cons_of_pos rfl, expand_slot, expand_slot,
        List.length_append, List.length_append]
      simp only [Nat.add_mul]
      omega
  | spell b _ ih =>
    have hlater := ih fun b hb => single b (List.mem_cons_of_mem _ hb)
    rw [single b List.mem_cons_self, List.countP_append, countP_letters, Nat.zero_add,
      List.countP_cons_of_pos rfl, expand_append, expand_letters, expand_slot, List.length_append,
      List.length_append]
    simp only [Nat.add_mul]
    omega

private theorem eq_pattern_or_eq (h : SpelledOut spell row row')
    (single : ∀ b, .inr b ∈ row → spell b = pattern)
    {text : List Char} (length : text.length = pattern.length)
    (same : expand (fun _ => text) row' = expand (fun _ => text) row) :
    text = pattern ∨ row' = row := by
  induction h with
  | done => exact .inr rfl
  | keep x _ ih =>
    have hlater := ih fun b hb => single b (List.mem_cons_of_mem _ hb)
    cases x with
    | inl c => exact (hlater (List.cons_injective same)).imp_right (congrArg _)
    | inr b => exact (hlater (List.append_cancel_left same)).imp_right (congrArg _)
  | spell b _ _ =>
    rw [single b List.mem_cons_self, expand_append, expand_letters, expand_slot] at same
    exact .inl (List.append_inj_left same length.symm).symm

private theorem expand_pattern (h : SpelledOut spell row row')
    (single : ∀ b, .inr b ∈ row → spell b = pattern) :
    expand (fun _ => pattern) row' = expand (fun _ => pattern) row := by
  induction h with
  | done => rfl
  | keep x _ ih =>
    have hlater := ih fun b hb => single b (List.mem_cons_of_mem _ hb)
    cases x with
    | inl c => rw [expand_letter, expand_letter, hlater]
    | inr b => rw [expand_slot, expand_slot, hlater]
  | spell b _ ih =>
    rw [expand_append, expand_letters, expand_slot, single b List.mem_cons_self,
      ih fun b hb => single b (List.mem_cons_of_mem _ hb)]

private theorem eq_of_countP (h : SpelledOut spell row row')
    (same : row'.countP Sum.isRight = row.countP Sum.isRight) : row' = row := by
  induction h with
  | done => rfl
  | keep x _ ih =>
    rw [List.countP_cons, List.countP_cons] at same
    rw [ih (Nat.add_right_cancel same)]
  | spell b later _ =>
    rw [List.countP_append, countP_letters, List.countP_cons_of_pos rfl] at same
    have := later.countP_le
    omega

/-- With one text for all slots it does not matter that some are written out, exactly if the text is
the spelling itself or none is written out. -/
theorem expand_eq_iff (h : SpelledOut spell row row')
    (single : ∀ b, .inr b ∈ row → spell b = pattern) (text : List Char) :
    expand (fun _ => text) row' = expand (fun _ => text) row ↔
      text = pattern ∨ row'.countP Sum.isRight = row.countP Sum.isRight := by
  constructor
  · intro same
    by_cases hlength : text.length = pattern.length
    · exact (h.eq_pattern_or_eq single hlength same).imp_right (congrArg _)
    · obtain ⟨more, hmore⟩ := Nat.exists_eq_add_of_le h.countP_le
      have hlengths := h.length_expand single text
      rw [same, hmore, Nat.add_mul, Nat.add_mul] at hlengths
      have hproduct : more * text.length = more * pattern.length := by omega
      rcases Nat.eq_zero_or_pos more with hzero | hpos
      · exact .inr (by omega)
      · exact absurd (Nat.eq_of_mul_eq_mul_left hpos hproduct) hlength
  · rintro (rfl | hcount)
    · exact h.expand_pattern single
    · rw [h.eq_of_countP hcount]

end SpelledOut

/-- Spellings that are not empty, none of which begins with another one. -/
structure PrefixFree (spell : β → List Char) (known : β → Prop) : Prop where
  ne_nil : ∀ b, known b → spell b ≠ []
  eq_of_prefix : ∀ b b', known b → known b' → spell b <+: spell b' → b = b'

variable {spell : β → List Char} {known : β → Prop} {text : List Char}
  {row row' : List (Char ⊕ β)}

theorem PrefixFree.unique (free : PrefixFree spell known) {b b' : β} (hb : known b)
    (hb' : known b') (h : spell b <+: text) (h' : spell b' <+: text) : b = b' := by
  rcases List.prefix_or_prefix_of_prefix h h' with hprefix | hprefix
  · exact free.eq_of_prefix b b' hb hb' hprefix
  · exact (free.eq_of_prefix b' b hb' hb hprefix).symm

namespace Reads

theorem expand_spell (h : Reads spell known text row) : expand spell row = text := by
  induction h with
  | done => rfl
  | slot _ _ ih => rw [expand_slot, ih]
  | letter _ _ ih => rw [expand_letter, ih]

theorem known_of_mem (h : Reads spell known text row) {b : β} (hb : .inr b ∈ row) : known b := by
  induction h with
  | done => cases hb
  | slot hknown _ ih =>
    rcases List.mem_cons.mp hb with heq | hb
    · exact Sum.inr.inj heq ▸ hknown
    · exact ih hb
  | letter _ _ ih => exact ih ((List.mem_cons.mp hb).resolve_left (by simp))

private theorem of_slot (free : PrefixFree spell known) {b : β} (hb : known b) {rest : List Char}
    (h : Reads spell known (spell b ++ rest) row) :
    ∃ later, row = .inr b :: later ∧ Reads spell known rest later := by
  generalize htext : spell b ++ rest = text at h
  have hprefix : spell b <+: text := htext ▸ List.prefix_append _ _
  cases h with
  | done => exact absurd (List.append_eq_nil_iff.mp htext).1 (free.ne_nil b hb)
  | slot hknown later =>
    obtain rfl := free.unique hb hknown hprefix (List.prefix_append _ _)
    obtain rfl := List.append_cancel_left htext
    exact ⟨_, rfl, later⟩
  | letter hfree _ => exact absurd hprefix (hfree b hb)

private theorem of_letter {c : Char} {rest : List Char}
    (free : ∀ b, known b → ¬ spell b <+: c :: rest) (h : Reads spell known (c :: rest) row) :
    ∃ later, row = .inl c :: later ∧ Reads spell known rest later := by
  generalize htext : c :: rest = text at h
  cases h with
  | done => cases htext
  | slot hknown _ => exact absurd (htext ▸ List.prefix_append _ _) (free _ hknown)
  | letter _ later =>
    obtain ⟨rfl, rfl⟩ := List.cons_eq_cons.mp htext
    exact ⟨_, rfl, later⟩

theorem unique (free : PrefixFree spell known) (h : Reads spell known text row)
    (h' : Reads spell known text row') : row = row' := by
  induction h generalizing row' with
  | done =>
    generalize htext : ([] : List Char) = text at h'
    cases h' with
    | done => rfl
    | slot hknown => exact absurd (List.append_eq_nil_iff.mp htext.symm).1 (free.ne_nil _ hknown)
    | letter => cases htext
  | slot hknown _ ih =>
    obtain ⟨later, rfl, hlater⟩ := of_slot free hknown h'
    rw [ih hlater]
  | letter hfree _ ih =>
    obtain ⟨later, rfl, hlater⟩ := of_letter hfree h'
    rw [ih hlater]

end Reads

theorem exists_reads (free : PrefixFree spell known) (text : List Char) :
    ∃ row, Reads spell known text row := by
  induction hlength : text.length using Nat.strong_induction_on generalizing text with
  | _ n ih =>
    by_cases hslot : ∃ b, known b ∧ spell b <+: text
    · obtain ⟨b, hb, rest, rfl⟩ := hslot
      have hshort : rest.length < n := by
        have := List.length_pos_iff.mpr (free.ne_nil b hb)
        rw [List.length_append] at hlength
        omega
      obtain ⟨row, hrow⟩ := ih rest.length hshort rest rfl
      exact ⟨_, .slot hb hrow⟩
    · cases text with
      | nil => exact ⟨[], .done⟩
      | cons c rest =>
        obtain ⟨row, hrow⟩ := ih rest.length (by simp [← hlength]) rest rfl
        exact ⟨_, .letter (fun b hb hprefix => hslot ⟨b, hb, hprefix⟩) hrow⟩

/-- A text has exactly one reading. -/
theorem existsUnique_reads (free : PrefixFree spell known) (text : List Char) :
    ∃ row, ∀ other, Reads spell known text other ↔ other = row := by
  obtain ⟨row, hrow⟩ := exists_reads free text
  exact ⟨row, fun other => ⟨fun hother => hother.unique free hrow, fun heq => heq ▸ hrow⟩⟩

end Toolpath.Text
