import Mathlib.Data.List.Chain
import Toolpath.Proofs.PathName.Identity
import Toolpath.Proofs.PathName.Numbers
import Toolpath.Proofs.PathName.Order
import Toolpath.Proofs.Text.Trimming

/-!
Names as keys of ordered and of hashed tables. Order, identity and hash are all functions of the
groups of a name, and tell apart exactly the names with different groups. The groups come from the
longest runs of digits and of other characters; what follows the first point has no part in them.
-/

set_option autoImplicit false

namespace Toolpath

namespace PathName

open Std (TransCmp OrientedCmp ReflCmp)

section Runs

/-- The longest runs of a text: each is of digits or of other characters, and no two of one kind
stand next to each other. -/
structure LongestRuns (cs : List Char) (parts : List (List Char)) : Prop where
  flatten : parts.flatten = cs
  ne_nil : ∀ run ∈ parts, run ≠ []
  uniform : ∀ run ∈ parts, ∀ c ∈ run, ∀ d ∈ run, c.isDigit = d.isDigit
  alternate : parts.IsChain fun run next => ∀ c ∈ run, ∀ d ∈ next, c.isDigit ≠ d.isDigit

variable {cs : List Char} {c d : Char} {run : List Char} {later parts : List (List Char)}

private theorem LongestRuns.cons (h : LongestRuns cs parts) (hne : run ≠ [])
    (huniform : ∀ c ∈ run, ∀ d ∈ run, c.isDigit = d.isDigit)
    (hnext : ∀ next ∈ parts.head?, ∀ c ∈ run, ∀ d ∈ next, c.isDigit ≠ d.isDigit) :
    LongestRuns (run ++ cs) (run :: parts) where
  flatten := by rw [List.flatten_cons, h.flatten]
  ne_nil := List.forall_mem_cons.mpr ⟨hne, h.ne_nil⟩
  uniform := List.forall_mem_cons.mpr ⟨huniform, h.uniform⟩
  alternate := List.isChain_cons.mpr ⟨hnext, h.alternate⟩

private theorem LongestRuns.tail (h : LongestRuns cs (run :: later)) :
    LongestRuns later.flatten later where
  flatten := rfl
  ne_nil := (List.forall_mem_cons.mp h.ne_nil).2
  uniform := (List.forall_mem_cons.mp h.uniform).2
  alternate := h.alternate.tail

private theorem LongestRuns.extend (h : LongestRuns cs ((d :: run) :: later))
    (hsame : c.isDigit = d.isDigit) : LongestRuns (c :: cs) ((c :: d :: run) :: later) := by
  have hkind {e : Char} (he : e ∈ c :: d :: run) : e.isDigit = d.isDigit := by
    rcases List.mem_cons.mp he with rfl | he
    · exact hsame
    · exact h.uniform _ List.mem_cons_self e he d List.mem_cons_self
  have hnext : ∀ next ∈ later.head?, ∀ e ∈ c :: d :: run, ∀ f ∈ next, e.isDigit ≠ f.isDigit := by
    intro next hhead e he f hf
    rw [hkind he]
    exact (List.isChain_cons.mp h.alternate).1 next hhead d List.mem_cons_self f hf
  have hall := h.tail.cons (List.cons_ne_nil c (d :: run))
    (fun e he f hf => (hkind he).trans (hkind hf).symm) hnext
  rwa [← h.flatten]

private theorem LongestRuns.start (h : LongestRuns cs parts)
    (hdiffer : ∀ run ∈ parts.head?, ∀ d ∈ run, c.isDigit ≠ d.isDigit) :
    LongestRuns (c :: cs) ([c] :: parts) := by
  refine h.cons (List.cons_ne_nil c []) ?_ ?_
  · intro e he f hf
    rw [List.mem_singleton.mp he, List.mem_singleton.mp hf]
  · intro next hhead e he f hf
    rw [List.mem_singleton.mp he]
    exact hdiffer next hhead f hf

private theorem longestRuns_runs (cs : List Char) : LongestRuns cs (runs cs) := by
  induction cs with
  | nil => exact ⟨rfl, by simp [runs], by simp [runs], .nil⟩
  | cons c cs ih =>
    rw [runs]
    cases hruns : runs cs with
    | nil =>
      rw [hruns] at ih
      exact ih.start (by simp)
    | cons run later =>
      rw [hruns] at ih
      cases run with
      | nil => exact absurd rfl (ih.ne_nil [] List.mem_cons_self)
      | cons d run =>
        dsimp only
        split
        · next hsame => exact ih.extend hsame
        · next hdiffer =>
          refine ih.start fun first hfirst e he => ?_
          obtain rfl := Option.some.inj hfirst
          rw [← ih.uniform _ List.mem_cons_self d List.mem_cons_self e he]
          exact hdiffer

end Runs

/-- What is left of a run: of digits the number, without zeros in front unless it is zero, and of
other characters the text in lower case. -/
inductive Group.Of : List Char → Group → Prop
  | number {zeros digits : List Char} : (∀ c ∈ zeros, c = '0') → Group.IsDigits digits →
      Group.IsStripped digits → Of (zeros ++ digits) (.number digits)
  | word {letters : List Char} : letters ≠ [] → (∀ c ∈ letters, c.isDigit = false) →
      Of letters (.word (Text.lower letters))

private theorem of_groupOf {run : List Char} (hne : run ≠ [])
    (uniform : ∀ c ∈ run, ∀ d ∈ run, c.isDigit = d.isDigit) : Group.Of run (groupOf run) := by
  cases run with
  | nil => exact absurd rfl hne
  | cons c cs =>
    have hkind : ∀ d ∈ c :: cs, d.isDigit = c.isDigit :=
      fun d hd => uniform d hd c List.mem_cons_self
    rw [groupOf]
    split
    · next hdigit =>
      obtain ⟨zeros, x, hrun, hzeros, hgroup, hx, hstripped⟩ :=
        Group.exists_zeros (fun d hd => (hkind d hd).trans hdigit) hne
      rw [hgroup, hrun]
      exact .number hzeros hx hstripped
    · next hletter =>
      exact .word hne fun d hd => (hkind d hd).trans (by simpa using hletter)

example : (ofText "Part0010b.left").groups =
    [.word ['p', 'a', 'r', 't'], .number ['1', '0'], .word ['b']] := by decide

private theorem flatMap_hashInputs_inj {gs hs : List Group} :
    gs.flatMap Group.hashInputs = hs.flatMap Group.hashInputs ↔ gs = hs := by
  induction gs generalizing hs with
  | nil =>
    cases hs with
    | nil => simp
    | cons h hs => cases h <;> simp [Group.hashInputs]
  | cons g gs ih =>
    cases hs with
    | nil => cases g <;> simp [Group.hashInputs]
    | cons h hs => cases g <;> cases h <;> simp [Group.hashInputs, ih, String.ofList_inj]

private theorem hashInputs_eq_iff (a b : PathName) :
    a.hashInputs = b.hashInputs ↔ (a == b) = true := by
  rw [beq_iff_groups_eq]
  exact flatMap_hashInputs_inj

instance : LawfulHashable PathName where
  hash_eq a b h := by
    show hash a.hashInputs = hash b.hashInputs
    rw [(hashInputs_eq_iff a b).mpr h]

private theorem compare_eq_iff (a b : PathName) : a.compare b = .eq ↔ a.groups = b.groups :=
  compareGroups_eq_iff a.groups b.groups

private theorem key_stem {stem : String} (suffix : String) (h : '.' ∉ stem.toList) :
    (ofText stem).key = Text.trim stem.toList ∧
      (ofText (stem ++ "." ++ suffix)).key = Text.trim stem.toList := by
  have hpoint : Text.isBlank '.' = false := by decide
  have hbefore {cs : List Char} (hcs : ∀ c ∈ cs, c ∈ stem.toList) :
      ∀ c ∈ cs, (c != '.') = true := fun c hc => by
    rw [bne_iff_ne]
    rintro rfl
    exact h (hcs _ hc)
  have hlong : (ofText (stem ++ "." ++ suffix)).text.toList =
      Text.trimLeft stem.toList ++ '.' :: Text.trimRight suffix.toList := by
    simp only [ofText, String.toList_append, String.toList_ofList]
    rw [show ".".toList = ['.'] from rfl, List.append_assoc, List.singleton_append, Text.trim,
      Text.trimLeft_append _ hpoint, Text.trimRight_append _ _ hpoint]
  have hshort : (ofText stem).text.toList = Text.trim stem.toList := by
    simp [ofText]
  have hfront : (Text.trimLeft stem.toList ++ '.' :: Text.trimRight suffix.toList).takeWhile
      (· != '.') = Text.trimLeft stem.toList := by
    rw [List.takeWhile_append_of_pos (hbefore fun _ => Text.mem_of_mem_trimLeft),
      List.takeWhile_cons_of_neg (by decide), List.append_nil]
  have hwhole : (Text.trim stem.toList).takeWhile (· != '.') = Text.trim stem.toList := by
    rw [← List.append_nil (Text.trim stem.toList),
      List.takeWhile_append_of_pos (hbefore fun _ => Text.mem_of_mem_trim), List.takeWhile_nil]
  constructor
  · rw [key, hshort, hwhole, Text.trim_trim]
  · rw [key, hlong, hfront, Text.trim, Text.trim, Text.trimLeft_trimLeft]

/-- The laws of names as keys. The comparison is a total order; two names are one exactly if it
calls them equal, which is exactly if they have the same groups, and exactly then their hashes are
computed from the same. There is a group for each of the longest runs of the key, a number without
zeros in front or a text in lower case; runs of digits compare as the numbers that they denote. The
key is what stands in front of the first point, without white space at its ends, and nothing after
that point counts. -/
theorem key_laws :
    (∀ a : PathName, a.compare a = .eq) ∧
    (∀ a b : PathName, b.compare a = (a.compare b).swap) ∧
    (∀ a b c : PathName, (a.compare b).isLE = true → (b.compare c).isLE = true →
      (a.compare c).isLE = true) ∧
    (∀ a b : PathName, ((a == b) = true ↔ a.compare b = .eq) ∧
      (a.compare b = .eq ↔ a.groups = b.groups) ∧
      (a.hashInputs = b.hashInputs ↔ (a == b) = true)) ∧
    (∀ name : PathName, ∃ parts, LongestRuns name.key parts ∧
      name.groups = parts.map groupOf ∧ ∀ run ∈ parts, Group.Of run (groupOf run)) ∧
    (∀ x y : List Char, Group.IsDigits x → Group.IsDigits y →
      (Group.ofDigits x).compare (Group.ofDigits y) =
        Ord.compare (Group.value x) (Group.value y)) ∧
    (∀ stem suffix : String, '.' ∉ stem.toList →
      (ofText stem).key = Text.trim stem.toList ∧
      (ofText (stem ++ "." ++ suffix)).key = Text.trim stem.toList ∧
      (ofText (stem ++ "." ++ suffix) == ofText stem) = true) := by
  refine ⟨fun _ => ReflCmp.compare_self, fun _ _ => OrientedCmp.eq_swap,
    fun _ _ _ => TransCmp.isLE_trans, ?_, ?_, fun _ _ => Group.compare_ofDigits, ?_⟩
  · intro a b
    have hgroups := compare_eq_iff a b
    exact ⟨(beq_iff_groups_eq a b).trans hgroups.symm, hgroups, hashInputs_eq_iff a b⟩
  · intro name
    have hruns := longestRuns_runs name.key
    refine ⟨runs name.key, hruns, rfl, fun run hrun => ?_⟩
    exact of_groupOf (hruns.ne_nil run hrun) (hruns.uniform run hrun)
  · intro stem suffix h
    obtain ⟨hshort, hlong⟩ := key_stem suffix h
    refine ⟨hshort, hlong, ?_⟩
    rw [beq_iff_groups_eq, groups, groups, hshort, hlong]

/-- The laws at spellings of some names. -/
theorem key_laws_parts :
    ((ofText "part9").compare (ofText "Part010")).isLE = true ∧
    ((ofText "Part010").compare (ofText "part10b")).isLE = true ∧
    ((ofText "part9").compare (ofText "part10b")).isLE = true ∧
    (Group.ofDigits ['0', '1', '0']).compare (Group.ofDigits ['9']) = Ord.compare 10 9 ∧
    '.' ∉ " part9".toList ∧ (ofText " part9.left.b").key = Text.trim " part9".toList ∧
    (ofText " part9.left.b" == ofText " part9") = true := by
  obtain ⟨-, -, htrans, -, -, hnumbers, hsuffix⟩ := key_laws
  have hlow : ((ofText "part9").compare (ofText "Part010")).isLE = true := by decide
  have hhigh : ((ofText "Part010").compare (ofText "part10b")).isLE = true := by decide
  have hpoint : '.' ∉ " part9".toList := by decide
  exact ⟨hlow, hhigh, htrans _ _ _ hlow hhigh,
    hnumbers ['0', '1', '0'] ['9'] (by simp [Group.IsDigits]) (by simp [Group.IsDigits]), hpoint,
    (hsuffix " part9" "left.b" hpoint).2⟩

end PathName

end Toolpath
