/-!
Texts by letter: parameters as they stand in a drawing, and the variables handed to a placed path.
The entries are kept in the order of their letters, each letter once, so two maps with the same
entries are equal.
-/

set_option autoImplicit false

namespace Toolpath

/-- A text for each of some letters, in the order of the letters. -/
structure ParamTexts where
  entries : List (Char × String)
  sorted : entries.Pairwise fun a b => a.1.toNat < b.1.toNat

namespace ParamTexts

instance : DecidableEq ParamTexts := fun a b =>
  if h : a.entries = b.entries then isTrue (by cases a; cases b; cases h; rfl)
  else isFalse fun eq => h (congrArg entries eq)

instance : BEq ParamTexts := instBEqOfDecidableEq

def empty : ParamTexts := ⟨[], .nil⟩

instance : EmptyCollection ParamTexts := ⟨empty⟩

def put (key : Char) (value : String) : List (Char × String) → List (Char × String)
  | [] => [(key, value)]
  | (k, v) :: rest =>
    if key = k then (key, value) :: rest
    else if key.toNat < k.toNat then (key, value) :: (k, v) :: rest
    else (k, v) :: put key value rest

private theorem mem_put {key : Char} {value : String} {entries : List (Char × String)}
    {e : Char × String} (h : e ∈ put key value entries) : e = (key, value) ∨ e ∈ entries := by
  induction entries with
  | nil => simpa [put] using h
  | cons head rest ih =>
    obtain ⟨k, v⟩ := head
    simp only [put] at h
    split at h
    · simp only [List.mem_cons] at h ⊢
      exact h.imp_right Or.inr
    · split at h
      · simpa using h
      · simp only [List.mem_cons] at h ⊢
        rcases h with h | h
        · exact .inr (.inl h)
        · exact (ih h).imp_right Or.inr

private theorem sorted_put (key : Char) (value : String) {entries : List (Char × String)}
    (h : entries.Pairwise fun a b => a.1.toNat < b.1.toNat) :
    (put key value entries).Pairwise fun a b => a.1.toNat < b.1.toNat := by
  induction entries with
  | nil => simp [put]
  | cons head rest ih =>
    obtain ⟨k, v⟩ := head
    obtain ⟨first, later⟩ := List.pairwise_cons.1 h
    simp only [put]
    split
    · next eq => exact List.pairwise_cons.2 ⟨by simpa [eq] using first, later⟩
    · next differ =>
      split
      · next less =>
        refine List.pairwise_cons.2 ⟨fun e he => ?_, h⟩
        rcases List.mem_cons.1 he with rfl | he
        · exact less
        · exact Nat.lt_trans less (first e he)
      · next notLess =>
        refine List.pairwise_cons.2 ⟨fun e he => ?_, ih later⟩
        rcases mem_put he with rfl | he
        · have : key.toNat ≠ k.toNat := fun eq => differ (Char.toNat_inj.1 eq)
          simp only
          omega
        · exact first e he

def insert (texts : ParamTexts) (key : Char) (value : String) : ParamTexts :=
  ⟨put key value texts.entries, sorted_put key value texts.sorted⟩

/-- The texts of a list; of two for one letter the later counts. -/
def ofList (entries : List (Char × String)) : ParamTexts :=
  entries.foldl (fun texts (key, value) => texts.insert key value) empty

def get? (texts : ParamTexts) (key : Char) : Option String :=
  (texts.entries.find? fun entry => entry.1 == key).map Prod.snd

end ParamTexts

end Toolpath
