/-!
Selecting the best of a list by a fold. Whatever "better" means, the fold returns a candidate if
there is any; if the one that is kept is always as good as the one that is dropped, it returns a
candidate that is as good as all others.
-/

set_option autoImplicit false

namespace Toolpath

variable {β : Type}

/-- One step of a selection: the first candidate is taken, and after that either the new one or the
one that is held. -/
structure Selects (select : Option β → β → Option β) : Prop where
  first : ∀ x, select none x = some x
  later : ∀ b x, select (some b) x = some x ∨ select (some b) x = some b

namespace Selects

variable {select : Option β → β → Option β}

private theorem exists_foldl_some (h : Selects select) (candidates : List β) (b : β) :
    ∃ c, candidates.foldl select (some b) = some c ∧ c ∈ b :: candidates := by
  induction candidates generalizing b with
  | nil => exact ⟨b, rfl, by simp⟩
  | cons x rest ih =>
    rcases h.later b x with hx | hb
    · obtain ⟨c, hc, hmem⟩ := ih x
      refine ⟨c, by rw [List.foldl_cons, hx, hc], ?_⟩
      exact List.mem_cons_of_mem b hmem
    · obtain ⟨c, hc, hmem⟩ := ih b
      refine ⟨c, by rw [List.foldl_cons, hb, hc], ?_⟩
      rcases List.mem_cons.mp hmem with rfl | hrest
      · simp
      · simp [hrest]

theorem foldl_eq_none_iff (h : Selects select) (candidates : List β) :
    candidates.foldl select none = none ↔ candidates = [] := by
  cases candidates with
  | nil => simp
  | cons x rest =>
    obtain ⟨c, hc, -⟩ := h.exists_foldl_some rest x
    simp [h.first, hc]

theorem mem_of_foldl (h : Selects select) {candidates : List β} {c : β}
    (hc : candidates.foldl select none = some c) : c ∈ candidates := by
  cases candidates with
  | nil => cases hc
  | cons x rest =>
    obtain ⟨d, hd, hmem⟩ := h.exists_foldl_some rest x
    rw [List.foldl_cons, h.first, hd] at hc
    exact Option.some.inj hc ▸ hmem

/-- The selected candidate is as good as every other, if on the candidates "as good as" is an order
and the step keeps the better of two. -/
theorem foldl_least (h : Selects select) (asGood : β → β → Prop) {candidates : List β}
    (refl : ∀ x ∈ candidates, asGood x x)
    (trans : ∀ x ∈ candidates, ∀ y ∈ candidates, ∀ z ∈ candidates,
      asGood x y → asGood y z → asGood x z)
    (keeps : ∀ b ∈ candidates, ∀ x ∈ candidates, ∀ c, select (some b) x = some c →
      asGood c b ∧ asGood c x)
    {c : β} (hc : candidates.foldl select none = some c) :
    ∀ x ∈ candidates, asGood c x := by
  -- The invariant: what is held is as good as all that was seen.
  suffices run : ∀ (seen rest : List β) (b : β), candidates = seen ++ rest → b ∈ candidates →
      (∀ x ∈ seen, asGood b x) → rest.foldl select (some b) = some c →
      ∀ x ∈ candidates, asGood c x by
    cases candidates with
    | nil => simp
    | cons x rest =>
      rw [List.foldl_cons, h.first] at hc
      refine run [x] rest x rfl (by simp) ?_ hc
      intro y hy
      rw [List.mem_singleton.mp hy]
      exact refl x (by simp)
  intro seen rest b hall hb hbest hfold
  induction rest generalizing seen b with
  | nil =>
    rw [List.append_nil] at hall
    obtain rfl := Option.some.inj hfold
    exact hall ▸ hbest
  | cons x rest ih =>
    have hx : x ∈ candidates := by simp [hall]
    obtain ⟨d, hd, hmem⟩ : ∃ d, select (some b) x = some d ∧ d ∈ candidates := by
      rcases h.later b x with hnew | hold
      · exact ⟨x, hnew, hx⟩
      · exact ⟨b, hold, hb⟩
    obtain ⟨hdb, hdx⟩ := keeps b hb x hx d hd
    rw [List.foldl_cons, hd] at hfold
    refine ih (seen ++ [x]) d (by simp [hall]) hmem ?_ hfold
    intro y hy
    rcases List.mem_append.mp hy with hy | hy
    · exact trans d hmem b hb y (by simp [hall, hy]) hdb (hbest y hy)
    · rw [List.mem_singleton.mp hy]
      exact hdx

end Selects

end Toolpath
