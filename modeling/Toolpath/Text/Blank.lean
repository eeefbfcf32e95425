import Toolpath.Text.Ranges

/-!
White space of all scripts, and texts without it at their ends.
-/

set_option autoImplicit false

namespace Toolpath.Text

def blankRanges : List (Nat × Nat) :=
  [(0x9, 0xd), (0x20, 0x20), (0x85, 0x85), (0xa0, 0xa0), (0x1680, 0x1680), (0x2000, 0x200a),
   (0x2028, 0x2029), (0x202f, 0x202f), (0x205f, 0x205f), (0x3000, 0x3000)]

def isBlank (c : Char) : Bool := inRanges blankRanges c

def trimLeft (cs : List Char) : List Char := cs.dropWhile isBlank

def trimRight (cs : List Char) : List Char := (trimLeft cs.reverse).reverse

def trim (cs : List Char) : List Char := trimRight (trimLeft cs)

private theorem trimLeft_eq_self {cs : List Char} (h : ∀ c, cs.head? = some c → isBlank c = false) :
    trimLeft cs = cs := by
  cases cs with
  | nil => rfl
  | cons c rest => simp [trimLeft, h c rfl]

theorem head?_trimLeft {cs : List Char} {c : Char} (h : (trimLeft cs).head? = some c) :
    isBlank c = false := by
  induction cs with
  | nil => simp [trimLeft] at h
  | cons d rest ih =>
    by_cases hd : isBlank d = true
    · exact ih (by simpa [trimLeft, hd] using h)
    · simp only [trimLeft, List.dropWhile_cons, hd, if_false, List.head?_cons,
        Option.some.injEq, Bool.false_eq_true] at h
      exact h ▸ by simpa using hd

theorem trimLeft_trimLeft (cs : List Char) : trimLeft (trimLeft cs) = trimLeft cs :=
  trimLeft_eq_self fun _ h => head?_trimLeft h

private theorem trimRight_trimRight (cs : List Char) : trimRight (trimRight cs) = trimRight cs := by
  simp [trimRight, trimLeft_trimLeft]

theorem trimLeft_trimRight {cs : List Char} (h : trimLeft cs = cs) :
    trimLeft (trimRight cs) = trimRight cs := by
  apply trimLeft_eq_self
  intro c hc
  have whole : trimRight cs <+: cs := by
    have := List.dropWhile_suffix isBlank (l := cs.reverse)
    simpa [trimRight, trimLeft] using List.reverse_prefix.2 this
  obtain ⟨tail, eq⟩ := whole
  have : cs.head? = some c := by
    rw [← eq, List.head?_append, hc]
    rfl
  have first : (trimLeft cs).head? = some c := by rw [h, this]
  exact head?_trimLeft first

theorem trim_trim (cs : List Char) : trim (trim cs) = trim cs := by
  rw [trim, trim, trimLeft_trimRight (trimLeft_trimLeft cs), trimRight_trimRight]

end Toolpath.Text
