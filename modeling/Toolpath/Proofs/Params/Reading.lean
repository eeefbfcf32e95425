import Toolpath.Params.Overlay
import Toolpath.Proofs.Text.Letters

/-!
How one entry of a level is read: which parameter its letter names, and which number its text stands
for once the variables in it are replaced.
-/

set_option autoImplicit false

namespace Toolpath

namespace Field

def Names (f : Field) (key : Char) : Prop := key = f.key ∨ key = f.key.toLower

private theorem isAlpha_key (f : Field) : f.key.isAlpha = true := by
  cases f <;> rfl

private theorem toUpper_key (f : Field) : f.key.toUpper = f.key := by
  cases f <;> decide

private theorem toUpper_eq_key_iff {f : Field} {key : Char} :
    key.toUpper = f.key ↔ f.Names key := by
  have hforms := Text.toUpper_eq_iff f.isAlpha_key key
  rwa [toUpper_key] at hforms

theorem ofKey?_eq_some_iff {f : Field} {key : Char} : ofKey? key = some f ↔ f.Names key := by
  rw [← toUpper_eq_key_iff]
  constructor
  · intro h
    have hfound := List.find?_some (p := fun g : Field => g.key == key.toUpper) h
    exact (beq_iff_eq.mp hfound).symm
  · intro h
    rw [← ofKey?_key f, ofKey?, ofKey?, h, toUpper_key]

theorem Names.unique {f g : Field} {key : Char} (h : f.Names key) (h' : g.Names key) : f = g :=
  Option.some.inj ((ofKey?_eq_some_iff.mpr h).symm.trans (ofKey?_eq_some_iff.mpr h'))

theorem key_lt_toLower (f : Field) : f.key.toNat < f.key.toLower.toNat := by
  have hforms := Text.toUpper_lt_toLower f.isAlpha_key
  rwa [toUpper_key] at hforms

theorem Names.eq_of_lt {f : Field} {key key' : Char} (h : f.Names key) (h' : f.Names key')
    (less : key.toNat < key'.toNat) : key = f.key ∧ key' = f.key.toLower := by
  have hforms := f.key_lt_toLower
  rcases h with rfl | rfl
  · rcases h' with rfl | rfl
    · exact absurd less (Nat.lt_irrefl _)
    · exact ⟨rfl, rfl⟩
  · rcases h' with rfl | rfl
    · exact absurd less (Nat.lt_asymm hforms)
    · exact absurd less (Nat.lt_irrefl _)

end Field

namespace Overlay

variable {α : Type} [Scalar α]

/-- A text stands for a finite number once its variables are replaced. -/
def Denotes (bindings : Bindings) (text : String) (value : α) : Prop :=
  ∃ filled number, bindings.substitute text.toList = .ok filled ∧
    Decimal.ofText? (Text.trim filled) = some number ∧ Scalar.ofDecimal number = value ∧
      Scalar.isFinite value = true

theorem Denotes.unique {bindings : Bindings} {text : String} {value value' : α}
    (h : Denotes bindings text value) (h' : Denotes bindings text value') : value = value' := by
  obtain ⟨filled, number, hfilled, hnumber, rfl, -⟩ := h
  obtain ⟨filled', number', hfilled', hnumber', rfl, -⟩ := h'
  obtain rfl := Except.ok.inj (hfilled.symm.trans hfilled')
  obtain rfl := Option.some.inj (hnumber.symm.trans hnumber')
  rfl

theorem Denotes.isFinite {bindings : Bindings} {text : String} {value : α}
    (h : Denotes bindings text value) : Scalar.isFinite value = true := by
  obtain ⟨-, -, -, -, -, hfinite⟩ := h
  exact hfinite

theorem readEntry_eq_ok_iff {level : Level} {bindings : Bindings} {key : Char} {text : String}
    {f : Field} {value : α} :
    readEntry level bindings key text = .ok (f, value) ↔
      f.Names key ∧ level.allows f = true ∧ Denotes bindings text value := by
  constructor
  · intro h
    unfold readEntry at h
    split at h
    · cases h
    · next field hkey =>
      split at h
      · cases h
      · next hallows =>
        split at h
        · cases h
        · next filled hfilled =>
          split at h
          · next number hnumber =>
            split at h
            · next hfinite =>
              obtain ⟨rfl, rfl⟩ := Prod.mk.inj (Except.ok.inj h)
              obtain ⟨d, hd, hvalue⟩ := Option.map_eq_some_iff.mp hnumber
              exact ⟨Field.ofKey?_eq_some_iff.mp hkey, by simpa using hallows,
                filled, d, hfilled, hd, hvalue, hfinite⟩
            · cases h
          · cases h
  · rintro ⟨hnames, hallows, filled, number, hfilled, hnumber, rfl, hfinite⟩
    simp [readEntry, Field.ofKey?_eq_some_iff.mpr hnames, hallows, hfilled, hnumber, hfinite]

end Overlay

end Toolpath
