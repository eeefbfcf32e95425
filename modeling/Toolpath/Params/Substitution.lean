import Toolpath.ParamTexts
import Toolpath.Text.Blank

/-!
Variables in parameter texts: a dollar sign and a letter stand for the text that the letter is bound
to. What is put in is not looked at again.
-/

set_option autoImplicit false

namespace Toolpath

abbrev Bindings := ParamTexts

namespace Bindings

/-- The text of a variable, whose letter may be small or capital on either side, without white
space at its ends. -/
def lookup? (bindings : Bindings) (letter : Char) : Option (List Char) :=
  (bindings.entries.find? fun entry => entry.1.toUpper == letter.toUpper).map fun entry =>
    Text.trim entry.2.toList

/-- The text with every variable replaced, or the capital letter of the first that is not bound. -/
def substitute (bindings : Bindings) : List Char → Except Char (List Char)
  | [] => .ok []
  | [c] => .ok [c]
  | c :: letter :: rest =>
    if c = '$' ∧ letter.isAlpha then
      match bindings.lookup? letter with
      | none => .error letter.toUpper
      | some value => (substitute bindings rest).map (value ++ ·)
    else (substitute bindings (letter :: rest)).map (c :: ·)

end Bindings

end Toolpath
