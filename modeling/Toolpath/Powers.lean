/-!
Powers of the two bases in which numbers are held and written. They are the powers of natural
numbers that the kernel computes with.
-/

set_option autoImplicit false

namespace Toolpath

/-- The power of two that belongs to a place of a binary number. -/
def twoPow (place : Nat) : Nat := Nat.pow 2 place

/-- The power of ten that belongs to a place of a decimal number. -/
def tenPow (place : Nat) : Nat := Nat.pow 10 place

theorem tenPow_succ (place : Nat) : tenPow (place + 1) = tenPow place * 10 := rfl

theorem twoPow_pos (place : Nat) : 0 < twoPow place := Nat.pow_pos (by decide)

theorem tenPow_pos (place : Nat) : 0 < tenPow place := Nat.pow_pos (by decide)

end Toolpath
