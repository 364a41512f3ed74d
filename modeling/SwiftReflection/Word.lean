/-!
# Machine words

Reflection metadata is made of words of 8 to 64 bits. `pow2 n`, the number of values of an
`n`-bit word, is the power of natural numbers itself, so its meaning does not depend on which
power instance is in scope where it is used.
-/

namespace SwiftReflection

/-- The number of values of an `n`-bit word. -/
def pow2 (n : Nat) : Nat := Nat.pow 2 n

/-- The largest 64-bit value. -/
def u64Max : Nat := pow2 64 - 1

end SwiftReflection
