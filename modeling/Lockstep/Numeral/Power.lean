/-!
# Powers of the two bases

`tenTo n` and `twoTo n` are the units of decimal and of binary numerals.
-/

namespace Lockstep

/-- The power of ten with `n` zeros. -/
abbrev tenTo (n : Nat) : Nat := Nat.pow 10 n

/-- The power of two with `n` zeros in binary. -/
abbrev twoTo (n : Nat) : Nat := Nat.pow 2 n

end Lockstep
