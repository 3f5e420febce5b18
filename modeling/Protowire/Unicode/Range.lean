set_option autoImplicit false

/-!
# Ranges of code points

A property of characters is a list of such ranges, ascending and apart.
-/

namespace Protowire.Unicode

structure Range where
  first : Nat
  last : Nat

def Range.contains (r : Range) (c : Char) : Bool := r.first ≤ c.toNat && c.toNat ≤ r.last

end Protowire.Unicode
