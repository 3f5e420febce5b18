set_option autoImplicit false

/-!
# Zigzag

Folds signed words into unsigned ones so that a small magnitude of either sign has a small code:
0, -1, 1, -2, 2, … become 0, 1, 2, 3, 4, ….
-/

namespace Protowire.Zigzag

/-- The arithmetic right shift spreads the sign over the word, and the exclusive or with it
complements the doubled negative values. -/
def encode32 (v : Int32) : UInt32 := ((v <<< 1) ^^^ (v >>> 31)).toUInt32

def encode64 (v : Int64) : UInt64 := ((v <<< 1) ^^^ (v >>> 63)).toUInt64

def decode32 (n : UInt32) : Int32 := (n >>> 1).toInt32 ^^^ -(n &&& 1).toInt32

def decode64 (n : UInt64) : Int64 := (n >>> 1).toInt64 ^^^ -(n &&& 1).toInt64

end Protowire.Zigzag
