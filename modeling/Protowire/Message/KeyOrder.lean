import Protowire.Message
import Protowire.Utf8

set_option autoImplicit false

/-!
# The order of map entries

A map slot keeps its entries by ascending key. Integers compare as numbers, false comes before
true, and text compares by its bytes.
-/

namespace Protowire

/-- Keys compare by rank, item by item. Those that cannot be keys of one map differ in the
first item. -/
def Scalar.rank : Scalar → List Int
  | i32 v => [0, v.toInt]
  | i64 v => [0, v.toInt]
  | u32 v => [0, v.toNat]
  | u64 v => [0, v.toNat]
  | bool b => [1, if b then 1 else 0]
  | string s => 2 :: (Utf8.encode s).map fun b => (b.toNat : Int)
  | bytes b => 3 :: b.map fun b => (b.toNat : Int)
  | f32 bits => [4, bits.toNat]
  | f64 bits => [5, bits.toNat]

def Value.rank : Value → List Int
  | scalar s => s.rank
  | message _ => [6]

namespace Entry

/-- Gives the first entry with an equal key the new value; that entry keeps its own key. -/
def replace? (key value : Value) : List Entry → Option (List Entry)
  | [] => none
  | e :: es =>
    if e.key.rank = key.rank then some (⟨e.key, value⟩ :: es)
    else (replace? key value es).map (e :: ·)

/-- Puts a new key in front of the first greater one. -/
def place (key value : Value) (es : List Entry) : List Entry :=
  let before (e : Entry) : Bool := ¬ key.rank < e.key.rank
  es.takeWhile before ++ ⟨key, value⟩ :: es.dropWhile before

def insert (key value : Value) (es : List Entry) : List Entry :=
  (replace? key value es).getD (place key value es)

end Entry

end Protowire
