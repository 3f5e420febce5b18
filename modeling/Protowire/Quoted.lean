import Protowire.Unicode.DefaultIgnorable
import Protowire.Unicode.ExtendingMark
import Protowire.Unicode.Printable

set_option autoImplicit false

/-!
# Quoted text

Text between double quotes, on one line and with every character visible as itself. A character
that has an escape of its own takes it; one that would not be seen, or would be drawn into its
neighbour, is given by its code point.
-/

namespace Protowire.Quoted

def isVisible (c : Char) : Bool :=
  Unicode.isPrintable c && !Unicode.isDefaultIgnorable c && !Unicode.isExtendingMark c

def escape (c : Char) : List Char :=
  match c with
  | '"' => ['\\', '"']
  | '\\' => ['\\', '\\']
  | '\n' => ['\\', 'n']
  | '\r' => ['\\', 'r']
  | '\t' => ['\\', 't']
  | '\x00' => ['\\', '0']
  | c => if isVisible c then [c] else ['\\', 'u', '\x7b'] ++ Nat.toDigits 16 c.toNat ++ ['\x7d']

def quote (s : String) : String := String.ofList ('"' :: s.toList.flatMap escape ++ ['"'])

end Protowire.Quoted
