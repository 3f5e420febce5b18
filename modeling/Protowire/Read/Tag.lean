import Protowire.Read.Consumes

set_option autoImplicit false

/-!
# Reading tags

A tag that no field can have is an error of its own, and the policy in force says whether it ends
the message or costs a byte.
-/

namespace Protowire

inductive MalformedTagPolicy
  /-- Log it, step over its first byte and look for the next tag there. -/
  | resync
  | reject
  deriving DecidableEq

namespace Tag

/-- A varint too long to have a value counts as a malformed tag with all bits set. -/
def read : Read Tag := do
  let start ← Read.offset
  let raw ← Read.varint.mapError fun
    | .varint => .malformedTag start 0xFFFFFFFFFFFFFFFF
    | e => e
  Read.ofExcept (ofRaw raw start)

/-- The next tag, or `none` where a malformed one was stepped over. -/
def next (policy : MalformedTagPolicy) : Read (Option Tag) :=
  (some <$> read).recover fun
    | .malformedTag offset raw =>
      match policy with
      | .reject => none
      | .resync => some do
        let _ ← Read.byte
        Read.emit (.malformedTag raw offset)
        return none
    | _ => none

theorem consumes_read : read.Consumes :=
  .after fun _ => (Read.consumes_varint.mapError _).bind _

theorem consumes_next (policy : MalformedTagPolicy) : (next policy).Consumes := by
  refine Read.Consumes.recover (consumes_read.bind _) fun e y h => ?_
  split at h
  · cases policy with
    | reject => cases h
    | resync =>
      cases h
      exact Read.consumes_byte.bind _
  · cases h

end Tag

end Protowire
