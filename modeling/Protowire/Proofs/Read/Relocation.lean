import Protowire.Proofs.Read
import Protowire.Read.Scalar
import Protowire.Read.Tag

set_option autoImplicit false

/-!
# Reads in another place

The same bytes may stand further on in a longer input, with others behind them. A read does there
what it does in the old place, as long as it does not run out of bytes; only the offsets that
errors and events mention move along.
-/

namespace Protowire

variable {α β : Type}

/-- `distance` bytes stand in front of the old place, and what was the limit on nesting there goes
by the number that `limit` gives it. -/
structure Relocation where
  distance : Nat
  limit : UInt32 → UInt32

/-- Only bytes stand in front. -/
def Relocation.shift (distance : Nat) : Relocation := ⟨distance, id⟩

/-- The error as it comes up in the new place. -/
def Error.relocate (r : Relocation) : Error → Error
  | malformedTag offset raw => malformedTag (offset + r.distance) raw
  | recursionLimit limit => recursionLimit (r.limit limit)
  | e => e

def Event.relocate (r : Relocation) : Event → Event
  | malformedTag raw offset => malformedTag raw (offset + r.distance)
  | e => e

theorem Error.relocate_shift_zero (e : Error) : e.relocate (.shift 0) = e := by
  cases e <;> rfl

theorem Error.relocate_shift_comm (i j : Nat) (e : Error) :
    (e.relocate (.shift i)).relocate (.shift j) = (e.relocate (.shift j)).relocate (.shift i) := by
  cases e with
  | malformedTag offset raw =>
    simp only [relocate, Relocation.shift, Nat.add_assoc, Nat.add_comm i j]
  | _ => rfl

theorem Event.map_relocate_shift_zero (log : List Event) :
    log.map (Event.relocate (.shift 0)) = log := by
  have same : Event.relocate (.shift 0) = id := by
    funext e
    cases e <;> rfl
  rw [same, List.map_id]

/-- The place moved, with the bytes `after` behind those that are there. -/
def Cursor.relocate (r : Relocation) (after : Bytes) (c : Cursor) : Cursor :=
  ⟨c.offset + r.distance, c.unread ++ after⟩

def Logged.relocate (r : Relocation) (x : Logged α) : Logged α :=
  ⟨x.result.mapError (Error.relocate r), x.log.map (Event.relocate r)⟩

def Reading.relocate (r : Relocation) (after : Bytes) (x : Reading α) : Reading α :=
  ⟨x.toLogged.relocate r, x.rest.relocate r after⟩

section

variable {r : Relocation} {after : Bytes} {x : Reading α}

@[simp] theorem Reading.result_relocate :
    (x.relocate r after).result = x.result.mapError (Error.relocate r) := rfl

@[simp] theorem Reading.log_relocate :
    (x.relocate r after).log = x.log.map (Event.relocate r) := rfl

@[simp] theorem Reading.rest_relocate : (x.relocate r after).rest = x.rest.relocate r after := rfl

end

/-- More bytes would have made a difference. -/
def Logged.IsShort (x : Logged α) : Prop :=
  ∃ needed remaining, x.result = .error (.underrun needed remaining)

theorem Logged.not_isShort_of_ok {x : Logged α} {a : α} (h : x.result = .ok a) : ¬ x.IsShort := by
  intro isShort
  obtain ⟨needed, remaining, short⟩ := isShort
  rw [h] at short
  cases short

theorem Logged.relocate_bind (r : Relocation) (x : Logged α) (f : α → Logged β) :
    (x >>= f).relocate r = x.relocate r >>= fun a => (f a).relocate r := by
  cases h : x.result with
  | error e =>
    have failed : (x.relocate r).result = .error (e.relocate r) := by
      rw [relocate, h]
      rfl
    rw [bind_of_error h, bind_of_error failed]
    rfl
  | ok a =>
    have value : (x.relocate r).result = .ok a := by
      rw [relocate, h]
      rfl
    rw [bind_of_ok h, bind_of_ok value]
    simp only [relocate, List.map_append]

theorem Cursor.drop_relocate {r : Relocation} {after : Bytes} {c : Cursor} {n : Nat}
    (h : n ≤ c.remaining) : (c.relocate r after).drop n = (c.drop n).relocate r after := by
  simp only [relocate, drop, List.drop_append_of_le_length h, Nat.add_right_comm]

theorem Cursor.take_relocate {r : Relocation} {after : Bytes} {c : Cursor} {n : Nat}
    (h : n ≤ c.remaining) : (c.relocate r after).take n = (c.take n).relocate r [] := by
  simp only [relocate, take, List.take_append_of_le_length h, List.append_nil]

namespace Read

/-- `y` does in the new place what `x` does in the old one. If `x` runs out of bytes, that is so
only where nothing is behind them in the new place either. -/
def Follows (r : Relocation) (x y : Read α) : Prop :=
  ∀ c after, ((x.run c).IsShort → after = []) →
    y.run (c.relocate r after) = (x.run c).relocate r after

namespace Follows

variable {r : Relocation} {x y : Read α}

theorem pure (a : α) : Follows r (Pure.pure a : Read α) (Pure.pure a) :=
  fun _ _ _ => rfl

theorem fail (e : Error) : Follows r (Read.fail e : Read α) (Read.fail (e.relocate r)) :=
  fun _ _ _ => rfl

theorem emit (e : Event) : Follows r (Read.emit e) (Read.emit (e.relocate r)) :=
  fun _ _ _ => rfl

theorem ofExcept {result result' : Except Error α}
    (h : result' = result.mapError (Error.relocate r)) :
    Follows r (Read.ofExcept result) (Read.ofExcept result') := by
  subst h
  exact fun _ _ _ => rfl

theorem bind {f g : α → Read β} (h : Follows r x y) (hf : ∀ a, Follows r (f a) (g a)) :
    Follows r (x >>= f) (y >>= g) := by
  intro c after short
  cases hr : (x.run c).result with
  | error e =>
    rw [run_bind_of_error hr] at short ⊢
    have enough : (x.run c).IsShort → after = [] := by
      intro isShort
      obtain ⟨needed, remaining, hs⟩ := isShort
      rw [hr] at hs
      cases hs
      exact short ⟨needed, remaining, rfl⟩
    have first := h c after enough
    have failed : (y.run (c.relocate r after)).result = .error (e.relocate r) := by
      rw [first, Reading.result_relocate, hr]
      rfl
    rw [run_bind_of_error failed, first]
    rfl
  | ok a =>
    rw [run_bind_of_ok hr] at short ⊢
    have first := h c after fun isShort => (Logged.not_isShort_of_ok hr isShort).elim
    have value : (y.run (c.relocate r after)).result = .ok a := by
      rw [first, Reading.result_relocate, hr]
      rfl
    have second := hf a (x.run c).rest after short
    rw [run_bind_of_ok value, first, Reading.rest_relocate, second]
    exact Reading.ext rfl List.map_append.symm rfl

theorem map (h : Follows r x y) (f : α → β) : Follows r (f <$> x) (f <$> y) := by
  rw [map_eq_pure_bind, map_eq_pure_bind]
  exact h.bind fun a => .pure (f a)

/-- What depends on where it starts depends on it in the same way. -/
theorem offset_bind {f g : Nat → Read α}
    (h : ∀ start, Follows r (f start) (g (start + r.distance))) :
    Follows r (Read.offset >>= f) (Read.offset >>= g) :=
  fun c after short => h c.offset c after short

theorem byte : Follows r Read.byte Read.byte := by
  intro c after short
  obtain ⟨offset, unread⟩ := c
  cases unread with
  | nil =>
    obtain rfl := short ⟨1, 0, rfl⟩
    rfl
  | cons b rest =>
    simp only [Read.byte, Cursor.relocate, Reading.relocate, Cursor.drop, List.cons_append,
      List.drop_succ_cons, List.drop_zero, Nat.add_right_comm]
    rfl

theorem window {n : Nat} {inner inner' : Cursor → Logged α}
    (h : ∀ c, inner' (c.relocate r []) = (inner c).relocate r) :
    Follows r (Read.window n inner) (Read.window n inner') := by
  intro c after short
  by_cases hn : n ≤ c.remaining
  · have inside : n ≤ (c.relocate r after).remaining := by
      simp only [Cursor.remaining, Cursor.relocate, List.length_append] at hn ⊢
      exact Nat.le_add_right_of_le hn
    simp only [Read.window, if_pos hn, if_pos inside, Cursor.take_relocate hn,
      Cursor.drop_relocate hn, h]
    rfl
  · have nothing : after = [] := by
      apply short
      simp only [Read.window, if_neg hn]
      exact ⟨_, _, rfl⟩
    subst nothing
    have same : (c.relocate r []).remaining = c.remaining := by
      simp only [Cursor.remaining, Cursor.relocate, List.append_nil]
    simp only [Read.window, same, if_neg hn]
    rfl

theorem mapError {f g : Error → Error} (h : Follows r x y)
    (hf : ∀ e, g (e.relocate r) = (f e).relocate r)
    (short : ∀ needed remaining, f (.underrun needed remaining) = .underrun needed remaining) :
    Follows r (x.mapError f) (y.mapError g) := by
  intro c after enough
  have inner : (x.run c).IsShort → after = [] := by
    intro isShort
    obtain ⟨needed, remaining, hs⟩ := isShort
    apply enough
    refine ⟨needed, remaining, ?_⟩
    simp only [Read.mapError, hs, Result.mapError_error, short]
  have first := h c after inner
  simp only [Read.mapError, first]
  cases hr : (x.run c).result with
  | ok a => simp only [Reading.relocate, Logged.relocate, hr, Result.mapError_ok]
  | error e => simp only [Reading.relocate, Logged.relocate, hr, Result.mapError_error, hf]

/-- What is done about an error is the same in both places. Nothing is done about missing bytes. -/
theorem recover {handler handler' : Error → Option (Read α)} (h : Follows r x y)
    (hh : ∀ e, Option.Rel (Follows r) (handler e) (handler' (e.relocate r)))
    (short : ∀ needed remaining, handler (.underrun needed remaining) = none) :
    Follows r (x.recover handler) (y.recover handler') := by
  intro c after enough
  have inner : (x.run c).IsShort → after = [] := by
    intro isShort
    obtain ⟨needed, remaining, hs⟩ := isShort
    apply enough
    refine ⟨needed, remaining, ?_⟩
    simp only [Read.recover, hs, short]
  have first := h c after inner
  cases hr : (x.run c).result with
  | ok a =>
    simp only [Read.recover, hr, first, Reading.relocate, Logged.relocate, Result.mapError_ok]
  | error e =>
    have related := hh e
    cases hy : handler e with
    | none =>
      rw [hy] at related
      cases hy' : handler' (e.relocate r) with
      | some _ =>
        rw [hy'] at related
        cases related
      | none =>
        simp only [Read.recover, hr, hy, first, Reading.relocate, Logged.relocate,
          Result.mapError_error, hy']
    | some z =>
      rw [hy] at related
      cases hy' : handler' (e.relocate r) with
      | none =>
        rw [hy'] at related
        cases related
      | some z' =>
        rw [hy'] at related
        obtain ⟨follows⟩ := related
        simp only [Read.recover, hr, hy] at enough
        have second := follows c after enough
        simp only [Read.recover, hr, hy, first, Reading.relocate, Logged.relocate,
          Result.mapError_error, hy'] at second ⊢
        rw [second]
        simp only [List.map_append]

end Follows

section

variable {r : Relocation}

theorem follows_groups (n : Nat) : Follows r (groups n) (groups n) := by
  induction n with
  | zero => exact .fail _
  | succ n ih =>
    apply Follows.byte.bind
    intro b
    split
    · exact .pure _
    · exact ih.bind fun high => .pure _

theorem follows_varint : Follows r varint varint := follows_groups 10

theorem follows_take (n : Nat) : Follows r (take n) (take n) := by
  apply Follows.window
  intro c
  simp only [Cursor.relocate, List.append_nil]
  rfl

theorem Follows.delimited {inner inner' : Cursor → Logged α}
    (h : ∀ c, inner' (c.relocate r []) = (inner c).relocate r) :
    Follows r (Read.delimited inner) (Read.delimited inner') :=
  follows_varint.bind fun _ => .window h

theorem follows_bytes : Follows r bytes bytes := by
  apply Follows.delimited
  intro c
  simp only [Cursor.relocate, List.append_nil]
  rfl

theorem follows_string : Follows r string string := by
  apply follows_bytes.bind
  intro content
  apply Follows.ofExcept
  cases Utf8.decode content <;> rfl

end

end Read

variable {r : Relocation}

theorem ScalarType.follows_read (t : ScalarType) : Read.Follows r t.read t.read := by
  have varint := Read.follows_varint (r := r)
  have fixed32 : Read.Follows r Read.fixed32 Read.fixed32 :=
    (Read.follows_take 4).bind fun _ => .pure _
  have fixed64 : Read.Follows r Read.fixed64 Read.fixed64 :=
    (Read.follows_take 8).bind fun _ => .pure _
  cases t
  case string => exact Read.follows_string.bind fun _ => .pure _
  case bytes => exact Read.follows_bytes.bind fun _ => .pure _
  case fixed32 | sfixed32 | float => exact fixed32.bind fun _ => .pure _
  case fixed64 | sfixed64 | double => exact fixed64.bind fun _ => .pure _
  all_goals exact varint.bind fun _ => .pure _

/-- How far a skip goes does not depend on where it starts. -/
theorem WireType.follows_skip (w : WireType) : Read.Follows r w.skip w.skip := by
  refine .offset_bind fun start => ?_
  have count : Read.Follows r (do return (← Read.offset) - start : Read Nat)
      (do return (← Read.offset) - (start + r.distance)) := by
    refine .offset_bind fun stop => ?_
    rw [Nat.add_sub_add_right]
    exact .pure _
  cases w with
  | varint => exact (Read.follows_varint.map _).bind fun _ => count
  | fixed64 => exact ((Read.follows_take 8).map _).bind fun _ => count
  | delimited => exact (Read.follows_bytes.map _).bind fun _ => count
  | fixed32 => exact ((Read.follows_take 4).map _).bind fun _ => count

namespace Tag

theorem ofRaw_relocate (raw : UInt64) (offset : Nat) :
    ofRaw raw (offset + r.distance) = (ofRaw raw offset).mapError (Error.relocate r) := by
  unfold ofRaw
  cases ofRaw? raw <;> rfl

theorem follows_read : Read.Follows r read read := by
  refine .offset_bind fun start => ?_
  refine Read.Follows.bind (Read.follows_varint.mapError ?_ fun _ _ => rfl) fun raw =>
    .ofExcept (ofRaw_relocate raw start)
  intro e
  cases e <;> rfl

theorem follows_next (policy : MalformedTagPolicy) :
    Read.Follows r (next policy) (next policy) := by
  apply (follows_read.map some).recover
  · intro e
    cases e with
    | malformedTag offset raw =>
      cases policy with
      | reject => exact .none
      | resync =>
        exact .some (Read.Follows.byte.bind fun _ => (Read.Follows.emit _).bind fun _ => .pure none)
    | _ => exact .none
  · exact fun _ _ => rfl

end Tag

end Protowire
