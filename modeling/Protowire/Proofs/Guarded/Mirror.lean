import Protowire.Proofs.Guarded.Reader
import Protowire.Proofs.Reader
import Protowire.Proofs.Result

set_option autoImplicit false

/-!
# Guarded reads mirror reads

As long as the positions of a reader are in order, a guarded read meets no fault, gives what the
read gives on the reader's cursor and leaves the reader where that ends.
-/

namespace Protowire

variable {α β : Type}

/-- The positions are in order, and the buffer is one that words can index. -/
structure Reader.Sound (r : Reader) : Prop where
  position_le : r.position ≤ r.stop
  stop_le : r.stop ≤ r.buffer.length
  small : r.buffer.length < 2 ^ 64

namespace Reader.Sound

variable {r : Reader} {n : Nat}

theorem ordered (h : r.Sound) : r.Ordered := ⟨h.position_le, h.stop_le⟩

theorem remaining_cursor (h : r.Sound) : r.cursor.remaining = r.remaining :=
  h.ordered.remaining_cursor

theorem moved (h : r.Sound) {c : Cursor} (reaches : r.cursor.Reaches c) :
    (r.moveTo c.offset).Sound ∧ (r.moveTo c.offset).cursor = c := by
  obtain ⟨next, cursor⟩ := h.ordered.moved reaches
  exact ⟨⟨next.position_le, next.stop_le, h.small⟩, cursor⟩

/-- A window inside the one in force. -/
theorem within (h : r.Sound) (fits : n ≤ r.remaining) :
    (r.boundBy (r.position + n)).Sound ∧
      (r.boundBy (r.position + n)).cursor = r.cursor.take n := by
  obtain ⟨window, cursor⟩ := h.ordered.within fits
  exact ⟨⟨window.position_le, window.stop_le, h.small⟩, cursor⟩

/-- The bytes in front are those of the cursor. -/
theorem range_eq (h : r.Sound) (fits : n ≤ r.remaining) :
    Slice.range r.buffer r.position (r.position + n) = .ok (r.cursor.take n).unread := by
  have narrow := h.within fits
  rw [Slice.range, if_pos ⟨narrow.1.position_le, narrow.1.stop_le⟩, ← narrow.2]
  rfl

end Reader.Sound

theorem Reader.index_eq {r : Reader} {b : UInt8} {after : Bytes}
    (unread : r.cursor.unread = b :: after) : Slice.index r.buffer r.position = .ok b := by
  have first : ((r.buffer.take r.stop).drop r.position)[0]? = some b := by
    rw [show (r.buffer.take r.stop).drop r.position = b :: after from unread]
    rfl
  rw [List.getElem?_drop, Nat.add_zero, List.getElem?_take] at first
  split at first
  · rw [Slice.index, first]
  · cases first

namespace Machine

def cursor (m : Machine) : Cursor := m.reader.cursor

def Sound (m : Machine) : Prop := m.reader.Sound

/-- The machine moved on to `c`, after the events `log` and some work. -/
def after (m : Machine) (c : Cursor) (log : List Event) (work : Nat) : Machine :=
  ⟨m.reader.moveTo c.offset, m.log ++ log, m.work + work⟩

/-- The machine in a window of the next `n` bytes. -/
def within (m : Machine) (n : Nat) : Machine :=
  { m with reader := m.reader.boundBy (m.reader.position + n) }

/-- The machine behind its window, in the one around it. -/
def leave (m : Machine) (stop : Nat) : Machine :=
  { m with reader := (m.reader.moveTo m.reader.stop).boundBy stop }

variable {m : Machine} {c c' : Cursor} {log log' : List Event} {work work' : Nat}

theorem after_after :
    (m.after c log work).after c' log' work' = m.after c' (log ++ log') (work + work') := by
  simp only [after, List.append_assoc, Nat.add_assoc, Reader.moveTo_moveTo]

theorem after_nil : m.after c [] work = ⟨m.reader.moveTo c.offset, m.log, m.work + work⟩ := by
  rw [after, List.append_nil]

theorem after_cursor : m.after m.cursor [] 0 = m := after_nil

theorem Sound.after (h : m.Sound) (reaches : m.cursor.Reaches c) (log : List Event) (work : Nat) :
    (m.after c log work).Sound ∧ (m.after c log work).cursor = c :=
  Reader.Sound.moved h reaches

theorem Sound.within (h : m.Sound) {n : Nat} (fits : n ≤ m.reader.remaining) :
    (m.within n).Sound ∧ (m.within n).cursor = m.cursor.take n :=
  Reader.Sound.within h fits

theorem Sound.remaining_cursor (h : m.Sound) : m.cursor.remaining = m.reader.remaining :=
  Reader.Sound.remaining_cursor h

end Machine

/-- Bytes taken on the way from `c`. -/
def Reading.spent (r : Reading α) (c : Cursor) : Nat := c.remaining - r.rest.remaining

theorem spent_drop {c : Cursor} {n : Nat} (fits : n ≤ c.remaining) (x : Logged α) :
    Reading.spent ⟨x, c.drop n⟩ c = n := by
  simp only [Reading.spent, Cursor.remaining_drop]
  omega

theorem spent_add (x : Read α) (y : Read β) (c : Cursor) (result : Logged β) :
    (x.run c).spent c + (y.run (x.run c).rest).spent (x.run c).rest =
      Reading.spent ⟨result, (y.run (x.run c).rest).rest⟩ c := by
  have first := (x.forward c).remaining_le
  have second := (y.forward (x.run c).rest).remaining_le
  simp only [Reading.spent]
  omega

namespace Guarded

variable {g : Guarded α} {x : Read α} {m : Machine}

/-- From the machine `g` gives what was read, without a fault and with so much work. -/
def Performs (g : Guarded α) (m : Machine) (r : Reading α) (work : Nat) : Prop :=
  g.run m = .ok (r.result, m.after r.rest r.log work)

theorem Performs.bind_of_ok {f : α → Guarded β} {r : Reading α} {a : α} {s : Reading β}
    {work work' : Nat} (first : Performs g m r work) (value : r.result = .ok a)
    (second : Performs (f a) (m.after r.rest r.log work) s work') :
    Performs (g >>= f) m ⟨⟨s.result, r.log ++ s.log⟩, s.rest⟩ (work + work') := by
  rw [Performs, value] at first
  rw [Performs, run_bind_of_ok first, second, Machine.after_after]

theorem Performs.bind_of_error {f : α → Guarded β} {r : Reading α} {e : Error} {work : Nat}
    (first : Performs g m r work) (failed : r.result = .error e) :
    Performs (g >>= f) m ⟨⟨.error e, r.log⟩, r.rest⟩ work := by
  rw [Performs, failed] at first
  exact run_bind_of_error first f

/-- `g` is the read, as it is done on a reader. -/
def Mirrors (g : Guarded α) (x : Read α) : Prop :=
  ∀ m : Machine, m.Sound → Performs g m (x.run m.cursor) ((x.run m.cursor).spent m.cursor)

namespace Mirrors

theorem ofExcept (result : Except Error α) : Mirrors (Guarded.ofExcept result)
    (Read.ofExcept result) := by
  intro m _
  rw [Performs, Reading.spent, Read.ofExcept, Nat.sub_self, Machine.after_cursor]
  rfl

theorem pure (a : α) : Mirrors (Pure.pure a) (Pure.pure a) := ofExcept (.ok a)

theorem fail (e : Error) : Mirrors (Guarded.fail e : Guarded α) (Read.fail e) := ofExcept (.error e)

theorem bind {h : α → Guarded β} {f : α → Read β} (hx : Mirrors g x)
    (hf : ∀ a, Mirrors (h a) (f a)) : Mirrors (g >>= h) (x >>= f) := by
  intro m sound
  have first := hx m sound
  cases hr : (x.run m.cursor).result with
  | error e =>
    rw [Read.run_bind_of_error hr]
    exact first.bind_of_error hr
  | ok a =>
    have moved := sound.after (x.forward m.cursor) (x.run m.cursor).log
      ((x.run m.cursor).spent m.cursor)
    have second := hf a _ moved.1
    rw [moved.2] at second
    have both := first.bind_of_ok hr second
    rw [Read.run_bind_of_ok hr, ← spent_add x (f a)]
    exact both

theorem bind_pure (hx : Mirrors g x) (f : α → β) :
    Mirrors (g >>= fun a => Pure.pure (f a)) (x >>= fun a => Pure.pure (f a)) :=
  hx.bind fun a => .pure (f a)

theorem map (hx : Mirrors g x) (f : α → β) : Mirrors (f <$> g) (f <$> x) := hx.bind_pure f

/-- Looking at the result covers what can be done about an error. -/
theorem attempt_bind {h : Except Error α → Guarded β} {f : α → Read β} {change : Error → Error}
    (hx : Mirrors g x) (value : ∀ a, Mirrors (h (.ok a)) (f a))
    (error : ∀ e, h (.error e) = .fail (change e)) :
    Mirrors (g.attempt >>= h) (x.mapError change >>= f) := by
  intro m sound
  have first := hx m sound
  rw [Performs] at first ⊢
  cases hr : (x.run m.cursor).result with
  | error e =>
    have failed : ((x.mapError change).run m.cursor).result = .error (change e) :=
      congrArg (Except.mapError change) hr
    rw [run_attempt_bind first, hr, error, Read.run_bind_of_error failed]
    rfl
  | ok a =>
    have found : ((x.mapError change).run m.cursor).result = .ok a :=
      congrArg (Except.mapError change) hr
    have moved := sound.after (x.forward m.cursor) (x.run m.cursor).log
      ((x.run m.cursor).spent m.cursor)
    have second := value a _ moved.1
    rw [moved.2, Performs, Machine.after_after, spent_add x (f a)] at second
    rw [run_attempt_bind first, hr, Read.run_bind_of_ok found]
    exact second

theorem offset_bind {h : Reader → Guarded α} {f : Nat → Read α}
    (hf : ∀ r : Reader, Mirrors (h r) (f r.position)) :
    Mirrors (reader >>= h) (Read.offset >>= f) :=
  fun m sound => hf m.reader m sound

end Mirrors

theorem run_check_bind (sound : m.Sound) (n : Nat) (f : Unit → Guarded α) :
    (check n >>= f).run m = if n ≤ m.reader.remaining then (f ()).run m
      else .ok (.error (.underrun n m.reader.remaining), m) := by
  have left : remaining.run m = .ok (.ok m.reader.remaining, m) := by
    rw [remaining, run_reader_bind, Word.sub_eq sound.position_le]
    rfl
  have checked : (check n).run m = if n ≤ m.reader.remaining then .ok (.ok (), m)
      else .ok (.error (.underrun n m.reader.remaining), m) := by
    rw [check, run_bind_of_ok left]
    by_cases fits : n ≤ m.reader.remaining
    · rw [if_neg (Nat.not_lt.2 fits), if_pos fits]
      rfl
    · rw [if_pos (Nat.lt_of_not_le fits), if_neg fits]
      rfl
  by_cases fits : n ≤ m.reader.remaining
  · rw [if_pos fits] at checked ⊢
    exact run_bind_of_ok checked f
  · rw [if_neg fits] at checked ⊢
    exact run_bind_of_error checked f

theorem add_position (sound : m.Sound) {n : Nat} (fits : n ≤ m.reader.remaining) :
    Word.add m.reader.position n = .ok (m.reader.position + n) := by
  have narrow := (Reader.Sound.within sound fits).1
  exact Word.add_eq (Nat.lt_of_le_of_lt narrow.stop_le narrow.small)

theorem run_advance (sound : m.Sound) {n : Nat} (fits : n ≤ m.reader.remaining) :
    (advance n).run m = .ok (.ok (), m.after (m.cursor.drop n) [] n) := by
  rw [advance, run_reader_bind, run_tick_bind, lift_bind (add_position sound fits), run_moveTo,
    Machine.after_nil]
  rfl

theorem mirrors_byte : Mirrors byte Read.byte := by
  intro m sound
  have length := sound.remaining_cursor
  rw [Performs, byte, run_check_bind sound]
  cases unread : m.cursor.unread with
  | nil =>
    simp only [Cursor.remaining, unread, List.length_nil] at length
    simp only [Read.byte, unread, ← length, Reading.spent, Nat.sub_self, Machine.after_cursor]
    rfl
  | cons b rest =>
    simp only [Cursor.remaining, unread, List.length_cons] at length
    have fits : 1 ≤ m.reader.remaining := by omega
    have fits' : 1 ≤ m.cursor.remaining := by rw [sound.remaining_cursor]; exact fits
    simp only [Read.byte, unread, spent_drop fits']
    rw [if_pos fits, run_reader_bind, lift_bind (Reader.index_eq unread),
      run_bind_of_ok (run_advance sound fits)]
    rfl

/-- What comes after a check may rely on the bytes being there, as a window does. -/
theorem mirrors_check {n : Nat} {body : Guarded α} {inner : Cursor → Logged α}
    (h : ∀ m : Machine, m.Sound → n ≤ m.reader.remaining → body.run m =
      .ok ((inner (m.cursor.take n)).result,
        m.after (m.cursor.drop n) (inner (m.cursor.take n)).log n)) :
    Mirrors (check n >>= fun _ => body) (Read.window n inner) := by
  intro m sound
  have length := sound.remaining_cursor
  rw [Performs, run_check_bind sound]
  by_cases fits : n ≤ m.reader.remaining
  · rw [← length] at fits
    have inside : (Read.window n inner).run m.cursor =
        ⟨inner (m.cursor.take n), m.cursor.drop n⟩ := if_pos fits
    rw [inside, spent_drop fits]
    rw [length] at fits
    rw [if_pos fits]
    exact h m sound fits
  · rw [← length] at fits
    have short : (Read.window n inner).run m.cursor =
        ⟨⟨.error (.underrun n m.cursor.remaining), []⟩, m.cursor⟩ := if_neg fits
    rw [short, Reading.spent, Nat.sub_self, Machine.after_cursor, length]
    rw [length] at fits
    rw [if_neg fits]

theorem mirrors_take (n : Nat) : Mirrors (take n) (Read.take n) := by
  apply mirrors_check
  intro m sound fits
  rw [run_reader_bind, lift_bind (add_position sound fits),
    lift_bind (Reader.Sound.range_eq sound fits), run_bind_of_ok (run_advance sound fits)]
  rfl

theorem mirrors_pass (n : Nat) : Mirrors (pass n) (discard (Read.take n)) := by
  have same : discard (Read.take n) = Read.window n fun _ => pure () := by
    refine Read.ext (funext fun c => ?_)
    change (Read.take n >>= fun _ => pure ()).run c = _
    by_cases fits : n ≤ c.remaining
    · have value : ((Read.take n).run c).result = .ok (c.take n).unread := by
        simp only [Read.take, Read.window, if_pos fits]
        rfl
      rw [Read.run_bind_of_ok value]
      simp only [Read.take, Read.window, if_pos fits]
      rfl
    · have failed : ((Read.take n).run c).result = .error (.underrun n c.remaining) := by
        simp only [Read.take, Read.window, if_neg fits]
      rw [Read.run_bind_of_error failed]
      simp only [Read.take, Read.window, if_neg fits]
  rw [same]
  apply mirrors_check
  intro m sound fits
  exact run_advance sound fits

end Guarded

end Protowire
