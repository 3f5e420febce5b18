import Protowire.Proofs.Guarded.Decoding
import Protowire.Proofs.Guarded.Payload
import Protowire.Proofs.Read.Resync
import Protowire.Proofs.Transcript

set_option autoImplicit false

/-!
# Guarded reads within an allowance

Behind a malformed tag bytes are passed once more, and a nested message turns loops of its own, so
the work of a read is more than the bytes it takes. But each byte pays for the ten that a malformed
tag may take to find out about and for one turn of a loop, whatever windows it is in.
-/

namespace Protowire

variable {α β σ : Type}

/-- What may be spent on so many bytes. A turn that ends in an error may have taken none. -/
def allowance (result : Except Error α) (bytes : Nat) : Nat :=
  match result with
  | .ok _ => 11 * bytes
  | .error _ => 11 * bytes + 1

theorem allowance_le (result : Except Error α) (bytes : Nat) :
    11 * bytes ≤ allowance result bytes := by
  cases result with
  | ok a => exact Nat.le_refl _
  | error e => exact Nat.le_succ _

theorem allowance_le_succ (result : Except Error α) (bytes : Nat) :
    allowance result bytes ≤ 11 * bytes + 1 := by
  cases result with
  | ok a => exact Nat.le_succ _
  | error e => exact Nat.le_refl _

theorem add_allowance (first second : Nat) (result : Except Error α) :
    11 * first + allowance result second = allowance result (first + second) := by
  cases result with
  | ok a => exact (Nat.mul_add ..).symm
  | error e =>
    simp only [allowance]
    omega

theorem allowance_mono (result : Except Error α) {few many : Nat} (h : few ≤ many) :
    allowance result few ≤ allowance result many := by
  cases result with
  | ok a => exact Nat.mul_le_mul_left 11 h
  | error e => exact Nat.succ_le_succ (Nat.mul_le_mul_left 11 h)

namespace Guarded

variable {g : Guarded α} {x : Read α} {size slack : Nat} {m : Machine}

/-- On windows of fewer than `size` bytes `g` is the read and keeps to the allowance, with some of
it left over. -/
def Implements (size slack : Nat) (g : Guarded α) (x : Read α) : Prop :=
  ∀ m : Machine, m.Sound → m.reader.remaining < size → ∃ work,
    Performs g m (x.run m.cursor) work ∧
      work + slack ≤
        allowance (x.run m.cursor).result ((x.run m.cursor).spent m.cursor)

theorem Mirrors.implements (h : Mirrors g x) : Implements size 0 g x := by
  intro m sound _
  refine ⟨_, h m sound, Nat.le_trans ?_ (allowance_le _ _)⟩
  omega

/-- The first byte of what is never nothing pays for a turn. -/
theorem Mirrors.implements_turn (h : Mirrors g x) (hx : x.Consumes) : Implements size 1 g x := by
  intro m sound _
  refine ⟨_, h m sound, ?_⟩
  cases hr : (x.run m.cursor).result with
  | error e =>
    simp only [allowance]
    omega
  | ok a =>
    have further := hx _ a hr
    simp only [allowance, Reading.spent]
    omega

namespace Implements

theorem mono {size' slack' : Nat} (h : Implements size slack g x) (le : size' ≤ size)
    (le' : slack' ≤ slack) : Implements size' slack' g x := by
  intro m sound short
  obtain ⟨work, performs, within⟩ := h m sound (Nat.lt_of_lt_of_le short le)
  exact ⟨work, performs, Nat.le_trans (Nat.add_le_add_left le' work) within⟩

/-- What comes behind the value need be known only on the windows that are left. -/
theorem bind_on {left : Nat} {h : α → Guarded β} {f : α → Read β} (hx : Implements size slack g x)
    (rest : ∀ c a, c.remaining < size → (x.run c).result = .ok a → (x.run c).rest.remaining < left)
    (hf : ∀ a, Implements left 0 (h a) (f a)) : Implements size slack (g >>= h) (x >>= f) := by
  intro m sound short
  obtain ⟨work, performs, within⟩ := hx m sound short
  cases hr : (x.run m.cursor).result with
  | error e =>
    rw [hr] at within
    rw [Read.run_bind_of_error hr]
    exact ⟨work, performs.bind_of_error hr, within⟩
  | ok a =>
    have moved := sound.after (x.forward m.cursor) (x.run m.cursor).log work
    have inside : (m.after (x.run m.cursor).rest (x.run m.cursor).log work).reader.remaining <
        left := by
      rw [← moved.1.remaining_cursor, moved.2]
      rw [← sound.remaining_cursor] at short
      exact rest _ a short hr
    obtain ⟨work', performs', within'⟩ := hf a _ moved.1 inside
    rw [moved.2] at performs' within'
    rw [hr] at within
    rw [Read.run_bind_of_ok hr]
    refine ⟨work + work', performs.bind_of_ok hr performs', ?_⟩
    simp only [allowance] at within
    simp only
    rw [← spent_add x (f a), ← add_allowance]
    omega

theorem bind {h : α → Guarded β} {f : α → Read β} (hx : Implements size slack g x)
    (hf : ∀ a, Implements size 0 (h a) (f a)) : Implements size slack (g >>= h) (x >>= f) :=
  hx.bind_on (fun c _ short _ => Nat.lt_of_le_of_lt (x.forward c).remaining_le short) hf

theorem bind_pure (hx : Implements size slack g x) (f : α → β) :
    Implements size slack (g >>= fun a => pure (f a)) (x >>= fun a => pure (f a)) :=
  hx.bind fun a => (Mirrors.pure (f a)).implements

theorem emit_bind (e : Event) (h : Implements size slack g x) :
    Implements size slack (do emit e; g) (do Read.emit e; x) := by
  intro m sound short
  obtain ⟨work, performs, within⟩ := h { m with log := m.log ++ [e] } sound short
  refine ⟨work, ?_, within⟩
  rw [Performs] at performs ⊢
  rw [run_emit_bind, performs]
  change Except.ok (_, (Machine.mk _ ((m.log ++ [e]) ++ _) _)) =
    .ok (_, Machine.mk _ (m.log ++ ([e] ++ _)) _)
  rw [List.append_assoc]
  rfl

end Implements

theorem run_seek {offset : Nat} (inside : offset ≤ m.reader.stop) :
    (seek offset).run m = .ok (.ok (), { m with reader := m.reader.moveTo offset }) := by
  rw [seek, run_reader_bind, if_neg (Nat.not_lt.2 inside), run_moveTo]

/-- The way back to the first byte of a malformed tag is open, since a byte was there to be read. -/
theorem run_nextTag_resync (sound : m.Sound) {offset : Nat} {raw : UInt64}
    (malformed : (Tag.read.run m.cursor).result = .error (.malformedTag offset raw)) :
    Performs (nextTag .resync) m ((Tag.next .resync).run m.cursor)
      ((Tag.read.run m.cursor).spent m.cursor) := by
  have first := mirrors_tag m sound
  rw [Performs, malformed] at first
  have here : 1 ≤ m.reader.remaining := by
    rw [← sound.remaining_cursor]
    exact List.length_pos_iff.2 (Tag.unread_ne_nil_of_malformed malformed)
  have inside : m.reader.position + 1 ≤ m.reader.stop := by
    have := sound.position_le
    rw [Reader.remaining] at here
    omega
  have back (log : List Event) (work : Nat) :
      (seek (m.reader.position + 1)).run (m.after (Tag.read.run m.cursor).rest log work) =
        .ok (.ok (), m.after (m.cursor.drop 1) log work) := run_seek inside
  have warned := back ((Tag.read.run m.cursor).log ++ [.malformedTag raw offset])
    ((Tag.read.run m.cursor).spent m.cursor)
  rw [Machine.after, ← List.append_assoc] at warned
  rw [Performs, nextTag, run_reader_bind, run_attempt_bind first,
    Tag.next_resync_of_malformed malformed]
  simp only [run_emit_bind, lift_bind (add_position sound here)]
  exact run_attempt_bind warned _

theorem implements_nextTag (policy : MalformedTagPolicy) :
    Implements size 1 (nextTag policy) (Tag.next policy) := by
  intro m sound short
  have first := mirrors_tag m sound
  obtain ⟨work, performs, within⟩ :=
    mirrors_tag.implements_turn Tag.consumes_read m sound short
  rw [Performs] at performs
  cases hr : (Tag.read.run m.cursor).result with
  | ok t =>
    rw [hr] at performs within
    rw [Tag.next_of_ok hr]
    refine ⟨work, ?_, within⟩
    rw [Performs, nextTag, run_reader_bind, run_attempt_bind performs]
    rfl
  | error e =>
    by_cases handled : policy = .resync ∧ ∃ offset raw, e = .malformedTag offset raw
    · obtain ⟨rfl, offset, raw, rfl⟩ := handled
      refine ⟨_, run_nextTag_resync sound hr, ?_⟩
      have here : 1 ≤ m.cursor.remaining :=
        List.length_pos_iff.2 (Tag.unread_ne_nil_of_malformed hr)
      have most := Tag.spent_read_le m.cursor
      rw [Tag.next_resync_of_malformed hr, spent_drop here]
      simp only [allowance, Reading.spent]
      omega
    · have unhandled : policy = .resync → ∀ offset raw, e ≠ .malformedTag offset raw :=
        fun resync offset raw same => handled ⟨resync, offset, raw, same⟩
      rw [hr] at performs within
      rw [Tag.next_of_error hr unhandled]
      refine ⟨work, ?_, within⟩
      rw [Performs, nextTag, run_reader_bind, run_attempt_bind performs]
      cases e with
      | malformedTag offset raw =>
        cases policy with
        | reject => rfl
        | resync => exact absurd rfl (unhandled rfl offset raw)
      | _ => rfl

/-- On windows of fewer than `size` bytes `g` gives what the window has and keeps to the allowance
for all of it. Where it leaves the reader is of no account. -/
def Fulfils (size : Nat) (g : Guarded α) (inner : Cursor → Logged α) : Prop :=
  ∀ m : Machine, m.Sound → m.reader.remaining < size → ∃ c work,
    g.run m = .ok ((inner m.cursor).result, m.after c (inner m.cursor).log work) ∧
      work ≤ allowance (inner m.cursor).result m.reader.remaining

namespace Fulfils

variable {inner : Cursor → Logged α}

theorem bind_pure (h : Fulfils size g inner) (f : α → β) :
    Fulfils size (g >>= fun a => pure (f a)) fun w => inner w >>= fun a => pure (f a) := by
  intro m sound short
  obtain ⟨c, work, run, within⟩ := h m sound short
  refine ⟨c, work, ?_⟩
  dsimp only
  cases hr : (inner m.cursor).result with
  | error e =>
    rw [hr] at run within
    rw [Logged.bind_of_error hr]
    exact ⟨run_bind_of_error run _, within⟩
  | ok a =>
    rw [hr] at run within
    rw [Logged.bind_of_ok hr, Logged.log_pure, List.append_nil]
    exact ⟨run_bind_of_ok run _, within⟩

theorem window (h : Fulfils size g inner) (n : Nat) :
    Implements size 0 (Guarded.window n g) (Read.window n inner) := by
  intro m sound short
  have length := sound.remaining_cursor
  by_cases fits : n ≤ m.reader.remaining
  · have narrow := sound.within fits
    have fits' : n ≤ m.cursor.remaining := by rw [length]; exact fits
    have count : (m.within n).reader.remaining = n := by
      rw [← narrow.1.remaining_cursor, narrow.2, Cursor.remaining_take fits']
    have inside : (Read.window n inner).run m.cursor =
        ⟨inner (m.cursor.take n), m.cursor.drop n⟩ := if_pos fits'
    obtain ⟨c, work, run, within⟩ :=
      h (m.within n) narrow.1 (by rw [count]; exact Nat.lt_of_le_of_lt fits short)
    rw [narrow.2] at run within
    rw [count] at within
    rw [inside, spent_drop fits']
    exact ⟨work, run_window_of_le sound fits run, within⟩
  · have outside : (Read.window n inner).run m.cursor =
        ⟨⟨.error (.underrun n m.cursor.remaining), []⟩, m.cursor⟩ := by
      apply if_neg
      rw [length]
      exact fits
    rw [outside]
    refine ⟨0, ?_, Nat.zero_le _⟩
    rw [Performs, run_window_of_not_le sound fits, Machine.after_cursor, length]

/-- The length in front pays for the turn that the window is part of. -/
theorem delimited (h : Fulfils size g inner) :
    Implements (size + 1) 1 (Guarded.delimited g) (Read.delimited inner) :=
  (mirrors_varint.implements_turn Read.consumes_varint).bind_on
    (fun c a short value =>
      Nat.lt_of_lt_of_le (Read.consumes_varint c a value) (Nat.le_of_lt_succ short))
    fun length => h.window length.toNat

end Fulfils

end Guarded

/-- What a loop makes of the values in a transcript. -/
def Transcript.fold (absorb : σ → α → Outcome σ) (s : σ) : Transcript α → Outcome σ × List Event
  | finished => (⟨s, .ok ()⟩, [])
  | failed e log => (⟨s, .error e⟩, log)
  | turn a log next =>
    match absorb s a with
    | ⟨s', .error e⟩ => (⟨s', .error e⟩, log)
    | ⟨s', .ok ()⟩ =>
      let later := next.fold absorb s'
      (later.1, log ++ later.2)

section Fold

variable {absorb : σ → α → Outcome σ} {s s' : σ} {a : α} {log : List Event} {next : Transcript α}

theorem Transcript.fold_of_refusal {e : Error} (refused : absorb s a = ⟨s', .error e⟩) :
    (turn a log next).fold absorb s = (⟨s', .error e⟩, log) := by
  simp only [fold, refused]

theorem Transcript.fold_of_turn (taken : absorb s a = ⟨s', .ok ()⟩) :
    (turn a log next).fold absorb s =
      ((next.fold absorb s').1, log ++ (next.fold absorb s').2) := by
  simp only [fold, taken]

end Fold

theorem Machine.Sound.atEnd_iff {m : Machine} (sound : m.Sound) :
    m.reader.atEnd = true ↔ m.cursor.unread = [] := by
  have length := sound.remaining_cursor
  have ordered := sound.position_le
  rw [← List.length_eq_zero_iff]
  rw [Cursor.remaining, Reader.remaining] at length
  rw [length, Reader.atEnd, beq_iff_eq]
  omega

namespace Guarded

variable {g : Guarded α} {x : Read α} {size : Nat}

/-- What is left over pays for the turn. -/
theorem Implements.turn (h : Implements size 1 g x) {m : Machine} (sound : m.Sound)
    (short : m.reader.remaining < size) :
    ∃ work, g.run { m with work := m.work + 1 } =
      .ok ((x.run m.cursor).result, m.after (x.run m.cursor).rest (x.run m.cursor).log work) ∧
      work ≤ allowance (x.run m.cursor).result ((x.run m.cursor).spent m.cursor) := by
  obtain ⟨work, performs, within⟩ := h { m with work := m.work + 1 } sound short
  refine ⟨1 + work, ?_, Nat.add_comm 1 work ▸ within⟩
  rw [Performs] at performs
  rw [performs, Machine.after, Machine.after, Nat.add_assoc]
  rfl

/-- A loop of turns that implement a read makes of the window what the transcript has. -/
theorem loop_untilEnd (h : Implements size 1 g x) (hx : x.Consumes) (absorb : σ → α → Outcome σ)
    {m : Machine} (sound : m.Sound) (short : m.reader.remaining < size) (s : σ) :
    ∃ c work, loop g absorb s m =
      .ok (((x.untilEnd hx m.cursor).fold absorb s).1,
        m.after c ((x.untilEnd hx m.cursor).fold absorb s).2 work) ∧
      work ≤ allowance ((x.untilEnd hx m.cursor).fold absorb s).1.result m.cursor.remaining := by
  induction length : m.cursor.remaining using Nat.strongRecOn generalizing m s with
  | ind n ih =>
    by_cases empty : m.cursor.unread = []
    · rw [loop_of_atEnd (sound.atEnd_iff.2 empty), Read.untilEnd_of_nil empty, Transcript.fold]
      exact ⟨m.cursor, 0, by rw [Machine.after_cursor], Nat.zero_le _⟩
    · have more : m.reader.atEnd = false := by
        rw [← Bool.not_eq_true, sound.atEnd_iff]
        exact empty
      obtain ⟨work, run, within⟩ := h.turn sound short
      have spent : (x.run m.cursor).spent m.cursor + (x.run m.cursor).rest.remaining = n := by
        have := (x.forward m.cursor).remaining_le
        rw [Reading.spent]
        omega
      cases hr : (x.run m.cursor).result with
      | error e =>
        rw [hr] at run within
        rw [loop_of_error more run, Read.untilEnd_of_error empty hr, Transcript.fold]
        refine ⟨_, work, rfl, Nat.le_trans within (allowance_mono _ ?_)⟩
        omega
      | ok a =>
        rw [hr] at run within
        rw [Read.untilEnd_of_ok empty hr]
        cases absorbed : absorb s a with
        | mk s' result =>
          cases result with
          | error e =>
            rw [loop_of_refusal more run absorbed, Transcript.fold_of_refusal absorbed]
            refine ⟨_, work, rfl, Nat.le_trans within ?_⟩
            simp only [allowance]
            omega
          | ok _ =>
            have moved := sound.after (x.forward m.cursor) (x.run m.cursor).log work
            have further := hx _ a hr
            have shorter : (m.after (x.run m.cursor).rest (x.run m.cursor).log
                work).reader.remaining < m.reader.remaining := by
              rw [← moved.1.remaining_cursor, ← sound.remaining_cursor, moved.2]
              exact further
            obtain ⟨c, work', later, within'⟩ := ih _ (length ▸ further) moved.1
              (Nat.lt_trans shorter short) s' (by rw [moved.2])
            rw [moved.2] at later within'
            rw [loop_of_turn more run absorbed shorter, Transcript.fold_of_turn absorbed]
            refine ⟨c, work + work', ?_, ?_⟩
            · rw [later, Machine.after_after]
            · rw [← spent, ← add_allowance]
              simp only [allowance] at within
              exact Nat.add_le_add within within'

end Guarded

end Protowire
