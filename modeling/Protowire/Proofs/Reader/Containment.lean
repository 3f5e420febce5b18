import Protowire.Proofs.Read.Underrun
import Protowire.Proofs.Reader.Execution
import Protowire.Proofs.Transcript

set_option autoImplicit false

/-!
# Containment

Every step of a reader program keeps to the window in force. An error goes from where it was raised
through all the windows around that place, and an underrun tells what was left there.
-/

namespace Protowire

namespace Reader

variable {r r' w place : Reader} {s s' : Step} {e : Error}

/-- How running `code` ends. -/
def outcome (r : Reader) : Code → Except Error Unit
  | .outside _ => .ok ()
  | .inside steps => (r.within steps).2
  | .elements p => (fun _ => ()) <$> (p.read.untilEnd p.consumes_read r.cursor).values.result

theorem step_packed_of_error {next : Reader} (length : r.run Read.varint = (.error e, next))
    (p : Primitive) : r.step (.packed p) = next.report (.error e) none := by
  have failed : (Read.varint.run r.cursor).result = .error e := congrArg Prod.fst length
  obtain rfl : (r.run Read.varint).2 = next := congrArg Prod.snd length
  unfold step runStep Primitive.readPacked Read.delimited
  rw [run, Read.run_bind_of_error failed]
  rfl

theorem step_packed_of_short {size : UInt64} {next : Reader} (h : r.Ordered)
    (length : r.run Read.varint = (.ok size, next)) (short : ¬ size.toNat ≤ next.remaining)
    (p : Primitive) : r.step (.packed p) =
      next.report (.error (.underrun size.toNat next.remaining)) none := by
  have ordered := (h.run Read.varint).1
  obtain rfl : (r.run Read.varint).2 = next := congrArg Prod.snd length
  rw [step, runStep, Primitive.readPacked, run_delimited_of_ok h length,
    run_window_of_short ordered short]
  rfl

theorem Opens.leaves {code : Code} (h : r.Ordered) (opens : r.Opens s w code) :
    (r.step s).reader = { r with position := w.stop } := by
  cases opens with
  | window fits => rw [step, enter_of_fits fits, report]
  | @delimited steps size next length fits =>
    obtain rfl : (r.run Read.varint).2 = next := congrArg Prod.snd length
    rw [step_delimited_of_ok length, enter_of_fits fits]
    rfl
  | @packed p size next length fits =>
    have ordered := (h.run Read.varint).1
    obtain rfl : (r.run Read.varint).2 = next := congrArg Prod.snd length
    rw [step, runStep, Primitive.readPacked, run_delimited_of_ok h length,
      run_window_of_fits ordered fits]
    rfl

/-- A step that opens a window fails as what it runs there. -/
theorem Opens.failed_iff {code : Code} (h : r.Ordered) (opens : r.Opens s w code) :
    (r.step s).report.result = .error e ↔ w.outcome code = .error e := by
  cases opens with
  | window fits =>
    rw [step, enter_of_fits fits]
    exact Result.map_eq_error_iff
  | @delimited steps size next length fits =>
    rw [step_delimited_of_ok length, enter_of_fits fits]
    exact Result.map_eq_error_iff
  | @packed p size next length fits =>
    have ordered := (h.run Read.varint).1
    obtain rfl : (r.run Read.varint).2 = next := congrArg Prod.snd length
    rw [step, runStep, Primitive.readPacked, run_delimited_of_ok h length,
      run_window_of_fits ordered fits]
    exact Result.map_eq_error_iff.trans Result.map_eq_error_iff.symm

section Turns

variable {p : Primitive}

theorem head?_elements_eq_some_iff :
    (Code.elements p).head? r = some s ↔ r.atEnd = false ∧ s = .read p := by
  simp only [Code.head?]
  cases r.atEnd <;> simp [eq_comm]

theorem outcome_elements_of_atEnd (h : r.Ordered) (done : r.atEnd = true) :
    r.outcome (.elements p) = .ok () := by
  rw [outcome, Read.untilEnd_of_nil (h.atEnd_iff.1 done)]
  rfl

theorem outcome_elements_of_more (h : r.Ordered) (more : r.atEnd = false) :
    r.outcome (.elements p) =
      ((r.step (.read p)).report.result >>= fun _ =>
        (r.step (.read p)).reader.outcome (.elements p)) := by
  have unread : r.cursor.unread ≠ [] := by
    intro empty
    rw [h.atEnd_iff.2 empty] at more
    cases more
  have next := (h.run p.read).2
  have turn : r.step (.read p) =
      (r.run p.read).2.report ((p.read.run r.cursor).result.map .scalar) none := by
    rw [step]
    rfl
  rw [outcome, Read.result_values_untilEnd unread, turn, report, outcome, next]
  cases (p.read.run r.cursor).result with
  | error e => rfl
  | ok a =>
    dsimp only [Except.map]
    cases (p.read.untilEnd p.consumes_read (p.read.run r.cursor).rest).values.result <;> rfl

theorem outcome_inside_cons (steps : List Step) : r.outcome (.inside (s :: steps)) =
    ((r.step s).report.result >>= fun _ => (r.step s).reader.outcome (.inside steps)) := by
  rw [outcome, within]
  cases (r.step s).report.result <;> rfl

/-- What is run in a window fails with the first step of it that does. -/
theorem outcome_of_error {code : Code} (h : r.Ordered) (first : code.head? r = some s)
    (failed : (r.step s).report.result = .error e) (inside : ∀ steps, code ≠ .outside steps) :
    r.outcome code = .error e := by
  cases code with
  | outside steps => exact absurd rfl (inside steps)
  | inside steps =>
    obtain ⟨rest, rfl⟩ := head?_inside_eq_some_iff.1 first
    rw [outcome_inside_cons, failed]
    rfl
  | elements p =>
    obtain ⟨more, rfl⟩ := head?_elements_eq_some_iff.1 first
    rw [outcome_elements_of_more h more, failed]
    rfl

theorem outcome_of_tail? {code rest : Code} (h : r.Ordered) (first : code.head? r = some s)
    (others : code.tail? (r.step s).report.result = some rest) :
    r.outcome code = (r.step s).reader.outcome rest := by
  cases code with
  | outside steps =>
    cases others
    rfl
  | inside steps =>
    obtain ⟨steps, rfl⟩ := head?_inside_eq_some_iff.1 first
    rw [outcome_inside_cons]
    cases value : (r.step s).report.result with
    | error e =>
      rw [value] at others
      cases others
    | ok a =>
      rw [value] at others
      cases others
      rfl
  | elements p =>
    obtain ⟨more, rfl⟩ := head?_elements_eq_some_iff.1 first
    rw [outcome_elements_of_more h more]
    cases value : (r.step (.read p)).report.result with
    | error e =>
      rw [value] at others
      cases others
    | ok a =>
      rw [value] at others
      cases others
      rfl

end Turns

theorem Opens.ne_outside {code : Code} (opens : r.Opens s w code) (steps : List Step) :
    code ≠ .outside steps := by
  rintro rfl
  cases opens

theorem tail?_ne_outside {code rest : Code} {result : Except Error Answer}
    (others : code.tail? result = some rest) (inside : ∀ steps, code ≠ .outside steps)
    (steps : List Step) : rest ≠ .outside steps := by
  rintro rfl
  cases code with
  | outside steps' => exact inside steps' rfl
  | inside steps' => cases result <;> cases others
  | elements p => cases result <;> cases others

/-- An error in a window, at any depth, is the error of the window. -/
theorem Visits.outcome {code : Code} (visit : Visits r code r' s') (h : r.Ordered)
    (inside : ∀ steps, code ≠ .outside steps) (failed : (r'.step s').report.result = .error e) :
    r.outcome code = .error e := by
  induction visit with
  | here first => exact outcome_of_error h first failed inside
  | @later r _ _ _ s _ first others _ ih =>
    rw [outcome_of_tail? h first others]
    exact ih (keeps_step h s).ordered (tail?_ne_outside others inside) failed
  | within first opens _ ih =>
    have inner := ih (opens.ordered h).1 opens.ne_outside failed
    exact outcome_of_error h first ((opens.failed_iff h).2 inner) inside

/-- The error that a step returns was raised where `place` is left, by the step itself or by one
that ran in its window. -/
inductive Raises : Reader → Step → Reader → Error → Prop
  | here {r : Reader} {s : Step} {e : Error} (closed : ∀ w code, ¬ r.Opens s w code)
      (failed : (r.step s).report.result = .error e) : Raises r s (r.step s).reader e
  | within {r w r' place : Reader} {code : Code} {s s' : Step} {e : Error}
      (opens : r.Opens s w code) (visit : Visits w code r' s') (raises : Raises r' s' place e) :
      Raises r s place e

theorem Raises.failed (raises : Raises r s place e) (h : r.Ordered) :
    (r.step s).report.result = .error e := by
  induction raises with
  | here closed failed => exact failed
  | within opens visit _ ih =>
    have window := (opens.ordered h).1
    have inner := visit.outcome window opens.ne_outside (ih (visit.ordered window).1)
    exact (opens.failed_iff h).2 inner

-- Going back from an error to where it was raised follows the steps inside windows.

theorem raises_of_elements {p : Primitive} (h : w.Ordered)
    (failed : w.outcome (.elements p) = .error e) :
    ∃ r' s' place, Visits w (.elements p) r' s' ∧ Raises r' s' place e := by
  -- an element that is read leaves fewer bytes to the window
  induction length : w.cursor.remaining using Nat.strongRecOn generalizing w with
  | ind n ih =>
    cases more : w.atEnd with
    | true =>
      rw [outcome_elements_of_atEnd h more] at failed
      cases failed
    | false =>
      have first : (Code.elements p).head? w = some (.read p) :=
        head?_elements_eq_some_iff.2 ⟨more, rfl⟩
      rw [outcome_elements_of_more h more] at failed
      cases value : (w.step (.read p)).report.result with
      | error e' =>
        rw [value] at failed
        cases failed
        refine ⟨w, .read p, _, .here first, .here ?_ value⟩
        rintro w' code ⟨⟩
      | ok a =>
        rw [value] at failed
        have shorter : (w.step (.read p)).reader.cursor.remaining < n := by
          rw [step] at value ⊢
          obtain ⟨scalar, read, -⟩ := Result.map_eq_ok_iff.1 value
          have taken := p.consumes_read w.cursor scalar read
          rw [← (h.run p.read).2, length] at taken
          exact taken
        obtain ⟨r', s', place, visit, raises⟩ := ih _ shorter (keeps_step h _).ordered failed rfl
        refine ⟨r', s', place, .later first ?_ visit, raises⟩
        rw [value]
        rfl

/-- What follows for a step, once it is known of what it runs in its window. -/
theorem raises_of_opens (h : r.Ordered) (failed : (r.step s).report.result = .error e)
    (inner : ∀ w code, r.Opens s w code → w.outcome code = .error e →
      ∃ r' s' place, Visits w code r' s' ∧ Raises r' s' place e) : ∃ place, Raises r s place e := by
  by_cases opened : ∃ w code, r.Opens s w code
  · obtain ⟨w, code, opens⟩ := opened
    obtain ⟨r', s', place, visit, raises⟩ := inner w code opens ((opens.failed_iff h).1 failed)
    exact ⟨place, .within opens visit raises⟩
  · exact ⟨_, .here (fun w code opens => opened ⟨w, code, opens⟩) failed⟩

mutual

theorem raises_of_step : (s : Step) → ∀ {r : Reader}, r.Ordered →
    (r.step s).report.result = .error e → ∃ place, Raises r s place e
  | .window size steps, r, h, failed => raises_of_opens h failed fun w code opens stopped => by
    cases opens with
    | window fits => exact raises_of_inside steps (h.within fits).1 stopped
  | .delimited steps, r, h, failed => raises_of_opens h failed fun w code opens stopped => by
    have window := (opens.ordered h).1
    cases opens with
    | delimited length fits => exact raises_of_inside steps window stopped
  | .packed p, r, h, failed => raises_of_opens h failed fun w code opens stopped => by
    have window := (opens.ordered h).1
    cases opens with
    | packed length fits => exact raises_of_elements window stopped
  | .read _, _, h, failed => raises_of_opens h failed fun _ _ opens => by cases opens
  | .tag, _, h, failed => raises_of_opens h failed fun _ _ opens => by cases opens
  | .skip _, _, h, failed => raises_of_opens h failed fun _ _ opens => by cases opens
  | .seek _, _, h, failed => raises_of_opens h failed fun _ _ opens => by cases opens

theorem raises_of_inside : (steps : List Step) → ∀ {w : Reader}, w.Ordered →
    w.outcome (.inside steps) = .error e →
      ∃ r' s' place, Visits w (.inside steps) r' s' ∧ Raises r' s' place e
  | [], _, _, failed => by cases failed
  | s :: steps, w, h, failed => by
    rw [outcome_inside_cons] at failed
    cases value : (w.step s).report.result with
    | error e' =>
      rw [value] at failed
      cases failed
      obtain ⟨place, raises⟩ := raises_of_step s h value
      exact ⟨w, s, place, .here rfl, raises⟩
    | ok a =>
      rw [value] at failed
      obtain ⟨r', s', place, visit, raises⟩ :=
        raises_of_inside steps (keeps_step h s).ordered failed
      refine ⟨r', s', place, .later rfl ?_ visit, raises⟩
      rw [value]
      rfl

end

theorem failed_iff_raises (h : r.Ordered) :
    (r.step s).report.result = .error e ↔ ∃ place, Raises r s place e :=
  ⟨raises_of_step s h, fun ⟨_, raises⟩ => raises.failed h⟩

theorem keeps_remaining {α : Type} {x : Read α} (h : r.Ordered) (measures : x.Measures)
    {needed remaining : Nat} (failed : (r.run x).1 = .error (.underrun needed remaining)) :
    (r.run x).2.remaining = remaining ∧ remaining < needed := by
  have next := h.run x
  rw [← next.1.remaining_cursor, next.2]
  exact measures r.cursor needed remaining failed

/-- A step that reads a length first, which cannot be read or does not fit. -/
theorem remaining_of_unopened {needed remaining : Nat} (h : r.Ordered)
    (failed : (r.step s).report.result = .error (.underrun needed remaining))
    (unread : ∀ e next, r.run Read.varint = (.error e, next) →
      r.step s = next.report (.error e) none)
    (short : ∀ size next, r.run Read.varint = (.ok size, next) →
      ¬ size.toNat ≤ next.remaining ∧
        r.step s = next.report (.error (.underrun size.toNat next.remaining)) none) :
    (r.step s).reader.remaining = remaining ∧ remaining < needed := by
  cases length : r.run Read.varint with
  | mk result next =>
    cases result with
    | error e =>
      rw [unread e next length] at failed ⊢
      cases failed
      have varint := keeps_remaining h Read.measures_varint (congrArg Prod.fst length)
      rw [length] at varint
      exact varint
    | ok size =>
      obtain ⟨exceeds, stops⟩ := short size next length
      rw [stops] at failed ⊢
      cases failed
      exact ⟨rfl, Nat.lt_of_not_le exceeds⟩

/-- A step that opens no window says what is left where it leaves the reader. -/
theorem underrun_of_closed {needed remaining : Nat} (h : r.Ordered)
    (closed : ∀ w code, ¬ r.Opens s w code)
    (failed : (r.step s).report.result = .error (.underrun needed remaining)) :
    (r.step s).reader.remaining = remaining ∧ remaining < needed := by
  cases s with
  | read p =>
    rw [step] at failed ⊢
    exact keeps_remaining h p.measures_read (Result.map_eq_error_iff.1 failed)
  | tag =>
    rw [step] at failed ⊢
    exact keeps_remaining h Tag.measures_read (Result.map_eq_error_iff.1 failed)
  | skip w =>
    rw [step] at failed ⊢
    exact keeps_remaining h w.measures_skip (Result.map_eq_error_iff.1 failed)
  | packed p =>
    refine remaining_of_unopened h failed (fun e next length => step_packed_of_error length p) ?_
    intro size next length
    have short : ¬ size.toNat ≤ next.remaining := fun fits => closed _ _ (.packed length fits)
    exact ⟨short, step_packed_of_short h length short p⟩
  | window size steps =>
    have short : ¬ size ≤ r.remaining := fun fits => closed _ _ (.window fits)
    rw [step, enter_of_short short] at failed ⊢
    cases failed
    exact ⟨rfl, Nat.lt_of_not_le short⟩
  | seek offset =>
    by_cases inside : offset ≤ r.stop
    · rw [step, seek, if_pos inside] at failed
      cases failed
    · rw [step, seek, if_neg inside] at failed ⊢
      cases failed
      have ordered := h.position_le
      refine ⟨rfl, ?_⟩
      rw [remaining]
      omega
  | delimited steps =>
    refine remaining_of_unopened h failed
      (fun e next length => step_delimited_of_error length steps) ?_
    intro size next length
    have short : ¬ size.toNat ≤ next.remaining := fun fits => closed _ _ (.delimited length fits)
    exact ⟨short, by rw [step_delimited_of_ok length, enter_of_short short]⟩

/-- Whoever returns an underrun, it has what was left in the window in force where it was raised,
and that was less than was needed. -/
theorem Raises.remaining_lt {needed remaining : Nat}
    (raises : Raises r s place (.underrun needed remaining)) (h : r.Ordered) :
    place.remaining = remaining ∧ remaining < needed := by
  generalize raised : Error.underrun needed remaining = e at raises
  induction raises with
  | here closed failed => exact underrun_of_closed h closed (failed.trans (congrArg _ raised.symm))
  | within opens visit _ ih => exact ih (visit.ordered (opens.ordered h).1).1 raised

/-- What holds of a step that is run from `r`, whatever its result. -/
structure Contained (r : Reader) (s : Step) : Prop where
  before : r.Ordered
  keeps : r.Keeps (r.step s).reader
  /-- A window that was opened is left at its end, however it went there. -/
  leaves : ∀ w code, r.Opens s w code → (r.step s).reader.position = w.stop
  origin : ∀ e, (r.step s).report.result = .error e ↔ ∃ place, Raises r s place e
  underrun : ∀ place needed remaining, Raises r s place (.underrun needed remaining) →
    place.remaining = remaining ∧ remaining < needed

theorem contained (h : r.Ordered) (s : Step) : Contained r s where
  before := h
  keeps := keeps_step h s
  leaves := fun _ _ opens => congrArg Reader.position (opens.leaves h)
  origin := fun _ => failed_iff_raises h
  underrun := fun _ _ _ raises => raises.remaining_lt h

/-- Every report of a program, at any depth, is that of a step that it runs, and every step that it
runs keeps to its window and has its report there. Only the elements of a packed field have none of
their own. -/
theorem runAll_contained (bytes : Bytes) (program : List Step) :
    (∀ report, Report.Nested report ((ofBytes bytes).runAll program) →
      ∃ r s, Visits (ofBytes bytes) (.outside program) r s ∧ (r.step s).report = report) ∧
    (∀ r s, Visits (ofBytes bytes) (.outside program) r s →
      Report.Nested (r.step s).report ((ofBytes bytes).runAll program) ∨
        ReadsElement (ofBytes bytes) (.outside program) r s) ∧
    ∀ r s, Visits (ofBytes bytes) (.outside program) r s → r.buffer = bytes ∧ Contained r s := by
  refine ⟨fun report nested => nested.exists_visit _ (.outside program) rfl,
    fun r s visit => visit.reported nofun, ?_⟩
  intro r s visit
  have h := visit.ordered (ordered_ofBytes bytes)
  exact ⟨h.2, contained h.1 s⟩

/-- A varint that the end of its window cuts off, with a byte behind the window. -/
theorem runAll_contained_cut :
    (∃ r s, Visits (ofBytes [2, 0x80, 0x80, 1]) (.outside [.delimited [.read .varint]]) r s ∧
      (r.step s).report = ⟨.error (.underrun 1 0), 3, 0, true, none⟩) ∧
    Contained (ofBytes [2, 0x80, 0x80, 1]) (.delimited [.read .varint]) ∧
    Contained ⟨[2, 0x80, 0x80, 1], 1, 3⟩ (.read .varint) := by
  have program := runAll_contained [2, 0x80, 0x80, 1] [.delimited [.read .varint]]
  have length : (ofBytes [2, 0x80, 0x80, 1]).run Read.varint =
      (.ok 2, ⟨[2, 0x80, 0x80, 1], 1, 4⟩) := rfl
  have opens : (ofBytes [2, 0x80, 0x80, 1]).Opens (.delimited [.read .varint])
      ⟨[2, 0x80, 0x80, 1], 1, 3⟩ (.inside [.read .varint]) := .delimited length (by decide)
  refine ⟨program.1 _ ?_, (program.2.2 _ _ (.here rfl)).2,
    (program.2.2 _ _ (.within rfl opens (.here rfl))).2⟩
  exact .inner (List.mem_singleton.2 rfl) rfl (.top (List.mem_singleton.2 rfl))

end Reader

end Protowire
