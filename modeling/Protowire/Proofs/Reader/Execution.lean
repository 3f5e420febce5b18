import Protowire.Proofs.Reader
import Protowire.Reader.Program

set_option autoImplicit false

/-!
# Executions of reader programs

Which steps a program runs, at any depth of windows, and on which readers. Every one of them finds
the positions in order and leaves them so. Every report is that of one of them, and each has its
report, but for the elements of a packed field, which are reported as a whole.
-/

namespace Protowire

namespace Reader

variable {r r' r'' w : Reader} {s s' s'' : Step} {e : Error}

/-- What is run on a reader. -/
inductive Code
  /-- Steps outside all windows. A failure stops none of them. -/
  | outside (steps : List Step)
  /-- The steps of a window, up to the first that fails. -/
  | inside (steps : List Step)
  /-- The elements of a packed field, up to the end of its window or the first that fails. -/
  | elements (p : Primitive)

/-- The step that comes first on `r`. -/
def Code.head? (r : Reader) : Code → Option Step
  | outside steps => steps.head?
  | inside steps => steps.head?
  | elements p => if r.atEnd then none else some (.read p)

/-- What is still to be run once the first step has had this result. -/
def Code.tail? : Code → Except Error Answer → Option Code
  | outside steps, _ => some (outside steps.tail)
  | inside steps, .ok _ => some (inside steps.tail)
  | elements p, .ok _ => some (elements p)
  | inside _, .error _ => none
  | elements _, .error _ => none

/-- On `r` the step opens the window `w`, and this is run in it. -/
inductive Opens (r : Reader) : Step → Reader → Code → Prop
  | window {size : Nat} {steps : List Step} (fits : size ≤ r.remaining) :
      r.Opens (.window size steps) { r with stop := r.position + size } (.inside steps)
  | delimited {steps : List Step} {size : UInt64} {next : Reader}
      (length : r.run Read.varint = (.ok size, next)) (fits : size.toNat ≤ next.remaining) :
      r.Opens (.delimited steps) { next with stop := next.position + size.toNat } (.inside steps)
  | packed {p : Primitive} {size : UInt64} {next : Reader}
      (length : r.run Read.varint = (.ok size, next)) (fits : size.toNat ≤ next.remaining) :
      r.Opens (.packed p) { next with stop := next.position + size.toNat } (.elements p)

/-- Running `code` on the first reader runs the step on the second one, at whatever depth. -/
inductive Visits : Reader → Code → Reader → Step → Prop
  | here {r : Reader} {code : Code} {s : Step} (first : code.head? r = some s) : Visits r code r s
  | later {r r' : Reader} {code rest : Code} {s s' : Step} (first : code.head? r = some s)
      (others : code.tail? (r.step s).report.result = some rest)
      (visit : Visits (r.step s).reader rest r' s') : Visits r code r' s'
  | within {r w r' : Reader} {code inner : Code} {s s' : Step} (first : code.head? r = some s)
      (opens : r.Opens s w inner) (visit : Visits w inner r' s') : Visits r code r' s'

theorem Visits.trans {code inner : Code} (visit : Visits r code r' s') (opens : r'.Opens s' w inner)
    (visit' : Visits w inner r'' s'') : Visits r code r'' s'' := by
  induction visit with
  | here first => exact .within first opens visit'
  | later first others _ ih => exact .later first others (ih opens)
  | within first opened _ ih => exact .within first opened (ih opens)

/-- `r'` is `r` at some other place in order. -/
structure Keeps (r r' : Reader) : Prop where
  ordered : r'.Ordered
  buffer : r'.buffer = r.buffer
  stop : r'.stop = r.stop

theorem keeps_run {α : Type} (h : r.Ordered) (x : Read α) : r.Keeps (r.run x).2 :=
  ⟨(h.run x).1, rfl, rfl⟩

theorem keeps_enter (h : r.Ordered) (size : Nat)
    (program : Reader → List Report × Except Error Unit) :
    r.Keeps (r.enter size program).reader := by
  unfold enter
  split
  · next fits => exact ⟨h.behind fits, rfl, rfl⟩
  · exact ⟨h, rfl, rfl⟩

theorem keeps_step (h : r.Ordered) (s : Step) : r.Keeps (r.step s).reader := by
  cases s with
  | read p => exact keeps_run h _
  | tag => exact keeps_run h _
  | packed p => exact keeps_run h _
  | skip w => exact keeps_run h _
  | window size steps => exact keeps_enter h size _
  | seek offset =>
    refine ⟨h.seek offset, ?_, ?_⟩
    all_goals
      simp only [step, Reader.seek]
      split <;> rfl
  | delimited steps =>
    have next := keeps_run h Read.varint
    simp only [step]
    split
    · have behind := keeps_enter next.ordered
      exact ⟨(behind _ _).ordered, (behind _ _).buffer.trans next.buffer,
        (behind _ _).stop.trans next.stop⟩
    · exact next

theorem Opens.ordered {code : Code} (h : r.Ordered) (opens : r.Opens s w code) :
    w.Ordered ∧ w.buffer = r.buffer := by
  cases opens with
  | window fits => exact ⟨(h.within fits).1, rfl⟩
  | delimited length fits | packed length fits =>
    have next := keeps_run h Read.varint
    rw [length] at next
    exact ⟨(next.ordered.within fits).1, next.buffer⟩

theorem Visits.ordered {code : Code} (visit : Visits r code r' s') (h : r.Ordered) :
    r'.Ordered ∧ r'.buffer = r.buffer := by
  induction visit with
  | here first => exact ⟨h, rfl⟩
  | @later r _ _ _ s _ first others _ ih =>
    have next := keeps_step h s
    have last := ih next.ordered
    exact ⟨last.1, last.2.trans next.buffer⟩
  | within first opens _ ih =>
    have window := opens.ordered h
    have last := ih window.1
    exact ⟨last.1, last.2.trans window.2⟩

theorem enter_of_fits {size : Nat} (fits : size ≤ r.remaining)
    (program : Reader → List Report × Except Error Unit) :
    r.enter size program = { r with position := r.position + size }.report
      ((program { r with stop := r.position + size }).2.map fun _ => .nothing)
      (some (program { r with stop := r.position + size }).1) := by
  rw [enter, if_pos fits]

theorem enter_of_short {size : Nat} (short : ¬ size ≤ r.remaining)
    (program : Reader → List Report × Except Error Unit) :
    r.enter size program = r.report (.error (.underrun size r.remaining)) none := by
  rw [enter, if_neg short]

theorem step_delimited_of_ok {size : UInt64} {next : Reader}
    (length : r.run Read.varint = (.ok size, next)) (steps : List Step) :
    r.step (.delimited steps) = next.enter size.toNat fun w => w.within steps := by
  rw [step, length]

theorem step_delimited_of_error {next : Reader} (length : r.run Read.varint = (.error e, next))
    (steps : List Step) : r.step (.delimited steps) = next.report (.error e) none := by
  rw [step, length]

/-- The report is one of these or one of those that they have inside. -/
inductive Report.Nested (report : Report) : List Report → Prop
  | top {reports : List Report} (mem : report ∈ reports) : Report.Nested report reports
  | inner {reports inside : List Report} {outer : Report} (mem : outer ∈ reports)
      (opened : outer.inside = some inside) (nested : Report.Nested report inside) :
      Report.Nested report reports

def reports (r : Reader) : Code → List Report
  | .outside steps => r.runAll steps
  | .inside steps => (r.within steps).1
  | .elements _ => []

theorem exists_visit_of_mem_runAll {report : Report} (steps : List Step)
    (mem : report ∈ r.runAll steps) :
    ∃ r' s', Visits r (.outside steps) r' s' ∧ (r'.step s').report = report := by
  induction steps generalizing r with
  | nil => cases mem
  | cons s steps ih =>
    rcases List.mem_cons.1 mem with rfl | mem
    · exact ⟨r, s, .here rfl, rfl⟩
    · obtain ⟨r', s', visit, same⟩ := ih mem
      exact ⟨r', s', .later rfl rfl visit, same⟩

theorem exists_visit_of_mem_within {report : Report} (steps : List Step)
    (mem : report ∈ (r.within steps).1) :
    ∃ r' s', Visits r (.inside steps) r' s' ∧ (r'.step s').report = report := by
  induction steps generalizing r with
  | nil => cases mem
  | cons s steps ih =>
    rw [within] at mem
    cases value : (r.step s).report.result with
    | error e =>
      rw [value] at mem
      rcases List.mem_singleton.1 mem with rfl
      exact ⟨r, s, .here rfl, rfl⟩
    | ok a =>
      rw [value] at mem
      rcases List.mem_cons.1 mem with rfl | mem
      · exact ⟨r, s, .here rfl, rfl⟩
      · obtain ⟨r', s', visit, same⟩ := ih mem
        refine ⟨r', s', .later rfl ?_ visit, same⟩
        rw [value]
        rfl

theorem exists_visit_of_mem {report : Report} {code : Code} (mem : report ∈ r.reports code) :
    ∃ r' s', Visits r code r' s' ∧ (r'.step s').report = report := by
  cases code with
  | outside steps => exact exists_visit_of_mem_runAll steps mem
  | inside steps => exact exists_visit_of_mem_within steps mem
  | elements p => cases mem

/-- Reports inside that of a step are those of its window. -/
theorem opens_of_inside {inside : List Report} (opened : (r.step s).report.inside = some inside) :
    ∃ w code, r.Opens s w code ∧ w.reports code = inside := by
  cases s with
  | window size steps =>
    by_cases fits : size ≤ r.remaining
    · rw [step, enter_of_fits fits] at opened
      cases opened
      exact ⟨_, _, .window fits, rfl⟩
    · rw [step, enter_of_short fits] at opened
      cases opened
  | delimited steps =>
    cases length : r.run Read.varint with
    | mk result next =>
      cases result with
      | error e =>
        rw [step_delimited_of_error length] at opened
        cases opened
      | ok size =>
        rw [step_delimited_of_ok length] at opened
        by_cases fits : size.toNat ≤ next.remaining
        · rw [enter_of_fits fits] at opened
          cases opened
          exact ⟨_, _, .delimited length fits, rfl⟩
        · rw [enter_of_short fits] at opened
          cases opened
  | read p | tag | packed p | skip w | seek offset =>
    rw [step] at opened
    cases opened

theorem Report.Nested.exists_visit {report : Report} {all : List Report}
    (nested : Report.Nested report all) (r : Reader) (code : Code) (h : r.reports code = all) :
    ∃ r' s', Visits r code r' s' ∧ (r'.step s').report = report := by
  induction nested generalizing r code with
  | top mem => exact exists_visit_of_mem (h ▸ mem)
  | inner mem opened _ ih =>
    obtain ⟨r', s', visit, rfl⟩ := exists_visit_of_mem (h ▸ mem)
    obtain ⟨w, inner, opens, same⟩ := opens_of_inside opened
    obtain ⟨r'', s'', visit', same'⟩ := ih w inner same
    exact ⟨r'', s'', visit.trans opens visit', same'⟩

theorem Report.Nested.mono {report : Report} {reports reports' : List Report}
    (nested : Report.Nested report reports) (subset : reports ⊆ reports') :
    Report.Nested report reports' := by
  cases nested with
  | top mem => exact .top (subset mem)
  | inner mem opened nested => exact .inner (subset mem) opened nested

theorem head?_inside_eq_some_iff {steps : List Step} :
    (Code.inside steps).head? r = some s ↔ ∃ rest, steps = s :: rest :=
  List.head?_eq_some_iff

theorem head?_outside_eq_some_iff {steps : List Step} :
    (Code.outside steps).head? r = some s ↔ ∃ rest, steps = s :: rest :=
  List.head?_eq_some_iff

section Reported

variable {code rest : Code}

/-- The elements of a packed field have no reports of their own, all other steps have. -/
theorem report_mem_reports (steps : ∀ p, code ≠ .elements p) (first : code.head? r = some s) :
    (r.step s).report ∈ r.reports code := by
  cases code with
  | outside steps =>
    obtain ⟨rest, rfl⟩ := head?_outside_eq_some_iff.1 first
    exact List.mem_cons_self
  | inside steps =>
    obtain ⟨rest, rfl⟩ := head?_inside_eq_some_iff.1 first
    rw [reports, within]
    cases (r.step s).report.result with
    | error e => exact List.mem_cons_self
    | ok a => exact List.mem_cons_self
  | elements p => exact absurd rfl (steps p)

theorem reports_tail?_subset (first : code.head? r = some s)
    (others : code.tail? (r.step s).report.result = some rest) :
    (r.step s).reader.reports rest ⊆ r.reports code := by
  cases code with
  | outside steps =>
    obtain ⟨steps, rfl⟩ := head?_outside_eq_some_iff.1 first
    cases others
    exact List.subset_cons_self _ _
  | inside steps =>
    obtain ⟨steps, rfl⟩ := head?_inside_eq_some_iff.1 first
    rw [reports, within]
    cases value : (r.step s).report.result with
    | error e =>
      rw [value] at others
      cases others
    | ok a =>
      rw [value] at others
      cases others
      exact List.subset_cons_self _ _
  | elements p =>
    cases value : (r.step s).report.result with
    | error e =>
      rw [value] at others
      cases others
    | ok a =>
      rw [value] at others
      cases others
      exact List.nil_subset _

theorem tail?_ne_elements {result : Except Error Answer} (others : code.tail? result = some rest)
    (steps : ∀ p, code ≠ .elements p) (p : Primitive) : rest ≠ .elements p := by
  rintro rfl
  cases code with
  | outside => cases others
  | inside => cases result <;> cases others
  | elements p' => exact steps p' rfl

/-- The reports of the steps in a window are inside that of the step that opened it. -/
theorem inside_of_opens {steps : List Step} (opens : r.Opens s w (.inside steps)) :
    (r.step s).report.inside = some (w.reports (.inside steps)) := by
  cases opens with
  | window fits =>
    rw [step, enter_of_fits fits]
    rfl
  | delimited length fits =>
    rw [step_delimited_of_ok length, enter_of_fits fits]
    rfl

/-- The step reads an element of a packed field, which has a report as a whole. -/
def ReadsElement (r : Reader) (code : Code) (r' : Reader) (s' : Step) : Prop :=
  ∃ outer p w, Visits r code outer (.packed p) ∧
    Report.Nested (outer.step (.packed p)).report (r.reports code) ∧
    outer.Opens (.packed p) w (.elements p) ∧ Visits w (.elements p) r' s'

/-- Every step that is run has its report, unless it is part of a step that has one. -/
theorem Visits.reported (visit : Visits r code r' s') (steps : ∀ p, code ≠ .elements p) :
    Report.Nested (r'.step s').report (r.reports code) ∨ ReadsElement r code r' s' := by
  induction visit with
  | here first => exact .inl (.top (report_mem_reports steps first))
  | later first others _ ih =>
    have subset := reports_tail?_subset first others
    rcases ih (tail?_ne_elements others steps) with
      nested | ⟨outer, p, w, visit, nested, opens, element⟩
    · exact .inl (nested.mono subset)
    · exact .inr ⟨outer, p, w, .later first others visit, nested.mono subset, opens, element⟩
  | @within r w r' _ inner s s' first opens visit ih =>
    have here := report_mem_reports steps first
    cases inner with
    | outside => cases opens
    | inside =>
      have inside := inside_of_opens opens
      rcases ih nofun with nested | ⟨outer, p, w, visit, nested, opened, element⟩
      · exact .inl (.inner here inside nested)
      · exact .inr ⟨outer, p, w, .within first opens visit, .inner here inside nested, opened,
          element⟩
    | elements p =>
      cases opens with
      | packed length fits =>
        exact .inr ⟨r, p, _, .here first, .top here, .packed length fits, visit⟩

end Reported

end Reader

end Protowire
