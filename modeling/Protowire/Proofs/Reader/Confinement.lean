import Protowire.Proofs.Reader.Execution

set_option autoImplicit false

/-!
# Confinement

The end of a window holds back everything that is run in it. Its beginning does so as long as
nothing seeks in front of it, for a reader does not know where its window began. Then what is run in
the window can tell nothing about the bytes around it.
-/

namespace Protowire

namespace Reader

variable {r r' w : Reader} {s s' : Step} {code inner rest : Code} {floor : Nat} {buffer : Bytes}

/-- No seek that is run goes further back than `floor`. -/
def SeeksFrom (floor : Nat) (r : Reader) (code : Code) : Prop :=
  ∀ r' offset, Visits r code r' (.seek offset) → floor ≤ offset

namespace SeeksFrom

theorem seek (h : SeeksFrom floor r code) (first : code.head? r = some s) :
    ∀ offset, s = .seek offset → floor ≤ offset := by
  rintro offset rfl
  exact h r offset (.here first)

theorem later (h : SeeksFrom floor r code) (first : code.head? r = some s)
    (others : code.tail? (r.step s).report.result = some rest) :
    SeeksFrom floor (r.step s).reader rest :=
  fun r' offset visit => h r' offset (.later first others visit)

theorem within (h : SeeksFrom floor r code) (first : code.head? r = some s)
    (opens : r.Opens s w inner) : SeeksFrom floor w inner :=
  fun r' offset visit => h r' offset (.within first opens visit)

/-- What is said of a whole code holds of its first step alone. -/
theorem head (h : SeeksFrom floor r code) (first : code.head? r = some s) :
    SeeksFrom floor r (.outside [s]) := by
  intro r' offset visit
  cases visit with
  | here alone =>
    obtain rfl := Option.some.inj alone
    exact h r offset (.here first)
  | later alone others visit =>
    obtain rfl := Option.some.inj others
    cases visit with
    | here none | later none | within none => cases none
  | within alone opens visit =>
    obtain rfl := Option.some.inj alone
    exact h r' offset (.within first opens visit)

end SeeksFrom

mutual

/-- The offsets that a step can seek, at any depth. -/
def Step.seeks : Step → List Nat
  | .seek offset => [offset]
  | .delimited steps | .window _ steps => Step.allSeeks steps
  | .read _ | .tag | .packed _ | .skip _ => []

def Step.allSeeks : List Step → List Nat
  | [] => []
  | s :: steps => s.seeks ++ Step.allSeeks steps

end

def Code.seeks : Code → List Nat
  | outside steps | inside steps => Step.allSeeks steps
  | elements _ => []

theorem Code.seeks_head {offset : Nat} (first : code.head? r = some s)
    (mem : offset ∈ s.seeks) : offset ∈ code.seeks := by
  cases code with
  | outside steps | inside steps =>
    obtain ⟨others, rfl⟩ := List.head?_eq_some_iff.1 first
    exact List.mem_append_left _ mem
  | elements p =>
    simp only [head?] at first
    split at first
    · cases first
    · cases first
      cases mem

theorem Code.seeks_tail {offset : Nat} {result : Except Error Answer}
    (others : code.tail? result = some rest) (mem : offset ∈ rest.seeks) :
    offset ∈ code.seeks := by
  cases code with
  | outside steps =>
    cases others
    cases steps with
    | nil => exact mem
    | cons s steps => exact List.mem_append_right _ mem
  | inside steps =>
    cases result <;> cases others
    cases steps with
    | nil => exact mem
    | cons s steps => exact List.mem_append_right _ mem
  | elements p =>
    cases result <;> cases others
    exact mem

theorem Opens.seeks {offset : Nat} (opens : r.Opens s w inner) (mem : offset ∈ inner.seeks) :
    offset ∈ s.seeks := by
  cases opens with
  | window fits | delimited length fits => exact mem
  | packed length fits => cases mem

/-- Seeks that are not in the text of a program are not run. -/
theorem seeksFrom_of_text (text : ∀ offset ∈ code.seeks, floor ≤ offset) :
    SeeksFrom floor r code := by
  intro r' offset visit
  refine text offset ?_
  clear text
  generalize seek : Step.seek offset = s at visit
  induction visit with
  | here first =>
    subst seek
    exact Code.seeks_head first (List.mem_singleton.2 rfl)
  | later first others _ ih => exact Code.seeks_tail others (ih seek)
  | within first opens _ ih => exact Code.seeks_head first (opens.seeks (ih seek))

theorem position_le_run {α : Type} (r : Reader) (x : Read α) :
    r.position ≤ (r.run x).2.position := by
  obtain ⟨n, -, forward⟩ := x.forward r.cursor
  rw [run, forward]
  exact Nat.le_add_right _ _

theorem position_le_enter (r : Reader) (size : Nat)
    (program : Reader → List Report × Except Error Unit) :
    r.position ≤ (r.enter size program).reader.position := by
  unfold enter
  split
  · exact Nat.le_add_right _ _
  · exact Nat.le_refl _

/-- Reading a length keeps the reader in order and goes forward. -/
theorem keeps_varint {result : Except Error UInt64} {next : Reader} (h : r.Ordered)
    (length : r.run Read.varint = (result, next)) : r.Keeps next ∧ r.position ≤ next.position := by
  obtain rfl : (r.run Read.varint).2 = next := congrArg Prod.snd length
  exact ⟨keeps_run h Read.varint, position_le_run r Read.varint⟩

/-- Nothing but a seek goes back. -/
theorem floor_le_step (above : floor ≤ r.position)
    (seeks : ∀ offset, s = .seek offset → floor ≤ offset) :
    floor ≤ (r.step s).reader.position := by
  cases s with
  | read p => exact Nat.le_trans above (position_le_run r _)
  | tag => exact Nat.le_trans above (position_le_run r _)
  | packed p => exact Nat.le_trans above (position_le_run r _)
  | skip w => exact Nat.le_trans above (position_le_run r _)
  | window size steps => exact Nat.le_trans above (position_le_enter r size _)
  | seek offset =>
    simp only [step, Reader.seek]
    split
    · exact seeks offset rfl
    · exact above
  | delimited steps =>
    have next := Nat.le_trans above (position_le_run r Read.varint)
    simp only [step]
    split
    · exact Nat.le_trans next (position_le_enter _ _ _)
    · exact next

/-- A window lies behind the place where it was opened and inside the one around it. -/
theorem Opens.inside (h : r.Ordered) (opens : r.Opens s w inner) :
    r.position ≤ w.position ∧ w.stop ≤ r.stop := by
  cases opens with
  | @window size steps fits =>
    have := h.position_le
    rw [remaining] at fits
    refine ⟨Nat.le_refl _, ?_⟩
    change r.position + size ≤ r.stop
    omega
  | @delimited steps size next length fits | @packed p size next length fits =>
    obtain ⟨moved, forward⟩ := keeps_varint h length
    have := moved.ordered.position_le
    rw [remaining] at fits
    refine ⟨forward, ?_⟩
    rw [← moved.stop]
    change next.position + size.toNat ≤ next.stop
    omega

theorem Visits.stop_le (visit : Visits r code r' s') (h : r.Ordered) : r'.stop ≤ r.stop := by
  induction visit with
  | here first => exact Nat.le_refl _
  | @later r _ _ _ s _ first others _ ih =>
    have next := keeps_step h s
    exact next.stop ▸ ih next.ordered
  | within first opens _ ih =>
    exact Nat.le_trans (ih (opens.ordered h).1) (opens.inside h).2

theorem Visits.floor_le (visit : Visits r code r' s') (h : r.Ordered) (above : floor ≤ r.position)
    (seeks : SeeksFrom floor r code) :
    floor ≤ r'.position ∧ floor ≤ (r'.step s').reader.position := by
  induction visit with
  | here first => exact ⟨above, floor_le_step above (seeks.seek first)⟩
  | @later r _ _ _ s _ first others _ ih =>
    exact ih (keeps_step h s).ordered (floor_le_step above (seeks.seek first))
      (seeks.later first others)
  | within first opens _ ih =>
    exact ih (opens.ordered h).1 (Nat.le_trans above (opens.inside h).1)
      (seeks.within first opens)

theorem step_seek_of_le {offset : Nat} (inside : offset ≤ r.stop) :
    r.step (.seek offset) = { r with position := offset }.report (.ok .nothing) none := by
  rw [step, Reader.seek, if_pos inside]
  rfl

theorem step_seek_of_lt {offset : Nat} (outside : r.stop < offset) :
    r.step (.seek offset) =
      r.report (.error (.underrun (offset - r.position) r.remaining)) none := by
  rw [step, Reader.seek, if_neg (Nat.not_le.2 outside)]
  rfl

/-- The reader at the same place of another buffer. -/
def onto (r : Reader) (buffer : Bytes) : Reader := { r with buffer := buffer }

def Stepped.onto (stepped : Stepped) (buffer : Bytes) : Stepped :=
  ⟨stepped.report, stepped.reader.onto buffer⟩

/-- The buffers are alike from `floor` to the end of the window in force, and the reader is not in
front of that. -/
structure Alike (floor : Nat) (r : Reader) (buffer : Bytes) : Prop where
  above : floor ≤ r.position
  same : (buffer.take r.stop).drop floor = (r.buffer.take r.stop).drop floor

namespace Alike

theorem cursor (h : Alike floor r buffer) : (r.onto buffer).cursor = r.cursor := by
  obtain ⟨n, position⟩ := Nat.exists_eq_add_of_le h.above
  have same := congrArg (List.drop n) h.same
  rw [List.drop_drop, List.drop_drop, ← position] at same
  exact congrArg (Cursor.mk r.position) same

theorem run {α : Type} (h : Alike floor r buffer) (x : Read α) :
    (r.onto buffer).run x = ((r.run x).1, (r.run x).2.onto buffer) := by
  rw [Reader.run, h.cursor]
  rfl

theorem keeps (h : Alike floor r buffer) (moved : r.Keeps r') (above : floor ≤ r'.position) :
    Alike floor r' buffer :=
  ⟨above, by rw [moved.stop, moved.buffer]; exact h.same⟩

theorem narrow (h : Alike floor r buffer) {stop : Nat} (inside : stop ≤ r.stop) :
    Alike floor { r with stop := stop } buffer := by
  refine ⟨h.above, ?_⟩
  have cut (bytes : Bytes) :
      (bytes.take stop).drop floor = ((bytes.take r.stop).drop floor).take (stop - floor) := by
    rw [← List.drop_take, List.take_take, Nat.min_eq_left inside]
  change (buffer.take stop).drop floor = (r.buffer.take stop).drop floor
  rw [cut, cut, h.same]

theorem runStep {α : Type} (h : Alike floor r buffer) (x : Read α) (answer : α → Answer) :
    (r.onto buffer).runStep x answer = (r.runStep x answer).onto buffer := by
  rw [Reader.runStep, h.run]
  rfl

theorem enter {size : Nat} {program : Reader → List Report × Except Error Unit}
    (same : size ≤ r.remaining →
      program ({ r with stop := r.position + size }.onto buffer) =
        program { r with stop := r.position + size }) :
    (r.onto buffer).enter size program = (r.enter size program).onto buffer := by
  by_cases fits : size ≤ r.remaining
  · rw [enter_of_fits fits, ← same fits]
    exact enter_of_fits (r := r.onto buffer) fits program
  · rw [enter_of_short fits]
    exact enter_of_short (r := r.onto buffer) fits program

theorem window (h : Alike floor r buffer) (ordered : r.Ordered) {size : Nat}
    (fits : size ≤ r.remaining) : Alike floor { r with stop := r.position + size } buffer := by
  refine h.narrow ?_
  have := ordered.position_le
  rw [remaining] at fits
  omega

theorem varint (h : Alike floor r buffer) (ordered : r.Ordered) {result : Except Error UInt64}
    {next : Reader} (length : r.run Read.varint = (result, next)) :
    next.Ordered ∧ Alike floor next buffer ∧
      (r.onto buffer).run Read.varint = (result, next.onto buffer) := by
  obtain ⟨moved, forward⟩ := keeps_varint ordered length
  have elsewhere := h.run Read.varint
  rw [length] at elsewhere
  exact ⟨moved.ordered, h.keeps moved (Nat.le_trans h.above forward), elsewhere⟩

mutual

/-- A step sees nothing of the buffer but what is alike. -/
theorem step : (s : Step) → ∀ {r : Reader}, r.Ordered → Alike floor r buffer →
    SeeksFrom floor r (.outside [s]) → (r.onto buffer).step s = (r.step s).onto buffer
  | .read p, _, _, h, _ => h.runStep p.read .scalar
  | .tag, _, _, h, _ => h.runStep Tag.read .tag
  | .packed p, _, _, h, _ => h.runStep p.readPacked .scalars
  | .skip w, _, _, h, _ => h.runStep w.skip .count
  | .seek offset, r, _, _, _ => by
    by_cases inside : offset ≤ r.stop
    · rw [step_seek_of_le inside]
      exact step_seek_of_le (r := r.onto buffer) inside
    · rw [step_seek_of_lt (Nat.lt_of_not_le inside)]
      exact step_seek_of_lt (r := r.onto buffer) (Nat.lt_of_not_le inside)
  | .window size steps, r, ordered, h, seeks => by
    rw [Reader.step, Reader.step]
    refine enter fun fits => ?_
    exact within steps (ordered.within fits).1 (h.window ordered fits)
      (seeks.within rfl (.window fits))
  | .delimited steps, r, ordered, h, seeks => by
    cases length : r.run Read.varint with
    | mk result next =>
      obtain ⟨ordered', alike, elsewhere⟩ := h.varint ordered length
      cases result with
      | error e =>
        rw [step_delimited_of_error length, step_delimited_of_error elsewhere]
        rfl
      | ok size =>
        rw [step_delimited_of_ok length, step_delimited_of_ok elsewhere]
        refine enter fun fits => ?_
        exact within steps (ordered'.within fits).1 (alike.window ordered' fits)
          (seeks.within rfl (.delimited length fits))

theorem within : (steps : List Step) → ∀ {r : Reader}, r.Ordered → Alike floor r buffer →
    SeeksFrom floor r (.inside steps) → (r.onto buffer).within steps = r.within steps
  | [], _, _, _, _ => rfl
  | s :: steps, r, ordered, h, seeks => by
    have first : (Code.inside (s :: steps)).head? r = some s := rfl
    have turn := step s ordered h (seeks.head first)
    rw [Reader.within, Reader.within, turn, Stepped.onto]
    cases value : (r.step s).report.result with
    | error e => rfl
    | ok a =>
      have others : (Code.inside (s :: steps)).tail? (r.step s).report.result =
          some (.inside steps) := by
        rw [value]
        rfl
      have moved := keeps_step ordered s
      have above := floor_le_step h.above (seeks.seek first)
      rw [within steps moved.ordered (h.keeps moved above) (seeks.later first others)]

end

theorem opens (h : Alike floor r buffer) (ordered : r.Ordered) (opens : r.Opens s w inner) :
    Alike floor w buffer ∧ (r.onto buffer).Opens s (w.onto buffer) inner := by
  cases opens with
  | window fits => exact ⟨h.window ordered fits, .window fits⟩
  | delimited length fits =>
    obtain ⟨ordered', alike, elsewhere⟩ := h.varint ordered length
    exact ⟨alike.window ordered' fits, .delimited elsewhere fits⟩
  | packed length fits =>
    obtain ⟨ordered', alike, elsewhere⟩ := h.varint ordered length
    exact ⟨alike.window ordered' fits, .packed elsewhere fits⟩

end Alike

theorem Code.head?_onto (code : Code) (r : Reader) (buffer : Bytes) :
    code.head? (r.onto buffer) = code.head? r := by
  cases code <;> rfl

/-- Over another buffer the same steps are run, at the same places and with the same reports. -/
theorem Visits.onto (visit : Visits r code r' s') (h : r.Ordered) (alike : Alike floor r buffer)
    (seeks : SeeksFrom floor r code) :
    Visits (r.onto buffer) code (r'.onto buffer) s' ∧
      (r'.onto buffer).step s' = (r'.step s').onto buffer := by
  induction visit with
  | @here r code s first =>
    exact ⟨.here ((code.head?_onto r buffer).trans first), alike.step s h (seeks.head first)⟩
  | @later r _ code rest s _ first others _ ih =>
    have moved := keeps_step h s
    have above := floor_le_step alike.above (seeks.seek first)
    have turn := alike.step s h (seeks.head first)
    obtain ⟨visit, same⟩ := ih moved.ordered (alike.keeps moved above) (seeks.later first others)
    have result : code.tail? ((r.onto buffer).step s).report.result = some rest := turn ▸ others
    have reader : ((r.onto buffer).step s).reader = (r.step s).reader.onto buffer :=
      congrArg Stepped.reader turn
    exact ⟨.later ((code.head?_onto r buffer).trans first) result (reader ▸ visit), same⟩
  | @within r w _ code inner s _ first opens _ ih =>
    obtain ⟨alike', opens'⟩ := alike.opens h opens
    obtain ⟨visit, same⟩ := ih (opens.ordered h).1 alike' (seeks.within first opens)
    exact ⟨.within ((code.head?_onto r buffer).trans first) opens' visit, same⟩

/-- Whatever is run in a window, it does not get behind the end of it; a seek that would is refused
and moves nothing. If no seek in the window goes further back than `floor`, nothing gets in front of
that, and only the bytes from there to the end of the window matter. -/
theorem confined (h : r.Ordered) (opens : r.Opens s w inner) :
    (∀ r' s', Visits w inner r' s' →
      r'.position ≤ r'.stop ∧ (r'.step s').reader.position ≤ r'.stop ∧ r'.stop ≤ w.stop) ∧
    (∀ r' offset, Visits w inner r' (.seek offset) →
      (offset ≤ r'.stop → r'.step (.seek offset) =
        { r' with position := offset }.report (.ok .nothing) none) ∧
      (r'.stop < offset → r'.step (.seek offset) =
        r'.report (.error (.underrun (offset - r'.position) r'.remaining)) none)) ∧
    ∀ floor, floor ≤ w.position → SeeksFrom floor w inner → ∀ r' s', Visits w inner r' s' →
      floor ≤ r'.position ∧ floor ≤ (r'.step s').reader.position ∧
      ∀ buffer, (buffer.take w.stop).drop floor = (w.buffer.take w.stop).drop floor →
        Visits (w.onto buffer) inner (r'.onto buffer) s' ∧
          (r'.onto buffer).step s' = (r'.step s').onto buffer := by
  have window := (opens.ordered h).1
  refine ⟨fun r' s' visit => ?behind, fun r' offset _ => ⟨step_seek_of_le, step_seek_of_lt⟩,
    fun floor above seeks r' s' visit => ?front⟩
  case behind =>
    have before := (visit.ordered window).1
    have after := keeps_step before s'
    exact ⟨before.position_le, after.stop ▸ after.ordered.position_le, visit.stop_le window⟩
  case front =>
    obtain ⟨before, after⟩ := visit.floor_le window above seeks
    exact ⟨before, after, fun buffer same => visit.onto window ⟨above, same⟩ seeks⟩

/-- A seek to the window's first byte, and a nested window behind it. -/
theorem confined_nested :
    let steps : List Step := [.seek 1, .window 1 [.read .byte]]
    let w : Reader := ⟨[7, 5, 6, 8], 1, 3⟩
    let r' : Reader := ⟨[7, 5, 6, 8], 1, 2⟩
    let buffer : Bytes := [0, 5, 6]
    Visits w (.inside steps) r' (.read .byte) ∧
      1 ≤ (r'.step (.read .byte)).reader.position ∧
      (r'.step (.read .byte)).reader.position ≤ r'.stop ∧ r'.stop ≤ w.stop ∧
      Visits (w.onto buffer) (.inside steps) (r'.onto buffer) (.read .byte) ∧
      (r'.onto buffer).step (.read .byte) = (r'.step (.read .byte)).onto buffer := by
  intro steps w r' buffer
  have ordered : (⟨[7, 5, 6, 8], 1, 4⟩ : Reader).Ordered := ⟨by decide, by decide⟩
  have opens : (⟨[7, 5, 6, 8], 1, 4⟩ : Reader).Opens (.window 2 steps) w (.inside steps) :=
    .window (by decide)
  have visit : Visits w (.inside steps) r' (.read .byte) :=
    .later rfl rfl (.within rfl (.window (by decide)) (.here rfl))
  have seeks : SeeksFrom 1 w (.inside steps) := seeksFrom_of_text (by decide)
  obtain ⟨behind, -, front⟩ := confined ordered opens
  obtain ⟨-, after, alike⟩ := front 1 (by decide) seeks r' _ visit
  have ends := (behind r' _ visit).2
  exact ⟨visit, after, ends.1, ends.2, alike buffer rfl⟩

/-- A seek in front of the window, and the byte that is read there. -/
theorem confined_seek_in_front :
    let steps : List Step := [.seek 0, .read .byte]
    let r : Reader := ⟨[1, 2], 1, 2⟩
    let w : Reader := ⟨[1, 2], 1, 2⟩
    let front : Reader := ⟨[1, 2], 0, 2⟩
    r.Ordered ∧ r.Opens (.window 1 steps) w (.inside steps) ∧
      Visits w (.inside steps) w (.seek 0) ∧
      w.step (.seek 0) = front.report (.ok .nothing) none ∧ front.position < w.position ∧
      Visits w (.inside steps) front (.read .byte) ∧
      (front.step (.read .byte)).report.result = .ok (.scalar (.u32 1)) :=
  ⟨⟨by decide, by decide⟩, .window (by decide), .here rfl, rfl, by decide,
    .later rfl rfl (.here rfl), rfl⟩

end Reader

end Protowire
