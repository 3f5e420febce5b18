import Protowire.Event

set_option autoImplicit false

/-!
# Findings

What decoding meets in the bytes that it has to tell about. Every event that decoding logs is about
one finding, and its level is that of the finding.
-/

namespace Protowire

inductive Finding
  /-- A malformed tag that is stepped over. -/
  | malformed
  /-- A record of a field that the table knows. -/
  | known
  /-- The same record, if its wire type is not one that the field takes. -/
  | mismatched
  /-- A record of a field that the table does not know. -/
  | unknown
  /-- A record of a map entry that is neither its key nor its value. -/
  | stray
  deriving DecidableEq

def Finding.level : Finding → Level
  | malformed | mismatched => .warn
  | unknown | stray => .debug
  | known => .trace

/-- Building a table and leaving off a default are no findings. -/
def Event.finding? : Event → Option Finding
  | malformedTag .. => some .malformed
  | knownField .. => some .known
  | mismatchedField .. => some .mismatched
  | unknownField .. => some .unknown
  | strayEntryField .. => some .stray
  | omittedDefault .. | builtTable .. => none

/-- The event is one that decoding logs about what it met. -/
def Event.IsFinding (e : Event) : Prop := ∃ f, e.finding? = some f

theorem Event.level_of_finding? {e : Event} {f : Finding} (h : e.finding? = some f) :
    e.level = f.level := by
  cases e <;> cases h <;> rfl

/-- The log tells of these findings in turn, and of nothing else. -/
def Shows (log : List Event) (found : List Finding) : Prop :=
  log.map Event.finding? = found.map some

section Shows

variable {log log' : List Event} {found found' : List Finding} {e : Event} {f : Finding}

theorem shows_nil_iff : Shows [] found ↔ found = [] := by
  rw [Shows, List.map_nil, eq_comm, List.map_eq_nil_iff]

theorem shows_cons_iff :
    Shows (e :: log) found ↔ ∃ f fs, found = f :: fs ∧ e.finding? = some f ∧ Shows log fs := by
  cases found with
  | nil => simp [Shows]
  | cons f fs =>
    constructor
    · intro shows
      obtain ⟨first, others⟩ := List.cons.inj shows
      exact ⟨f, fs, rfl, first, others⟩
    · rintro ⟨_, _, same, first, others⟩
      cases same
      exact congr (congrArg List.cons first) others

theorem shows_append_iff :
    Shows (log ++ log') found ↔
      ∃ first second, found = first ++ second ∧ Shows log first ∧ Shows log' second := by
  rw [Shows, List.map_append, eq_comm, List.map_eq_append_iff]
  refine exists₂_congr fun first second => ?_
  exact and_congr_right fun _ => and_congr eq_comm eq_comm

theorem Shows.append (h : Shows log found) (h' : Shows log' found') :
    Shows (log ++ log') (found ++ found') :=
  shows_append_iff.2 ⟨found, found', rfl, h, h'⟩

theorem exists_shows (h : ∀ e ∈ log, e.IsFinding) : ∃ found, Shows log found := by
  induction log with
  | nil => exact ⟨[], rfl⟩
  | cons e log ih =>
    obtain ⟨⟨f, first⟩, others⟩ := List.forall_mem_cons.1 h
    obtain ⟨found, shows⟩ := ih others
    exact ⟨f :: found, shows_cons_iff.2 ⟨f, found, rfl, first, shows⟩⟩

/-- A log tells of nothing else than it does. -/
theorem Shows.unique (h : Shows log found) (h' : Shows log found') : found' = found :=
  (List.map_inj_right fun _ _ => Option.some.inj).1 (h'.symm.trans h)

theorem Shows.countP_level (h : Shows log found) (l : Level) :
    log.countP (·.level = l) = found.countP (·.level = l) := by
  induction log generalizing found with
  | nil =>
    obtain rfl := shows_nil_iff.1 h
    rfl
  | cons e log ih =>
    obtain ⟨f, fs, rfl, first, others⟩ := shows_cons_iff.1 h
    rw [List.countP_cons, List.countP_cons, ih others, Event.level_of_finding? first]

end Shows

/-- Malformed tags and mismatched records are warned of, records that are unknown or stray are
debugging matters, and every known record leaves a trace. -/
theorem Finding.countP_level (found : List Finding) :
    found.countP (·.level = .warn) = found.count .malformed + found.count .mismatched ∧
      found.countP (·.level = .debug) = found.count .unknown + found.count .stray ∧
      found.countP (·.level = .trace) = found.count .known := by
  induction found with
  | nil => exact ⟨rfl, rfl, rfl⟩
  | cons f found ih =>
    obtain ⟨warn, debug, trace⟩ := ih
    simp only [List.countP_cons, List.count_cons, warn, debug, trace]
    cases f <;> simp [level] <;> omega

end Protowire
