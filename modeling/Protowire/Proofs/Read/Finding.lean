import Protowire.Proofs.Finding
import Protowire.Proofs.Read.Logs
import Protowire.Proofs.Tag

set_option autoImplicit false

/-!
# What reads find

A read that succeeds tells of what it met in the bytes that it took. For most reads these bytes
alone decide what that is. Only to know that a tag is malformed the window behind has to be looked
at, since stepping over the tag takes a single byte of it.
-/

namespace Protowire

namespace Read

variable {α β : Type} {x : Read α} {c : Cursor}

/-- What comes behind a read that logged nothing is all that is logged. -/
theorem run_bind_of_silent {a : α} {d : Cursor} (h : x.run c = ⟨⟨.ok a, []⟩, d⟩)
    (f : α → Read β) : (x >>= f).run c = (f a).run d := by
  rw [run_bind_of_ok (a := a) (by rw [h]), h]
  rfl

end Read

/-- The computation succeeds and tells of these findings. -/
def Logged.Tells {α : Type} (x : Logged α) (found : List Finding) : Prop :=
  (∃ a, x.result = .ok a) ∧ Shows x.log found

/-- What is made of the value in the end does not matter. -/
theorem Logged.tells_bind_pure_iff {α β : Type} {x : Logged α} (f : α → β)
    {found : List Finding} : (x >>= fun a => pure (f a)).Tells found ↔ x.Tells found := by
  cases h : x.result with
  | error e =>
    rw [bind_of_error h, Tells, Tells, h]
    simp
  | ok a =>
    rw [bind_of_ok h, Tells, Tells, h]
    simp

namespace Read

variable {α β : Type} {x : Read α}

/-- In terms of what stands in the window: what is found where the read succeeds, and what it
leaves. -/
def Finds (x : Read α) (R : Bytes → List Finding → Bytes → Prop) : Prop :=
  ∀ c found rest, (x.run c).Tells found ∧ (x.run c).rest.unread = rest ↔ R c.unread found rest

/-- The bytes that are taken decide what is found. -/
abbrev Tells (x : Read α) (P : Bytes → List Finding → Prop) : Prop :=
  x.Finds fun window found rest => ∃ bytes, window = bytes ++ rest ∧ P bytes found

theorem Finds.congr {R S : Bytes → List Finding → Bytes → Prop} (hx : x.Finds R)
    (h : ∀ window found rest, R window found rest ↔ S window found rest) : x.Finds S :=
  fun c found rest => (hx c found rest).trans (h _ _ _)

namespace Tells

variable {P : Bytes → List Finding → Prop}

theorem congr {Q : Bytes → List Finding → Prop} (hx : x.Tells P)
    (h : ∀ bytes found, P bytes found ↔ Q bytes found) : x.Tells Q :=
  Finds.congr hx fun _ _ _ => exists_congr fun bytes => and_congr_right fun _ => h bytes _

theorem pure (a : α) : (Pure.pure a : Read α).Tells fun bytes found => bytes = [] ∧ found = [] := by
  intro c found rest
  constructor
  · rintro ⟨⟨-, shows⟩, rfl⟩
    exact ⟨[], rfl, rfl, shows_nil_iff.1 shows⟩
  · rintro ⟨_, unread, rfl, rfl⟩
    exact ⟨⟨⟨a, rfl⟩, shows_nil_iff.2 rfl⟩, unread⟩

/-- A silent read leaves it to the next one to find something. -/
theorem bind {L : Bytes → α → Prop} {f : α → Read β} {Q : α → Bytes → List Finding → Prop}
    (hx : x.Recognizes L) (silent : x.Silent) (hf : ∀ a, (f a).Tells (Q a)) :
    (x >>= f).Tells fun bytes found =>
      ∃ first second a, bytes = first ++ second ∧ L first a ∧ Q a second found := by
  intro c found rest
  constructor
  · rintro ⟨⟨⟨b, value⟩, shows⟩, rfl⟩
    cases hr : (x.run c).result with
    | error e =>
      rw [run_bind_of_error hr] at value
      cases value
    | ok a =>
      rw [run_bind_of_silent (silent.run_eq hr)] at value shows ⊢
      obtain ⟨first, unread, hl⟩ := hx.taken hr
      obtain ⟨second, unread', hq⟩ := (hf a _ _ _).1 ⟨⟨⟨b, value⟩, shows⟩, rfl⟩
      exact ⟨first ++ second, by rw [unread, unread', List.append_assoc], first, second, a, rfl,
        hl, hq⟩
  · rintro ⟨_, unread, first, second, a, rfl, hl, hq⟩
    obtain ⟨offset, window⟩ := c
    obtain rfl : window = first ++ (second ++ rest) := unread.trans (List.append_assoc ..)
    obtain ⟨value, after⟩ := takes_iff.1 (hx.takes hl) offset (second ++ rest)
    rw [run_bind_of_silent (silent.run_eq value), after]
    exact (hf a ⟨offset + first.length, second ++ rest⟩ found rest).2 ⟨second, rfl, hq⟩

theorem of_silent {L : Bytes → α → Prop} (hx : x.Recognizes L) (silent : x.Silent) :
    x.Tells (Mapped L fun _ => []) := by
  have told := bind hx silent fun a => pure a
  rw [bind_pure] at told
  refine told.congr fun bytes found => ?_
  constructor
  · rintro ⟨first, _, a, rfl, hl, rfl, rfl⟩
    exact ⟨a, by rwa [List.append_nil], rfl⟩
  · rintro ⟨a, hl, rfl⟩
    exact ⟨bytes, [], a, (List.append_nil _).symm, hl, rfl, rfl⟩

end Tells

theorem Finds.bind_pure {R : Bytes → List Finding → Bytes → Prop} (hx : x.Finds R) (f : α → β) :
    (x >>= fun a => pure (f a)).Finds R := by
  intro c found rest
  rw [← hx c found rest]
  cases h : (x.run c).result with
  | error e =>
    rw [run_bind_of_error h, Logged.Tells, Logged.Tells, h]
    simp
  | ok a =>
    rw [run_bind_of_ok h, Logged.Tells, Logged.Tells, h]
    simp

namespace Tells

variable {P : Bytes → List Finding → Prop}

theorem bind_pure (hx : x.Tells P) (f : α → β) : (x >>= fun a => Pure.pure (f a)).Tells P :=
  Finds.bind_pure hx f

/-- The event of a finding in front of a read. -/
theorem emit_bind {e : Event} {f : Finding}
    (finding : e.finding? = some f) (hx : x.Tells P) :
    (Read.emit e >>= fun _ => x).Tells (Mapped P (f :: ·)) := by
  intro c found rest
  have run : (Read.emit e >>= fun _ => x).run c =
      ⟨⟨(x.run c).result, e :: (x.run c).log⟩, (x.run c).rest⟩ := run_bind_of_ok rfl _
  rw [run]
  constructor
  · rintro ⟨⟨value, shows⟩, left⟩
    obtain ⟨f', others, rfl, first, shows⟩ := shows_cons_iff.1 shows
    obtain rfl : f' = f := Option.some.inj (first.symm.trans finding)
    obtain ⟨bytes, unread, hp⟩ := (hx c others rest).1 ⟨⟨value, shows⟩, left⟩
    exact ⟨bytes, unread, others, hp, rfl⟩
  · rintro ⟨bytes, unread, others, hp, rfl⟩
    obtain ⟨⟨value, shows⟩, left⟩ := (hx c others rest).2 ⟨bytes, unread, hp⟩
    exact ⟨⟨value, shows_cons_iff.2 ⟨f, others, rfl, finding, shows⟩⟩, left⟩

variable {inner : Cursor → Logged α}

theorem window (n : Nat) (h : ∀ w found, (inner w).Tells found ↔ P w.unread found) :
    (Read.window n inner).Tells fun bytes found => bytes.length = n ∧ P bytes found := by
  intro c found rest
  by_cases fits : n ≤ c.remaining
  · have run : (Read.window n inner).run c = ⟨inner (c.take n), c.drop n⟩ := if_pos fits
    have length : (c.unread.take n).length = n := List.length_take_of_le fits
    rw [run, h]
    constructor
    · rintro ⟨hp, rfl⟩
      exact ⟨c.unread.take n, (List.take_append_drop n c.unread).symm, length, hp⟩
    · rintro ⟨bytes, unread, rfl, hp⟩
      have front : (c.take bytes.length).unread = bytes := by
        rw [Cursor.take, unread, List.take_left]
      have behind : (c.drop bytes.length).unread = rest := by
        rw [Cursor.drop, unread, List.drop_left]
      exact ⟨front.symm ▸ hp, behind⟩
  · have run : (Read.window n inner).run c = ⟨⟨.error (.underrun n c.remaining), []⟩, c⟩ :=
      if_neg fits
    rw [run]
    constructor
    · rintro ⟨⟨⟨a, value⟩, -⟩, -⟩
      cases value
    · rintro ⟨bytes, unread, rfl, -⟩
      refine absurd ?_ fits
      rw [Cursor.remaining, unread, List.length_append]
      exact Nat.le_add_right _ _

theorem delimited (h : ∀ w found, (inner w).Tells found ↔ P w.unread found) :
    (Read.delimited inner).Tells (Framed P) := by
  have told := bind recognizes_varint Logs.varint fun n => window n.toNat h
  refine told.congr fun bytes found => ?_
  constructor
  · rintro ⟨head, content, n, rfl, spelled, length, hp⟩
    exact ⟨content, ⟨head, n, rfl, spelled, length.symm⟩, hp⟩
  · rintro ⟨content, ⟨head, n, rfl, spelled, length⟩, hp⟩
    exact ⟨head, content, n, rfl, spelled, length.symm, hp⟩

end Tells

end Read

/-- What is found in a window that holds items one behind the other. `one` says what an item is
that the rest of a window begins with, and what it leaves. -/
inductive Items (one : Bytes → List Finding → Bytes → Prop) : Bytes → List Finding → Prop
  | done : Items one [] []
  | item {window rest : Bytes} {first others : List Finding} : window ≠ [] →
      one window first rest → Items one rest others → Items one window (first ++ others)

namespace Read

variable {α : Type} {x : Read α} {R : Bytes → List Finding → Bytes → Prop}

theorem tells_values_untilEnd_iff (finds : x.Finds R) (consumes : x.Consumes) (c : Cursor)
    (found : List Finding) :
    (x.untilEnd consumes c).values.Tells found ↔ Items R c.unread found := by
  constructor
  · rintro ⟨⟨as, value⟩, shows⟩
    induction length : c.remaining using Nat.strongRecOn generalizing c found as with
    | ind n ih =>
      by_cases empty : c.unread = []
      · rw [untilEnd_of_nil empty] at shows
        obtain rfl := shows_nil_iff.1 shows
        rw [empty]
        exact .done
      · cases hr : (x.run c).result with
        | error e =>
          rw [untilEnd_of_error empty hr] at value
          cases value
        | ok a =>
          rw [untilEnd_of_ok empty hr] at value shows
          obtain ⟨first, others, rfl, here, later⟩ := shows_append_iff.1 shows
          obtain ⟨as, value, -⟩ := Result.map_eq_ok_iff.1 value
          have shorter := length ▸ consumes c a hr
          exact .item empty ((finds _ _ _).1 ⟨⟨⟨a, hr⟩, here⟩, rfl⟩)
            (ih _ shorter _ _ later as value rfl)
  · intro items
    generalize unread : c.unread = window at items
    induction items generalizing c with
    | done =>
      rw [untilEnd_of_nil unread]
      exact ⟨⟨[], rfl⟩, rfl⟩
    | item nonempty one _ ih =>
      rw [← unread] at nonempty one
      obtain ⟨⟨⟨a, value⟩, here⟩, left⟩ := (finds _ _ _).2 one
      obtain ⟨⟨as, others⟩, later⟩ := ih _ left
      rw [untilEnd_of_ok nonempty value, Transcript.values, others]
      exact ⟨⟨a :: as, rfl⟩, here.append later⟩

end Read

namespace Tag

/-- The window begins with a varint that is no tag, or with ten bytes that ask for more. -/
def Malformed (window : Bytes) : Prop :=
  (∃ bytes rest raw, window = bytes ++ rest ∧ Varint.Spells bytes raw ∧
    ∀ t : Tag, t.raw.toUInt64 ≠ raw) ∨
  10 ≤ window.length ∧ ∀ b ∈ window.take 10, 0x80 ≤ b

theorem malformed_iff {c : Cursor} :
    (∃ offset raw, (read.run c).result = .error (.malformedTag offset raw)) ↔
      Malformed c.unread := by
  constructor
  · rintro ⟨offset, raw, failed⟩
    obtain ⟨taken, reads⟩ := reads_of_read failed
    generalize c.unread = window at reads
    cases reads with
    | malformed spelled other rest => exact .inl ⟨_, rest, raw, rfl, spelled, other⟩
    | overlong length high rest =>
      refine .inr ⟨?_, ?_⟩
      · rw [List.length_append, length]
        exact Nat.le_add_right 10 _
      · rwa [← length, List.take_left]
  · rintro (⟨bytes, rest, raw, unread, spelled, other⟩ | ⟨whole, high⟩)
    · have reads : Reads c.offset _ _ _ := .malformed spelled other rest
      rw [← unread] at reads
      exact ⟨_, _, (read_of_reads reads).1⟩
    · have reads : Reads c.offset _ _ _ := .overlong (List.length_take_of_le whole) high
        (c.unread.drop 10)
      rw [List.take_append_drop] at reads
      exact ⟨_, _, (read_of_reads reads).1⟩

variable {policy : MalformedTagPolicy} {β : Type} {f : Option Tag → Read β}

/-- Behind a tag its payload is read, under every policy. -/
theorem run_next_bind_of_spells {head : Bytes} {t : Tag} (spelled : Spells head t) (offset : Nat)
    (rest : Bytes) :
    (next policy >>= f).run ⟨offset, head ++ rest⟩ =
      (f (some t)).run ⟨offset + head.length, rest⟩ := by
  obtain ⟨value, after⟩ := Read.takes_iff.1 (recognizes_read.takes spelled) offset rest
  have next := @next_of_ok _ policy t value
  rw [Read.Silent.log_eq logs_read, after] at next
  rw [Read.run_bind_of_silent next]

/-- Of a malformed tag one byte is stepped over, which is told in the log. -/
theorem run_next_bind_of_malformed {b : UInt8} {rest : Bytes} {a : β}
    (malformed : Malformed (b :: rest)) (stepped : f none = pure a) (offset : Nat) :
    ∃ e : Event, e.finding? = some .malformed ∧
      (next .resync >>= f).run ⟨offset, b :: rest⟩ = ⟨⟨.ok a, [e]⟩, ⟨offset + 1, rest⟩⟩ := by
  obtain ⟨start, raw, failed⟩ := (@malformed_iff ⟨offset, b :: rest⟩).2 malformed
  have next := next_resync_of_malformed failed
  rw [Read.Silent.log_eq logs_read] at next
  refine ⟨.malformedTag raw start, rfl, ?_⟩
  rw [Read.run_bind_of_ok (a := none) (by rw [next]), next, stepped]
  rfl

/-- There is no other way past a tag. -/
theorem next_cases {c : Cursor} {o : Option Tag} (h : ((next policy).run c).result = .ok o) :
    (∃ head rest t, c.unread = head ++ rest ∧ Spells head t) ∨
      policy = .resync ∧ ∃ b rest, c.unread = b :: rest ∧ Malformed (b :: rest) := by
  cases hr : (read.run c).result with
  | ok t =>
    obtain ⟨head, unread, spelled⟩ := recognizes_read.taken hr
    exact .inl ⟨head, _, t, unread, spelled⟩
  | error e =>
    by_cases handled : policy = .resync ∧ ∃ offset raw, e = .malformedTag offset raw
    · obtain ⟨resync, offset, raw, rfl⟩ := handled
      have malformed := malformed_iff.1 ⟨_, _, hr⟩
      obtain ⟨b, rest, unread⟩ := List.exists_cons_of_ne_nil (unread_ne_nil_of_malformed hr)
      exact .inr ⟨resync, b, rest, unread, unread ▸ malformed⟩
    · have failed := @next_of_error c policy e hr fun resync offset raw same =>
        handled ⟨resync, offset, raw, same⟩
      rw [failed] at h
      cases h

/-- An item that begins with a tag, and has behind it what `body` says. Under the policy that steps
over malformed tags, one byte of such a tag is an item as well. -/
inductive Leads (policy : MalformedTagPolicy) (body : Tag → Bytes → List Finding → Prop) :
    Bytes → List Finding → Bytes → Prop
  | malformed {b : UInt8} {rest : Bytes} : policy = .resync → Malformed (b :: rest) →
      Leads policy body (b :: rest) [.malformed] rest
  | tag {head payload rest : Bytes} {t : Tag} {found : List Finding} : Spells head t →
      body t payload found → Leads policy body (head ++ (payload ++ rest)) found rest

variable {body : Tag → Bytes → List Finding → Prop}

theorem finds_next_bind {a : β} (stepped : f none = pure a)
    (tagged : ∀ t, (f (some t)).Tells (body t)) :
    (next policy >>= f).Finds (Leads policy body) := by
  rintro ⟨offset, window⟩ found rest
  constructor
  · rintro ⟨⟨⟨v, value⟩, shows⟩, left⟩
    cases result : ((next policy).run ⟨offset, window⟩).result with
    | error e =>
      rw [Read.run_bind_of_error result] at value
      cases value
    | ok o =>
      obtain ⟨head, behind, t, rfl, spelled⟩ | ⟨rfl, b, behind, rfl, malformed⟩ :=
        next_cases result
      · rw [run_next_bind_of_spells spelled] at value shows left
        obtain ⟨payload, rfl, told⟩ := (tagged t _ _ _).1 ⟨⟨⟨v, value⟩, shows⟩, left⟩
        exact .tag spelled told
      · obtain ⟨e, finding, run⟩ := run_next_bind_of_malformed malformed stepped offset
        have only : Shows [e] [.malformed] := congrArg ([·]) finding
        rw [run] at shows left
        obtain rfl := only.unique shows
        obtain rfl : behind = rest := left
        exact .malformed rfl malformed
  · intro leads
    cases leads with
    | malformed resync malformed =>
      obtain rfl := resync
      obtain ⟨e, finding, run⟩ := run_next_bind_of_malformed malformed stepped offset
      rw [run]
      exact ⟨⟨⟨a, rfl⟩, congrArg ([·]) finding⟩, rfl⟩
    | @tag head payload _ t _ spelled told =>
      have told := (tagged t ⟨offset + head.length, payload ++ rest⟩ found rest).2
        ⟨payload, rfl, told⟩
      rw [← @run_next_bind_of_spells policy _ _ _ _ spelled] at told
      exact told

end Tag

end Protowire
