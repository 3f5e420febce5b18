import Protowire.Proofs.Result
import Protowire.Read.Consumes

set_option autoImplicit false

/-!
# What reads take

`Answers` says what a read does with given bytes in front of it, whatever comes after them.
`Recognizes` says which bytes it can take at all, as a language of byte strings with their values.
Both follow the way a read is put together, so that a reader is described without looking at
cursors.
-/

namespace Protowire

variable {α β : Type}

/-- The bytes of the language, with what `f` makes of their values. -/
abbrev Mapped (P : Bytes → α → Prop) (f : α → β) (bytes : Bytes) (b : β) : Prop :=
  ∃ a, P bytes a ∧ f a = b

namespace Read

/-- The result on `bytes` with anything after them. To get a value the read takes exactly
`bytes`. -/
def Answers (x : Read α) (bytes : Bytes) (result : Except Error α) : Prop :=
  ∀ offset after, (x.run ⟨offset, bytes ++ after⟩).result = result ∧
    ∀ a, result = .ok a → (x.run ⟨offset, bytes ++ after⟩).rest = ⟨offset + bytes.length, after⟩

/-- The same for a read that starts at a given place, where errors may mention the place. -/
def AnswersAt (x : Read α) (offset : Nat) (bytes : Bytes) (result : Except Error α) : Prop :=
  ∀ after, (x.run ⟨offset, bytes ++ after⟩).result = result ∧
    ∀ a, result = .ok a → (x.run ⟨offset, bytes ++ after⟩).rest = ⟨offset + bytes.length, after⟩

abbrev Takes (x : Read α) (bytes : Bytes) (a : α) : Prop := x.Answers bytes (.ok a)

/-- Every value that the read gives is one that the language `P` gives the bytes taken for it, and
bytes of the language are taken whatever comes after them. -/
structure Recognizes (x : Read α) (P : Bytes → α → Prop) : Prop where
  takes : ∀ {bytes a}, P bytes a → x.Takes bytes a
  taken : ∀ {c a}, (x.run c).result = .ok a →
    ∃ bytes, c.unread = bytes ++ (x.run c).rest.unread ∧ P bytes a

theorem takes_iff {x : Read α} {bytes : Bytes} {a : α} :
    x.Takes bytes a ↔ ∀ offset after, (x.run ⟨offset, bytes ++ after⟩).result = .ok a ∧
      (x.run ⟨offset, bytes ++ after⟩).rest = ⟨offset + bytes.length, after⟩ := by
  constructor
  · exact fun h offset after => ⟨(h offset after).1, (h offset after).2 a rfl⟩
  · exact fun h offset after => ⟨(h offset after).1, fun _ _ => (h offset after).2⟩

/-- Every value that the read gives, wherever it starts, satisfies `p`. -/
def Yields (x : Read α) (p : α → Prop) : Prop :=
  ∀ c a, (x.run c).result = .ok a → p a

theorem takes_pure (a : α) : (pure a : Read α).Takes [] a := by
  rw [takes_iff]
  intro offset after
  simp

theorem answers_fail (bytes : Bytes) (e : Error) : (fail e : Read α).Answers bytes (.error e) :=
  fun _ _ => ⟨rfl, fun _ h => by cases h⟩

theorem takes_emit (e : Event) : (emit e).Takes [] () := by
  rw [takes_iff]
  intro offset after
  simp [emit]

theorem Takes.bind_answersAt {x : Read α} {f : α → Read β} {offset : Nat} {first second : Bytes}
    {a : α} {result : Except Error β} (hx : x.Takes first a)
    (hf : (f a).AnswersAt (offset + first.length) second result) :
    (x >>= f).AnswersAt offset (first ++ second) result := by
  intro after
  obtain ⟨value, rest⟩ := takes_iff.1 hx offset (second ++ after)
  obtain ⟨answer, final⟩ := hf after
  rw [List.append_assoc, run_bind_of_ok value, rest]
  refine ⟨answer, fun b hb => ?_⟩
  rw [final b hb, List.length_append, Nat.add_assoc]

theorem Takes.bind {x : Read α} {f : α → Read β} {first second : Bytes} {a : α}
    {result : Except Error β} (hx : x.Takes first a) (hf : (f a).Answers second result) :
    (x >>= f).Answers (first ++ second) result :=
  fun offset => hx.bind_answersAt (hf (offset + first.length))

theorem AnswersAt.yields {x : Read α} {offset : Nat} {bytes : Bytes} {a : α} {p : α → Prop}
    (hx : x.AnswersAt offset bytes (.ok a)) (yields : x.Yields p) : p a :=
  yields _ a (hx []).1

theorem AnswersAt.bind_pure {x : Read α} {offset : Nat} {bytes : Bytes} {result : Except Error α}
    (hx : x.AnswersAt offset bytes result) (f : α → β) :
    (x >>= fun a => pure (f a)).AnswersAt offset bytes (f <$> result) := by
  intro after
  obtain ⟨answer, final⟩ := hx after
  cases result with
  | error e =>
    rw [run_bind_of_error answer]
    exact ⟨rfl, fun _ h => by cases h⟩
  | ok a =>
    rw [run_bind_of_ok answer]
    exact ⟨rfl, fun _ _ => final a rfl⟩

theorem Answers.bind_pure {x : Read α} {bytes : Bytes} {result : Except Error α}
    (hx : x.Answers bytes result) (f : α → β) :
    (x >>= fun a => pure (f a)).Answers bytes (f <$> result) :=
  fun offset => AnswersAt.bind_pure (hx offset) f

theorem Answers.map {x : Read α} {bytes : Bytes} {result : Except Error α}
    (hx : x.Answers bytes result) (f : α → β) : (f <$> x).Answers bytes (f <$> result) := by
  rw [map_eq_pure_bind]
  exact hx.bind_pure f

theorem Takes.mapError {x : Read α} {bytes : Bytes} {a : α} (hx : x.Takes bytes a)
    (f : Error → Error) : (x.mapError f).Takes bytes a := by
  rw [takes_iff] at hx ⊢
  intro offset after
  obtain ⟨value, rest⟩ := hx offset after
  simp [Read.mapError, value, rest]

theorem Takes.recover {x : Read α} {bytes : Bytes} {a : α} (hx : x.Takes bytes a)
    (handler : Error → Option (Read α)) : (x.recover handler).Takes bytes a := by
  rw [takes_iff] at hx ⊢
  intro offset after
  obtain ⟨value, rest⟩ := hx offset after
  simp [Read.recover, value, rest]

theorem answersAt_window {inner : Cursor → Logged α} {offset : Nat} {content : Bytes}
    {result : Except Error α} (h : (inner ⟨offset, content⟩).result = result) :
    (window content.length inner).AnswersAt offset content result := by
  intro after
  simp [window, Cursor.take, Cursor.drop, Cursor.remaining, h]

theorem answers_window {inner : Cursor → Logged α} {content : Bytes} {result : Except Error α}
    (h : ∀ offset, (inner ⟨offset, content⟩).result = result) :
    (window content.length inner).Answers content result :=
  fun offset => answersAt_window (h offset)

section Counting

variable {x : Read α} {c : Cursor}

theorem run_count_of_ok {a : α} (h : (x.run c).result = .ok a) :
    (do
      let start ← offset
      let _ ← x
      return (← offset) - start).run c =
        ⟨⟨.ok ((x.run c).rest.offset - c.offset), (x.run c).log⟩, (x.run c).rest⟩ := by
  change ((x >>= fun _ => offset >>= fun stop => pure (stop - c.offset) : Read Nat)).run c = _
  rw [run_bind_of_ok h]
  exact Reading.ext rfl (List.append_nil _) rfl

theorem run_count_of_error {e : Error} (h : (x.run c).result = .error e) :
    (do
      let start ← offset
      let _ ← x
      return (← offset) - start).run c = ⟨⟨.error e, (x.run c).log⟩, (x.run c).rest⟩ := by
  change ((x >>= fun _ => offset >>= fun stop => pure (stop - c.offset) : Read Nat)).run c = _
  rw [run_bind_of_error h]

end Counting

namespace Recognizes

variable {x : Read α} {P Q : Bytes → α → Prop} {R : α → Bytes → β → Prop}

theorem congr (hx : x.Recognizes P) (h : ∀ bytes a, P bytes a ↔ Q bytes a) :
    x.Recognizes Q where
  takes hq := hx.takes ((h _ _).2 hq)
  taken hr := by
    obtain ⟨bytes, unread, hp⟩ := hx.taken hr
    exact ⟨bytes, unread, (h _ _).1 hp⟩

theorem pure (a : α) : (Pure.pure a : Read α).Recognizes (fun bytes b => bytes = [] ∧ b = a) where
  takes h := by
    obtain ⟨rfl, rfl⟩ := h
    exact takes_pure _
  taken h := by
    simp at h
    exact ⟨[], rfl, rfl, h.symm⟩

theorem fail (e : Error) : (Read.fail e : Read α).Recognizes (fun _ _ => False) where
  takes h := h.elim
  taken h := by cases h

theorem emit_bind (e : Event) (hx : x.Recognizes P) :
    (Read.emit e >>= fun _ => x).Recognizes P where
  takes hp := (takes_emit e).bind (hx.takes hp)
  taken h := hx.taken h

/-- One read after the other takes a string of the one language and then one of the other. -/
theorem bind {f : α → Read β} (hx : x.Recognizes P) (hf : ∀ a, (f a).Recognizes (R a)) :
    (x >>= f).Recognizes fun bytes b =>
      ∃ first second a, bytes = first ++ second ∧ P first a ∧ R a second b where
  takes h := by
    obtain ⟨first, second, a, rfl, hp, hr⟩ := h
    exact (hx.takes hp).bind ((hf a).takes hr)
  taken {c b} h := by
    cases hr : (x.run c).result with
    | error e =>
      rw [run_bind_of_error hr] at h
      cases h
    | ok a =>
      rw [run_bind_of_ok hr] at h ⊢
      obtain ⟨first, unread, hp⟩ := hx.taken hr
      obtain ⟨second, unread', hq⟩ := (hf a).taken h
      exact ⟨first ++ second, by rw [unread, unread', List.append_assoc], first, second, a, rfl,
        hp, hq⟩

theorem bind_pure (hx : x.Recognizes P) (f : α → β) :
    (x >>= fun a => Pure.pure (f a)).Recognizes (Mapped P f) := by
  refine (hx.bind fun a => pure (f a)).congr fun bytes b => ?_
  constructor
  · rintro ⟨first, second, a, rfl, hp, rfl, rfl⟩
    exact ⟨a, by simpa using hp, rfl⟩
  · rintro ⟨a, hp, rfl⟩
    exact ⟨bytes, [], a, by simp, hp, rfl, rfl⟩

theorem map (hx : x.Recognizes P) (f : α → β) :
    (f <$> x).Recognizes (Mapped P f) := by
  rw [map_eq_pure_bind]
  exact hx.bind_pure f

theorem mapError (hx : x.Recognizes P) (f : Error → Error) : (x.mapError f).Recognizes P where
  takes h := (hx.takes h).mapError f
  taken h := hx.taken (Result.mapError_eq_ok_iff.1 h)

theorem ofExcept (result : Except Error α) :
    (Read.ofExcept result).Recognizes fun bytes a => bytes = [] ∧ result = .ok a where
  takes h := by
    obtain ⟨rfl, rfl⟩ := h
    exact takes_pure _
  taken h := ⟨[], rfl, rfl, h⟩

/-- Working a result out of a value drops the strings whose value has none. -/
theorem bind_ofExcept (hx : x.Recognizes P) (f : α → Except Error β) :
    (x >>= fun a => Read.ofExcept (f a)).Recognizes fun bytes b =>
      ∃ a, P bytes a ∧ f a = .ok b := by
  refine (hx.bind fun a => ofExcept (f a)).congr fun bytes b => ?_
  constructor
  · rintro ⟨first, second, a, rfl, hp, rfl, hf⟩
    exact ⟨a, by simpa using hp, hf⟩
  · rintro ⟨a, hp, hf⟩
    exact ⟨bytes, [], a, by simp, hp, rfl, hf⟩

theorem byte : Read.byte.Recognizes (fun bytes b => bytes = [b]) where
  takes h := by
    subst h
    rw [takes_iff]
    intro offset after
    simp [Read.byte, Cursor.drop]
  taken {c b} h := by
    cases hc : c.unread with
    | nil => simp [Read.byte, hc] at h
    | cons first rest =>
      obtain rfl : first = b := by simpa [Read.byte, hc] using h
      exact ⟨[first], by simp [Read.byte, hc, Cursor.drop], rfl⟩

/-- A window takes its bytes for whatever value they have on their own. -/
theorem window (n : Nat) {inner : Cursor → Logged α}
    (h : ∀ c a, (inner c).result = .ok a ↔ P c.unread a) :
    (Read.window n inner).Recognizes fun bytes a => bytes.length = n ∧ P bytes a where
  takes hp := by
    obtain ⟨rfl, hp⟩ := hp
    exact answers_window fun offset => (h _ _).2 hp
  taken {c a} hr := by
    by_cases hn : n ≤ c.remaining
    · simp only [Read.window, hn, if_true] at hr ⊢
      refine ⟨c.unread.take n, ?_, ?_, (h _ _).1 hr⟩
      · simp [Cursor.drop]
      · rw [List.length_take]
        exact Nat.min_eq_left hn
    · simp [Read.window, hn] at hr

theorem take (n : Nat) : (Read.take n).Recognizes fun bytes b => bytes.length = n ∧ bytes = b :=
  window n fun c b => by
    change Except.ok c.unread = .ok b ↔ _
    simp

/-- The place at which a read starts does not show in what it takes. -/
theorem offset_bind {f : Nat → Read α} (h : ∀ start, (f start).Recognizes P) :
    (offset >>= f).Recognizes P where
  takes hp := by
    rw [takes_iff]
    intro start after
    exact takes_iff.1 ((h start).takes hp) start after
  taken {c a} hr := (h c.offset).taken hr

/-- The bytes that a read takes, counted from outside. -/
theorem count (hx : x.Recognizes P) :
    (do
      let start ← offset
      let _ ← x
      return (← offset) - start).Recognizes fun bytes n => n = bytes.length ∧ ∃ a, P bytes a where
  takes {bytes n} h := by
    obtain ⟨rfl, a, hp⟩ := h
    rw [takes_iff]
    intro start after
    obtain ⟨value, rest⟩ := takes_iff.1 (hx.takes hp) start after
    rw [run_count_of_ok value, rest]
    simp
  taken {c n} h := by
    cases hr : (x.run c).result with
    | error e =>
      rw [run_count_of_error hr] at h
      cases h
    | ok a =>
      obtain ⟨bytes, unread, hp⟩ := hx.taken hr
      obtain ⟨-, rest⟩ := takes_iff.1 (hx.takes hp) c.offset (x.run c).rest.unread
      rw [← unread] at rest
      have moved : (x.run c).rest.offset = c.offset + bytes.length := by rw [rest]
      rw [run_count_of_ok hr] at h ⊢
      rw [Except.ok.injEq, moved] at h
      exact ⟨bytes, unread, by omega, a, hp⟩

end Recognizes

namespace Yields

variable {x : Read α} {p q : α → Prop} {r : β → Prop}

theorem imp (hx : x.Yields p) (h : ∀ a, p a → q a) : x.Yields q :=
  fun c a value => h a (hx c a value)

theorem pure {a : α} (h : p a) : (Pure.pure a : Read α).Yields p := by
  intro c b value
  cases value
  exact h

theorem bind {f : α → Read β} (hx : x.Yields p) (hf : ∀ a, p a → (f a).Yields r) :
    (x >>= f).Yields r := by
  intro c b value
  cases h : (x.run c).result with
  | error e =>
    rw [run_bind_of_error h] at value
    cases value
  | ok a =>
    rw [run_bind_of_ok h] at value
    exact hf a (hx c a h) _ b value

/-- What was read before does not matter. -/
theorem after {f : α → Read β} (hf : ∀ a, (f a).Yields r) : (x >>= f).Yields r :=
  bind (fun _ _ _ => trivial) fun a (_ : True) => hf a

theorem window {n : Nat} {inner : Cursor → Logged α} (h : ∀ c a, (inner c).result = .ok a → p a) :
    (Read.window n inner).Yields p := by
  intro c a value
  by_cases hn : n ≤ c.remaining
  · simp only [Read.window, hn, if_true] at value
    exact h _ a value
  · simp [Read.window, hn] at value

theorem delimited {inner : Cursor → Logged α} (h : ∀ c a, (inner c).result = .ok a → p a) :
    (Read.delimited inner).Yields p :=
  after fun _ => window h

end Yields

theorem Recognizes.yields {x : Read α} {P : Bytes → α → Prop} (hx : x.Recognizes P) :
    x.Yields fun a => ∃ bytes, P bytes a := by
  intro c a value
  obtain ⟨bytes, -, hp⟩ := hx.taken value
  exact ⟨bytes, hp⟩

end Read

end Protowire
