import Mathlib.Data.List.Basic
import Mathlib.Tactic.Lemma
import Mathlib.Tactic.TypeStar

/-!
# Length-framed streams

Messages sent one after the other as a header of fixed size and a payload, and the position a reader has
reached in such a stream after some number of bytes. `Pos` is that position: at a boundary between two
messages, or inside the payload of one. `Pos.consume` moves it over the next bytes and yields the
messages completed on the way; it fails exactly where the bytes end within a header
(`Format.locate_eq_none`). `Pos.consume_add` says that the way the bytes are cut does not matter, and
`Pos.bytes_of_consume` that the position is faithful to the bytes.
-/

namespace Projector

/-- Messages `μ` written as a header of fixed size and a payload over the alphabet `β`. -/
structure Format (μ β : Type*) where
  size : Nat
  size_pos : 0 < size
  header : μ → List β
  payload : μ → List β
  length_header : ∀ m, (header m).length = size

namespace Format

variable {μ β : Type*} (F : Format μ β)

/-- A message on the wire. -/
def encode (m : μ) : List β := F.header m ++ F.payload m

/-- Messages on the wire, one after the other. -/
def stream (ms : List μ) : List β := ms.flatMap F.encode

/-- The number of bytes of a message. -/
lemma length_encode (m : μ) : (F.encode m).length = F.size + (F.payload m).length := by
  simp [encode, F.length_header]

/-- No messages, no bytes. -/
@[simp] lemma stream_nil : F.stream [] = [] := rfl

/-- The bytes of the first message come first. -/
lemma stream_cons (m : μ) (ms : List μ) : F.stream (m :: ms) = F.encode m ++ F.stream ms := rfl

/-- A stream can be split between two messages. -/
lemma stream_append (ms ns : List μ) : F.stream (ms ++ ns) = F.stream ms ++ F.stream ns := by
  simp [stream]

/-- The point `n` of the stream lies strictly inside the header of some message. -/
def SplitsHeader (ms : List μ) (n : Nat) : Prop :=
  ∃ pre m post, ms = pre ++ m :: post ∧
    (F.stream pre).length < n ∧ n < (F.stream pre).length + F.size

/-- A split header is part of the stream. -/
lemma SplitsHeader.le {F : Format μ β} {ms : List μ} {n : Nat} (h : F.SplitsHeader ms n) :
    n ≤ (F.stream ms).length := by
  obtain ⟨pre, m, post, rfl, _, hi⟩ := h
  rw [stream_append, stream_cons, List.length_append, List.length_append, F.length_encode]
  omega

/-- How far a reader has got in a stream of messages. -/
inductive Pos where
  | boundary (rest : List μ)
  | inside (m : μ) (k : Nat) (rest : List μ) (lt : k < (F.payload m).length)

/-- The position `n` bytes into the given messages, with the messages completed before it. -/
def locate : List μ → Nat → Option (List μ × F.Pos)
  | [], n => if n = 0 then some ([], .boundary []) else none
  | m :: ms, n =>
    if n = 0 then some ([], .boundary (m :: ms))
    else if n < F.size then none
    else if h : n - F.size < (F.payload m).length then
      some ([], .inside m (n - F.size) ms h)
    else
      (locate ms (n - F.size - (F.payload m).length)).map (fun r => (m :: r.1, r.2))

/-- In front of the first byte is the first boundary. -/
@[simp] lemma locate_zero (ms : List μ) : F.locate ms 0 = some ([], .boundary ms) := by
  cases ms <;> simp [locate]

/-- There is no position behind the end. -/
@[simp] lemma locate_nil {n : Nat} (nz : n ≠ 0) : F.locate [] n = none := by
  simp [locate, nz]

section cut

variable {F} {m : μ} {ms : List μ} {n k : Nat}

/-- Where a number of bytes that starts with the message `m` may end. -/
inductive Cut (F : Format μ β) (m : μ) : Nat → Prop
  | start : Cut F m 0
  | header {n : Nat} (pos : 0 < n) (lt : n < F.size) : Cut F m n
  | payload {k : Nat} (lt : k < (F.payload m).length) : Cut F m (F.size + k)
  | past (k : Nat) : Cut F m (F.size + ((F.payload m).length + k))

/-- Every number of bytes is one of these. -/
lemma cut (F : Format μ β) (m : μ) (n : Nat) : F.Cut m n := by
  rcases Nat.eq_zero_or_pos n with rfl | pos
  · exact .start
  · rcases Nat.lt_or_ge n F.size with lt | ge
    · exact .header pos lt
    · obtain ⟨k, rfl⟩ := Nat.exists_eq_add_of_le ge
      rcases Nat.lt_or_ge k (F.payload m).length with lt | ge
      · exact .payload lt
      · obtain ⟨k, rfl⟩ := Nat.exists_eq_add_of_le ge
        exact .past k

/-- There is no position inside a header. -/
lemma locate_header (pos : 0 < n) (lt : n < F.size) : F.locate (m :: ms) n = none := by
  have nz : n ≠ 0 := by omega
  simp [locate, nz, lt]

/-- The positions behind the first header. -/
lemma locate_size_add (m : μ) (ms : List μ) (k : Nat) :
    F.locate (m :: ms) (F.size + k) =
      if h : k < (F.payload m).length then some ([], .inside m k ms h)
      else (F.locate ms (k - (F.payload m).length)).map (fun r => (m :: r.1, r.2)) := by
  have pos := F.size_pos
  have nz : F.size + k ≠ 0 := by omega
  have behind : ¬ F.size + k < F.size := by omega
  rw [locate, if_neg nz, if_neg behind]
  simp only [Nat.add_sub_cancel_left]

/-- A point behind the header of the first message, in front of its last byte. -/
lemma locate_payload (lt : k < (F.payload m).length) :
    F.locate (m :: ms) (F.size + k) = some ([], .inside m k ms lt) := by
  rw [locate_size_add, dif_pos lt]

/-- Behind the first message the position is one of the rest. -/
lemma locate_past (m : μ) (ms : List μ) (k : Nat) :
    F.locate (m :: ms) (F.size + ((F.payload m).length + k)) =
      (F.locate ms k).map (fun r => (m :: r.1, r.2)) := by
  rw [locate_size_add, dif_neg (by omega), Nat.add_sub_cancel_left]

/-- The stream behind the first header. -/
lemma drop_stream (m : μ) (ms : List μ) (k : Nat) :
    (F.stream (m :: ms)).drop (F.size + k) = (F.payload m ++ F.stream ms).drop k := by
  rw [stream_cons, encode, List.append_assoc, ← F.length_header m, List.drop_length_add_append]

/-- The length of a stream by that of its first message. -/
lemma length_stream_cons (m : μ) (ms : List μ) :
    (F.stream (m :: ms)).length = F.size + ((F.payload m).length + (F.stream ms).length) := by
  rw [stream_cons, List.length_append, length_encode, Nat.add_assoc]

/-- A split header is that of the first message or one further on. -/
lemma splitsHeader_cons : F.SplitsHeader (m :: ms) n ↔ (0 < n ∧ n < F.size) ∨
    ∃ k, n = F.size + ((F.payload m).length + k) ∧ F.SplitsHeader ms k := by
  constructor
  · rintro ⟨pre, x, post, e, lo, hi⟩
    cases pre with
    | nil => exact Or.inl ⟨by simpa using lo, by simpa using hi⟩
    | cons y pre =>
      rw [List.cons_append, List.cons.injEq] at e
      obtain ⟨rfl, rfl⟩ := e
      rw [length_stream_cons] at lo hi
      exact Or.inr ⟨n - F.size - (F.payload m).length, by omega, pre, x, post, rfl, by omega, by omega⟩
  · rintro (⟨lo, hi⟩ | ⟨k, rfl, pre, x, post, rfl, lo, hi⟩)
    · exact ⟨[], m, ms, rfl, by simpa using lo, by simpa using hi⟩
    · have longer := F.length_stream_cons m pre
      exact ⟨m :: pre, x, post, rfl, by omega, by omega⟩

end cut

end Format

namespace Format.Pos

variable {μ β : Type*} {F : Format μ β}

/-- The bytes still to come. -/
def bytes : F.Pos → List β
  | .boundary rest => F.stream rest
  | .inside m k rest _ => (F.payload m).drop k ++ F.stream rest

/-- The messages not yet completed. -/
def messages : F.Pos → List μ
  | .boundary rest => rest
  | .inside m _ rest _ => m :: rest

/-- The bytes still to come of the payload the reader is in. -/
def pending : F.Pos → Nat
  | .boundary _ => 0
  | .inside m k _ _ => (F.payload m).length - k

/-- The position after the next `n` bytes, with the messages they complete. -/
def consume : F.Pos → Nat → Option (List μ × F.Pos)
  | .boundary rest, n => F.locate rest n
  | .inside m k rest _, n =>
    if h : k + n < (F.payload m).length then some ([], .inside m (k + n) rest h)
    else (F.locate rest (k + n - (F.payload m).length)).map (fun r => (m :: r.1, r.2))

/-- Without a byte the position stays. -/
@[simp] lemma consume_zero (p : F.Pos) : p.consume 0 = some ([], p) := by
  cases p with
  | boundary rest => exact F.locate_zero rest
  | inside m k rest lt => simp [consume, lt]

/-- Just behind the header of a message: inside its payload, or past it when that is empty. -/
def enter (m : μ) (rest : List μ) : List μ × F.Pos :=
  if h : 0 < (F.payload m).length then ([], .inside m 0 rest h) else ([m], .boundary rest)

/-- The next header in full. -/
lemma consume_header (m : μ) (rest : List μ) :
    (boundary (m :: rest) : F.Pos).consume F.size = some (enter m rest) := by
  have pos := F.size_pos
  have nz : F.size ≠ 0 := by omega
  by_cases h : 0 < (F.payload m).length
  · simp [consume, Format.locate, enter, nz, h]
  · simp [consume, Format.locate, enter, nz, h]

/-- The header of a message with a payload. -/
lemma consume_header_inside {m : μ} {rest : List μ} (h : 0 < (F.payload m).length) :
    (boundary (m :: rest) : F.Pos).consume F.size = some ([], .inside m 0 rest h) := by
  rw [consume_header, enter, dif_pos h]

/-- The header of a message without a payload. -/
lemma consume_header_boundary {m : μ} {rest : List μ} (h : ¬ 0 < (F.payload m).length) :
    (boundary (m :: rest) : F.Pos).consume F.size = some ([m], .boundary rest) := by
  rw [consume_header, enter, dif_neg h]

/-- Some but not all of the payload. -/
lemma consume_part {m : μ} {k : Nat} {rest : List μ} (lt : k < (F.payload m).length) {n : Nat}
    (h : k + n < (F.payload m).length) :
    (inside m k rest lt).consume n = some ([], .inside m (k + n) rest h) := by
  simp [consume, h]

/-- The rest of the payload. -/
lemma consume_final {m : μ} {k : Nat} {rest : List μ} (lt : k < (F.payload m).length) :
    (inside m k rest lt).consume ((F.payload m).length - k) = some ([m], .boundary rest) := by
  have e : k + ((F.payload m).length - k) = (F.payload m).length := by omega
  simp [consume, e]

/-- Inside a payload is behind its header. -/
lemma consume_inside {m : μ} {k : Nat} {rest : List μ} (lt : k < (F.payload m).length) (n : Nat) :
    (inside m k rest lt).consume n = F.locate (m :: rest) (F.size + (k + n)) := by
  rw [locate_size_add]
  rfl

/-- Bytes that go on behind a boundary hold at least a whole header. -/
lemma size_le_of_consume {m : μ} {rest : List μ} {n : Nat} {r : List μ × F.Pos}
    (e : (boundary (m :: rest) : F.Pos).consume n = some r) (pos : 0 < n) : F.size ≤ n := by
  by_contra short
  rw [consume, locate_header pos (Nat.lt_of_not_le short)] at e
  cases e

/-- Nothing comes after the last message. -/
lemma eq_zero_of_consume_nil {n : Nat} {r : List μ × F.Pos}
    (e : (boundary [] : F.Pos).consume n = some r) : n = 0 := by
  by_contra nz
  rw [consume, locate_nil F nz] at e
  cases e

/-- Cutting at a point that is not inside a header changes nothing. -/
lemma locate_add {ms : List μ} {a : Nat} {d : List μ} {q : F.Pos}
    (e : F.locate ms a = some (d, q)) (b : Nat) :
    F.locate ms (a + b) = (q.consume b).map (fun r => (d ++ r.1, r.2)) := by
  induction ms generalizing a d with
  | nil =>
    have zero : a = 0 := eq_zero_of_consume_nil e
    subst zero
    cases e
    simp [consume]
  | cons m ms ih =>
    cases F.cut m a with
    | start =>
      rw [locate_zero] at e
      cases e
      simp [consume]
    | header pos lt =>
      rw [locate_header pos lt] at e
      cases e
    | payload lt =>
      rw [locate_payload lt] at e
      cases e
      simp [consume_inside, Nat.add_assoc]
    | past k =>
      rw [locate_past, Option.map_eq_some_iff] at e
      obtain ⟨⟨d', q'⟩, e, ⟨⟩⟩ := e
      rw [Nat.add_assoc, Nat.add_assoc, locate_past, ih e, Option.map_map]
      rfl

/-- The whole stream. -/
lemma consume_stream (ms : List μ) :
    (boundary ms : F.Pos).consume (F.stream ms).length = some (ms, .boundary []) := by
  induction ms with
  | nil => exact F.locate_zero []
  | cons m ms ih =>
    rw [consume] at ih ⊢
    rw [length_stream_cons, locate_past, ih]
    rfl

/-- Two pieces, or both at once. -/
lemma consume_add {p q : F.Pos} {a : Nat} {d : List μ} (e : p.consume a = some (d, q)) (b : Nat) :
    p.consume (a + b) = (q.consume b).map (fun r => (d ++ r.1, r.2)) := by
  cases p with
  | boundary rest => exact locate_add e b
  | inside m k rest lt =>
    rw [consume_inside] at e ⊢
    rw [← Nat.add_assoc, ← Nat.add_assoc]
    exact locate_add (by rwa [Nat.add_assoc]) b

/-- What is left to consume behind a point that was reached. -/
lemma consume_sub {p q r : F.Pos} {a n : Nat} {d d' : List μ} (e : p.consume a = some (d, q))
    (e' : p.consume n = some (d', r)) (le : a ≤ n) :
    ∃ d'', q.consume (n - a) = some (d'', r) ∧ d' = d ++ d'' := by
  have split : a + (n - a) = n := by omega
  rw [← split, consume_add e, Option.map_eq_some_iff] at e'
  obtain ⟨⟨d'', r'⟩, e'', ⟨⟩⟩ := e'
  exact ⟨d'', e'', rfl⟩

/-- The bytes left at the position reached in a stream. -/
lemma bytes_of_locate {ms : List μ} {n : Nat} {d : List μ} {q : F.Pos}
    (e : F.locate ms n = some (d, q)) :
    q.bytes = (F.stream ms).drop n ∧ n ≤ (F.stream ms).length := by
  induction ms generalizing n d with
  | nil =>
    have zero : n = 0 := eq_zero_of_consume_nil e
    subst zero
    cases e
    exact ⟨rfl, Nat.le_refl 0⟩
  | cons m ms ih =>
    rw [length_stream_cons]
    cases F.cut m n with
    | start =>
      rw [locate_zero] at e
      cases e
      exact ⟨rfl, Nat.zero_le _⟩
    | header pos lt =>
      rw [locate_header pos lt] at e
      cases e
    | payload lt =>
      rw [locate_payload lt] at e
      cases e
      rw [drop_stream, List.drop_append_of_le_length (Nat.le_of_lt lt)]
      exact ⟨rfl, by omega⟩
    | past k =>
      rw [locate_past, Option.map_eq_some_iff] at e
      obtain ⟨⟨d', q'⟩, e, ⟨⟩⟩ := e
      obtain ⟨left, le⟩ := ih e
      rw [drop_stream, List.drop_length_add_append]
      exact ⟨left, by omega⟩

/-- The bytes left at the position reached. -/
lemma bytes_of_consume {p q : F.Pos} {n : Nat} {d : List μ} (e : p.consume n = some (d, q)) :
    q.bytes = p.bytes.drop n ∧ n ≤ p.bytes.length := by
  cases p with
  | boundary rest => exact bytes_of_locate e
  | inside m k rest lt =>
    rw [consume_inside] at e
    obtain ⟨left, le⟩ := bytes_of_locate e
    have here : (inside m k rest lt : F.Pos).bytes = (F.payload m ++ F.stream rest).drop k := by
      rw [List.drop_append_of_le_length (Nat.le_of_lt lt)]
      rfl
    rw [drop_stream] at left
    rw [length_stream_cons] at le
    rw [here, left, List.drop_drop, List.length_drop, List.length_append]
    exact ⟨rfl, by omega⟩

/-- The messages left are those not completed on the way. -/
lemma messages_of_locate {ms : List μ} {n : Nat} {d : List μ} {q : F.Pos}
    (e : F.locate ms n = some (d, q)) : ms = d ++ q.messages := by
  induction ms generalizing n d with
  | nil =>
    have zero : n = 0 := eq_zero_of_consume_nil e
    subst zero
    cases e
    rfl
  | cons m ms ih =>
    cases F.cut m n with
    | start =>
      rw [locate_zero] at e
      cases e
      rfl
    | header pos lt =>
      rw [locate_header pos lt] at e
      cases e
    | payload lt =>
      rw [locate_payload lt] at e
      cases e
      rfl
    | past k =>
      rw [locate_past, Option.map_eq_some_iff] at e
      obtain ⟨⟨d', q'⟩, e, ⟨⟩⟩ := e
      show m :: ms = m :: (d' ++ q'.messages)
      rw [← ih e]

/-- The messages of a position are those completed on the way and those left. -/
lemma messages_of_consume {p q : F.Pos} {n : Nat} {d : List μ} (e : p.consume n = some (d, q)) :
    p.messages = d ++ q.messages := by
  cases p with
  | boundary rest => exact messages_of_locate e
  | inside m k rest lt =>
    rw [consume_inside] at e
    exact messages_of_locate e

/-- A position is missing exactly where the bytes end within a header. -/
lemma locate_eq_none {ms : List μ} {n : Nat} (le : n ≤ (F.stream ms).length) :
    F.locate ms n = none ↔ F.SplitsHeader ms n := by
  induction ms generalizing n with
  | nil =>
    have zero : n = 0 := Nat.le_zero.mp le
    subst zero
    simp [Format.SplitsHeader]
  | cons m ms ih =>
    rw [splitsHeader_cons]
    rw [length_stream_cons] at le
    cases F.cut m n with
    | start =>
      have pos := F.size_pos
      rw [locate_zero]
      constructor
      · intro e
        cases e
      · rintro (⟨lo, _⟩ | ⟨k, e, _⟩) <;> omega
    | header pos lt => exact ⟨fun _ => Or.inl ⟨pos, lt⟩, fun _ => locate_header pos lt⟩
    | payload lt =>
      rw [locate_payload lt]
      constructor
      · intro e
        cases e
      · rintro (⟨_, hi⟩ | ⟨k, e, _⟩) <;> omega
    | past k =>
      rw [locate_past, Option.map_eq_none_iff, ih (by omega)]
      constructor
      · intro split
        exact Or.inr ⟨k, rfl, split⟩
      · rintro (⟨_, hi⟩ | ⟨k', e, split⟩)
        · omega
        · have same : k = k' := by omega
          exact same ▸ split

/-- A point with a position is not inside a header. -/
lemma not_splitsHeader {ms : List μ} {n : Nat} (h : (F.locate ms n).isSome) :
    ¬ F.SplitsHeader ms n := by
  intro split
  rw [(locate_eq_none split.le).mpr split] at h
  cases h

end Format.Pos

/-! ## Beginnings of streams -/

namespace Format

variable {μ β : Type*} {F : Format μ β} {m m' : μ} {ms ns : List μ} {bs cs : List β}

/-- The header says how long the payload is. -/
def Delimited (F : Format μ β) : Prop :=
  ∀ m m', F.header m = F.header m' → (F.payload m).length = (F.payload m').length

/-- So a message ends where it ends, whatever follows. -/
lemma Delimited.encode_append (delim : F.Delimited) (e : F.encode m ++ bs = F.encode m' ++ cs) :
    F.encode m = F.encode m' ∧ bs = cs := by
  rw [encode, encode, List.append_assoc, List.append_assoc] at e
  obtain ⟨header, rest⟩ := List.append_inj e (by rw [F.length_header, F.length_header])
  obtain ⟨payload, rest⟩ := List.append_inj rest (delim m m' header)
  rw [encode, encode, header, payload]
  exact ⟨rfl, rest⟩

/-- Messages with something behind them can only begin a stream that begins with these messages. -/
lemma Delimited.stream_prefix (delim : F.Delimited) (pre : F.stream ms ++ bs <+: F.stream ns) :
    ∃ before after, ns = before ++ after ∧ F.stream before = F.stream ms ∧ bs <+: F.stream after := by
  induction ms generalizing ns with
  | nil => exact ⟨[], ns, rfl, rfl, pre⟩
  | cons m ms ih =>
    obtain ⟨cs, e⟩ := pre
    rw [stream_cons, List.append_assoc, List.append_assoc] at e
    cases ns with
    | nil =>
      have length := congrArg List.length e
      have pos := F.size_pos
      rw [List.length_append, length_encode, stream_nil, List.length_nil] at length
      omega
    | cons m' ns =>
      rw [stream_cons] at e
      obtain ⟨first, rest⟩ := delim.encode_append e
      rw [← List.append_assoc] at rest
      obtain ⟨before, after, rfl, same, pre⟩ := ih ⟨cs, rest⟩
      refine ⟨m' :: before, after, rfl, ?_, pre⟩
      rw [stream_cons, stream_cons, first, same]

end Format

end Projector
