import Projector.Server.Client
import Projector.Server.Follow

/-!
# Headers cut across chunks

`Client::receive` resumes a payload that is cut across chunks, but takes eight bytes for a header wherever
it expects one, also when fewer are left in the chunk. `Reassembles` says that a cut inside a header does
not matter; `not_reassembles` shows that it always does: the call that gets the first piece of the header
goes on behind the end of its chunk.
-/

namespace Projector

/-- The chunk of one `read()`: the buffer, how much of it was filled, and what `new` does meanwhile. -/
structure Piece where
  buf : Mem
  len : Nat
  heap : Heap

namespace Piece

/-- The bytes that were read. -/
def data (x : Piece) : List UInt8 := x.buf.read 0 x.len

/-- Two chunks as one. -/
def join (x y : Piece) : Piece where
  buf := fun i => if i < x.len then x.buf i else y.buf (i - x.len)
  len := x.len + y.len
  heap := fun site k => if k < x.len then x.heap site k else y.heap site (k - x.len)

/-- A piece has as many bytes as `read` returned. -/
lemma length_data (x : Piece) : x.data.length = x.len := by simp [data]

/-- How many bytes some pieces have together. -/
lemma length_flatMap_data (xs : List Piece) : (xs.flatMap data).length = (xs.map len).sum := by
  rw [List.length_flatMap]
  congr 1
  apply List.map_congr_left
  intro x _
  exact x.length_data

/-- The first of some chunks of a stream, and the others. -/
lemma cut_first {x : Piece} {xs : List Piece} {bs : List UInt8}
    (h : (x :: xs).flatMap data <+: bs) :
    x.len ≤ bs.length ∧ x.buf.read 0 x.len = bs.take x.len ∧ xs.flatMap data <+: bs.drop x.len := by
  obtain ⟨rest, rfl⟩ := h
  rw [List.flatMap_cons, List.append_assoc, ← x.length_data]
  refine ⟨?_, ?_, ?_⟩
  · rw [List.length_append]
    omega
  · rw [List.take_left, x.length_data, data]
  · rw [List.drop_left]
    exact List.prefix_append _ _

end Piece

/-- Where the parser stands after some chunks, with the events so far. -/
structure Fed where
  client : Client
  globals : Globals
  log : List Event

/-- Feed chunks to `receive` one by one. -/
def feed (tj : TurboJpeg) : List Piece → Client → Globals → Except Stop Fed
  | [], c, g => .ok ⟨c, g, []⟩
  | x :: xs, c, g => do
    let r ← c.receive tj x.heap g x.buf x.len
    let s ← feed tj xs r.client r.globals
    return { s with log := r.log ++ s.log }

/-- A feed that ends did so in the first call and in the rest. -/
lemma feed_cons_eq_ok {tj : TurboJpeg} {x : Piece} {xs : List Piece} {c : Client} {g : Globals}
    {s : Fed} : feed tj (x :: xs) c g = .ok s ↔
      ∃ r t, c.receive tj x.heap g x.buf x.len = .ok r ∧ feed tj xs r.client r.globals = .ok t ∧
        s = { t with log := r.log ++ t.log } := by
  simp only [feed, bind_eq_ok, pure, Except.pure, Except.ok.injEq]
  constructor
  · rintro ⟨r, hr, t, ht, rfl⟩
    exact ⟨r, t, hr, ht, rfl⟩
  · rintro ⟨r, t, hr, ht, rfl⟩
    exact ⟨r, hr, t, ht, rfl⟩

/-- Join the chunks that meet inside a header of the stream `ms`; `x` starts at byte `n` of it. -/
def joinHeaders (ms : List Msg) (n : Nat) (x : Piece) : List Piece → List Piece
  | [] => [x]
  | y :: ys =>
    if (wire.locate ms (n + x.len)).isNone then joinHeaders ms n (x.join y) ys
    else x :: joinHeaders ms (n + x.len) y ys

/-- The messages handed on, with their type. -/
def dispatched (es : List Event) : List (Int × List UInt8) :=
  es.filterMap fun e => match e with
    | .done type data => some (type, data)
    | _ => none

/-- The part of the event that concerns the chunk stays inside it. -/
def Event.InChunk : Event → Prop
  | .bufRead off n len => off + n ≤ len
  | _ => True

instance : DecidablePred Event.InChunk
  | .bufRead off n len => inferInstanceAs (Decidable (off + n ≤ len))
  | .new .. | .write .. | .read .. | .done .. | .draw .. => inferInstanceAs (Decidable True)

/-- Two parsers in the same state. -/
structure SameParser (s t : Fed) : Prop where
  remainBytes : s.client.remainBytes = t.client.remainBytes
  headerType : s.client.headerType = t.client.headerType
  headerLength : s.client.headerLength = t.client.headerLength
  recvOffset : s.client.recvOffset = t.client.recvOffset
  jpegOffset : s.client.jpegOffset = t.client.jpegOffset
  jpeg : s.client.jpeg = t.client.jpeg
  name : s.client.name = t.client.name
  readyFd : s.globals.readyFd = t.globals.readyFd

/-- Feeding the chunks is as good as feeding them with every cut inside a header removed, and no byte
behind the end of a chunk is used. -/
def Reassembles (tj : TurboJpeg) (ms : List Msg) (c : Client) (g : Globals) (x : Piece)
    (xs : List Piece) : Prop :=
  ∃ s t, feed tj (x :: xs) c g = .ok s ∧ feed tj (joinHeaders ms 0 x xs) c g = .ok t ∧
    dispatched s.log = dispatched t.log ∧ SameParser s t ∧ ∀ e ∈ s.log, e.InChunk

section receive

variable {tj : TurboJpeg} {heap : Heap} {buf : Mem} {len : Nat} {c : Client} {g : Globals}
  {p : wire.Pos} {r : Recv}

/-- A call that has run past its chunk while it read a header. -/
structure Overrun (len : Nat) (r : Recv) : Prop where
  event : ∃ e ∈ r.log, ¬ e.InChunk
  past : len ≤ r.chunkRead

/-- One round on a chunk that may end inside a header. -/
lemma round_overruns (hbuf : buf.read 0 len = p.bytes.take len) (le : len ≤ p.bytes.length)
    (f : Recv.Following c g p len r) (more : r.chunkRead < len) :
    Post (fun r' => (Recv.Following c g p len r' ∨ Overrun len r') ∧ r.chunkRead < r'.chunkRead)
      (fun _ => True) (r.round tj heap buf len) := by
  obtain ⟨_, d, t, e, at_, ap⟩ := f
  cases t with
  | boundary rest =>
    cases rest with
    | nil =>
      -- The stream has ended, but the chunk is part of it.
      have left := (Format.Pos.bytes_of_consume e).1
      have empty : 0 = (p.bytes.drop r.chunkRead).length := congrArg List.length left
      rw [List.length_drop] at empty
      omega
    | cons m rest =>
      have at_' : r.client.remainBytes ≤ 0 := at_
      unfold Recv.round
      rw [if_pos at_']
      by_cases room : r.chunkRead + 8 ≤ len
      · apply (Recv.header_follows hbuf e ap room).mono _ (fun _ _ => trivial)
        rintro r' ⟨f', moved⟩
        exact ⟨Or.inl f', moved⟩
      · apply Recv.header_reads.mono _ (fun _ _ => trivial)
        rintro r' ⟨hk, hl⟩
        refine ⟨Or.inr ⟨⟨_, hl, ?_⟩, by omega⟩, by omega⟩
        simp only [Event.InChunk]
        omega
  | inside m k rest lt =>
    apply (Recv.round_inside hbuf e at_ ap more).mono _ (fun _ _ => trivial)
    rintro r' ⟨f', moved⟩
    exact ⟨Or.inl f', moved⟩

/-- A call on a chunk that ends inside a header uses a byte behind the end of the chunk. -/
lemma receive_overruns (at_ : c.At p) (hbuf : buf.read 0 len = p.bytes.take len)
    (le : len ≤ p.bytes.length) (split : p.consume len = none) :
    Post (fun r => ∃ e ∈ r.log, ¬ e.InChunk) (fun _ => True) (c.receive tj heap g buf len) := by
  have start : Recv.Following c g p len ⟨[], 0, c, g⟩ :=
    ⟨Nat.zero_le len, [], p, Format.Pos.consume_zero p, at_, .start⟩
  have rounds : Post
      (fun r => (Recv.Following c g p len r ∨ Overrun len r) ∧ Recv.more len r = false)
      (fun _ => True) (c.receive tj heap g buf len) := by
    apply iterate_rule (fun r => Recv.Following c g p len r ∨ Overrun len r) _
      (fun r => len - r.chunkRead) _ _ (Or.inl start) (by simp)
    · intro r _ more
      rw [Recv.more_eq_true] at more
      omega
    · intro r inv more
      rw [Recv.more_eq_true] at more
      rcases inv with f | past
      · apply (round_overruns hbuf le f more).mono _ (fun _ h => h)
        rintro r' ⟨inv', moved⟩
        exact ⟨inv', by omega⟩
      · have := past.past
        omega
  apply rounds.mono _ (fun _ h => h)
  rintro r ⟨f | past, stop⟩
  · obtain ⟨le', d, q, e, _⟩ := f
    rw [Recv.more_eq_false] at stop
    rw [Nat.le_antisymm le' stop, split] at e
    cases e
  · exact past.event

end receive

/-- Some call of a feed whose chunks are cut inside a header uses a byte behind the end of its chunk. -/
lemma feed_overruns {tj : TurboJpeg} {xs : List Piece} {c : Client} {g : Globals} {p : wire.Pos}
    {s : Fed} {k : Nat} (at_ : c.At p) (bytes : xs.flatMap Piece.data <+: p.bytes)
    (split : p.consume ((xs.take k).map Piece.len).sum = none) (e : feed tj xs c g = .ok s) :
    ∃ e ∈ s.log, ¬ e.InChunk := by
  induction xs generalizing c g p s k with
  | nil => simp at split
  | cons x xs ih =>
    cases k with
    | zero => simp at split
    | succ k =>
      obtain ⟨le, first, rest⟩ := Piece.cut_first bytes
      obtain ⟨r, t, hr, ht, rfl⟩ := feed_cons_eq_ok.mp e
      cases hc : p.consume x.len with
      | none =>
        obtain ⟨e, he, out⟩ := (receive_overruns at_ first le hc).of_ok hr
        exact ⟨e, List.mem_append_left _ he, out⟩
      | some dq =>
        obtain ⟨d, q⟩ := dq
        have at_' := ((receive_follows at_ first hc).of_ok hr).1
        have later : q.consume ((xs.take k).map Piece.len).sum = none := by
          have sum := Format.Pos.consume_add hc ((xs.take k).map Piece.len).sum
          rw [List.take_succ_cons, List.map_cons, List.sum_cons] at split
          rw [split, eq_comm, Option.map_eq_none_iff] at sum
          exact sum
        rw [← (Format.Pos.bytes_of_consume hc).1] at rest
        obtain ⟨e, he, out⟩ := ih at_' rest later ht
        exact ⟨e, List.mem_append_right _ he, out⟩

/-- No stream survives a cut inside a header: from a message boundary, whatever the messages, the cut,
the bytes behind the chunks and the heap. -/
theorem not_reassembles (tj : TurboJpeg) (ms : List Msg) (c : Client) (g : Globals) (x : Piece)
    (xs : List Piece) (boundary : c.remainBytes ≤ 0)
    (bytes : (x :: xs).flatMap Piece.data = wire.stream ms)
    (split : ∃ k, wire.SplitsHeader ms (((x :: xs).take k).map Piece.len).sum) :
    ¬ Reassembles tj ms c g x xs := by
  rintro ⟨s, t, hs, _, _, _, inside⟩
  obtain ⟨k, split⟩ := split
  have none : (.boundary ms : wire.Pos).consume (((x :: xs).take k).map Piece.len).sum = none :=
    (Format.Pos.locate_eq_none split.le).mpr split
  obtain ⟨e, he, out⟩ := feed_overruns (p := .boundary ms) boundary (bytes ▸ List.prefix_rfl) none hs
  exact out (inside e he)

/-- A chunk with zeros behind its end. -/
def Piece.ofBytes (bs : List UInt8) : Piece where
  buf := Mem.overlay (fun _ => 0) bs
  len := bs.length
  heap := .cleared

/-- `not_reassembles` on a focus request of which the first `read()` returns three bytes. -/
theorem not_reassembles_request :
    ¬ Reassembles .none [.request 7] (Client.new ⟨1, 1, 3⟩ .blank 4 9) ⟨-1, 4, 1, fun _ => 0⟩
      (.ofBytes [4, 0, 0]) [.ofBytes [0, 4, 0, 0, 0, 7, 0, 0, 0]] :=
  not_reassembles .none [.request 7] (Client.new ⟨1, 1, 3⟩ .blank 4 9) ⟨-1, 4, 1, fun _ => 0⟩
    (.ofBytes [4, 0, 0]) [.ofBytes [0, 4, 0, 0, 0, 7, 0, 0, 0]] (by decide) (by decide +kernel)
    ⟨1, [], .request 7, [], by decide +kernel⟩

/-- A focus request cut three bytes into its header: the second call drops the connection, where the
joined chunk makes the request. -/
theorem request_split :
    wire.SplitsHeader [.request 7] 3 ∧
    (Piece.ofBytes [4, 0, 0]).data ++ (Piece.ofBytes [0, 4, 0, 0, 0, 7, 0, 0, 0]).data
      = wire.stream [.request 7] ∧
    (∀ s, feed .none [.ofBytes [4, 0, 0], .ofBytes [0, 4, 0, 0, 0, 7, 0, 0, 0]]
      (Client.new ⟨1, 1, 3⟩ .blank 4 9) ⟨-1, 4, 1, fun _ => 0⟩ ≠ .ok s) ∧
    (feed .none (joinHeaders [.request 7] 0 (.ofBytes [4, 0, 0])
        [.ofBytes [0, 4, 0, 0, 0, 7, 0, 0, 0]]) (Client.new ⟨1, 1, 3⟩ .blank 4 9)
      ⟨-1, 4, 1, fun _ => 0⟩).toOption.map (fun t => t.globals.readyFd) = some 7 ∧
    ¬ Reassembles .none [.request 7] (Client.new ⟨1, 1, 3⟩ .blank 4 9) ⟨-1, 4, 1, fun _ => 0⟩
      (.ofBytes [4, 0, 0]) [.ofBytes [0, 4, 0, 0, 0, 7, 0, 0, 0]] := by
  have dropped : ∀ s, feed .none [.ofBytes [4, 0, 0], .ofBytes [0, 4, 0, 0, 0, 7, 0, 0, 0]]
      (Client.new ⟨1, 1, 3⟩ .blank 4 9) ⟨-1, 4, 1, fun _ => 0⟩ ≠ .ok s := by
    intro s e
    have fails : (feed .none [.ofBytes [4, 0, 0], .ofBytes [0, 4, 0, 0, 0, 7, 0, 0, 0]]
      (Client.new ⟨1, 1, 3⟩ .blank 4 9) ⟨-1, 4, 1, fun _ => 0⟩).toBool = false := by decide +kernel
    rw [e] at fails
    cases fails
  refine ⟨⟨[], .request 7, [], by decide +kernel⟩, by decide +kernel, dropped, by decide +kernel, ?_⟩
  rintro ⟨s, _, e, _⟩
  exact dropped s e

end Projector
