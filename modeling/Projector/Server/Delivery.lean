import Projector.Server.Effect
import Projector.Server.Safety

/-!
# Delivery of the streams

Any number of connections are sent streams of messages, which arrive in any order and in any pieces that do
not split a header, while the other threads move the focus at will. `Delivery` is the server in such a run,
with the number of bytes that each connection has received and the list of the draws that are due: those of
the images that were completed while their sender had the focus. `delivered` says that the server keeps pace
with the streams and that it draws what is due.
-/

namespace Projector

/-- The server, the bytes received so far by descriptor, and the draws that are due. -/
structure Delivery where
  server : Server
  got : Int → Nat
  due : List Output

/-- What happens next: a chunk arrives on a connection, or another thread stores into the two variables of
the focus. -/
inductive DeliveryInput where
  | chunk (fd : Int) (data : List UInt8) (heap : Heap)
  | focus (focusFd readyFd : Int)

/-- The messages that are complete after `n` bytes. -/
def completed (ms : List Msg) (n : Nat) : List Msg := ((wire.locate ms n).map Prod.fst).getD []

/-- The draws of a history. -/
def drawn (h : List Output) : List Output :=
  h.filter fun o => match o with
    | .draw _ _ => true
    | _ => false

/-- The images among the messages that the bytes from `n` to `n + k` complete. -/
def imagesCompleted (ms : List Msg) (n k : Nat) : List (List UInt8) :=
  Recv.payloads recvImage ((completed ms (n + k)).drop (completed ms n).length)

namespace Delivery

/-- One step, when the connections are sent `sent`. -/
def step (tj : TurboJpeg) (sent : Int → List Msg) (x : Delivery) :
    DeliveryInput → Option (Delivery × List Output)
  | .chunk fd data heap => (x.server.readData tj fd data heap).map fun r =>
    ({ server := r.1
       got := Function.update x.got fd (x.got fd + data.length)
       due := x.due ++
        if x.server.focusFd = fd then
          (imagesCompleted (sent fd) (x.got fd) data.length).map (.draw fd)
        else [] }, r.2)
  | .focus focusFd readyFd =>
    some ({ x with server := { x.server with focusFd := focusFd, readyFd := readyFd } }, [])

/-- A chunk is the next piece of the stream of its connection and does not end inside a header. -/
def Conforms (sent : Int → List Msg) (x : Delivery) : DeliveryInput → Prop
  | .chunk fd data _ => (x.server.client fd).isSome ∧ data ≠ [] ∧
      data <+: (wire.stream (sent fd)).drop (x.got fd) ∧
      ¬ wire.SplitsHeader (sent fd) (x.got fd + data.length)
  | .focus _ _ => True

/-- Before anything has arrived. -/
def start (s : Server) : Delivery := ⟨s, fun _ => 0, []⟩

end Delivery

/-- The messages that a connection may be sent. -/
structure Sendable (ms : List Msg) : Prop where
  names : NamesFit ms
  requests : ∀ m ∈ ms, m.RequestFits
  lengths : ∀ m ∈ ms, m.Allocatable

/-- The object keeps pace with its stream, of which `n` bytes have arrived. -/
structure Client.Pace (c : Client) (ms : List Msg) (n : Nat) : Prop where
  pos : ∃ q, wire.locate ms n = some (completed ms n, q) ∧ c.At q ∧ c.Safe q
  jpeg : c.jpeg = (Recv.payloads recvImage (completed ms n)).getLastD []

section receive

variable {tj : TurboJpeg} {heap : Heap} {c : Client} {g : Globals} {m : Mem} {ms : List Msg} {n : Nat}
  {data : List UInt8}

/-- The messages in front of a position are complete. -/
lemma completed_of_locate {d : List Msg} {q : wire.Pos} (e : wire.locate ms n = some (d, q)) :
    completed ms n = d := by
  rw [completed, e]
  rfl

/-- A new object is at the start of its stream. -/
lemma pace_new (screen : Screen) (raw : Client) (fd : Int) (id : Int32) (ok : Sendable ms) :
    (Client.new screen raw fd id).Pace ms 0 where
  pos := by
    have start := wire.locate_zero ms
    refine ⟨.boundary ms, ?_, (by decide : (-1 : Int) ≤ 0), ok.names, ok.requests,
      fun _ _ _ _ e => nomatch e⟩
    rw [completed_of_locate start, start]
  jpeg := by
    rw [completed_of_locate (wire.locate_zero ms)]
    rfl

/-- What a call has done with the next chunk of the stream. -/
structure Kept (c : Client) (g : Globals) (ms : List Msg) (n k : Nat) (r : Recv) : Prop where
  pace : r.client.Pace ms (n + k)
  fd : r.client.fd = c.fd
  draws : draws r.log = if g.focusFd = c.fd then imagesCompleted ms n k else []
  inBounds : ∀ e ∈ r.log, e.InBounds

/-- Where the next chunk of a stream leads: the messages it completes are those between the two places. -/
lemma locate_piece {q : wire.Pos} (hq : wire.locate ms n = some (completed ms n, q))
    (pre : data <+: (wire.stream ms).drop n) (whole : ¬ wire.SplitsHeader ms (n + data.length)) :
    data = q.bytes.take data.length ∧ ∃ d q', q.consume data.length = some (d, q') ∧
      wire.locate ms (n + data.length) = some (completed ms (n + data.length), q') ∧
      completed ms (n + data.length) = completed ms n ++ d ∧
      imagesCompleted ms n data.length = Recv.payloads recvImage d := by
  obtain ⟨bytes, le⟩ := Format.Pos.bytes_of_locate hq
  have fits : n + data.length ≤ (wire.stream ms).length := by
    have short := pre.length_le
    rw [List.length_drop] at short
    omega
  obtain ⟨⟨done, q'⟩, hq'⟩ : ∃ r, wire.locate ms (n + data.length) = some r :=
    Option.ne_none_iff_exists'.mp fun none => whole ((Format.Pos.locate_eq_none fits).mp none)
  have add := Format.Pos.locate_add hq data.length
  rw [hq', eq_comm, Option.map_eq_some_iff] at add
  obtain ⟨⟨d, q''⟩, consumed, e⟩ := add
  obtain ⟨rfl, rfl⟩ := Prod.mk.inj e
  have after := completed_of_locate hq'
  refine ⟨?_, d, q'', consumed, by rw [after, hq'], after, ?_⟩
  · rw [bytes]
    exact List.prefix_iff_eq_take.mp pre
  · rw [imagesCompleted, after, List.drop_left]

/-- A call of `receive` on the next chunk. -/
lemma receive_pace (h : c.Pace ms n) (pre : data <+: (wire.stream ms).drop n)
    (whole : ¬ wire.SplitsHeader ms (n + data.length)) :
    Post (Kept c g ms n data.length)
      (fun s => s.exit = .badAlloc ∧ (heap.Total → ∃ m ∈ ms, ¬ m.Allocatable))
      (c.receive tj heap g (m.overlay data) data.length) := by
  obtain ⟨⟨q, hq, at_, safe⟩, jpeg⟩ := h
  obtain ⟨bytes, d, q', consumed, hq', more, new⟩ := locate_piece hq pre whole
  have hbuf : (m.overlay data).read 0 data.length = q.bytes.take data.length := by
    rw [Mem.read_overlay, ← bytes]
  apply (receive_safe at_ safe hbuf consumed).mono
  · rintro r ⟨⟨at', ap⟩, safe', inBounds⟩
    refine ⟨⟨⟨q', hq', at', safe'⟩, ?_⟩, ap.fd, by rw [ap.draws, new], inBounds⟩
    rw [ap.jpeg, jpeg, more, Recv.payloads_append, getLastD_append]
  · rintro s ⟨exit, oom⟩
    refine ⟨exit, fun total => ?_⟩
    obtain ⟨m, mem, big⟩ := oom total
    refine ⟨m, ?_, big⟩
    have split := Format.Pos.messages_of_locate hq
    rw [split]
    exact List.mem_append_right _ mem

end receive

/-- The draws of two histories. -/
lemma drawn_append (h h' : List Output) : drawn (h ++ h') = drawn h ++ drawn h' :=
  List.filter_append h h'

/-- The draws among what others see of a call of `receive`. -/
lemma drawn_outputs (fd : Int) (log : List Event) :
    drawn (outputs fd log) = (draws log).map (.draw fd) := by
  simp only [drawn, outputs, draws, List.filter_filterMap, List.map_filterMap]
  congr 1
  funext e
  cases e with
  | done type data => by_cases foc : type = changeFocusStatus <;> simp [foc]
  | _ => rfl

namespace Delivery

variable {tj : TurboJpeg} {sent : Int → List Msg} {s : Server} {x y : Delivery} {h o : List Output}

/-- Every object is in its slot and keeps pace with its stream, every call returned 0, and what was due was
drawn. -/
structure Inv (sent : Int → List Msg) (x : Delivery) (h : List Output) : Prop where
  slot : ∀ i c, x.server.client i = some c → c.fd = i
  pace : ∀ i c, x.server.client i = some c → c.Pace (sent i) (x.got i)
  returned : ∀ fd ret, .received fd ret ∈ h → ret = 0
  drawn : drawn h = x.due

/-- Before anything is read, new objects are at the start of their streams. -/
lemma Inv.start (ok : ∀ i, Sendable (sent i))
    (fresh : ∀ i c, s.client i = some c → ∃ raw id, c = Client.new s.screen raw i id) :
    Inv sent (start s) [] where
  slot i c hc := by
    obtain ⟨raw, id, rfl⟩ := fresh i c hc
    rfl
  pace i c hc := by
    obtain ⟨raw, id, rfl⟩ := fresh i c hc
    exact pace_new _ _ _ _ (ok i)
  returned := by simp
  drawn := rfl

/-- A chunk. -/
lemma Inv.chunk {fd : Int} {data : List UInt8} {heap : Heap} (inv : Inv sent x h)
    (ok : Conforms sent x (.chunk fd data heap))
    (st : x.step tj sent (.chunk fd data heap) = some (y, o)) : Inv sent y (h ++ o) := by
  obtain ⟨connected, _, pre, whole⟩ := ok
  obtain ⟨c, hc⟩ := Option.isSome_iff_exists.mp connected
  have slot := inv.slot fd c hc
  have call : Post (Kept c x.server.toGlobals (sent fd) (x.got fd) data.length) _
      (c.receive tj heap x.server.toGlobals (x.server.chunk.overlay data) data.length) :=
    receive_pace (inv.pace fd c hc) pre whole
  simp only [step, Server.readData, hc, Option.map_eq_some_iff] at st
  cases hr : c.receive tj heap x.server.toGlobals (x.server.chunk.overlay data) data.length with
  | error stop =>
    rw [hr] at st
    -- A call that throws ends the server, so it is no step.
    obtain ⟨exit, r⟩ := stop
    obtain ⟨rfl, _⟩ := call.of_error hr
    simp at st
  | ok r =>
    obtain ⟨pace, hfd, hdraws, _⟩ := call.of_ok hr
    simp only [hr, Option.some.injEq, Prod.mk.injEq, Prod.exists] at st
    obtain ⟨_, _, ⟨rfl, rfl⟩, rfl, rfl⟩ := st
    refine ⟨fun i d hd => ?_, fun i d hd => ?_, fun i ret mem => ?_, ?_⟩
    · rcases Server.received_eq_some.mp hd with ⟨rfl, rfl⟩ | ⟨_, old⟩
      · rw [hfd, slot]
      · exact inv.slot i d old
    · change d.Pace (sent i) (Function.update x.got fd (x.got fd + data.length) i)
      rcases Server.received_eq_some.mp hd with ⟨rfl, rfl⟩ | ⟨other, old⟩
      · rw [Function.update_self]
        exact pace
      · rw [Function.update_of_ne other]
        exact inv.pace i d old
    · rcases List.mem_append.mp mem with mem | mem
      · exact inv.returned i ret mem
      · rcases List.mem_append.mp mem with mem | mem
        · rcases Server.mem_outputs mem with ⟨_, _, e⟩ | ⟨_, _, e⟩ <;> cases e
        · exact (Output.received.inj (List.mem_singleton.mp mem)).2
    · have tail : Projector.drawn [.received fd 0] = [] := rfl
      rw [drawn_append, drawn_append, tail, List.append_nil, inv.drawn, drawn_outputs, hdraws, slot]
      split <;> rfl

/-- One step. -/
lemma Inv.step {i : DeliveryInput} (inv : Inv sent x h) (ok : Conforms sent x i)
    (st : x.step tj sent i = some (y, o)) : Inv sent y (h ++ o) := by
  cases i with
  | chunk fd data heap => exact inv.chunk ok st
  | focus focusFd readyFd =>
    simp only [Delivery.step, Option.some.injEq, Prod.mk.injEq] at st
    obtain ⟨rfl, rfl⟩ := st
    rw [List.append_nil]
    exact ⟨inv.slot, inv.pace, inv.returned, inv.drawn⟩

end Delivery

/-- `remainBytes` at a position of the stream. -/
lemma Client.At.remain {c : Client} {q : wire.Pos} (h : c.At q) :
    (0 < q.pending → c.remainBytes = q.pending) ∧ (q.pending = 0 ↔ c.remainBytes ≤ 0) := by
  cases q with
  | boundary rest =>
    have le : c.remainBytes ≤ 0 := h
    simp [Format.Pos.pending, le]
  | inside m k rest lt =>
    have inside : c.Inside m k := h
    have remain := inside.remain
    simp only [Format.Pos.pending, wire_payload] at lt ⊢
    omega

/-- In every run of a server whose connections are new, whatever the interleaving of the chunks:
every call of `receive` returned 0; each object has as many bytes to come as its stream at the point it has
reached, and its image is the last that was completed; what was drawn is what was due; and on every chunk
that may come next, with memory for its blocks, `receive` returns normally and stays in bounds. -/
theorem delivered {tj : TurboJpeg} {sent : Int → List Msg} {s : Server} {x : Delivery}
    {h : List Output} (ok : ∀ i, Sendable (sent i))
    (fresh : ∀ i c, s.client i = some c → ∃ raw id, c = Client.new s.screen raw i id)
    (run : Run (Delivery.step tj sent) (Delivery.Conforms sent) (.start s) h x) :
    (∀ fd ret, .received fd ret ∈ h → ret = 0) ∧
    (∀ i c, x.server.client i = some c → ∃ q,
      wire.locate (sent i) (x.got i) = some (completed (sent i) (x.got i), q) ∧
      (0 < q.pending → c.remainBytes = q.pending) ∧ (q.pending = 0 ↔ c.remainBytes ≤ 0) ∧
      c.jpeg = (Recv.payloads recvImage (completed (sent i) (x.got i))).getLastD []) ∧
    drawn h = x.due ∧
    ∀ fd data heap, Delivery.Conforms sent x (.chunk fd data heap) → heap.Total →
      ∃ c r, x.server.client fd = some c ∧
        c.receive tj heap x.server.toGlobals (x.server.chunk.overlay data) data.length = .ok r ∧
        ∀ e ∈ r.log, e.InBounds := by
  have inv : x.Inv sent h := run.invariant (Delivery.Inv.start ok fresh)
    fun _ _ _ _ _ inv conforms st => inv.step conforms st
  refine ⟨inv.returned, fun i c hc => ?_, inv.drawn, ?_⟩
  · obtain ⟨⟨q, hq, at_, _⟩, jpeg⟩ := inv.pace i c hc
    exact ⟨q, hq, at_.remain.1, at_.remain.2, jpeg⟩
  · rintro fd data heap ⟨connected, _, pre, whole⟩ total
    obtain ⟨c, hc⟩ := Option.isSome_iff_exists.mp connected
    have call : Post (Kept c x.server.toGlobals (sent fd) (x.got fd) data.length) _
        (c.receive tj heap x.server.toGlobals (x.server.chunk.overlay data) data.length) :=
      receive_pace (inv.pace fd c hc) pre whole
    cases hr : c.receive tj heap x.server.toGlobals (x.server.chunk.overlay data) data.length with
    | error stop =>
      obtain ⟨m, mem, big⟩ := (call.of_error hr).2 total
      exact absurd ((ok fd).lengths m mem) big
    | ok r => exact ⟨c, r, hc, hr, (call.of_ok hr).inBounds⟩

/-- An image of two bytes. -/
def twoByteImage : Msg where
  type := recvImage
  payload := [255, 216]
  type_valid := by decide
  length_lt := by decide

/-- `delivered` for the holder of the focus, who sends one image in two chunks. -/
theorem delivered_image : ∃ x h,
    exec (Delivery.step .none fun i => if i = 4 then [twoByteImage] else [])
      (.start (Server.blank.acceptClient ⟨4, 10, .blank⟩).commit)
      [.chunk 4 [5, 0, 0, 0, 2, 0, 0, 0, 255] .cleared, .chunk 4 [216] .cleared] = some (x, h) ∧
    x.due = [.draw 4 [255, 216]] ∧ drawn h = x.due ∧
    (∀ fd ret, .received fd ret ∈ h → ret = 0) ∧
    ∀ i c, x.server.client i = some c → ∃ q,
      wire.locate (if i = 4 then [twoByteImage] else []) (x.got i) =
        some (completed (if i = 4 then [twoByteImage] else []) (x.got i), q) ∧
      (0 < q.pending → c.remainBytes = q.pending) ∧ (q.pending = 0 ↔ c.remainBytes ≤ 0) ∧
      c.jpeg = (Recv.payloads recvImage
        (completed (if i = 4 then [twoByteImage] else []) (x.got i))).getLastD [] := by
  have sendable (i : Int) : Sendable (if i = 4 then [twoByteImage] else []) := by
    split
    · exact ⟨by simp [NamesFit], by simp [Msg.RequestFits, twoByteImage],
        by simp [Msg.Allocatable, twoByteImage]⟩
    · exact ⟨trivial, by simp, by simp⟩
  have fresh (i : Int) (c : Client)
      (hc : (Server.blank.acceptClient ⟨4, 10, .blank⟩).commit.client i = some c) :
      ∃ raw id, c = Client.new ⟨1, 1, 3⟩ raw i id := by
    by_cases e : i = 4
    · subst e
      exact ⟨.blank, 10, (Option.some.inj hc).symm⟩
    · have none : (Server.blank.acceptClient ⟨4, 10, .blank⟩).commit.client i = none :=
        Function.update_of_ne e _ _
      rw [none] at hc
      contradiction
  have whole (n : Nat) (found : (wire.locate [twoByteImage] n).isSome) :
      ¬ wire.SplitsHeader [twoByteImage] n := Format.Pos.not_splitsHeader found
  have adm : Admitted (Delivery.step .none fun i => if i = 4 then [twoByteImage] else [])
      (Delivery.Conforms fun i => if i = 4 then [twoByteImage] else [])
      (.start (Server.blank.acceptClient ⟨4, 10, .blank⟩).commit)
      [.chunk 4 [5, 0, 0, 0, 2, 0, 0, 0, 255] .cleared, .chunk 4 [216] .cleared] :=
    ⟨⟨rfl, by decide, ⟨[216], by decide +kernel⟩, whole 9 (by decide +kernel)⟩,
      ⟨rfl, by decide, ⟨[], by decide +kernel⟩, whole 10 (by decide +kernel)⟩,
      trivial⟩
  have run : (exec (Delivery.step .none fun i => if i = 4 then [twoByteImage] else [])
      (.start (Server.blank.acceptClient ⟨4, 10, .blank⟩).commit)
      [.chunk 4 [5, 0, 0, 0, 2, 0, 0, 0, 255] .cleared, .chunk 4 [216] .cleared]).map
      (fun r => r.1.due) = some [.draw 4 [255, 216]] := by decide +kernel
  obtain ⟨⟨x, h⟩, e, due⟩ := Option.map_eq_some_iff.mp run
  obtain ⟨returned, pace, drawn, _⟩ := delivered sendable fresh (run_of_exec adm e)
  exact ⟨x, h, e, due, drawn, returned, pace⟩

end Projector
