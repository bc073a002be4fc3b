import Projector.Server.Effect
import Projector.Server.Follow

/-!
# A focus request in one chunk

A client at a message boundary that sends a `CHANGE_FOCUS_STATUS` message of four bytes in one piece:
`receive` stores the number in `ready_fd` and does nothing else that others can see. `step_request` is
the result for the server.
-/

namespace Projector

/-- A focus request with the four bytes of an id. -/
structure Msg.Request (m : Msg) : Prop where
  type : m.type = changeFocusStatus
  length : m.payload.length = 4

/-- A request for an id is a request. -/
lemma Msg.request_request (id : Int) : (Msg.request id).Request := ⟨rfl, length_intBytes id⟩

namespace Msg.Request

variable {m : Msg}

/-- A request has twelve bytes. -/
lemma length_encode (hm : m.Request) : (wire.encode m).length = 12 := by
  rw [Format.length_encode, wire_size, wire_payload, hm.length]

/-- A block for its payload can be had. -/
lemma allocatable (hm : m.Request) : m.Allocatable := by
  rw [Allocatable, hm.length]
  decide

end Msg.Request

/-- What others see of a call that draws nothing are its requests. -/
lemma outputs_of_draws_nil (fd : Int) {log : List Event} (h : draws log = []) :
    outputs fd log = (requests log).map .request := by
  simp only [outputs, requests, List.map_filterMap]
  apply List.filterMap_congr
  intro e mem
  cases e with
  | draw jpeg =>
    have drawn : jpeg ∈ draws log := List.mem_filterMap.mpr ⟨_, mem, rfl⟩
    rw [h] at drawn
    contradiction
  | done type data => by_cases foc : type = changeFocusStatus <;> simp [foc]
  | _ => rfl

/-- A header requests nothing. -/
lemma Recv.requests_headerLog (m : Msg) (len : Nat) (r : Recv) :
    requests (Recv.headerLog m len r) = [] := by
  unfold headerLog
  by_cases empty : 0 < m.payload.length <;>
    by_cases first : m.type = recvName ∧ r.client.userName = none <;>
      simp [requests, empty, first]

section receive

variable {tj : TurboJpeg} {heap : Heap} {buf : Mem} {c : Client} {g : Globals} {m : Msg}

/-- What a call of `receive` on a whole request does. -/
structure Requested (c : Client) (g : Globals) (m : Msg) (r : Recv) : Prop where
  fd : r.client.fd = c.fd
  userID : r.client.userID = c.userID
  remain : r.client.remainBytes ≤ 0
  globals : r.globals = { g with readyFd := intOfBytes m.payload }
  requests : requests r.log = [intOfBytes m.payload]
  draws : draws r.log = []

/-- The last round of the call: the four bytes are all there, at the start of the receive buffer. -/
lemma Recv.final_requested (tj : TurboJpeg) (heap : Heap) {r : Recv} (hm : m.Request)
    (h : HeaderDone m 12 ⟨[], 0, c, g⟩ r) (hbuf : buf.read 8 4 = m.payload) :
    ∃ r', r.final tj heap buf 12 = .ok r' ∧ Requested c g m r' ∧ r'.chunkRead = 12 := by
  obtain ⟨hg, hk, hlog, rb, un, hc, hrb, _⟩ := h
  obtain ⟨mem, rfl⟩ := hrb (by rw [hm.length]; decide)
  have size : r.client.remainBytes.toNat = 4 := by
    rw [hc]
    exact hm.length
  have id : (((r.store buf 12 4).client.recvBuffer.getD .null).mem).read 0 4 = m.payload := by
    rw [store_client, hc, hk]
    show (mem.memcpy 0 buf 8 4).read 0 4 = m.payload
    rw [Mem.read_memcpy, hbuf]
  rw [final_focus (by rw [hc]; exact hm.type), size]
  refine ⟨_, rfl, ?_, by rw [advance_chunkRead, focus_chunkRead, store_chunkRead, hk]⟩
  constructor
  case fd =>
    rw [advance_client, focus_client, store_client, hc]
    rfl
  case userID =>
    rw [advance_client, focus_client, store_client, hc]
    rfl
  case remain =>
    rw [advance_client, focus_client, store_client, hc]
    show (m.payload.length : Int) - 4 ≤ 0
    rw [hm.length]
    decide
  case globals => rw [advance_globals, focus_globals, id, store_globals, hg]
  case requests =>
    rw [advance_log, focus, emit_log, id, store_log, hlog, requests_append, requests_append,
      requests_append, requests_headerLog]
    simp [Projector.requests]
  case draws =>
    rw [advance_log, focus, emit_log, store_log, hlog, draws_append, draws_append, draws_append,
      draws_headerLog]
    simp [Projector.draws]

/-- A whole request, with memory for its block. -/
lemma receive_request (tj : TurboJpeg) (g : Globals) (hm : m.Request)
    (boundary : c.remainBytes ≤ 0) (total : heap.Total) (hbuf : buf.read 0 12 = wire.encode m) :
    ∃ r, c.receive tj heap g buf 12 = .ok r ∧ Requested c g m r := by
  have parts : buf.read 0 8 ++ buf.read (0 + 8) 4 = wire.header m ++ m.payload := by
    rw [← Mem.read_add]
    exact hbuf
  obtain ⟨head, tail⟩ :=
    List.append_inj parts (by rw [Mem.length_read, wire.length_header, wire_size])
  have spec : Post (Recv.HeaderDone m 12 ⟨[], 0, c, g⟩) (Recv.Throws heap m)
      (Recv.header heap buf 12 ⟨[], 0, c, g⟩) := Recv.header_spec head
  unfold Client.receive
  rw [iterate_of_true (by rfl), Recv.round, if_pos boundary]
  cases hh : Recv.header heap buf 12 ⟨[], 0, c, g⟩ with
  | error s =>
    exact absurd hm.allocatable ((spec.of_error hh).2 total)
  | ok r =>
    have entered := spec.of_ok hh
    obtain ⟨r', last, done, moved⟩ := Recv.final_requested tj heap hm entered tail
    have at_ : r.chunkRead = 8 := entered.chunkRead
    have remain : r.client.remainBytes = 4 := by
      obtain ⟨_, _, hc, _⟩ := entered.client
      rw [hc]
      show (m.payload.length : Int) = 4
      rw [hm.length]
      rfl
    refine ⟨r', ?_, done⟩
    show iterate _ _ 11 r = _
    rw [iterate_of_true (by rw [Recv.more_eq_true, at_]; decide), Recv.round, remain, at_,
      if_neg (by decide), if_neg (by decide), last]
    exact iterate_of_false (by rw [Recv.more_eq_false, moved])

end receive

namespace Server

variable {tj : TurboJpeg} {heap : Heap} {s : Server} {fd : Int} {c : Client} {m : Msg}

/-- The step in which the server receives a whole request. -/
theorem step_request (tj : TurboJpeg) (hm : m.Request) (watched : s.readFds fd = true)
    (ne : fd ≠ s.serverSocket) (hc : s.client fd = some c) (boundary : c.remainBytes ≤ 0)
    (total : heap.Total) :
    ∃ r, s.step tj (.read fd (wire.encode m) heap) =
        some ((s.received fd r).wipe (wire.encode m),
          [.request (intOfBytes m.payload), .received fd 0]) ∧
      Requested c s.toGlobals m r := by
  have buf : (s.chunk.overlay (wire.encode m)).read 0 12 = wire.encode m := by
    rw [← hm.length_encode]
    exact Mem.read_overlay _ _
  obtain ⟨r, hr, done⟩ := receive_request tj s.toGlobals hm boundary total buf
  refine ⟨r, ?_, done⟩
  have valid : s.readFds fd = true ∧ fd ≠ s.serverSocket ∧ 0 < 12 ∧ 12 ≤ maxBuf :=
    ⟨watched, ne, by decide, by decide⟩
  simp only [step, readData, hc, hm.length_encode, hr, if_pos valid,
    outputs_of_draws_nil fd done.draws, done.requests, List.map_cons, List.map_nil]
  rfl

end Server

end Projector
