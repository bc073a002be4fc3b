import Projector.Server.Follow
import Projector.Server.Isolation

/-!
# A header that is not valid is a disconnect

A read that returns some whole messages, a header that is not valid and anything behind it leaves the
server as a read of the messages and then an end of file do (`serve_refuses`). The call of `receive` on the
long chunk makes the rounds of the call on the messages alone, up to the log (`Recv.round_agrees`), and
gives up at the header (`receive_refuses`); the branch of `main` for that closes the connection as its
branch for an end of file does.
-/

namespace Projector

namespace Recv

/-- Two points of calls that differ in what was logged only. -/
structure Same (r r' : Recv) : Prop where
  chunkRead : r'.chunkRead = r.chunkRead
  client : r'.client = r.client
  globals : r'.globals = r.globals

/-- The same for calls that were left early. -/
def SameStop (s s' : Stop) : Prop := s'.exit = s.exit ∧ s.recv.Same s'.recv

variable {tj : TurboJpeg} {heap : Heap} {buf buf' : Mem} {len len' n : Nat} {r r' : Recv}

/-- Both calls allocate the receive buffer, or both throw. -/
lemma newRecvBuffer_agrees (h : r.Same r') :
    Agree Same SameStop (r.newRecvBuffer heap) (r'.newRecvBuffer heap) := by
  obtain ⟨log, k, c, g⟩ := r
  obtain ⟨log', k', c', g'⟩ := r'
  obtain ⟨rfl, rfl, rfl⟩ := h
  unfold newRecvBuffer
  by_cases pos : c'.headerLength > 0
  · simp only [if_pos pos]
    cases heap.new .recvBuffer k' (wrap32 (c'.headerLength + 1)) with
    | none => exact ⟨rfl, rfl, rfl, rfl⟩
    | some b => exact ⟨rfl, rfl, rfl⟩
  · simp only [if_neg pos]
    exact ⟨rfl, rfl, rfl⟩

/-- Both calls allocate the name buffer, or both throw. -/
lemma newUserName_agrees (h : r.Same r') :
    Agree Same SameStop (r.newUserName heap) (r'.newUserName heap) := by
  obtain ⟨log, k, c, g⟩ := r
  obtain ⟨log', k', c', g'⟩ := r'
  obtain ⟨rfl, rfl, rfl⟩ := h
  unfold newUserName
  by_cases first : c'.headerType = recvName ∧ c'.userName = none
  · simp only [if_pos first]
    cases heap.new .userName k' (wrap32 (c'.headerLength + 1)) with
    | none => exact ⟨rfl, rfl, rfl, rfl⟩
    | some b => exact ⟨rfl, rfl, rfl⟩
  · simp only [if_neg first]
    exact ⟨rfl, rfl, rfl⟩

/-- A header that is the same in both chunks. -/
lemma header_agrees (h : r.Same r') (bytes : buf'.read r.chunkRead 8 = buf.read r.chunkRead 8) :
    Agree Same SameStop (r.header heap buf len) (r'.header heap buf' len') := by
  obtain ⟨log, k, c, g⟩ := r
  obtain ⟨log', k', c', g'⟩ := r'
  obtain ⟨rfl, rfl, rfl⟩ := h
  rw [Mem.read_add buf' _ 4 4, Mem.read_add buf _ 4 4] at bytes
  obtain ⟨type, length⟩ := List.append_inj bytes (by simp)
  simp only [header, type, length]
  generalize intOfBytes (buf.read k' 4) = type
  generalize intOfBytes (buf.read (k' + 4) 4) = length
  split
  · exact ⟨rfl, rfl, rfl, rfl⟩
  · apply Agree.bind (R := Same)
    · exact newRecvBuffer_agrees ⟨rfl, rfl, rfl⟩
    · intro t t' same
      exact newUserName_agrees same

/-- Both calls store the same bytes. -/
lemma store_same (h : r.Same r') (bytes : buf'.read r.chunkRead n = buf.read r.chunkRead n) :
    (r.store buf len n).Same (r'.store buf' len' n) := by
  obtain ⟨log, k, c, g⟩ := r
  obtain ⟨log', k', c', g'⟩ := r'
  obtain ⟨rfl, rfl, rfl⟩ := h
  refine ⟨rfl, ?_, rfl⟩
  simp only [store_client, Mem.memcpy_congr _ _ bytes]

/-- Both calls read on. -/
lemma advance_same (h : r.Same r') : (r.advance n).Same (r'.advance n) := by
  refine ⟨?_, ?_, h.globals⟩
  · rw [advance_chunkRead, advance_chunkRead, h.chunkRead]
  · rw [advance_client, advance_client, h.client]

/-- Both calls keep the image, or both throw. -/
lemma keepImage_agrees (h : r.Same r') :
    Agree Same SameStop (r.keepImage heap) (r'.keepImage heap) := by
  obtain ⟨log, k, c, g⟩ := r
  obtain ⟨log', k', c', g'⟩ := r'
  obtain ⟨rfl, rfl, rfl⟩ := h
  simp only [keepImage]
  cases heap.new .jpegBuffer k' ((c'.recvOffset + 1 : Nat) : Int) with
  | none => exact ⟨rfl, rfl, rfl, rfl⟩
  | some b => exact ⟨rfl, rfl, rfl⟩

/-- Both calls draw the image, or neither does. -/
lemma drawFocused_same (h : r.Same r') : (r.drawFocused tj).Same (r'.drawFocused tj) := by
  obtain ⟨log, k, c, g⟩ := r
  obtain ⟨log', k', c', g'⟩ := r'
  obtain ⟨rfl, rfl, rfl⟩ := h
  unfold drawFocused
  by_cases foc : g'.focusFd = c'.fd
  · simp only [if_pos foc]
    exact ⟨rfl, rfl, rfl⟩
  · simp only [if_neg foc]
    exact ⟨rfl, rfl, rfl⟩

/-- Both calls keep the name. -/
lemma name_same (h : r.Same r') : r.name.Same r'.name := by
  obtain ⟨log, k, c, g⟩ := r
  obtain ⟨log', k', c', g'⟩ := r'
  obtain ⟨rfl, rfl, rfl⟩ := h
  exact ⟨rfl, rfl, rfl⟩

/-- Both calls keep the requested id. -/
lemma focus_same (h : r.Same r') : r.focus.Same r'.focus := by
  obtain ⟨log, k, c, g⟩ := r
  obtain ⟨log', k', c', g'⟩ := r'
  obtain ⟨rfl, rfl, rfl⟩ := h
  exact ⟨rfl, rfl, rfl⟩

/-- The end of a payload that is the same in both chunks. -/
lemma final_agrees (h : r.Same r')
    (bytes : buf'.read r.chunkRead r.client.remainBytes.toNat =
      buf.read r.chunkRead r.client.remainBytes.toNat) :
    Agree Same SameStop (r.final tj heap buf len) (r'.final tj heap buf' len') := by
  have type : r'.client.headerType = r.client.headerType := by rw [h.client]
  have size : r'.client.remainBytes.toNat = r.client.remainBytes.toNat := by rw [h.client]
  have stored : (r.store buf len r.client.remainBytes.toNat).Same
      (r'.store buf' len' r.client.remainBytes.toNat) := store_same h bytes
  by_cases hi : r.client.headerType = recvImage
  · rw [final_image hi, final_image (type.trans hi), size]
    have kept : Agree Same SameStop ((r.store buf len r.client.remainBytes.toNat).keepImage heap)
        ((r'.store buf' len' r.client.remainBytes.toNat).keepImage heap) := keepImage_agrees stored
    cases hk : (r.store buf len r.client.remainBytes.toNat).keepImage heap with
    | error s =>
      obtain ⟨s', hk', same⟩ := kept.of_error hk
      rw [hk']
      exact same
    | ok t =>
      obtain ⟨t', hk', same⟩ := kept.of_ok hk
      rw [hk']
      exact advance_same (drawFocused_same same)
  · by_cases hn : r.client.headerType = recvName
    · rw [final_name hn, final_name (type.trans hn), size]
      exact advance_same (name_same stored)
    · by_cases hf : r.client.headerType = changeFocusStatus
      · rw [final_focus hf, final_focus (type.trans hf), size]
        exact advance_same (focus_same stored)
      · rw [final_other hi hn hf, final_other (by rwa [type]) (by rwa [type]) (by rwa [type]), size]
        exact advance_same stored

/-- A round on the messages, and the same round on a chunk that goes on behind them. -/
lemma round_agrees {c : Client} {g : Globals} {ms : List Msg} (le : len ≤ len')
    (hlen : (wire.stream ms).length = len) (bytes : buf'.read 0 len = buf.read 0 len)
    (f : Following c g (.boundary ms) len r) (h : r.Same r') (more : r.chunkRead < len) :
    Agree Same SameStop (r.round tj heap buf len) (r'.round tj heap buf' len') := by
  obtain ⟨inChunk, d, q, e, at_, _⟩ := f
  have whole : (.boundary ms : wire.Pos).consume len = some (ms, .boundary []) :=
    hlen ▸ Format.Pos.consume_stream ms
  obtain ⟨d', rem, _⟩ := Format.Pos.consume_sub e whole inChunk
  have chunkRead := h.chunkRead
  have remain : r'.client.remainBytes = r.client.remainBytes := by rw [h.client]
  cases q with
  | boundary rest =>
    cases rest with
    | nil =>
      have none := Format.Pos.eq_zero_of_consume_nil rem
      omega
    | cons m rest =>
      -- The messages go on behind the boundary, so a whole header of theirs is there.
      have room := Format.Pos.size_le_of_consume rem (by omega)
      rw [wire_size] at room
      have at_' : r.client.remainBytes ≤ 0 := at_
      unfold round
      rw [if_pos at_', if_pos (by rwa [remain])]
      exact header_agrees h (Mem.read_of_prefix bytes (by omega))
  | inside m k rest lt =>
    -- The messages are complete, so the payload ends in the chunk.
    have ends : ¬ k + (len - r.chunkRead) < m.payload.length := by
      intro short
      rw [Format.Pos.consume_part (F := wire) lt short] at rem
      cases rem
    have lt' : k < m.payload.length := lt
    have left : r.client.remainBytes = (m.payload.length : Int) - k := Client.Inside.remain at_
    unfold round
    rw [if_neg (by omega), if_neg (by omega), if_neg (by omega), if_neg (by omega)]
    exact final_agrees h (Mem.read_of_prefix bytes (by omega))

/-- The messages as the stream that the call is to follow. -/
lemma read_stream {ms : List Msg} (hlen : (wire.stream ms).length = len)
    (bytes : buf.read 0 len = wire.stream ms) :
    buf.read 0 len = (.boundary ms : wire.Pos).bytes.take len := by
  rw [bytes, Format.Pos.bytes, List.take_of_length_le hlen.le]

/-- A call that has the messages in its chunk follows them. -/
lemma Visits.following {c : Client} {g : Globals} {ms : List Msg} {t : Recv}
    (hlen : (wire.stream ms).length = len) (bytes : buf.read 0 len = wire.stream ms)
    (boundary : c.remainBytes ≤ 0) (v : Visits tj heap buf len ⟨[], 0, c, g⟩ t) :
    Following c g (.boundary ms) len t := by
  apply v.invariant (Following c g (.boundary ms) len)
  · exact ⟨Nat.zero_le len, [], _, Format.Pos.consume_zero _, boundary, .start⟩
  · intro t u _ f more hu
    have whole := hlen ▸ Format.Pos.consume_stream ms
    exact ((round_follows (read_stream hlen bytes) whole f (more_eq_true.mp more)).of_ok hu).1

/-- The call on the long chunk comes to every point of the call on the messages. -/
lemma Visits.same {c : Client} {g : Globals} {ms : List Msg} {t : Recv} (le : len ≤ len')
    (hlen : (wire.stream ms).length = len) (bytes : buf.read 0 len = wire.stream ms)
    (bytes' : buf'.read 0 len = wire.stream ms) (boundary : c.remainBytes ≤ 0)
    (v : Visits tj heap buf len ⟨[], 0, c, g⟩ t) :
    ∃ t', Visits tj heap buf' len' ⟨[], 0, c, g⟩ t' ∧ t.Same t' := by
  apply v.simulates Same ⟨rfl, rfl, rfl⟩
  intro t t' u vt same more hu
  rw [more_eq_true] at more ⊢
  have chunkRead := same.chunkRead
  have agrees : Agree Same SameStop (t.round tj heap buf len) (t'.round tj heap buf' len') :=
    round_agrees le hlen (bytes'.trans bytes.symm) (Visits.following hlen bytes boundary vt) same more
  exact ⟨by omega, agrees.of_ok hu⟩

variable (heap len) in
/-- At a header that is not valid the call ends, and the globals stay as they are. -/
lemma header_refuses (invalid : InvalidHeader buf r) :
    ∃ s, r.header heap buf len = .error s ∧ s.exit = .invalidHeader ∧
      s.recv.client.fd = r.client.fd ∧ s.recv.globals = r.globals := by
  cases hh : r.header heap buf len with
  | ok u => exact absurd invalid (header_exit.of_ok hh)
  | error s =>
    have frame := frame_header.of_error hh
    exact ⟨s, rfl, (header_exit.of_error hh).mpr invalid, frame.fd, header_globals.of_error hh⟩

end Recv

/-- A call of `receive` on messages, beside one on a chunk that goes on with a header that is not valid:
the second one gives up where the first one ends, unless memory runs out in both. -/
theorem receive_refuses (tj : TurboJpeg) (heap : Heap) {c : Client} (g : Globals) {buf buf' : Mem}
    {len len' : Nat} {ms : List Msg} (boundary : c.remainBytes ≤ 0)
    (hlen : (wire.stream ms).length = len) (bytes : buf.read 0 len = wire.stream ms)
    (bytes' : buf'.read 0 len = wire.stream ms) (room : len < len')
    (invalid : intOfBytes (buf'.read len 4) > 10 ∨ intOfBytes (buf'.read len 4) < 0) :
    Post
      (fun r => ∃ s, c.receive tj heap g buf' len' = .error s ∧ s.exit = .invalidHeader ∧
        s.recv.client.fd = r.client.fd ∧ s.recv.globals = r.globals)
      (fun s => s.exit = .badAlloc ∧
        ∃ s', c.receive tj heap g buf' len' = .error s' ∧ s'.exit = .badAlloc)
      (c.receive tj heap g buf len) := by
  have follows : Post (fun r => r.client.At (.boundary []) ∧ Recv.Applied c g ms r)
      (Recv.OutOfMemory heap (.boundary ms)) (c.receive tj heap g buf len) :=
    receive_follows boundary (Recv.read_stream hlen bytes) (hlen ▸ Format.Pos.consume_stream ms)
  have ends := receive_visits tj heap c g buf len
  cases hr : c.receive tj heap g buf len with
  | ok r =>
    obtain ⟨v, stop⟩ := ends.of_ok hr
    have whole : r.chunkRead = len := Nat.le_antisymm (v.following hlen bytes boundary).le stop
    obtain ⟨r', v', same⟩ := v.same room.le hlen bytes bytes' boundary
    have chunkRead : r'.chunkRead = len := same.chunkRead.trans whole
    have between : r'.client.remainBytes ≤ 0 := by
      rw [same.client]
      exact (follows.of_ok hr).1
    have here : Recv.InvalidHeader buf' r' := by rwa [Recv.InvalidHeader, chunkRead]
    obtain ⟨s, hs, exit, fd, globals⟩ := Recv.header_refuses heap len' here
    have last : r'.round tj heap buf' len' = .error s := by
      rw [Recv.round, if_pos between, hs]
    refine ⟨s, receive_of_error v' (by omega) last, exit, ?_, ?_⟩
    · rw [fd, same.client]
    · rw [globals, same.globals]
  | error s =>
    obtain ⟨t, v, more, hs⟩ := ends.of_error hr
    obtain ⟨t', v', same⟩ := v.same room.le hlen bytes bytes' boundary
    have agrees : Agree Recv.Same Recv.SameStop (t.round tj heap buf len)
        (t'.round tj heap buf' len') :=
      Recv.round_agrees room.le hlen (bytes'.trans bytes.symm) (v.following hlen bytes boundary) same
        more
    obtain ⟨s', hs', stop⟩ := agrees.of_error hs
    have chunkRead := same.chunkRead
    have bad := (follows.of_error hr).1
    exact ⟨bad, s', receive_of_error v' (by omega) hs', stop.1.trans bad⟩

namespace Server

/-- The server without what `main` reads into before it looks at it. -/
def forgetChunk (s : Server) : Server := { s with chunk := fun _ => 0 }

/-- The server after a read of some messages; there is no read of none. -/
def handle (tj : TurboJpeg) (s : Server) (fd : Int) (a : Accepted) (heap : Heap) (ms : List Msg) :
    Option Server :=
  if ms = [] then some s else (s.serve tj fd a (.data (wire.stream ms) heap)).map Prod.fst

/-- What is left of a call when its connection is closed are the globals. -/
lemma dropClient_received {s : Server} {fd : Int} {r r' : Recv} (hfd : r'.client.fd = r.client.fd)
    (globals : r'.globals = r.globals) :
    (s.received fd r').dropClient fd = (s.received fd r).dropClient fd := by
  simp only [dropClient, received, Function.update_self, Function.update_idem, hfd, globals]

/-- A call that has done nothing leaves the server as it was. -/
lemma received_start {s : Server} {fd : Int} {c : Client} (hc : s.client fd = some c) (es : List Event)
    (k : Nat) : s.received fd ⟨es, k, c, s.toGlobals⟩ = s := by
  simp only [received, ← hc, Function.update_eq_self]

section serve

variable {tj : TurboJpeg} {s : Server} {fd : Int} {c : Client} {heap : Heap} {a : Accepted}

/-- The end of file on a connection. -/
lemma serve_eof (conn : fd ≠ s.serverSocket) :
    s.serve tj fd a (.data [] heap) = some (s.dropClient fd, [.closed fd]) := by
  simp [serve, conn]

/-- A read after which the connection stays. -/
lemma serve_received {bytes : List UInt8} {r : Recv} (hc : s.client fd = some c)
    (conn : fd ≠ s.serverSocket) (pos : 0 < bytes.length)
    (hr : c.receive tj heap s.toGlobals (s.chunk.overlay bytes) bytes.length = .ok r) :
    (s.serve tj fd a (.data bytes heap)).map Prod.fst = some ((s.received fd r).wipe bytes) := by
  simp only [serve, if_neg conn, if_pos pos, readData, hc, hr, Option.map_some]

/-- A read after which the connection is closed. -/
lemma serve_refused {bytes : List UInt8} {stop : Stop} (hc : s.client fd = some c)
    (conn : fd ≠ s.serverSocket) (pos : 0 < bytes.length)
    (hr : c.receive tj heap s.toGlobals (s.chunk.overlay bytes) bytes.length = .error stop)
    (exit : stop.exit = .invalidHeader) :
    (s.serve tj fd a (.data bytes heap)).map Prod.fst =
      some (((s.received fd stop.recv).dropClient fd).wipe bytes) := by
  obtain ⟨_, r⟩ := stop
  subst exit
  simp only [serve, if_neg conn, if_pos pos, readData, hc, hr, Option.map_some]

/-- A read in which memory runs out. -/
lemma serve_badAlloc {bytes : List UInt8} {stop : Stop} (hc : s.client fd = some c)
    (conn : fd ≠ s.serverSocket) (pos : 0 < bytes.length)
    (hr : c.receive tj heap s.toGlobals (s.chunk.overlay bytes) bytes.length = .error stop)
    (exit : stop.exit = .badAlloc) : s.serve tj fd a (.data bytes heap) = none := by
  obtain ⟨_, r⟩ := stop
  subst exit
  simp only [serve, if_neg conn, if_pos pos, readData, hc, hr]

end serve

section handle

variable {tj : TurboJpeg} {s : Server} {fd : Int} {c : Client} {heap : Heap} {a : Accepted}
  {ms : List Msg}

/-- Only the empty list of messages is without bytes. -/
lemma stream_pos (h : ms ≠ []) : 0 < (wire.stream ms).length := by
  cases ms with
  | nil => exact absurd rfl h
  | cons m ms =>
    rw [Format.length_stream_cons, wire_size]
    omega

/-- The server after the messages, up to the chunk. -/
lemma handle_received {r : Recv} (hc : s.client fd = some c) (conn : fd ≠ s.serverSocket)
    (hr : c.receive tj heap s.toGlobals (s.chunk.overlay (wire.stream ms)) (wire.stream ms).length =
      .ok r) :
    ∃ t, s.handle tj fd a heap ms = some t ∧ t.serverSocket = s.serverSocket ∧
      (t.dropClient fd).forgetChunk = ((s.received fd r).dropClient fd).forgetChunk := by
  by_cases none : ms = []
  · subst none
    have start : ⟨[], 0, c, s.toGlobals⟩ = r := Except.ok.inj hr
    exact ⟨s, rfl, rfl, by rw [← start, received_start hc]⟩
  · refine ⟨(s.received fd r).wipe (wire.stream ms), ?_, rfl, rfl⟩
    rw [handle, if_neg none, serve_received hc conn (stream_pos none) hr]

/-- The messages in which memory runs out. -/
lemma handle_badAlloc {stop : Stop} (hc : s.client fd = some c) (conn : fd ≠ s.serverSocket)
    (hr : c.receive tj heap s.toGlobals (s.chunk.overlay (wire.stream ms)) (wire.stream ms).length =
      .error stop) (exit : stop.exit = .badAlloc) : s.handle tj fd a heap ms = none := by
  by_cases none : ms = []
  · subst none
    cases hr
  · rw [handle, if_neg none, serve_badAlloc hc conn (stream_pos none) hr exit]
    rfl

end handle

/-- For any server, any connection between two messages, any messages, any header whose type is not
valid and any bytes behind it: one read of all of it leaves the server as a read of the messages and then
an end of file do. -/
theorem serve_refuses (tj : TurboJpeg) (s : Server) (fd : Int) (c : Client) (a : Accepted) (heap : Heap)
    (hc : s.client fd = some c) (conn : fd ≠ s.serverSocket) (boundary : c.remainBytes ≤ 0)
    (ms : List Msg) (header tail : List UInt8) (whole : header.length = 8)
    (invalid : ¬ (0 ≤ intOfBytes (header.take 4) ∧ intOfBytes (header.take 4) ≤ 10)) :
    (s.serve tj fd a (.data (wire.stream ms ++ header ++ tail) heap)).map (fun t => t.1.forgetChunk) =
      (s.handle tj fd a heap ms).bind fun t =>
        (t.serve tj fd a (.data [] heap)).map fun u => u.1.forgetChunk := by
  have bytes' : (s.chunk.overlay (wire.stream ms ++ header ++ tail)).read 0
      ((wire.stream ms ++ header) ++ tail).length = wire.stream ms ++ header ++ tail :=
    Mem.read_overlay _ _
  obtain ⟨atStream, atHeader⟩ := Mem.read_append (Mem.read_append bytes').1
  have type : (s.chunk.overlay (wire.stream ms ++ header ++ tail)).read (wire.stream ms).length 4 =
      header.take 4 := by
    rw [Nat.zero_add] at atHeader
    have taken := congrArg (List.take 4) atHeader
    rwa [Mem.take_read _ _ (by omega)] at taken
  have length : (wire.stream ms ++ header ++ tail).length =
      (wire.stream ms).length + 8 + tail.length := by
    rw [List.length_append, List.length_append, whole]
  have refuses := receive_refuses tj heap s.toGlobals boundary rfl (Mem.read_overlay s.chunk _) atStream
    (by omega : (wire.stream ms).length < (wire.stream ms ++ header ++ tail).length)
    (by rw [type]; omega)
  cases hr : c.receive tj heap s.toGlobals (s.chunk.overlay (wire.stream ms))
      (wire.stream ms).length with
  | ok r =>
    obtain ⟨stop, hs, exit, hfd, globals⟩ := refuses.of_ok hr
    obtain ⟨t, ht, socket, closed⟩ := handle_received (a := a) hc conn hr
    have long := serve_refused (a := a) hc conn (by omega) hs exit
    rw [dropClient_received hfd globals] at long
    rw [ht, Option.bind_some, serve_eof (by rwa [socket]), Option.map_some, closed]
    have forgot := congrArg (Option.map forgetChunk) long
    rw [Option.map_map, Option.map_some] at forgot
    exact forgot
  | error stop =>
    obtain ⟨exit, stop', hs', exit'⟩ := refuses.of_error hr
    rw [handle_badAlloc hc conn hr exit, serve_badAlloc hc conn (by omega) hs' exit']
    rfl

/-- A header of a type that no message has. -/
def headerEleven : List UInt8 := [11, 0, 0, 0, 1, 0, 0, 0]

/-- `serve_refuses` for the second of three users, who asks for the focus and then sends such a header. -/
theorem serve_refuses_three :
    (three.serve .none 5 ⟨0, 0, .blank⟩
        (.data (wire.stream [Msg.request 6] ++ headerEleven ++ [1, 2, 3]) .cleared)).map
          (fun t => t.1.forgetChunk) =
      (three.handle .none 5 ⟨0, 0, .blank⟩ .cleared [Msg.request 6]).bind fun t =>
        (t.serve .none 5 ⟨0, 0, .blank⟩ (.data [] .cleared)).map fun u => u.1.forgetChunk :=
  serve_refuses .none three 5 second ⟨0, 0, .blank⟩ .cleared rfl (by decide) (by decide)
    [Msg.request 6] headerEleven [1, 2, 3] rfl (by decide)

end Server

end Projector
