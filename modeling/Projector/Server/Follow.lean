import Projector.Server.Receive

/-!
# The parser follows the stream

On a stream of well-formed messages cut anywhere but inside a header, `Client::receive` keeps its object
at the position of the stream that the bytes so far have reached. `Client.At` is that agreement, one lemma
per branch of the loop keeps it, and `receive_follows` is the result for a whole call, together with what
the call does for the messages it completes.
-/

namespace Projector

/-- The object is `k` bytes into the payload of `m`. -/
structure Client.Inside (c : Client) (m : Msg) (k : Nat) : Prop where
  type : c.headerType = m.type
  length : c.headerLength = m.payload.length
  remain : c.remainBytes = (m.payload.length : Int) - k
  block : ∃ mem, c.recvBuffer = some ⟨(m.payload.length : Int) + 1, mem⟩ ∧
    (Recv.Accumulates m.type → c.recvOffset = k ∧ mem.read 0 k = m.payload.take k) ∧
    (¬ Recv.Accumulates m.type → c.recvOffset = 0)

/-- The object is at a position of the stream. -/
def Client.At (c : Client) : wire.Pos → Prop
  | .boundary _ => c.remainBytes ≤ 0
  | .inside m k _ _ => c.Inside m k

/-- Without a name buffer there is no name. -/
def Client.Named (c : Client) : Prop := c.userName = none → c.userNameLength = 0

/-- The length and the terminator of the message's block fit an `int`. -/
def Msg.Allocatable (m : Msg) : Prop := m.payload.length + 1 < 2 ^ 31

/-- A type of a message is an `int`. -/
lemma Msg.type_inInt (m : Msg) : InInt m.type := by
  obtain ⟨lo, hi⟩ := m.type_valid
  constructor <;> omega

/-- A length of a message is an `int`. -/
lemma Msg.length_inInt (m : Msg) : InInt m.payload.length := by
  have hi := m.length_lt
  constructor <;> omega

/-- Decoding the two fields of a header. -/
lemma header_fields {buf : Mem} {j : Nat} {m : Msg} (hb : buf.read j 8 = wire.header m) :
    intOfBytes (buf.read j 4) = m.type ∧ intOfBytes (buf.read (j + 4) 4) = m.payload.length := by
  have split : buf.read j 4 ++ buf.read (j + 4) 4
      = intBytes m.type ++ intBytes m.payload.length := by
    rw [← Mem.read_add]
    exact hb
  obtain ⟨ht, hl⟩ := List.append_inj split (by simp)
  rw [ht, hl]
  exact ⟨intOfBytes_intBytes_of_inInt m.type_inInt, intOfBytes_intBytes_of_inInt m.length_inInt⟩

/-- `receive` takes every message. -/
lemma Msg.valid (m : Msg) : ¬ (m.type > 10 ∨ m.type < 0) := by
  have type_valid := m.type_valid
  omega

/-- Either `new` throws, or it gives a block of the size asked for. -/
lemma Heap.new_cases (heap : Heap) (site : Site) (k : Nat) (size : Int) :
    (heap.new site k size = none ∧ (heap.Total → size < 0)) ∨
      ∃ mem, heap.new site k size = some ⟨size, mem⟩ ∧ 0 ≤ size := by
  unfold Heap.new
  by_cases neg : size < 0
  · simp [neg]
  · cases hm : heap site k with
    | none =>
      left
      refine ⟨by simp [neg], fun total => ?_⟩
      have h := total site k
      simp [hm] at h
    | some mem => exact Or.inr ⟨mem, by simp [neg], by omega⟩

/-- The block of a `new` that does not throw. -/
lemma Heap.new_size {heap : Heap} {site : Site} {k : Nat} {size : Int} {b : Block}
    (h : heap.new site k size = some b) : b.size = size ∧ 0 ≤ size := by
  rcases heap.new_cases site k size with ⟨none, _⟩ | ⟨mem, found, nonneg⟩
  · rw [h] at none
    cases none
  · rw [h, Option.some.injEq] at found
    exact ⟨congrArg Block.size found, nonneg⟩

/-- A block size that does not wrap to a negative number is the length plus one. -/
lemma wrap32_length {m : Msg} (h : 0 ≤ wrap32 ((m.payload.length : Int) + 1)) :
    wrap32 ((m.payload.length : Int) + 1) = (m.payload.length : Int) + 1 ∧ m.Allocatable := by
  have hi := m.length_lt
  have size := wrap32_succ ⟨by omega, by omega⟩ h
  have fits := (wrap32_inInt ((m.payload.length : Int) + 1)).2
  rw [size] at fits
  refine ⟨size, ?_⟩
  unfold Msg.Allocatable
  omega

namespace Recv

variable {tj : TurboJpeg} {heap : Heap} {buf : Mem} {len : Nat} {r : Recv} {m : Msg}

/-- The object behind the header of `m`. -/
def entered (m : Msg) (rb un : Option Block) (r : Recv) : Client :=
  { r.client with
    headerType := m.type
    headerLength := m.payload.length
    remainBytes := m.payload.length
    recvOffset := 0
    recvBuffer := rb
    userName := un }

/-- The log of the header of `m`. -/
def headerLog (m : Msg) (len : Nat) (r : Recv) : List Event :=
  let size : Int := m.payload.length + 1
  [.bufRead r.chunkRead 4 len, .bufRead (r.chunkRead + 4) 4 len] ++
    (if 0 < m.payload.length then
      [.new .recvBuffer size, .write .recvBuffer size m.payload.length 1] else []) ++
    (if m.type = recvName ∧ r.client.userName = none then
      [.new .userName size, .write .userName size m.payload.length 1] else [])

/-- What the header branch does with the header of `m`. -/
structure HeaderDone (m : Msg) (len : Nat) (r r' : Recv) : Prop where
  globals : r'.globals = r.globals
  chunkRead : r'.chunkRead = r.chunkRead + 8
  log : r'.log = r.log ++ headerLog m len r
  client : ∃ rb un, r'.client = entered m rb un r ∧
    (0 < m.payload.length → ∃ mem, rb = some ⟨(m.payload.length : Int) + 1, mem⟩) ∧
    (if m.type = recvName ∧ r.client.userName = none then
      ∃ mem, un = some ⟨(m.payload.length : Int) + 1, mem⟩ else un = r.client.userName)

/-- The call ended at a `new` that threw; with enough memory only a length of `2 ^ 31 - 1` does that. -/
def Throws (heap : Heap) (m : Msg) (s : Stop) : Prop :=
  s.exit = .badAlloc ∧ (heap.Total → ¬ m.Allocatable)

/-- A block of the message's length and one, or an exception. -/
lemma new_length (heap : Heap) (m : Msg) (site : Site) (k : Nat) :
    (heap.new site k (wrap32 ((m.payload.length : Int) + 1)) = none ∧
        (heap.Total → ¬ m.Allocatable)) ∨
      (wrap32 ((m.payload.length : Int) + 1) = (m.payload.length : Int) + 1 ∧
        ∃ mem, heap.new site k ((m.payload.length : Int) + 1)
          = some ⟨(m.payload.length : Int) + 1, mem⟩) := by
  rcases heap.new_cases site k (wrap32 ((m.payload.length : Int) + 1)) with
    ⟨hn, neg⟩ | ⟨mem, hs, nonneg⟩
  · refine Or.inl ⟨hn, fun total fit => ?_⟩
    have lt := neg total
    unfold Msg.Allocatable at fit
    rw [wrap32_of_inInt ⟨by omega, by omega⟩] at lt
    omega
  · obtain ⟨e, _⟩ := wrap32_length nonneg
    rw [e] at hs
    exact Or.inr ⟨e, mem, hs⟩

/-- What the header branch has done once the receive buffer is there. -/
structure BufferDone (m : Msg) (r r' : Recv) : Prop where
  globals : r'.globals = r.globals
  chunkRead : r'.chunkRead = r.chunkRead
  client : ∃ rb, r'.client = { r.client with recvBuffer := rb } ∧
    (0 < m.payload.length → ∃ mem, rb = some ⟨(m.payload.length : Int) + 1, mem⟩)
  log : r'.log = r.log ++ if 0 < m.payload.length then
    [.new .recvBuffer ((m.payload.length : Int) + 1),
      .write .recvBuffer ((m.payload.length : Int) + 1) m.payload.length 1] else []

/-- The receive buffer of `m`. -/
lemma newRecvBuffer_spec (hl : r.client.headerLength = m.payload.length) :
    Post (BufferDone m r) (Throws heap m) (r.newRecvBuffer heap) := by
  by_cases empty : 0 < m.payload.length
  · have pos : (m.payload.length : Int) > 0 := by omega
    rcases new_length heap m .recvBuffer r.chunkRead with ⟨hn, big⟩ | ⟨e, mem, hs⟩
    · simp only [newRecvBuffer, hl, if_pos pos, hn]
      exact ⟨rfl, big⟩
    · simp only [newRecvBuffer, hl, if_pos pos, e, hs]
      exact ⟨rfl, rfl, ⟨some ⟨_, mem.set m.payload.length 0⟩, by simp [hl], fun _ => ⟨_, rfl⟩⟩,
        by simp [empty]⟩
  · have zero : ¬ (m.payload.length : Int) > 0 := by omega
    simp only [newRecvBuffer, hl, if_neg zero]
    exact ⟨rfl, rfl, ⟨_, rfl, fun h => absurd h empty⟩, by simp [empty]⟩

/-- What the header branch does about the name buffer. -/
structure NameDone (m : Msg) (r r' : Recv) : Prop where
  globals : r'.globals = r.globals
  chunkRead : r'.chunkRead = r.chunkRead
  client : ∃ un, r'.client = { r.client with userName := un } ∧
    if m.type = recvName ∧ r.client.userName = none then
      ∃ mem, un = some ⟨(m.payload.length : Int) + 1, mem⟩ else un = r.client.userName
  log : r'.log = r.log ++ if m.type = recvName ∧ r.client.userName = none then
    [.new .userName ((m.payload.length : Int) + 1),
      .write .userName ((m.payload.length : Int) + 1) m.payload.length 1] else []

/-- The name buffer at the header of `m`. -/
lemma newUserName_spec (ht : r.client.headerType = m.type)
    (hl : r.client.headerLength = m.payload.length) :
    Post (NameDone m r) (Throws heap m) (r.newUserName heap) := by
  by_cases first : m.type = recvName ∧ r.client.userName = none
  · rcases new_length heap m .userName r.chunkRead with ⟨hn, big⟩ | ⟨e, mem, hs⟩
    · simp only [newUserName, ht, hl, if_pos first, hn]
      exact ⟨rfl, big⟩
    · simp only [newUserName, ht, hl, if_pos first, e, hs]
      refine ⟨rfl, rfl, ⟨some ⟨(m.payload.length : Int) + 1, mem.set m.payload.length 0⟩,
        by simp [ht, hl], ?_⟩, by simp [if_pos first]⟩
      rw [if_pos first]
      exact ⟨_, rfl⟩
  · simp only [newUserName, ht, if_neg first]
    exact ⟨rfl, rfl, ⟨_, rfl, by rw [if_neg first]⟩, by simp [if_neg first]⟩

/-- The header branch on the header of `m`. -/
lemma header_spec (hb : buf.read r.chunkRead 8 = wire.header m) :
    Post (HeaderDone m len r) (Throws heap m) (r.header heap buf len) := by
  obtain ⟨ht, hl⟩ := header_fields hb
  simp only [header, ht, hl, if_neg m.valid]
  apply Post.bind (newRecvBuffer_spec rfl)
  rintro r1 ⟨g1, k1, ⟨rb, c1, hrb⟩, l1⟩
  apply Post.mono (newUserName_spec (by rw [c1]; rfl) (by rw [c1]; rfl)) _ (fun _ h => h)
  rintro r2 ⟨g2, k2, ⟨un, c2, hun⟩, l2⟩
  refine ⟨g2.trans g1, k2.trans k1, ?_, rb, un, ?_, hrb, ?_⟩
  · rw [l2, l1, c1, headerLog]
    simp only [emit_log, List.append_assoc]
    rfl
  · rw [c2, c1]
    rfl
  · rw [c1] at hun
    exact hun

/-- A piece of the payload that does not reach its end. -/
lemma part_inside {k : Nat} (h : r.client.Inside m k)
    (hb : buf.read r.chunkRead (len - r.chunkRead) = (m.payload.drop k).take (len - r.chunkRead)) :
    (r.part buf len).client.Inside m (k + (len - r.chunkRead)) := by
  obtain ⟨mem, hm, acc, skip⟩ := h.block
  by_cases ha : Accumulates m.type
  · obtain ⟨off, pre⟩ := acc ha
    rw [part_of_accumulates (by rwa [h.type])]
    refine ⟨h.type, h.length, ?_, mem.memcpy k buf r.chunkRead (len - r.chunkRead), ?_, ?_, ?_⟩
    · simp only [advance_client, store_client, h.remain]
      omega
    · simp [hm, off]
    · intro _
      refine ⟨by simp [off], ?_⟩
      rw [Mem.read_memcpy_append, pre, hb, List.take_add]
    · exact fun not => absurd ha not
  · rw [part_of_not_accumulates (by rwa [h.type])]
    refine ⟨h.type, h.length, ?_, mem, hm, fun not => absurd not ha, skip⟩
    simp only [advance_client, h.remain]
    omega

/-- The bytes of `m` still missing. -/
lemma readSize_of_inside {k : Nat} (h : r.client.Inside m k) :
    r.client.remainBytes.toNat = m.payload.length - k := by
  rw [h.remain]
  omega

/-- After the last piece the receive buffer holds the payload of an accumulated message. -/
lemma store_full (len : Nat) {k : Nat} (h : r.client.Inside m k) (le : k ≤ m.payload.length)
    (ha : Accumulates m.type)
    (hb : buf.read r.chunkRead (m.payload.length - k) = m.payload.drop k) :
    ∃ mem, (r.store buf len r.client.remainBytes.toNat).client.recvBuffer
        = some ⟨(m.payload.length : Int) + 1, mem⟩ ∧
      (r.store buf len r.client.remainBytes.toNat).client.recvOffset = m.payload.length ∧
      mem.read 0 m.payload.length = m.payload := by
  obtain ⟨mem, hm, acc, _⟩ := h.block
  obtain ⟨off, pre⟩ := acc ha
  refine ⟨mem.memcpy k buf r.chunkRead (m.payload.length - k), ?_, ?_, ?_⟩
  · simp [readSize_of_inside h, hm, off]
  · simp only [store_client, readSize_of_inside h, off]
    omega
  · have whole : k + (m.payload.length - k) = m.payload.length := by omega
    have back := Mem.read_memcpy_append mem k buf r.chunkRead (m.payload.length - k)
    rw [whole] at back
    rw [back, pre, hb, List.take_append_drop]

/-- A header draws nothing. -/
lemma draws_headerLog : draws (headerLog m len r) = [] := by
  unfold headerLog
  by_cases empty : 0 < m.payload.length <;>
    by_cases first : m.type = recvName ∧ r.client.userName = none <;>
      simp [draws, empty, first]

/-- What the final branch does with the last piece of `m`. -/
structure FinalDone (m : Msg) (k : Nat) (r r' : Recv) : Prop where
  remain : r'.client.remainBytes = 0
  chunkRead : r'.chunkRead = r.chunkRead + (m.payload.length - k)
  fd : r'.client.fd = r.client.fd
  userID : r'.client.userID = r.client.userID
  focusFd : r'.globals.focusFd = r.globals.focusFd
  userCount : r'.globals.userCount = r.globals.userCount
  jpeg : r'.client.jpeg = if m.type = recvImage then m.payload else r.client.jpeg
  name : r'.client.name = if m.type = recvName then m.payload else r.client.name
  named : r.client.Named → r'.client.Named
  draws : Projector.draws r'.log = Projector.draws r.log ++
    if m.type = recvImage ∧ r.globals.focusFd = r.client.fd then [m.payload] else []

/-- A complete image is kept, or memory runs out. -/
structure ImageKept (b : Block) (r r' : Recv) : Prop where
  chunkRead : r'.chunkRead = r.chunkRead
  globals : r'.globals = r.globals
  client : ∃ jb, r'.client = { r.client with
    jpegBuffer := some jb, jpegOffset := r.client.recvOffset }
  jpeg : r'.client.jpeg = b.mem.read 0 r.client.recvOffset
  log : r'.log = r.log ++ [
    .new .jpegBuffer (r.client.recvOffset + 1 : Nat),
    .write .jpegBuffer (r.client.recvOffset + 1 : Nat) r.client.recvOffset 1,
    .read .recvBuffer b.size r.client.recvOffset,
    .write .jpegBuffer (r.client.recvOffset + 1 : Nat) 0 r.client.recvOffset,
    .done recvImage (b.mem.read 0 r.client.recvOffset)]

/-- Keeping an image whose bytes are in the receive buffer. -/
lemma keepImage_spec {b : Block} (hb : r.client.recvBuffer = some b) :
    Post (ImageKept b r) (Throws heap m) (r.keepImage heap) := by
  rcases heap.new_cases .jpegBuffer r.chunkRead ((r.client.recvOffset + 1 : Nat) : Int) with
    ⟨hn, neg⟩ | ⟨mem, hs, _⟩
  · simp only [keepImage, hn]
    exact ⟨rfl, fun total => by have := neg total; omega⟩
  · have copied : ((mem.set r.client.recvOffset 0).memcpy 0 b.mem 0 r.client.recvOffset).read 0
        r.client.recvOffset = b.mem.read 0 r.client.recvOffset := Mem.read_memcpy _ _ _ _ _
    simp only [keepImage, hs, hb, Option.getD_some]
    refine ⟨rfl, rfl, ⟨⟨_, (mem.set r.client.recvOffset 0).memcpy 0 b.mem 0 r.client.recvOffset⟩,
      by simp [hb]; rfl⟩, copied, ?_⟩
    simp only [emit_log, Client.jpeg, Option.getD_some, copied]

/-- Drawing, seen from the object and the globals. -/
structure Drawn (r r' : Recv) : Prop where
  chunkRead : r'.chunkRead = r.chunkRead
  client : ∃ w h s, r'.client = { r.client with jpegWidth := w, jpegHeight := h, jpegSubsamp := s }
  globals : ∃ fbp, r'.globals = { r.globals with fbp := fbp } ∧
    (r.globals.focusFd ≠ r.client.fd → fbp = r.globals.fbp)
  log : r'.log = r.log ++ if r.globals.focusFd = r.client.fd then [.draw r.client.jpeg] else []

/-- What drawing does to the call. -/
lemma drawFocused_spec : Drawn r (r.drawFocused tj) := by
  unfold drawFocused
  by_cases foc : r.globals.focusFd = r.client.fd
  · simp only [if_pos foc]
    exact ⟨rfl, draw_client tj r.client r.globals.fbp, ⟨_, rfl, fun h => absurd foc h⟩, by simp [foc]⟩
  · simp only [if_neg foc]
    exact ⟨rfl, ⟨_, _, _, rfl⟩, ⟨_, rfl, fun _ => rfl⟩, by simp [foc]⟩

/-- All that is missing is read, and nothing is missing afterwards. -/
lemma remain_final {k : Nat} (h : r.client.Inside m k) (lt : k < m.payload.length) :
    r.client.remainBytes - (r.client.remainBytes.toNat : Int) = 0 := by
  have e := h.remain
  omega

/-- The last piece of an image. -/
lemma final_image_spec {k : Nat} (h : r.client.Inside m k) (lt : k < m.payload.length)
    (hb : buf.read r.chunkRead (m.payload.length - k) = m.payload.drop k)
    (hi : m.type = recvImage) :
    Post (FinalDone m k r) (Throws heap m) (r.final tj heap buf len) := by
  obtain ⟨mem, hm, off, full⟩ := store_full len h lt.le (Or.inl hi) hb
  rw [final_image (by rwa [h.type])]
  cases hk : (r.store buf len r.client.remainBytes.toNat).keepImage heap with
  | error s => exact (keepImage_spec hm).of_error hk
  | ok t =>
    obtain ⟨ck, cg, ⟨jb, cc⟩, cj, cl⟩ := (keepImage_spec (m := m) hm).of_ok hk
    have drawn : Drawn t (t.drawFocused tj) := drawFocused_spec
    obtain ⟨dk, ⟨w, x, y, dc⟩, ⟨fbp, dg, _⟩, dl⟩ := drawn
    have bytes : t.client.jpeg = m.payload := by rw [cj, off, full]
    constructor
    case remain => simp only [advance_client, dc, cc, store_client, remain_final h lt]
    case chunkRead =>
      simp only [advance_chunkRead, dk, ck, store_chunkRead, readSize_of_inside h]
    case fd => simp only [advance_client, dc, cc, store_client]
    case userID => simp only [advance_client, dc, cc, store_client]
    case focusFd => simp only [advance_globals, dg, cg, store_globals]
    case userCount => simp only [advance_globals, dg, cg, store_globals]
    case jpeg =>
      -- `draw` changes the size of the picture only, so the image kept is the image drawn.
      rw [if_pos hi, ← bytes]
      simp only [Client.jpeg, advance_client, dc]
    case name =>
      rw [if_neg (by simp [hi])]
      simp only [Client.name, advance_client, dc, cc, store_client]
    case named =>
      simp only [Client.Named, advance_client, dc, cc, store_client]
      exact id
    case draws =>
      simp only [advance_log, dl, cl, store_log, draws_append, cg, bytes]
      simp only [cc, store_client, store_globals]
      by_cases foc : r.globals.focusFd = r.client.fd <;> simp [Projector.draws, foc, hi]

/-- A name whose bytes are in the receive buffer is kept. -/
lemma name_name {mem : Mem} {size : Int} {n : Nat} (hm : r.client.recvBuffer = some ⟨size, mem⟩)
    (off : r.client.recvOffset = n) : r.name.client.name = mem.read 0 n := by
  have copied (dst : Mem) : ((dst.memcpy 0 mem 0 n).set n 0).read 0 n = mem.read 0 n := by
    rw [Mem.read_set_of_le _ _ (by simp), Mem.read_memcpy]
  simp only [Client.name, name, emit_client, hm, off, Option.getD_some]
  apply copied

/-- The last piece of a name. -/
lemma final_name_spec {k : Nat} (h : r.client.Inside m k) (lt : k < m.payload.length)
    (hb : buf.read r.chunkRead (m.payload.length - k) = m.payload.drop k)
    (hn : m.type = recvName) :
    Post (FinalDone m k r) (Throws heap m) (r.final tj heap buf len) := by
  have done : FinalDone m k r ((r.store buf len r.client.remainBytes.toNat).name.advance
      r.client.remainBytes.toNat) := by
    obtain ⟨mem, hm, off, full⟩ := store_full len h lt.le (Or.inr hn) hb
    have kept := name_name hm off
    rw [full] at kept
    constructor
    case remain => simp only [advance_client, name, emit_client, store_client, remain_final h lt]
    case chunkRead =>
      simp only [advance_chunkRead, name, emit_chunkRead, store_chunkRead, readSize_of_inside h]
    case fd => rfl
    case userID => rfl
    case focusFd => rfl
    case userCount => rfl
    case jpeg =>
      rw [if_neg (by simp [hn])]
      simp only [Client.jpeg, advance_client, name, emit_client, store_client]
    case name =>
      rw [if_pos hn, ← kept]
      simp only [Client.name, advance_client]
    case named => simp [Client.Named, name]
    case draws => simp [Projector.draws, name, hn]
  rw [final_name (by rwa [h.type])]
  exact done

/-- The last piece of a focus request. -/
lemma final_focus_spec {k : Nat} (h : r.client.Inside m k) (lt : k < m.payload.length)
    (hf : m.type = changeFocusStatus) :
    Post (FinalDone m k r) (Throws heap m) (r.final tj heap buf len) := by
  have hi : m.type ≠ recvImage := by simp [hf]
  have hn : m.type ≠ recvName := by simp [hf]
  have done : FinalDone m k r ((r.store buf len r.client.remainBytes.toNat).focus.advance
      r.client.remainBytes.toNat) := by
    constructor
    case remain => simp only [advance_client, focus_client, store_client, remain_final h lt]
    case chunkRead =>
      simp only [advance_chunkRead, focus_chunkRead, store_chunkRead, readSize_of_inside h]
    case fd => simp only [advance_client, focus_client, store_client]
    case userID => simp only [advance_client, focus_client, store_client]
    case focusFd => rw [advance_globals, focus_globals, store_globals]
    case userCount => rw [advance_globals, focus_globals, store_globals]
    case jpeg =>
      rw [if_neg hi]
      simp only [Client.jpeg, advance_client, focus_client, store_client]
    case name =>
      rw [if_neg hn]
      simp only [Client.name, advance_client, focus_client, store_client]
    case named =>
      simp only [Client.Named, advance_client, focus_client, store_client]
      exact id
    case draws => simp [Projector.draws, focus, hi]
  rw [final_focus (by rwa [h.type])]
  exact done

/-- The last piece of a message of any other type. -/
lemma final_other_spec {k : Nat} (h : r.client.Inside m k) (lt : k < m.payload.length)
    (hi : m.type ≠ recvImage) (hn : m.type ≠ recvName) (hf : m.type ≠ changeFocusStatus) :
    Post (FinalDone m k r) (Throws heap m) (r.final tj heap buf len) := by
  have done : FinalDone m k r ((r.store buf len r.client.remainBytes.toNat).advance
      r.client.remainBytes.toNat) := by
    constructor
    case remain => simp only [advance_client, store_client, remain_final h lt]
    case chunkRead =>
      simp only [advance_chunkRead, store_chunkRead, readSize_of_inside h]
    case fd => rfl
    case userID => rfl
    case focusFd => rfl
    case userCount => rfl
    case jpeg =>
      rw [if_neg hi]
      simp only [Client.jpeg, advance_client, store_client]
    case name =>
      rw [if_neg hn]
      simp only [Client.name, advance_client, store_client]
    case named =>
      simp only [Client.Named, advance_client, store_client]
      exact id
    case draws => simp [Projector.draws, hi]
  rw [final_other (by rwa [h.type]) (by rwa [h.type]) (by rwa [h.type])]
  exact done

/-- The final branch on the last piece of `m`. -/
lemma final_spec {k : Nat} (h : r.client.Inside m k) (lt : k < m.payload.length)
    (hb : buf.read r.chunkRead (m.payload.length - k) = m.payload.drop k) :
    Post (FinalDone m k r) (Throws heap m) (r.final tj heap buf len) := by
  by_cases hi : m.type = recvImage
  · exact final_image_spec h lt hb hi
  · by_cases hn : m.type = recvName
    · exact final_name_spec h lt hb hn
    · by_cases hf : m.type = changeFocusStatus
      · exact final_focus_spec h lt hf
      · exact final_other_spec h lt hi hn hf

/-- The non-empty payloads of a type, in order. -/
def payloads (type : Int) (ms : List Msg) : List (List UInt8) :=
  (ms.filter fun m => m.type = type ∧ m.payload ≠ []).map Msg.payload

/-- No messages, no payloads. -/
@[simp] lemma payloads_nil (type : Int) : payloads type [] = [] := rfl

/-- The payloads of two streams. -/
lemma payloads_append (type : Int) (ms ns : List Msg) :
    payloads type (ms ++ ns) = payloads type ms ++ payloads type ns := by
  simp [payloads]

/-- An empty message has no payload to hand on. -/
lemma payloads_of_empty (type : Int) (h : m.payload = []) : payloads type [m] = [] := by
  simp [payloads, h]

/-- The payload of a message of this type, if there is any. -/
lemma payloads_single (type : Int) (h : m.payload ≠ []) :
    payloads type [m] = if m.type = type then [m.payload] else [] := by
  by_cases e : m.type = type <;> simp [payloads, e, h]

/-- What a call has done for the messages `d` it completed, starting from `c` and `g`. -/
structure Applied (c : Client) (g : Globals) (d : List Msg) (r : Recv) : Prop where
  fd : r.client.fd = c.fd
  userID : r.client.userID = c.userID
  focusFd : r.globals.focusFd = g.focusFd
  userCount : r.globals.userCount = g.userCount
  jpeg : r.client.jpeg = (payloads recvImage d).getLastD c.jpeg
  name : c.Named → r.client.Named ∧ r.client.name = (payloads recvName d).getLastD c.name
  draws : Projector.draws r.log = if g.focusFd = c.fd then payloads recvImage d else []

variable {c : Client} {g : Globals} {d : List Msg}

/-- A call that has done nothing yet. -/
lemma Applied.start : Applied c g [] ⟨[], 0, c, g⟩ where
  fd := rfl
  userID := rfl
  focusFd := rfl
  userCount := rfl
  jpeg := rfl
  name := fun h => ⟨h, rfl⟩
  draws := by simp [Projector.draws]

/-- What is known of a call does not depend on messages without effect. -/
lemma Applied.congr {r' : Recv} {d' : List Msg} (h : Applied c g d r)
    (fd : r'.client.fd = r.client.fd) (userID : r'.client.userID = r.client.userID)
    (globals : r'.globals = r.globals) (jpeg : r'.client.jpeg = r.client.jpeg)
    (name : r.client.Named → r'.client.Named ∧ r'.client.name = r.client.name)
    (log : Projector.draws r'.log = Projector.draws r.log)
    (images : payloads recvImage d' = payloads recvImage d)
    (names : payloads recvName d' = payloads recvName d) : Applied c g d' r' where
  fd := fd.trans h.fd
  userID := userID.trans h.userID
  focusFd := by rw [globals, h.focusFd]
  userCount := by rw [globals, h.userCount]
  jpeg := by rw [jpeg, h.jpeg, images]
  name := fun hc => by
    obtain ⟨hr, e⟩ := h.name hc
    obtain ⟨hr', e'⟩ := name hr
    exact ⟨hr', by rw [e', e, names]⟩
  draws := by rw [log, h.draws, images]

/-- The effect of completing a message with a payload. -/
lemma Applied.final {r' : Recv} {k : Nat} (h : Applied c g d r) (f : FinalDone m k r r')
    (ne : m.payload ≠ []) : Applied c g (d ++ [m]) r' where
  fd := f.fd.trans h.fd
  userID := f.userID.trans h.userID
  focusFd := f.focusFd.trans h.focusFd
  userCount := f.userCount.trans h.userCount
  jpeg := by
    rw [f.jpeg, h.jpeg, payloads_append, payloads_single _ ne]
    by_cases e : m.type = recvImage <;> simp [e]
  name := fun hc => by
    obtain ⟨hr, hn⟩ := h.name hc
    refine ⟨f.named hr, ?_⟩
    rw [f.name, hn, payloads_append, payloads_single _ ne]
    by_cases e : m.type = recvName <;> simp [e]
  draws := by
    rw [f.draws, h.draws, h.focusFd, h.fd, payloads_append, payloads_single _ ne]
    by_cases e : m.type = recvImage <;> by_cases foc : g.focusFd = c.fd <;> simp [e, foc]

/-- A call that has consumed the stream from `p` up to where it is. -/
structure Following (c : Client) (g : Globals) (p : wire.Pos) (len : Nat) (r : Recv) : Prop where
  le : r.chunkRead ≤ len
  reached : ∃ d q, p.consume r.chunkRead = some (d, q) ∧ r.client.At q ∧ Applied c g d r

/-- The call ended at a `new` that threw, with enough memory only because of a message whose block
does not fit an `int`. -/
def OutOfMemory (heap : Heap) (p : wire.Pos) (s : Stop) : Prop :=
  s.exit = .badAlloc ∧ (heap.Total → ∃ m ∈ p.messages, ¬ m.Allocatable)

variable {p q : wire.Pos} {rest : List Msg} {k : Nat}

/-- The bytes of the chunk behind a point that was reached. -/
lemma chunk_at (hbuf : buf.read 0 len = p.bytes.take len) (e : p.consume r.chunkRead = some (d, q)) :
    buf.read r.chunkRead (len - r.chunkRead) = q.bytes.take (len - r.chunkRead) := by
  rw [(Format.Pos.bytes_of_consume e).1, ← List.drop_take, ← hbuf, Mem.drop_read, Nat.zero_add]

/-- A message that is still to come throws only on its own account. -/
lemma Throws.outOfMemory {s : Stop} (h : Throws heap m s) (e : p.consume r.chunkRead = some (d, q))
    (mem : m ∈ q.messages) : OutOfMemory heap p s := by
  refine ⟨h.1, fun total => ⟨m, ?_, h.2 total⟩⟩
  rw [Format.Pos.messages_of_consume e]
  exact List.mem_append_right d mem

/-- The name is the same behind a header. -/
lemma HeaderDone.name {r' : Recv} (h : HeaderDone m len r r') (hr : r.client.Named) :
    r'.client.Named ∧ r'.client.name = r.client.name := by
  obtain ⟨rb, un, hc, _, hun⟩ := h.client
  by_cases first : m.type = recvName ∧ r.client.userName = none
  · rw [if_pos first] at hun
    obtain ⟨mem, hun⟩ := hun
    constructor
    · intro none
      simp [hc, entered, hun] at none
    · simp [Client.name, hc, entered, hr first.2]
  · rw [if_neg first] at hun
    exact ⟨by simpa [Client.Named, hc, entered, hun] using hr,
      by simp [Client.name, hc, entered, hun]⟩

/-- Behind a header the call has done nothing yet for its message. -/
lemma Applied.header {r' : Recv} {d' : List Msg} (h : Applied c g d r) (f : HeaderDone m len r r')
    (images : payloads recvImage d' = payloads recvImage d)
    (names : payloads recvName d' = payloads recvName d) : Applied c g d' r' := by
  obtain ⟨rb, un, hc, _⟩ := f.client
  refine h.congr ?_ ?_ f.globals ?_ f.name ?_ images names
  · rw [hc]
    rfl
  · rw [hc]
    rfl
  · rw [hc]
    rfl
  · rw [f.log, draws_append, draws_headerLog, List.append_nil]

/-- The bytes of a whole header. -/
lemma header_at (hbuf : buf.read 0 len = p.bytes.take len)
    (e : p.consume r.chunkRead = some (d, .boundary (m :: rest))) (room : r.chunkRead + 8 ≤ len) :
    buf.read r.chunkRead 8 = wire.header m := by
  rw [← Mem.take_read buf r.chunkRead (n := len - r.chunkRead) (by omega), chunk_at hbuf e,
    List.take_take, Nat.min_eq_left (by omega)]
  have h8 : (wire.header m).length = 8 := wire.length_header m
  simp only [Format.Pos.bytes, Format.stream_cons, Format.encode, List.append_assoc]
  rw [← h8, List.take_left]

/-- The bytes of the rest of a payload. -/
lemma payload_at {lt : k < m.payload.length} (hbuf : buf.read 0 len = p.bytes.take len)
    (e : p.consume r.chunkRead = some (d, .inside m k rest lt))
    (long : m.payload.length - k ≤ len - r.chunkRead) :
    buf.read r.chunkRead (m.payload.length - k) = m.payload.drop k := by
  rw [← Mem.take_read buf r.chunkRead long, chunk_at hbuf e, List.take_take, Nat.min_eq_left long]
  simp only [Format.Pos.bytes, wire_payload]
  rw [List.take_append_of_le_length (by rw [List.length_drop]), List.take_of_length_le (by simp)]

/-- A whole header. -/
lemma header_follows (hbuf : buf.read 0 len = p.bytes.take len)
    (e : p.consume r.chunkRead = some (d, .boundary (m :: rest))) (ap : Applied c g d r)
    (room : r.chunkRead + 8 ≤ len) :
    Post (fun r' => Following c g p len r' ∧ r.chunkRead < r'.chunkRead) (OutOfMemory heap p)
      (r.header heap buf len) := by
  apply Post.mono (header_spec (header_at hbuf e room)) _ (fun s h => h.outOfMemory e (List.mem_cons_self))
  intro r' f
  obtain ⟨rb, un, hc, hrb, _⟩ := f.client
  have step := Format.Pos.consume_add e wire.size
  have chunkRead := f.chunkRead
  rw [wire_size, ← chunkRead, ← wire_size] at step
  refine ⟨⟨by omega, ?_⟩, by omega⟩
  by_cases ne : 0 < m.payload.length
  · -- The payload is still to come.
    obtain ⟨mem, hmem⟩ := hrb ne
    rw [Format.Pos.consume_header_inside ne] at step
    refine ⟨d, _, by simpa using step, ?_, ap.header f rfl rfl⟩
    rw [hc]
    exact ⟨rfl, rfl, by simp [entered], mem, hmem, fun _ => ⟨rfl, rfl⟩, fun _ => rfl⟩
  · -- The message is complete with its header, and `receive` has done nothing for it.
    have empty : m.payload = [] := List.eq_nil_of_length_eq_zero (by omega)
    rw [Format.Pos.consume_header_boundary ne] at step
    refine ⟨d ++ [m], .boundary rest, step, ?_, ap.header f ?_ ?_⟩
    · rw [hc]
      simp [Client.At, entered, empty]
    · rw [payloads_append, payloads_of_empty _ empty, List.append_nil]
    · rw [payloads_append, payloads_of_empty _ empty, List.append_nil]

/-- A piece that does not reach the end of the payload leaves name, image and globals alone. -/
lemma Applied.part (h : Applied c g d r) : Applied c g d (r.part buf len) := by
  by_cases ha : Accumulates r.client.headerType
  · rw [part_of_accumulates ha]
    exact h.congr rfl rfl rfl rfl (fun hr => ⟨hr, rfl⟩) (by simp [Projector.draws]) rfl rfl
  · rw [part_of_not_accumulates ha]
    exact h.congr rfl rfl rfl rfl (fun hr => ⟨hr, rfl⟩) rfl rfl rfl

/-- A piece that does not reach the end of the payload. -/
lemma part_follows {lt : k < m.payload.length} (hbuf : buf.read 0 len = p.bytes.take len)
    (e : p.consume r.chunkRead = some (d, .inside m k rest lt)) (h : r.client.Inside m k)
    (ap : Applied c g d r) (more : r.chunkRead < len)
    (short : k + (len - r.chunkRead) < m.payload.length) :
    Following c g p len (r.part buf len) ∧ r.chunkRead < (r.part buf len).chunkRead := by
  have bytes := chunk_at hbuf e
  have hb : buf.read r.chunkRead (len - r.chunkRead)
      = (m.payload.drop k).take (len - r.chunkRead) := by
    rw [bytes]
    simp only [Format.Pos.bytes, wire_payload]
    rw [List.take_append_of_le_length (by rw [List.length_drop]; omega)]
  have moved : (r.part buf len).chunkRead = len := by
    rw [part_chunkRead]
    omega
  have step := Format.Pos.consume_add e (len - r.chunkRead)
  rw [Format.Pos.consume_part (F := wire) lt short] at step
  have whole : r.chunkRead + (len - r.chunkRead) = len := by omega
  refine ⟨⟨by omega, d, .inside m _ rest short, ?_, part_inside h hb, ap.part⟩, by omega⟩
  simpa [moved, whole] using step

/-- The last piece of a payload. -/
lemma final_follows {lt : k < m.payload.length} (hbuf : buf.read 0 len = p.bytes.take len)
    (e : p.consume r.chunkRead = some (d, .inside m k rest lt)) (h : r.client.Inside m k)
    (ap : Applied c g d r) (long : m.payload.length - k ≤ len - r.chunkRead) :
    Post (fun r' => Following c g p len r' ∧ r.chunkRead < r'.chunkRead) (OutOfMemory heap p)
      (r.final tj heap buf len) := by
  apply Post.mono (final_spec h lt (payload_at hbuf e long)) _ (fun s t => t.outOfMemory e List.mem_cons_self)
  intro r' f
  have chunkRead := f.chunkRead
  have step := Format.Pos.consume_add e (m.payload.length - k)
  rw [← wire_payload, Format.Pos.consume_final lt, wire_payload, ← chunkRead] at step
  refine ⟨⟨by omega, d ++ [m], .boundary rest, by simpa using step, ?_, ap.final f ?_⟩, by omega⟩
  · exact f.remain.le
  · intro none
    simp [none] at lt

/-- What a round inside a payload does, by whether the payload ends in the chunk. -/
lemma round_inside_rule {P : Recv → Prop} {E : Stop → Prop} (h : r.client.Inside m k)
    (lt : k < m.payload.length) (le : r.chunkRead ≤ len)
    (part : k + (len - r.chunkRead) < m.payload.length → P (r.part buf len))
    (final : m.payload.length - k ≤ len - r.chunkRead → Post P E (r.final tj heap buf len)) :
    Post P E (r.round tj heap buf len) := by
  have remain := h.remain
  apply round_rule
  case header =>
    intro boundary
    omega
  case part => exact fun _ short => part (by omega)
  case final => exact fun _ long => final (by omega)

/-- What a round on a stream does, by the position. The chunk does not end inside a header, so a round at a
boundary finds all of the next one. -/
lemma round_stream_rule {P : Recv → Prop} {E : Stop → Prop} {d' : List Msg}
    (hlen : p.consume len = some (d', q)) (f : Following c g p len r) (more : r.chunkRead < len)
    (header : ∀ d m rest, p.consume r.chunkRead = some (d, .boundary (m :: rest)) →
      Applied c g d r → r.chunkRead + 8 ≤ len → Post P E (r.header heap buf len))
    (part : ∀ d m k rest lt, p.consume r.chunkRead = some (d, .inside m k rest lt) →
      r.client.Inside m k → Applied c g d r → k + (len - r.chunkRead) < m.payload.length →
      P (r.part buf len))
    (final : ∀ d m k rest lt, p.consume r.chunkRead = some (d, .inside m k rest lt) →
      r.client.Inside m k → Applied c g d r → m.payload.length - k ≤ len - r.chunkRead →
      Post P E (r.final tj heap buf len)) : Post P E (r.round tj heap buf len) := by
  obtain ⟨le, d, t, e, at_, ap⟩ := f
  cases t with
  | boundary rest =>
    obtain ⟨d'', rem, _⟩ := Format.Pos.consume_sub e hlen le
    cases rest with
    -- Behind the last message no bytes are left, but the round has some.
    | nil =>
      have none := Format.Pos.eq_zero_of_consume_nil rem
      omega
    | cons m rest =>
      have room := Format.Pos.size_le_of_consume rem (by omega)
      rw [wire_size] at room
      have at_' : r.client.remainBytes ≤ 0 := at_
      unfold round
      rw [if_pos at_']
      exact header d m rest e ap (by omega)
  | inside m k rest lt =>
    exact round_inside_rule at_ lt le (part d m k rest lt e at_ ap) (final d m k rest lt e at_ ap)

/-- One round at a point inside a payload. -/
lemma round_inside {lt : k < m.payload.length} (hbuf : buf.read 0 len = p.bytes.take len)
    (e : p.consume r.chunkRead = some (d, .inside m k rest lt)) (h : r.client.Inside m k)
    (ap : Applied c g d r) (more : r.chunkRead < len) :
    Post (fun r' => Following c g p len r' ∧ r.chunkRead < r'.chunkRead) (OutOfMemory heap p)
      (r.round tj heap buf len) :=
  round_inside_rule h lt more.le (part_follows hbuf e h ap more) (final_follows hbuf e h ap)

/-- One round on a chunk that does not end inside a header. -/
lemma round_follows {d' : List Msg} (hbuf : buf.read 0 len = p.bytes.take len)
    (hlen : p.consume len = some (d', q)) (f : Following c g p len r) (more : r.chunkRead < len) :
    Post (fun r' => Following c g p len r' ∧ r.chunkRead < r'.chunkRead) (OutOfMemory heap p)
      (r.round tj heap buf len) := by
  apply round_stream_rule hlen f more
  case header =>
    intro d m rest e ap room
    exact header_follows hbuf e ap room
  case part =>
    intro d m k rest lt e inside ap short
    exact part_follows hbuf e inside ap more short
  case final =>
    intro d m k rest lt e inside ap long
    exact final_follows hbuf e inside ap long

end Recv

section receive

variable {tj : TurboJpeg} {heap : Heap} {buf : Mem} {len : Nat} {c : Client} {g : Globals}
  {p q : wire.Pos} {d : List Msg}

/-- What holds of a call on a chunk that does not end inside a header: it follows the stream, and keeps what
each round keeps. -/
lemma receive_rule {I : Recv → Prop} (at_ : c.At p) (hbuf : buf.read 0 len = p.bytes.take len)
    (e : p.consume len = some (d, q)) (init : I ⟨[], 0, c, g⟩)
    (keeps : ∀ r, Recv.Following c g p len r → I r → r.chunkRead < len →
      Post I (fun _ => True) (r.round tj heap buf len)) :
    Post (fun r => (r.client.At q ∧ Recv.Applied c g d r) ∧ r.chunkRead = len ∧ I r)
      (Recv.OutOfMemory heap p) (c.receive tj heap g buf len) := by
  have start : Recv.Following c g p len ⟨[], 0, c, g⟩ :=
    ⟨Nat.zero_le len, [], p, Format.Pos.consume_zero p, at_, .start⟩
  have rounds : Post (fun r => (Recv.Following c g p len r ∧ I r) ∧ Recv.more len r = false)
      (Recv.OutOfMemory heap p) (c.receive tj heap g buf len) := by
    apply iterate_rule (fun r => Recv.Following c g p len r ∧ I r) _ (fun r => len - r.chunkRead) _ _
      ⟨start, init⟩ (by simp)
    · intro r _ more
      rw [Recv.more_eq_true] at more
      omega
    · rintro r ⟨f, inv⟩ more
      rw [Recv.more_eq_true] at more
      apply ((Recv.round_follows hbuf e f more).and (keeps r f inv more)).mono _ (fun _ h => h)
      rintro r' ⟨⟨f', moved⟩, inv'⟩
      exact ⟨⟨f', inv'⟩, by omega⟩
  apply rounds.mono _ (fun _ h => h)
  rintro r ⟨⟨⟨le, d', q', e', at', ap⟩, inv⟩, stop⟩
  rw [Recv.more_eq_false] at stop
  -- The loop stops at the end of the chunk, where the position is known.
  have whole := Nat.le_antisymm le stop
  rw [whole, e] at e'
  cases e'
  exact ⟨⟨at', ap⟩, whole, inv⟩

/-- A call of `receive` on a chunk that does not end inside a header. -/
theorem receive_follows (at_ : c.At p) (hbuf : buf.read 0 len = p.bytes.take len)
    (e : p.consume len = some (d, q)) :
    Post (fun r => r.client.At q ∧ Recv.Applied c g d r) (Recv.OutOfMemory heap p)
      (c.receive tj heap g buf len) := by
  have rule : Post (fun r => (r.client.At q ∧ Recv.Applied c g d r) ∧ r.chunkRead = len ∧ True)
      (Recv.OutOfMemory heap p) (c.receive tj heap g buf len) :=
    receive_rule at_ hbuf e trivial fun _ _ _ _ => .trivial
  exact rule.mono (fun _ h => h.1) (fun _ h => h)

end receive

end Projector
