import Projector.Base.Loop
import Projector.Server.State

/-!
# The stream parser

`Client::receive` and `Client::draw` of `server/Server.cpp`. A call works on the object, the globals and
its local `chunkRead`; `Recv` holds the three together with the log of what the call does to memory and
to the outside. Copies take effect as if in bounds, whatever the blocks' sizes, and the log records where
they reached, so that memory safety is a statement about the log.

The loop of `receive` has three branches, one definition each: a header (`Recv.header`), a piece of a
payload that does not reach its end (`Recv.part`), and a piece that does (`Recv.final`). `Recv.round_rule`
and `Recv.final_rule` are the case analyses of a round and of its last branch.
-/

namespace Projector

/-- What `receive` does besides changing its object, in order. -/
inductive Event where
  /-- `n` bytes of `buf` from `off` on are used, in a call given `len` bytes. -/
  | bufRead (off n len : Nat)
  /-- `new char[size]` -/
  | new (site : Site) (size : Int)
  /-- `n` bytes are written from `off` on into a block of `size` bytes. -/
  | write (site : Site) (size off : Int) (n : Nat)
  /-- `n` bytes are read from the start of a block of `size` bytes. -/
  | read (site : Site) (size : Int) (n : Nat)
  /-- A message is complete and these bytes of it are handed on. -/
  | done (type : Int) (data : List UInt8)
  /-- `draw()` is called on these bytes. -/
  | draw (jpeg : List UInt8)
deriving DecidableEq

/-- The images drawn according to a log. -/
def draws (es : List Event) : List (List UInt8) :=
  es.filterMap fun e => match e with
    | .draw jpeg => some jpeg
    | _ => none

/-- The ids requested according to a log. -/
def requests (es : List Event) : List Int :=
  es.filterMap fun e => match e with
    | .done type data => if type = changeFocusStatus then some (intOfBytes data) else none
    | _ => none

/-- The draws of two parts. -/
lemma draws_append (es fs : List Event) : draws (es ++ fs) = draws es ++ draws fs := by
  simp [draws]

/-- The requests of two parts. -/
lemma requests_append (es fs : List Event) :
    requests (es ++ fs) = requests es ++ requests fs := by
  simp [requests]

/-- The last of two sequences one after the other. -/
lemma getLastD_append {α : Type*} (l l' : List α) (a : α) :
    (l ++ l').getLastD a = l'.getLastD (l.getLastD a) := by
  simp [Option.getD_or]

/-- Every byte the event touches is inside the chunk or the block it belongs to. -/
def Event.InBounds : Event → Prop
  | .bufRead off n len => off + n ≤ len
  | .new _ size => 1 ≤ size
  | .write _ size off n => 0 ≤ off ∧ off + n ≤ size
  | .read _ size n => n ≤ size
  | .done _ _ => True
  | .draw _ => True

instance : DecidablePred Event.InBounds := fun e => by
  cases e <;> unfold Event.InBounds <;> infer_instance

/-- The ways out of `receive` other than its last line: `return -1`, and an exception of `new` that
nobody catches. -/
inductive Exit where
  | invalidHeader
  | badAlloc
deriving DecidableEq

/-- A call of `receive` in progress. -/
structure Recv where
  log : List Event
  chunkRead : Nat
  client : Client
  globals : Globals

/-- A call of `receive` that was left early. -/
structure Stop where
  exit : Exit
  recv : Recv

/-- `Client::draw`: decode onto the screen when the image has its size. -/
def Client.draw (tj : TurboJpeg) (c : Client) (fbp : Mem) : Client × Mem :=
  if c.jpegOffset > 0 then
    let c := match tj.decompressHeader2 c.jpeg with
      | some (w, h, s) => { c with jpegWidth := w, jpegHeight := h, jpegSubsamp := s }
      | none => c
    if c.jpegWidth = c.resX ∧ c.jpegHeight = c.resY then
      (c, tj.decompress2 c.jpeg fbp c.jpegWidth 0 c.jpegHeight)
    else (c, fbp)
  else (c, fbp)

/-- Drawing changes nothing of the object but the size of the last picture. -/
lemma draw_client (tj : TurboJpeg) (c : Client) (fbp : Mem) :
    ∃ w h s, (c.draw tj fbp).1 = { c with jpegWidth := w, jpegHeight := h, jpegSubsamp := s } := by
  unfold Client.draw
  by_cases pos : c.jpegOffset > 0
  · rw [if_pos pos]
    cases hd : tj.decompressHeader2 c.jpeg with
    | none => exact ⟨c.jpegWidth, c.jpegHeight, c.jpegSubsamp, by simp only []; split <;> rfl⟩
    | some q => exact ⟨q.1, q.2.1, q.2.2, by simp only []; split <;> rfl⟩
  · rw [if_neg pos]
    exact ⟨c.jpegWidth, c.jpegHeight, c.jpegSubsamp, rfl⟩

namespace Recv

/-- Append to the log. -/
def emit (r : Recv) (es : List Event) : Recv := { r with log := r.log ++ es }

/-- A header with a positive length: delete the old `recvBuffer`, then
`recvBuffer = new char[header_length + 1]; recvBuffer[header_length] = '\0'`. -/
def newRecvBuffer (heap : Heap) (r : Recv) : Except Stop Recv :=
  let length := r.client.headerLength
  let size := wrap32 (length + 1)
  if length > 0 then
    match heap.new .recvBuffer r.chunkRead size with
    | none =>
      -- The old buffer was deleted first, so a throw leaves a null pointer.
      .error ⟨.badAlloc, { r with client := { r.client with recvBuffer := none } }.emit
        [.new .recvBuffer size]⟩
    | some b =>
      let b := { b with mem := b.mem.set length 0 }
      .ok ({ r with client := { r.client with recvBuffer := some b } }.emit
        [.new .recvBuffer size, .write .recvBuffer size length 1])
  else .ok r

/-- The first header of a name: `userName = new char[header_length + 1]; userName[header_length] = '\0'`. -/
def newUserName (heap : Heap) (r : Recv) : Except Stop Recv :=
  let length := r.client.headerLength
  let size := wrap32 (length + 1)
  if r.client.headerType = recvName ∧ r.client.userName = none then
    match heap.new .userName r.chunkRead size with
    | none => .error ⟨.badAlloc, r.emit [.new .userName size]⟩
    | some b =>
      let b := { b with mem := b.mem.set length 0 }
      .ok ({ r with client := { r.client with userName := some b } }.emit
        [.new .userName size, .write .userName size length 1])
  else .ok r

/-- The header branch: `remainBytes <= 0`. -/
def header (heap : Heap) (buf : Mem) (len : Nat) (r : Recv) : Except Stop Recv :=
  let headerType := intOfBytes (buf.read r.chunkRead 4)
  let headerLength := intOfBytes (buf.read (r.chunkRead + 4) 4)
  let c := { r.client with headerType := headerType, headerLength := headerLength }
  let es := [.bufRead r.chunkRead 4 len, .bufRead (r.chunkRead + 4) 4 len]
  if headerType > 10 ∨ headerType < 0 then
    -- The fields of the header are set all the same; `remainBytes` is not.
    .error ⟨.invalidHeader, { r with client := c, chunkRead := r.chunkRead + 8 }.emit es⟩
  else do
    let c := { c with remainBytes := headerLength, recvOffset := 0 }
    let r ← ({ r with client := c, chunkRead := r.chunkRead + 8 }.emit es).newRecvBuffer heap
    r.newUserName heap

/-- `memcpy(recvBuffer + recvOffset, buf + chunkRead, n); recvOffset += n` -/
def store (buf : Mem) (len n : Nat) (r : Recv) : Recv :=
  let c := r.client
  let b := c.recvBuffer.getD .null
  let b' := { b with mem := b.mem.memcpy c.recvOffset buf r.chunkRead n }
  { r with client := { c with recvBuffer := some b', recvOffset := c.recvOffset + n } }.emit
    [.bufRead r.chunkRead n len, .write .recvBuffer b.size c.recvOffset n]

/-- `chunkRead += readSize; remainBytes -= readSize` -/
def advance (n : Nat) (r : Recv) : Recv :=
  { r with
    chunkRead := r.chunkRead + n
    client := { r.client with remainBytes := r.client.remainBytes - n } }

/-- The types whose payload is accumulated over several chunks. -/
def Accumulates (type : Int) : Prop := type = recvImage ∨ type = recvName

instance (type : Int) : Decidable (Accumulates type) :=
  inferInstanceAs (Decidable (_ ∨ _))

/-- The branch for a payload that goes on behind the chunk: images and names are accumulated, every
other payload is skipped. -/
def part (buf : Mem) (len : Nat) (r : Recv) : Recv :=
  let readSize := len - r.chunkRead
  let r := if r.client.headerType = recvImage then r.store buf len readSize else r
  let r := if r.client.headerType = recvName then r.store buf len readSize else r
  r.advance readSize

/-- A complete `RECV_IMAGE`: the bytes move to a new `jpegBuffer`. -/
def keepImage (heap : Heap) (r : Recv) : Except Stop Recv :=
  let n := r.client.recvOffset
  let src := r.client.recvBuffer.getD .null
  match heap.new .jpegBuffer r.chunkRead (n + 1 : Nat) with
  | none =>
    -- As with `recvBuffer`; `jpegOffset` keeps the length of the deleted image.
    .error ⟨.badAlloc, { r with client := { r.client with jpegBuffer := none } }.emit
      [.new .jpegBuffer (n + 1 : Nat)]⟩
  | some b =>
    let b := { b with mem := (b.mem.set n 0).memcpy 0 src.mem 0 n }
    let c := { r.client with jpegBuffer := some b, jpegOffset := n }
    .ok ({ r with client := c }.emit [.new .jpegBuffer (n + 1 : Nat), .write .jpegBuffer b.size n 1,
      .read .recvBuffer src.size n, .write .jpegBuffer b.size 0 n, .done recvImage c.jpeg])

/-- Only the client that has the focus draws. -/
def drawFocused (tj : TurboJpeg) (r : Recv) : Recv :=
  if r.globals.focusFd = r.client.fd then
    let d := r.client.draw tj r.globals.fbp
    { r with client := d.1, globals := { r.globals with fbp := d.2 } }.emit [.draw r.client.jpeg]
  else r

/-- A complete `RECV_NAME`. -/
def name (r : Recv) : Recv :=
  let c := r.client
  let n := c.recvOffset
  let src := c.recvBuffer.getD .null
  let b := c.userName.getD .null
  let b' := { b with mem := (b.mem.memcpy 0 src.mem 0 n).set n 0 }
  let c := { c with userName := some b', userNameLength := n }
  { r with client := c }.emit [.read .recvBuffer src.size n, .write .userName b.size 0 n,
    .write .userName b.size n 1, .done recvName c.name]

/-- A complete `CHANGE_FOCUS_STATUS`: the first four bytes of `recvBuffer` are the requested id. -/
def focus (r : Recv) : Recv :=
  -- Four bytes, however long the message was.
  let src := r.client.recvBuffer.getD .null
  let id := src.mem.read 0 4
  { r with globals := { r.globals with readyFd := intOfBytes id } }.emit
    [.read .recvBuffer src.size 4, .done changeFocusStatus id]

/-- The branch for a payload that ends within the chunk. -/
def final (tj : TurboJpeg) (heap : Heap) (buf : Mem) (len : Nat) (r : Recv) : Except Stop Recv := do
  let readSize := r.client.remainBytes.toNat
  let type := r.client.headerType
  let r := r.store buf len readSize
  let r ← if type = recvImage then (r.keepImage heap).map (drawFocused tj) else .ok r
  let r := if type = recvName then r.name else r
  let r := if type = changeFocusStatus then r.focus else r
  return r.advance readSize

section fields

variable (r : Recv) (es : List Event) (buf : Mem) (len n : Nat)

/-- An event leaves the object alone. -/
@[simp] lemma emit_client : (r.emit es).client = r.client := rfl

/-- An event reads nothing. -/
@[simp] lemma emit_chunkRead : (r.emit es).chunkRead = r.chunkRead := rfl

/-- An event is logged. -/
@[simp] lemma emit_log : (r.emit es).log = r.log ++ es := rfl

/-- Reading on leaves the globals alone. -/
@[simp] lemma advance_globals : (r.advance n).globals = r.globals := rfl

/-- Reading on moves the read position. -/
@[simp] lemma advance_chunkRead : (r.advance n).chunkRead = r.chunkRead + n := rfl

/-- Reading on logs nothing. -/
@[simp] lemma advance_log : (r.advance n).log = r.log := rfl

/-- Reading on leaves fewer bytes of the payload. -/
@[simp] lemma advance_client : (r.advance n).client =
    { r.client with remainBytes := r.client.remainBytes - n } := rfl

/-- A store into the receive buffer leaves the globals alone. -/
@[simp] lemma store_globals : (r.store buf len n).globals = r.globals := rfl

/-- It leaves the read position to `advance`. -/
@[simp] lemma store_chunkRead : (r.store buf len n).chunkRead = r.chunkRead := rfl

/-- It copies from the chunk and moves the offset. -/
@[simp] lemma store_client : (r.store buf len n).client =
    { r.client with
      recvBuffer := some ⟨(r.client.recvBuffer.getD .null).size,
        (r.client.recvBuffer.getD .null).mem.memcpy r.client.recvOffset buf r.chunkRead n⟩
      recvOffset := r.client.recvOffset + n } := rfl

/-- It logs what it reads and writes. -/
@[simp] lemma store_log : (r.store buf len n).log = r.log ++
    [.bufRead r.chunkRead n len,
      .write .recvBuffer (r.client.recvBuffer.getD .null).size r.client.recvOffset n] := rfl

/-- A focus request leaves the object alone. -/
@[simp] lemma focus_client : r.focus.client = r.client := rfl

/-- It reads nothing of the chunk. -/
@[simp] lemma focus_chunkRead : r.focus.chunkRead = r.chunkRead := rfl

/-- It stores the id into `ready_fd`. -/
@[simp] lemma focus_globals : r.focus.globals =
    { r.globals with readyFd := intOfBytes ((r.client.recvBuffer.getD .null).mem.read 0 4) } := rfl

end fields

section branches

variable {tj : TurboJpeg} {heap : Heap} {buf : Mem} {len : Nat} {r : Recv}

/-- Preparing the receive buffer is what `new` makes of the length of the header. -/
lemma newRecvBuffer_rule {P : Recv → Prop} {E : Stop → Prop}
    (empty : r.client.headerLength ≤ 0 → P r)
    (thrown : 0 < r.client.headerLength →
      heap.new .recvBuffer r.chunkRead (wrap32 (r.client.headerLength + 1)) = none →
      E ⟨.badAlloc, { r with client := { r.client with recvBuffer := none } }.emit
        [.new .recvBuffer (wrap32 (r.client.headerLength + 1))]⟩)
    (found : ∀ b, 0 < r.client.headerLength →
      heap.new .recvBuffer r.chunkRead (wrap32 (r.client.headerLength + 1)) = some b →
      P ({ r with client := { r.client with
          recvBuffer := some { b with mem := b.mem.set r.client.headerLength 0 } } }.emit
        [.new .recvBuffer (wrap32 (r.client.headerLength + 1)),
          .write .recvBuffer (wrap32 (r.client.headerLength + 1)) r.client.headerLength 1])) :
    Post P E (r.newRecvBuffer heap) := by
  unfold newRecvBuffer
  by_cases pos : r.client.headerLength > 0
  · simp only [if_pos pos]
    cases hn : heap.new .recvBuffer r.chunkRead (wrap32 (r.client.headerLength + 1)) with
    | none => exact thrown pos hn
    | some b => exact found b pos hn
  · simp only [if_neg pos]
    exact empty (Int.not_lt.mp pos)

/-- Preparing the name buffer is what `new` makes of the length of the first name. -/
lemma newUserName_rule {P : Recv → Prop} {E : Stop → Prop}
    (other : ¬ (r.client.headerType = recvName ∧ r.client.userName = none) → P r)
    (thrown : r.client.headerType = recvName ∧ r.client.userName = none →
      heap.new .userName r.chunkRead (wrap32 (r.client.headerLength + 1)) = none →
      E ⟨.badAlloc, r.emit [.new .userName (wrap32 (r.client.headerLength + 1))]⟩)
    (found : ∀ b, r.client.headerType = recvName ∧ r.client.userName = none →
      heap.new .userName r.chunkRead (wrap32 (r.client.headerLength + 1)) = some b →
      P ({ r with client := { r.client with
          userName := some { b with mem := b.mem.set r.client.headerLength 0 } } }.emit
        [.new .userName (wrap32 (r.client.headerLength + 1)),
          .write .userName (wrap32 (r.client.headerLength + 1)) r.client.headerLength 1])) :
    Post P E (r.newUserName heap) := by
  unfold newUserName
  by_cases first : r.client.headerType = recvName ∧ r.client.userName = none
  · simp only [if_pos first]
    cases hn : heap.new .userName r.chunkRead (wrap32 (r.client.headerLength + 1)) with
    | none => exact thrown first hn
    | some b => exact found b first hn
  · simp only [if_neg first]
    exact other first

/-- The header branch gives up at a type that is not valid, and otherwise prepares the two buffers. -/
lemma header_rule {M P : Recv → Prop} {E : Stop → Prop}
    (invalid : ∀ type length, type = intOfBytes (buf.read r.chunkRead 4) →
      length = intOfBytes (buf.read (r.chunkRead + 4) 4) → type > 10 ∨ type < 0 →
      E ⟨.invalidHeader, { r with
        client := { r.client with headerType := type, headerLength := length }
        chunkRead := r.chunkRead + 8 }.emit
          [.bufRead r.chunkRead 4 len, .bufRead (r.chunkRead + 4) 4 len]⟩)
    (valid : ∀ type length, type = intOfBytes (buf.read r.chunkRead 4) →
      length = intOfBytes (buf.read (r.chunkRead + 4) 4) → ¬ (type > 10 ∨ type < 0) →
      Post M E (({ r with
        client := { r.client with
          headerType := type, headerLength := length, remainBytes := length, recvOffset := 0 }
        chunkRead := r.chunkRead + 8 }.emit
          [.bufRead r.chunkRead 4 len, .bufRead (r.chunkRead + 4) 4 len]).newRecvBuffer heap))
    (name : ∀ t, M t → Post P E (t.newUserName heap)) : Post P E (r.header heap buf len) := by
  have invalid := invalid _ _ rfl rfl
  have valid := valid _ _ rfl rfl
  simp only [header]
  revert invalid valid
  generalize intOfBytes (buf.read r.chunkRead 4) = type
  generalize intOfBytes (buf.read (r.chunkRead + 4) 4) = length
  intro invalid valid
  by_cases bad : type > 10 ∨ type < 0
  · rw [if_pos bad]
    exact invalid bad
  · rw [if_neg bad]
    exact (valid bad).bind name

/-- A complete image is what `new` makes of its length. -/
lemma keepImage_rule {P : Recv → Prop} {E : Stop → Prop}
    (thrown : heap.new .jpegBuffer r.chunkRead (r.client.recvOffset + 1 : Nat) = none →
      E ⟨.badAlloc, { r with client := { r.client with jpegBuffer := none } }.emit
        [.new .jpegBuffer (r.client.recvOffset + 1 : Nat)]⟩)
    (found : ∀ b c, heap.new .jpegBuffer r.chunkRead (r.client.recvOffset + 1 : Nat) = some b →
      c = { r.client with
        jpegBuffer := some ⟨b.size, (b.mem.set r.client.recvOffset 0).memcpy 0
          (r.client.recvBuffer.getD .null).mem 0 r.client.recvOffset⟩
        jpegOffset := r.client.recvOffset } →
      P ({ r with client := c }.emit [.new .jpegBuffer (r.client.recvOffset + 1 : Nat),
        .write .jpegBuffer b.size r.client.recvOffset 1,
        .read .recvBuffer (r.client.recvBuffer.getD .null).size r.client.recvOffset,
        .write .jpegBuffer b.size 0 r.client.recvOffset, .done recvImage c.jpeg])) :
    Post P E (r.keepImage heap) := by
  simp only [keepImage]
  cases hn : heap.new .jpegBuffer r.chunkRead ((r.client.recvOffset + 1 : Nat) : Int) with
  | none => exact thrown hn
  | some b => exact found b _ hn rfl

/-- Preparing the receive buffer moves nothing but the log and the object. -/
lemma newRecvBuffer_grows :
    Post (fun r' => r'.chunkRead = r.chunkRead ∧ r.log <+: r'.log) (fun s => r.log <+: s.recv.log)
      (r.newRecvBuffer heap) := by
  apply newRecvBuffer_rule
  case empty => exact fun _ => ⟨rfl, List.prefix_rfl⟩
  case thrown => exact fun _ _ => List.prefix_append _ _
  case found => exact fun _ _ _ => ⟨rfl, List.prefix_append _ _⟩

/-- Preparing the name buffer moves nothing but the log and the object. -/
lemma newUserName_grows :
    Post (fun r' => r'.chunkRead = r.chunkRead ∧ r.log <+: r'.log) (fun s => r.log <+: s.recv.log)
      (r.newUserName heap) := by
  apply newUserName_rule
  case other => exact fun _ => ⟨rfl, List.prefix_rfl⟩
  case thrown => exact fun _ _ => List.prefix_append _ _
  case found => exact fun _ _ _ => ⟨rfl, List.prefix_append _ _⟩

/-- Whatever bytes it finds, the header branch reads eight of them. -/
lemma header_reads :
    Post (fun r' => r'.chunkRead = r.chunkRead + 8 ∧ .bufRead (r.chunkRead + 4) 4 len ∈ r'.log)
      (fun s => .bufRead (r.chunkRead + 4) 4 len ∈ s.recv.log) (r.header heap buf len) := by
  apply header_rule (M := fun t => t.chunkRead = r.chunkRead + 8 ∧
    .bufRead (r.chunkRead + 4) 4 len ∈ t.log)
  case invalid =>
    intro _ _ _ _ _
    simp
  case valid =>
    intro _ _ _ _ _
    apply newRecvBuffer_grows.mono
    · rintro t ⟨hk, hl⟩
      exact ⟨hk, hl.subset (by simp)⟩
    · intro s hl
      exact hl.subset (by simp)
  case name =>
    rintro t ⟨hk, hl⟩
    apply newUserName_grows.mono
    · rintro u ⟨hk', hl'⟩
      exact ⟨hk'.trans hk, hl'.subset hl⟩
    · intro s hl'
      exact hl'.subset hl

/-- A payload that is accumulated and goes on. -/
lemma part_of_accumulates (h : Accumulates r.client.headerType) :
    r.part buf len = (r.store buf len (len - r.chunkRead)).advance (len - r.chunkRead) := by
  rcases h with h | h <;> simp [part, h]

/-- A payload that is skipped and goes on. -/
lemma part_of_not_accumulates (h : ¬ Accumulates r.client.headerType) :
    r.part buf len = r.advance (len - r.chunkRead) := by
  simp only [Accumulates, not_or] at h
  simp [part, h.1, h.2]

/-- A payload that goes on uses up the chunk. -/
lemma part_chunkRead : (r.part buf len).chunkRead = r.chunkRead + (len - r.chunkRead) := by
  by_cases ha : Accumulates r.client.headerType
  · rw [part_of_accumulates ha, advance_chunkRead, store_chunkRead]
  · rw [part_of_not_accumulates ha, advance_chunkRead]

/-- The end of an image. -/
lemma final_image (h : r.client.headerType = recvImage) :
    r.final tj heap buf len = ((r.store buf len r.client.remainBytes.toNat).keepImage heap).map
      fun t => (t.drawFocused tj).advance r.client.remainBytes.toNat := by
  simp only [final, h, ↓reduceIte, recvImage_ne_recvName, recvImage_ne_changeFocusStatus]
  cases (r.store buf len r.client.remainBytes.toNat).keepImage heap <;> rfl

/-- The end of a name. -/
lemma final_name (h : r.client.headerType = recvName) :
    r.final tj heap buf len = .ok
      ((r.store buf len r.client.remainBytes.toNat).name.advance r.client.remainBytes.toNat) := by
  simp [final, h]

/-- The end of a focus request. -/
lemma final_focus (h : r.client.headerType = changeFocusStatus) :
    r.final tj heap buf len = .ok
      ((r.store buf len r.client.remainBytes.toNat).focus.advance r.client.remainBytes.toNat) := by
  simp [final, h]

/-- The end of any other message. -/
lemma final_other (hi : r.client.headerType ≠ recvImage) (hn : r.client.headerType ≠ recvName)
    (hf : r.client.headerType ≠ changeFocusStatus) :
    r.final tj heap buf len = .ok
      ((r.store buf len r.client.remainBytes.toNat).advance r.client.remainBytes.toNat) := by
  simp [final, hi, hn, hf]

/-- What the end of a payload does is what it does for each type. -/
lemma final_rule {P : Recv → Prop} {E : Stop → Prop}
    (image : r.client.headerType = recvImage →
      Post (fun t => P ((t.drawFocused tj).advance r.client.remainBytes.toNat)) E
        ((r.store buf len r.client.remainBytes.toNat).keepImage heap))
    (name : r.client.headerType = recvName →
      P ((r.store buf len r.client.remainBytes.toNat).name.advance r.client.remainBytes.toNat))
    (focus : r.client.headerType = changeFocusStatus →
      P ((r.store buf len r.client.remainBytes.toNat).focus.advance r.client.remainBytes.toNat))
    (other : r.client.headerType ≠ recvImage → r.client.headerType ≠ recvName →
      r.client.headerType ≠ changeFocusStatus →
      P ((r.store buf len r.client.remainBytes.toNat).advance r.client.remainBytes.toNat)) :
    Post P E (r.final tj heap buf len) := by
  by_cases hi : r.client.headerType = recvImage
  · rw [final_image hi]
    cases hk : (r.store buf len r.client.remainBytes.toNat).keepImage heap with
    | error s => exact (image hi).of_error hk
    | ok t => exact (image hi).of_ok hk
  · by_cases hn : r.client.headerType = recvName
    · rw [final_name hn]
      exact name hn
    · by_cases hf : r.client.headerType = changeFocusStatus
      · rw [final_focus hf]
        exact focus hf
      · rw [final_other hi hn hf]
        exact other hi hn hf

end branches

/-- One round of the loop. -/
def round (tj : TurboJpeg) (heap : Heap) (buf : Mem) (len : Nat) (r : Recv) : Except Stop Recv :=
  if r.client.remainBytes ≤ 0 then r.header heap buf len
  else if r.client.remainBytes > len - r.chunkRead then .ok (r.part buf len)
  else r.final tj heap buf len

/-- What a round does is what its branch does. -/
lemma round_rule {tj : TurboJpeg} {heap : Heap} {buf : Mem} {len : Nat} {r : Recv} {P : Recv → Prop}
    {E : Stop → Prop} (header : r.client.remainBytes ≤ 0 → Post P E (r.header heap buf len))
    (part : 0 < r.client.remainBytes → (len : Int) - r.chunkRead < r.client.remainBytes →
      P (r.part buf len))
    (final : 0 < r.client.remainBytes → r.client.remainBytes ≤ (len : Int) - r.chunkRead →
      Post P E (r.final tj heap buf len)) : Post P E (r.round tj heap buf len) := by
  unfold round
  by_cases boundary : r.client.remainBytes ≤ 0
  · rw [if_pos boundary]
    exact header boundary
  · rw [if_neg boundary]
    by_cases short : r.client.remainBytes > (len : Int) - r.chunkRead
    · rw [if_pos short]
      exact part (Int.not_le.mp boundary) short
    · rw [if_neg short]
      exact final (Int.not_le.mp boundary) (Int.not_lt.mp short)

/-- `chunkSize - chunkRead > 0` -/
def more (len : Nat) (r : Recv) : Bool := r.chunkRead < len

/-- The loop goes on while there are bytes of the chunk. -/
@[simp] lemma more_eq_true {len : Nat} {r : Recv} : r.more len = true ↔ r.chunkRead < len := by
  simp [more]

/-- The loop ends behind the last byte of the chunk. -/
@[simp] lemma more_eq_false {len : Nat} {r : Recv} : r.more len = false ↔ len ≤ r.chunkRead := by
  simp [more]

end Recv

/-- `Client::receive`: every round but the last moves `chunkRead` on, so `len` rounds are enough. -/
def Client.receive (tj : TurboJpeg) (heap : Heap) (c : Client) (g : Globals) (buf : Mem) (len : Nat) :
    Except Stop Recv :=
  iterate (Recv.more len) (Recv.round tj heap buf len) len ⟨[], 0, c, g⟩

end Projector
