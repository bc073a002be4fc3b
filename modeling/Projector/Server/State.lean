import Projector.Base.Framing
import Projector.Base.Memory

/-!
# State of the projector server

The data of `server/Server.cpp`: the constants, the `Client` object, the global variables and the
descriptor tables that `main` and its two threads share. C's `int` is `Int` (wrapped where the source can
overflow it), `unsigned int` is `Nat`, a pointer is an optional `Block`. Fields of `Client` that nothing
but the debug output reads are left out.

`Msg` is a message as a peer means it; `wire` is its layout on the connection, a type and a length of four
bytes each and then the payload.
-/

namespace Projector

/-- `MAX_BUF` -/
@[simp] def maxBuf : Nat := 87380

/-- `MAX_CLIENT_NUM` -/
@[simp] def maxClientNum : Nat := 30

/-- `HEADER_SIZE` -/
@[simp] def headerSize : Nat := 8

/-- `FD_SETSIZE` -/
@[simp] def fdSetSize : Int := 1024

/-- `RECV_NAME` -/
def recvName : Int := 2

/-- `SEND_USER_LIST` -/
def sendUserList : Int := 3

/-- `CHANGE_FOCUS_STATUS` -/
def changeFocusStatus : Int := 4

/-- `RECV_IMAGE` -/
def recvImage : Int := 5

/-- The types of messages are different numbers. -/
@[simp] lemma recvName_ne_recvImage : recvName ≠ recvImage := by decide

/-- The same the other way round. -/
@[simp] lemma recvImage_ne_recvName : recvImage ≠ recvName := by decide

/-- A name is no focus request. -/
@[simp] lemma recvName_ne_changeFocusStatus : recvName ≠ changeFocusStatus := by decide

/-- An image is no focus request. -/
@[simp] lemma recvImage_ne_changeFocusStatus : recvImage ≠ changeFocusStatus := by decide

/-- A focus request is no name. -/
@[simp] lemma changeFocusStatus_ne_recvName : changeFocusStatus ≠ recvName := by decide

/-- A focus request is no image. -/
@[simp] lemma changeFocusStatus_ne_recvImage : changeFocusStatus ≠ recvImage := by decide

/-- A message of a peer: a type that the server takes and a payload whose length is an `int`. -/
structure Msg where
  type : Int
  payload : List UInt8
  type_valid : 0 ≤ type ∧ type ≤ 10
  length_lt : payload.length < 2 ^ 31
deriving DecidableEq

/-- A focus request. -/
def Msg.request (id : Int) : Msg where
  type := changeFocusStatus
  payload := intBytes id
  type_valid := by decide
  length_lt := by rw [length_intBytes]; decide

/-- The layout of a message on the connection. -/
def wire : Format Msg UInt8 where
  size := headerSize
  size_pos := by decide
  header m := intBytes m.type ++ intBytes m.payload.length
  payload := Msg.payload
  length_header m := by simp

/-- A header has eight bytes. -/
@[simp] lemma wire_size : wire.size = 8 := rfl

/-- The payload of a message is sent as it is. -/
@[simp] lemma wire_payload (m : Msg) : wire.payload m = m.payload := rfl

/-- A block from `new`: the size asked for and the memory behind the pointer. -/
structure Block where
  size : Int
  mem : Mem

/-- The block behind a null pointer: nothing may be read or written there. -/
def Block.null : Block := ⟨0, fun _ => 0⟩

/-- The places of `receive` that call `new`. -/
inductive Site where
  | recvBuffer
  | userName
  | jpegBuffer
deriving DecidableEq

/-- What `new` gives during one call of `receive`, by place and by the value of `chunkRead` there: the
contents found in the fresh block, or `none` when it throws. -/
abbrev Heap := Site → Nat → Option Mem

/-- `new char[size]`, which throws for a negative size whatever the heap holds. -/
def Heap.new (heap : Heap) (site : Site) (at_ : Nat) (size : Int) : Option Block :=
  if size < 0 then none else (heap site at_).map (Block.mk size)

/-- No call of `new` throws for want of memory. -/
def Heap.Total (heap : Heap) : Prop := ∀ site k, (heap site k).isSome

/-- The screen as the driver reports it (`vinfo`, `finfo`). -/
structure Screen where
  xres : Nat
  yres : Nat
  lineLength : Nat

/-- The two functions of the TurboJPEG library that `Client::draw` calls. `decompressHeader2` yields
width, height and subsampling, or `none` when it fails and leaves them as they were. -/
structure TurboJpeg where
  decompressHeader2 : List UInt8 → Option (Int × Int × Int)
  decompress2 : List UInt8 → Mem → (width pitch height : Int) → Mem

/-- The object of one connection (`class Client`). -/
structure Client where
  fd : Int
  resX : Int
  resY : Int
  headerLength : Int
  headerType : Int
  remainBytes : Int
  userID : Int32
  userName : Option Block
  userNameLength : Nat
  recvBuffer : Option Block
  recvOffset : Nat
  jpegWidth : Int
  jpegHeight : Int
  jpegSubsamp : Int
  jpegBuffer : Option Block
  jpegOffset : Nat

/-- The bytes of the name, `userName[0..userNameLength)`. -/
def Client.name (c : Client) : List UInt8 :=
  (c.userName.getD .null).mem.read 0 c.userNameLength

/-- The bytes of the last image, `jpegBuffer[0..jpegOffset)`. -/
def Client.jpeg (c : Client) : List UInt8 :=
  (c.jpegBuffer.getD .null).mem.read 0 c.jpegOffset

/-- The global variables that the methods of `Client` use, and the frame buffer. -/
structure Globals where
  focusFd : Int
  readyFd : Int
  userCount : Int
  fbp : Mem

/-- The whole server: the globals and what `main` and the threads work on. `readFds` is the watched
`fd_set`, `chunk` the buffer that `main` reads into. -/
structure Server extends Globals where
  serverSocket : Int
  screen : Screen
  readFds : Int → Bool
  client : Int → Option Client
  chunk : Mem

/-- The indices that the loops over the client table run through. -/
def slots : List Int := (List.range maxClientNum).map Int.ofNat

/-- The slots are the indices of `client[]`. -/
lemma mem_slots {i : Int} : i ∈ slots ↔ 0 ≤ i ∧ i < maxClientNum := by
  simp only [slots, List.mem_map, List.mem_range]
  constructor
  · rintro ⟨n, h, rfl⟩
    exact ⟨Int.natCast_nonneg n, Int.ofNat_lt.mpr h⟩
  · rintro ⟨lo, hi⟩
    exact ⟨i.toNat, by omega, Int.toNat_of_nonneg lo⟩

/-- Each slot comes once. -/
lemma nodup_slots : slots.Nodup := by decide

/-- The server when `main` enters its loop: the globals are zero and only the listening socket is
watched. -/
def start (serverSocket : Int) (screen : Screen) (fbp chunk : Mem) : Server where
  focusFd := 0
  readyFd := 0
  userCount := 0
  fbp := fbp
  serverSocket := serverSocket
  screen := screen
  readFds := fun i => i = serverSocket
  client := fun _ => none
  chunk := chunk

/-! ## Fixed surroundings for concrete runs -/

/-- A decoder that knows no picture. -/
def TurboJpeg.none : TurboJpeg := ⟨fun _ => .none, fun _ fbp _ _ _ => fbp⟩

/-- A heap that never runs out and hands out cleared blocks. -/
def Heap.cleared : Heap := fun _ _ => some fun _ => 0

/-- A server that has just started and listens at descriptor 3. -/
def Server.blank : Server := start 3 ⟨1, 1, 3⟩ (fun _ => 0) (fun _ => 0)

end Projector
