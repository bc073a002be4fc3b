import Projector.Server.State

/-!
# The two threads

One iteration of `focusObserver`, which hands the focus over, and of `userListThread`, which shows the
holder of the focus the other users. Both read the tables that `main` keeps. `FD_ISSET` outside
`[0, FD_SETSIZE)` reads memory that is not part of the set; what it finds there is the parameter
`beyond`.
-/

namespace Projector

/-- What the server does that others can see, and the tests of `focusObserver`. -/
inductive Output where
  /-- `accept` returned this descriptor, and it has a new `Client`. -/
  | accepted (fd : Int)
  /-- The connection was shut down and its `Client` deleted. -/
  | closed (fd : Int)
  /-- `receive` was called for this descriptor and returned this value. -/
  | received (fd ret : Int)
  /-- A complete `CHANGE_FOCUS_STATUS` stored this value in `ready_fd`. -/
  | request (id : Int)
  /-- `draw()` was called for this descriptor on these bytes. -/
  | draw (fd : Int) (jpeg : List UInt8)
  /-- `focusObserver` evaluated `FD_ISSET` at this index. -/
  | isset (i : Int)
  /-- `focusObserver` wrote the twelve bytes of a grant to this descriptor. -/
  | grant (fd : Int)
  /-- `userListThread` wrote a frame to this descriptor. -/
  | list (fd : Int) (frame : List UInt8)
deriving DecidableEq

namespace Server

/-- `FD_ISSET(i, &read_fds)` -/
def isset (beyond : Int → Bool) (s : Server) (i : Int) : Bool :=
  if 0 ≤ i ∧ i < fdSetSize then s.readFds i else beyond i

/-! ## `focusObserver` -/

/-- One call of `write` in a loop that sends a grant: which bytes of the buffer, and the result. -/
structure Write where
  off : Int
  count : Int
  result : Int

/-- The loop that sends the twelve bytes of a grant, from `writeRemain` on, on the given results of
`write`; `none` when it does not end with the last of them. -/
def grantLoop : Int → List Int → Option (List Write)
  | writeRemain, [] => if writeRemain > 0 then none else some []
  | writeRemain, written :: ws =>
    if writeRemain > 0 then
      (grantLoop (writeRemain - written) ws).map (⟨12 - writeRemain, writeRemain, written⟩ :: ·)
    else none

/-- Every `write` accepts some bytes and the last one the rest. -/
def Accepting : Int → List Int → Prop
  | writeRemain, [] => writeRemain = 0
  | writeRemain, written :: ws =>
    1 ≤ written ∧ written ≤ writeRemain ∧ Accepting (writeRemain - written) ws

instance decidableAccepting : ∀ n ws, Decidable (Accepting n ws)
  | n, [] => inferInstanceAs (Decidable (n = 0))
  | n, w :: ws =>
    have := decidableAccepting (n - w) ws
    inferInstanceAs (Decidable (_ ∧ _ ∧ _))

/-- `focus_fd != ready_fd` and `FD_ISSET(ready_fd, &read_fds)`: the requested descriptor is there. -/
def found (beyond : Int → Bool) (s : Server) : Bool :=
  s.focusFd ≠ s.readyFd && s.isset beyond s.readyFd

/-- `focus_fd = ready_fd` -/
def commit (s : Server) : Server := { s with focusFd := s.readyFd }

/-- The search for another holder: the tests made, and the descriptor it stops at. -/
def search (beyond : Int → Bool) (s : Server) : List Int → List Output × Option Int
  | [] => ([], none)
  | i :: is =>
    match s.client i with
    | none => search beyond s is
    | some c =>
      -- The holder is passed over even when it is the only client left.
      if s.isset beyond c.fd ∧ c.fd ≠ s.focusFd then ([.isset c.fd], some c.fd)
      else
        let r := search beyond s is
        (.isset c.fd :: r.1, r.2)

/-- One iteration of `focusObserver`, with the results of its writes. -/
def observe (beyond : Int → Bool) (ws : List Int) (s : Server) : Option (Server × List Output) :=
  if s.focusFd = s.readyFd then some (s, [])
  else if s.isset beyond s.readyFd then do
    -- Nothing of the table is asked here: the listening socket is in the set too.
    let _ ← grantLoop 12 ws
    some (s.commit, [.isset s.readyFd, .grant s.readyFd])
  else if s.userCount = 0 then some (s, [.isset s.readyFd])
  else
    match s.search beyond slots with
    | (tests, none) => some (s, .isset s.readyFd :: tests)
    | (tests, some fd) => do
      let _ ← grantLoop 12 ws
      some ({ s with focusFd := fd, readyFd := fd }, .isset s.readyFd :: tests ++ [.grant fd])

/-! ## `userListThread` -/

/-- The client of a slot that goes into the list: watched, and not the holder of the focus. -/
def listed (beyond : Int → Bool) (s : Server) (i : Int) : Option Client :=
  match s.client i with
  | some c => if s.isset beyond c.fd ∧ c.fd ≠ s.focusFd then some c else none
  | none => none

/-- The first pass: `dataLength`. -/
def dataLength (beyond : Int → Bool) (s : Server) : Nat :=
  slots.foldl
    (fun n i =>
      match s.listed beyond i with
      | some c => n + 4 + (4 + c.userNameLength) + (4 + c.jpegOffset)
      | none => n)
    4

/-- The second pass in progress: `sendBuf`, `sendOffset` and where the copies went. -/
structure Fill where
  sendBuf : Mem
  sendOffset : Nat
  writes : List (Nat × Nat)

/-- `memcpy(sendBuf + sendOffset, src, n); sendOffset += n` -/
def Fill.put (src : Mem) (n : Nat) (f : Fill) : Fill where
  sendBuf := f.sendBuf.memcpy f.sendOffset src 0 n
  sendOffset := f.sendOffset + n
  writes := f.writes ++ [(f.sendOffset, n)]

/-- The same for an `int`. -/
def Fill.putInt (z : Int) (f : Fill) : Fill := f.put (Mem.overlay (fun _ => 0) (intBytes z)) 4

/-- The record of one client. -/
def Fill.putClient (c : Client) (f : Fill) : Fill :=
  f |>.putInt c.userID.toInt
    |>.putInt c.userNameLength
    |>.put (c.userName.getD .null).mem c.userNameLength
    |>.putInt c.jpegOffset
    |>.put (c.jpegBuffer.getD .null).mem c.jpegOffset

/-- The header and the count, in a fresh `sendBuf`. -/
def Fill.header (fresh : Mem) (dataLength : Nat) (userListCount : Int) : Fill :=
  Fill.mk fresh 0 []
    |>.putInt sendUserList
    |>.putInt dataLength
    |>.putInt userListCount

/-- The second pass: the whole frame. -/
def fill (beyond : Int → Bool) (fresh : Mem) (s : Server) : Fill :=
  slots.foldl
    (fun f i =>
      match s.listed beyond i with
      | some c => f.putClient c
      | none => f)
    (.header fresh (s.dataLength beyond) (s.userCount - 1))

/-- The bytes handed to `write`. -/
def frame (beyond : Int → Bool) (fresh : Mem) (s : Server) : List UInt8 :=
  (s.fill beyond fresh).sendBuf.read 0 (s.fill beyond fresh).sendOffset

/-- `focus_fd > 0 && userCount > 1` -/
def listGuard (s : Server) : Prop := s.focusFd > 0 ∧ s.userCount > 1

instance (s : Server) : Decidable s.listGuard := inferInstanceAs (Decidable (_ ∧ _))

/-- One iteration of `userListThread`: a single `write` of the frame, whatever its result. -/
def sendList (beyond : Int → Bool) (fresh : Mem) (s : Server) : List Output :=
  if s.listGuard then [.list s.focusFd (s.frame beyond fresh)] else []

end Server

end Projector
