import Projector.Server.State

/-!
# Connections come and go

The constructor, `Client::init` and the destructor of `class Client`, with what they do to the globals:
they count the users, and they start and end the focus. `raw` is the memory that `new Client` finds; the
fields that the constructor does not set keep its values.
-/

namespace Projector

/-- `init`, for the object: no message, no name and no image yet. -/
def Client.init (c : Client) : Client :=
  { c with
    recvOffset := 0
    recvBuffer := none
    userName := none
    userNameLength := 0
    jpegOffset := 0
    jpegBuffer := none
    remainBytes := -1 }

/-- `init`, for the globals: the first user is to get the focus. -/
def Globals.join (g : Globals) (fd : Int) : Globals :=
  if g.userCount = 0 then { g with focusFd := -1, readyFd := fd, userCount := g.userCount + 1 }
  else { g with userCount := g.userCount + 1 }

/-- `Client(socket, id)` -/
def Client.new (screen : Screen) (raw : Client) (socket : Int) (id : Int32) : Client :=
  { raw with fd := socket, userID := id, resX := screen.xres, resY := screen.yres }.init

/-- `~Client`, for the globals: a departing holder of the focus leaves it to the last state, or asks the
observer for another holder. -/
def Globals.leave (g : Globals) (fd : Int) : Globals :=
  let g := { g with userCount := g.userCount - 1 }
  if fd = g.focusFd then
    if g.userCount = 0 then { g with focusFd := -1, readyFd := -1 }
    -- `focus_fd` keeps the number of the connection that is gone.
    else { g with readyFd := 0 }
  else g

/-- An object without contents. -/
def Client.blank : Client where
  fd := 0
  resX := 0
  resY := 0
  headerLength := 0
  headerType := 0
  remainBytes := 0
  userID := 0
  userName := none
  userNameLength := 0
  recvBuffer := none
  recvOffset := 0
  jpegWidth := 0
  jpegHeight := 0
  jpegSubsamp := 0
  jpegBuffer := none
  jpegOffset := 0

section fields

variable (screen : Screen) (raw : Client) (socket : Int) (id : Int32) (g : Globals)

/-- A new object has the descriptor of its socket. -/
@[simp] lemma new_fd : (Client.new screen raw socket id).fd = socket := rfl

/-- One user more. -/
@[simp] lemma join_userCount : (g.join socket).userCount = g.userCount + 1 := by
  unfold Globals.join
  split <;> rfl

/-- The first user finds no holder of the focus. -/
lemma join_focusFd : (g.join socket).focusFd = if g.userCount = 0 then -1 else g.focusFd := by
  unfold Globals.join
  split <;> rfl

/-- The first user is to get the focus. -/
lemma join_readyFd : (g.join socket).readyFd = if g.userCount = 0 then socket else g.readyFd := by
  unfold Globals.join
  split <;> rfl

/-- One user less. -/
@[simp] lemma leave_userCount : (g.leave socket).userCount = g.userCount - 1 := by
  simp only [Globals.leave]
  split
  · split <;> rfl
  · rfl

/-- Only where the holder was the last user the focus is given up. -/
lemma leave_focusFd : (g.leave socket).focusFd =
    if socket = g.focusFd ∧ g.userCount = 1 then -1 else g.focusFd := by
  have one : g.userCount - 1 = 0 ↔ g.userCount = 1 := by omega
  simp only [Globals.leave, one]
  by_cases holder : socket = g.focusFd <;> by_cases last : g.userCount = 1 <;>
    simp [holder, last]

/-- Where the holder leaves others behind, descriptor 0 is requested. -/
lemma leave_readyFd : (g.leave socket).readyFd =
    if socket = g.focusFd then if g.userCount = 1 then -1 else 0 else g.readyFd := by
  have one : g.userCount - 1 = 0 ↔ g.userCount = 1 := by omega
  simp only [Globals.leave, one]
  by_cases holder : socket = g.focusFd <;> by_cases last : g.userCount = 1 <;>
    simp [holder, last]

end fields

end Projector
