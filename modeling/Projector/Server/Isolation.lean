import Projector.Server.Rounds
import Projector.Server.Table

/-!
# What a background participant cannot touch

A call of `receive` for one connection, on any bytes, leaves the focus, the counter, the table and the
other connections as they are; the screen changes only under the holder of the focus, and `ready_fd` only
in a round that completes a focus request. `Server.Isolated` says this of the server after the call,
however the call ends.
-/

namespace Projector

/-- The call comes to a point at which it completes a message of this type with a payload. -/
def Recv.CompletesType (tj : TurboJpeg) (heap : Heap) (buf : Mem) (len : Nat) (r : Recv) (type : Int) :
    Prop :=
  ∃ t, Recv.Visits tj heap buf len r t ∧ t.chunkRead < len ∧ t.client.headerType = type ∧
    t.Completes len

namespace Server

/-- What stays as it was in `t`, the server `s` after a call of `receive` for the object `c` of the
connection `fd`, when the call completes a focus request only if `request` holds. -/
structure Isolated (s : Server) (fd : Int) (c : Client) (request : Prop) (t : Server) : Prop where
  focusFd : t.focusFd = s.focusFd
  sameTable : SameTable s t
  others : ∀ i, i ≠ fd → t.client i = s.client i
  fbp : c.fd ≠ s.focusFd → t.fbp = s.fbp
  readyFd : t.readyFd ≠ s.readyFd → request

end Server

namespace Recv

variable {tj : TurboJpeg} {heap : Heap} {buf : Mem} {len : Nat} {r t : Recv}

/-- As long as no focus request is completed, `ready_fd` keeps its value. -/
lemma Visits.readyFd (v : Visits tj heap buf len r t)
    (changed : t.globals.readyFd ≠ r.globals.readyFd) :
    CompletesType tj heap buf len r changeFocusStatus := by
  by_contra none
  apply changed
  apply v.invariant (fun t => t.globals.readyFd = r.globals.readyFd) rfl
  intro t u vt same more hu
  have quiet : ¬ (t.client.headerType = changeFocusStatus ∧ t.Completes len) :=
    fun ⟨type, completes⟩ => none ⟨t, vt, more_eq_true.mp more, type, completes⟩
  exact ((round_readyFd quiet).of_ok hu).trans same

/-- The same at the point where the call is left early. -/
lemma Visits.readyFd_stop {s : Stop} (v : Visits tj heap buf len r t) (more : t.chunkRead < len)
    (hs : t.round tj heap buf len = .error s)
    (changed : s.recv.globals.readyFd ≠ r.globals.readyFd) :
    CompletesType tj heap buf len r changeFocusStatus := by
  by_cases completes : t.client.headerType = changeFocusStatus ∧ t.Completes len
  · exact ⟨t, v, more, completes⟩
  · have kept := (round_readyFd completes).of_error hs
    exact v.readyFd (kept ▸ changed)

end Recv

namespace Server

/-- The frame of `receive`, put into the table. -/
lemma isolated_received {s : Server} {fd : Int} {c : Client} {r : Recv} {request : Prop}
    (hc : s.client fd = some c) (f : Frame ⟨[], 0, c, s.toGlobals⟩ r)
    (readyFd : r.globals.readyFd ≠ s.readyFd → request) : Isolated s fd c request (s.received fd r) where
  focusFd := f.focusFd
  sameTable := sameTable_received hc f.fd f.userCount
  others i ne := by rw [received_client, Function.update_of_ne ne]
  fbp background := f.fbp background.symm
  readyFd := readyFd

/-- For any state, any connection, any bytes, any memory and any decoder: a call of `receive` leaves
everything but its own object as it was, the screen when it does not have the focus, and `ready_fd` when
it completes no focus request. -/
theorem receive_isolated (tj : TurboJpeg) (heap : Heap) (s : Server) (fd : Int) (c : Client)
    (hc : s.client fd = some c) (bytes : List UInt8) :
    Post
      (fun r => s.Isolated fd c (Recv.CompletesType tj heap (s.chunk.overlay bytes) bytes.length
        ⟨[], 0, c, s.toGlobals⟩ changeFocusStatus) (s.received fd r))
      (fun stop => s.Isolated fd c (Recv.CompletesType tj heap (s.chunk.overlay bytes) bytes.length
        ⟨[], 0, c, s.toGlobals⟩ changeFocusStatus) (s.received fd stop.recv))
      (c.receive tj heap s.toGlobals (s.chunk.overlay bytes) bytes.length) := by
  have framed := receive_frame tj heap c s.toGlobals (s.chunk.overlay bytes) bytes.length
  have ends := receive_visits tj heap c s.toGlobals (s.chunk.overlay bytes) bytes.length
  cases hr : c.receive tj heap s.toGlobals (s.chunk.overlay bytes) bytes.length with
  | ok r =>
    exact isolated_received hc (framed.of_ok hr).1 (ends.of_ok hr).1.readyFd
  | error stop =>
    obtain ⟨t, v, more, hs⟩ := ends.of_error hr
    exact isolated_received hc (framed.of_error hr) (v.readyFd_stop more hs)

/-- A focus request and the beginning of an image. -/
def requestAndImage : List UInt8 :=
  [4, 0, 0, 0, 4, 0, 0, 0, 6, 0, 0, 0, 5, 0, 0, 0, 2, 0, 0, 0, 7]

/-- The object of the second of three users. -/
def second : Client := Client.new ⟨1, 1, 3⟩ .blank 5 11

/-- `receive_isolated` for the second of three users. -/
theorem receive_isolated_three :
    Post
      (fun r => three.Isolated 5 second (Recv.CompletesType .none .cleared
        (three.chunk.overlay requestAndImage) requestAndImage.length
        ⟨[], 0, second, three.toGlobals⟩ changeFocusStatus) (three.received 5 r))
      (fun stop => three.Isolated 5 second (Recv.CompletesType .none .cleared
        (three.chunk.overlay requestAndImage) requestAndImage.length
        ⟨[], 0, second, three.toGlobals⟩ changeFocusStatus) (three.received 5 stop.recv))
      (second.receive .none .cleared three.toGlobals (three.chunk.overlay requestAndImage)
        requestAndImage.length) :=
  receive_isolated .none .cleared three 5 second rfl requestAndImage

end Server

end Projector
