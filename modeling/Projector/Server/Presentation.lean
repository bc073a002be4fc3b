import Projector.Server.Delivery
import Projector.Server.Names
import Projector.Server.UserList

/-!
# What the holder of the focus is shown

The server with its users, each of whom sends a stream of messages from the moment it connects. Whatever the
order in which they come and go, their chunks arrive and the focus moves, a user list that is sent in one
step to a connected holder of the focus shows each of the other users with its user id, the last name and
the last image that it has sent completely (`list_shows`). The user id is what `getAddress` has made of the
address, which is not always its last octet.
-/

namespace Projector

/-- A user: what it sends, how much of that has arrived, and what `getAddress` has made of its address. -/
structure Peer where
  sent : List Msg
  got : Nat
  lastip : Int32

/-- What a user has sent completely. -/
def Peer.complete (p : Peer) : List Msg := completed p.sent p.got

/-- What a record is to say about a user. -/
def Peer.record (p : Peer) : UserRecord where
  id := p.lastip.toInt
  name := (Recv.payloads recvName p.complete).getLastD []
  image := (Recv.payloads recvImage p.complete).getLastD []

/-- The bytes of a record: three numbers, a name and an image. -/
def UserRecord.size (r : UserRecord) : Nat := 12 + r.name.length + r.image.length

/-- The server, and by descriptor the user that was the last to connect there. -/
structure Presentation where
  server : Server
  peer : Int → Peer

/-- An input of the server; with `accept` comes what the new user is going to send. -/
structure PresentationInput where
  input : Input
  sent : List Msg

namespace Presentation

/-- What an input makes of the users. -/
def peerAfter (x : Presentation) (i : PresentationInput) : Int → Peer :=
  match i.input with
  | .accept a => Function.update x.peer a.fd ⟨i.sent, 0, a.lastip⟩
  | .read fd bytes _ =>
    Function.update x.peer fd { x.peer fd with got := (x.peer fd).got + bytes.length }
  | _ => x.peer

/-- What the list is to show: the users other than the holder of the focus. -/
def shown (x : Presentation) : List UserRecord :=
  x.server.others.map fun i => (x.peer i).record

/-- One step: the server's. -/
def step (tj : TurboJpeg) (x : Presentation) (i : PresentationInput) :
    Option (Presentation × List Output) :=
  (x.server.step tj i.input).map fun r => (⟨r.1, x.peerAfter i⟩, r.2)

/-- A user has a slot in the table and sends what may be sent, and a chunk is the next piece of its stream
and does not end inside a header. -/
def Conforms (x : Presentation) (i : PresentationInput) : Prop :=
  match i.input with
  | .accept a => a.fd < maxClientNum ∧ Sendable i.sent
  | .read fd bytes _ => bytes <+: (wire.stream (x.peer fd).sent).drop (x.peer fd).got ∧
      ¬ wire.SplitsHeader (x.peer fd).sent ((x.peer fd).got + bytes.length)
  | _ => True

/-- A server that has just started. -/
def start (serverSocket : Int) (screen : Screen) (fbp chunk : Mem) : Presentation where
  server := Projector.start serverSocket screen fbp chunk
  peer := fun _ => ⟨[], 0, 0⟩

end Presentation

/-- The object is where the stream of its user is, and its record says what the user has sent. -/
structure Client.Tells (c : Client) (p : Peer) : Prop where
  pos : ∃ q, wire.locate p.sent p.got = some (p.complete, q) ∧ c.At q ∧ c.Safe q
  named : c.Named
  record : c.record = p.record

/-- A new object is at the start of the stream. -/
lemma tells_new (screen : Screen) (raw : Client) (fd : Int) (id : Int32) {ms : List Msg}
    (ok : Sendable ms) : (Client.new screen raw fd id).Tells ⟨ms, 0, id⟩ where
  pos := (pace_new screen raw fd id ok).pos
  named := fun _ => rfl
  record := by
    have none : Peer.complete ⟨ms, 0, id⟩ = [] := completed_of_locate (wire.locate_zero ms)
    rw [Peer.record, none]
    rfl

/-- A call on the next chunk of the stream keeps pace with it, and draws the images it completes if the
object has the focus. -/
lemma receive_tells {tj : TurboJpeg} {heap : Heap} {c : Client} {g : Globals} {m : Mem} {p : Peer}
    {data : List UInt8} (h : c.Tells p) (pre : data <+: (wire.stream p.sent).drop p.got)
    (whole : ¬ wire.SplitsHeader p.sent (p.got + data.length)) :
    Post (fun r => r.client.Tells { p with got := p.got + data.length } ∧
        draws r.log = if g.focusFd = c.fd then imagesCompleted p.sent p.got data.length else [])
      (fun s => s.exit = .badAlloc) (c.receive tj heap g (m.overlay data) data.length) := by
  obtain ⟨⟨q, hq, at_, safe⟩, named, record⟩ := h
  obtain ⟨bytes, d, q', consumed, hq', more, new⟩ := locate_piece hq pre whole
  have hbuf : (m.overlay data).read 0 data.length = q.bytes.take data.length := by
    rw [Mem.read_overlay, ← bytes]
  apply (receive_safe at_ safe hbuf consumed).mono
  · rintro r ⟨⟨at', ap⟩, safe', _⟩
    obtain ⟨named', name⟩ := ap.name named
    refine ⟨⟨⟨q', hq', at', safe'⟩, named', ?_⟩, by rw [ap.draws, new]⟩
    obtain ⟨id, name₀, image₀⟩ := UserRecord.mk.inj record
    have complete : Peer.complete { p with got := p.got + data.length } = p.complete ++ d := more
    rw [Client.record, Peer.record, complete, ap.userID, id, name, name₀, ap.jpeg, image₀,
      Recv.payloads_append, Recv.payloads_append, getLastD_append, getLastD_append]
  · rintro s ⟨exit, _⟩
    exact exit

namespace Presentation

variable {tj : TurboJpeg} {x y : Presentation} {h o : List Output} {i : PresentationInput}

/-- The table is sound, everybody has a slot, and every object tells what its user has sent. -/
structure Inv (x : Presentation) : Prop where
  sound : x.server.Sound
  inTable : ∀ i, (x.server.client i).isSome → i ∈ slots
  tells : ∀ i c, x.server.client i = some c → c.Tells (x.peer i)

/-- Before anybody comes there is nothing to present. -/
lemma Inv.start (serverSocket : Int) (screen : Screen) (fbp chunk : Mem) :
    (start serverSocket screen fbp chunk).Inv where
  sound := .start ..
  inTable i h := by simp [Presentation.start, Projector.start] at h
  tells i c h := by simp [Presentation.start, Projector.start] at h

/-- Every object keeps telling what its user has sent. -/
lemma Inv.tells_effect {t : Server} (inv : x.Inv) (ok : x.Conforms i)
    (e : Server.Effect tj x.server i.input t o) {j : Int} {c : Client} (hc : t.client j = some c) :
    c.Tells (x.peerAfter i j) := by
  obtain ⟨input, ms⟩ := i
  cases e with
  | @accept a nonneg fresh =>
    change c.Tells (Function.update x.peer a.fd _ j)
    rcases Server.acceptClient_eq_some.mp hc with ⟨rfl, rfl⟩ | ⟨other, old⟩
    · rw [Function.update_self]
      exact tells_new _ _ _ _ ok.2
    · rw [Function.update_of_ne other]
      exact inv.tells j c old
  | @read fd bytes heap d r _ _ hd hr =>
    change c.Tells (Function.update x.peer fd _ j)
    rcases Server.received_eq_some.mp hc with ⟨rfl, rfl⟩ | ⟨other, old⟩
    · rw [Function.update_self]
      exact ((receive_tells (inv.tells _ d hd) ok.1 ok.2).of_ok hr).1
    · rw [Function.update_of_ne other]
      exact inv.tells j c old
  | @refuse fd bytes heap d r _ _ hd hr =>
    -- A user who sends messages only is never turned out.
    have exit := (receive_tells (inv.tells _ d hd) ok.1 ok.2).of_error hr
    cases exit
  | close => exact inv.tells j c (Server.dropClient_eq_some.mp hc).2
  | settled | found | alone | nobody | other | list => exact inv.tells j c hc

/-- One step. -/
lemma Inv.step (inv : x.Inv) (ok : x.Conforms i) (st : x.step tj i = some (y, o)) : y.Inv := by
  obtain ⟨⟨t, o'⟩, st', e⟩ := Option.map_eq_some_iff.mp st
  obtain ⟨rfl, rfl⟩ := Prod.mk.inj e
  have effect := Server.effect_of_step st'
  have sound := inv.sound.effect effect
  refine ⟨sound, fun j hj => ?_, fun j c hc => inv.tells_effect ok effect hc⟩
  rcases effect.isSome hj with old | ⟨a, accepts, rfl⟩
  · exact inv.inTable j old
  · rw [Conforms, accepts] at ok
    exact mem_slots.mpr ⟨sound.nonneg _ hj, ok.1⟩

/-- The records of the other users. -/
lemma Inv.records (inv : x.Inv) : (x.server.others.filterMap x.server.client).map Client.record =
    x.shown := by
  rw [shown, List.map_filterMap, ← List.filterMap_eq_map]
  apply List.filterMap_congr
  intro i mem
  obtain ⟨c, hc⟩ := Option.isSome_iff_exists.mp (Server.mem_others.mp mem).2.1
  rw [hc, Option.map_some, (inv.tells i c hc).record]
  rfl

/-- Their size. -/
lemma length_records (cs : List Client) : (cs.flatMap encodeRecord).length =
    ((cs.map Client.record).map UserRecord.size).sum := by
  rw [List.length_flatMap, List.map_map]
  congr 1
  apply List.map_congr_left
  intro c _
  rw [length_encodeRecord, Function.comp_apply, UserRecord.size, Client.record, Client.length_name,
    Client.length_jpeg]

/-- In every run of conforming users in which an iteration of `userListThread` is one step, a list that is
sent to a connected holder of the focus, and whose size fits into an `int`, is a frame of type 3 that is read
back, to the last byte, as a record for each of the other users, in the order of their descriptors: the user
id, which is what `getAddress` has made of its address, and the last name and the last image that it has sent
completely. -/
theorem list_shows {serverSocket : Int} {screen : Screen} {fbp chunk : Mem}
    (run : Run (step tj) Conforms (start serverSocket screen fbp chunk) h x)
    (guard : x.server.listGuard) (holder : (x.server.client x.server.focusFd).isSome)
    (small : 4 + (x.shown.map UserRecord.size).sum < 2 ^ 31 - 8)
    (beyond : Int → Bool) (fresh : Mem) :
    ∃ payload, x.server.sendList beyond fresh =
        [.list x.server.focusFd (intBytes sendUserList ++ intBytes payload.length ++ payload)] ∧
      readRecords.run payload = some (x.shown, []) := by
  have inv : x.Inv := run.invariant_state (.start ..) fun _ _ _ _ inv ok st => inv.step ok st
  have listed : x.server.listedClients beyond = x.server.others.filterMap x.server.client :=
    Server.listedClients_eq (fun i => inv.sound.readFds) inv.sound.slot
  have records : (x.server.listedClients beyond).map Client.record = x.shown := by
    rw [listed, inv.records]
  have size : ((x.server.listedClients beyond).flatMap encodeRecord).length < 2 ^ 31 - 12 := by
    rw [length_records, records]
    omega
  have number : x.server.userCount - 1 = (x.server.listedClients beyond).length := by
    -- The holder is a connection, and the only one that is not listed.
    have sum := Server.length_others (s := x.server)
    rw [if_pos ⟨holder, inv.inTable _ holder⟩] at sum
    have count := inv.sound.counted.eq_countP inv.inTable
    rw [listed, Server.length_filterMap_others]
    omega
  refine ⟨intBytes (x.server.userCount - 1) ++ (x.server.listedClients beyond).flatMap encodeRecord,
    ?_, ?_⟩
  · have filled : (x.server.fill beyond fresh).Holds _ := Server.fill_holds
    rw [Server.sendList, if_pos guard, Server.frame, filled.bytes, Server.dataLength_eq,
      List.length_append, length_intBytes]
  · rw [number, ← records]
    exact (reads_records (by omega)).run_eq

/-- What can be computed of `Conforms`, when the users send some of these streams. -/
def Keeps (streams : List (List Msg)) (x : Presentation) (i : PresentationInput) : Prop :=
  match i.input with
  | .accept a => a.fd < maxClientNum ∧ i.sent ∈ streams
  | .read fd bytes _ => bytes <+: (wire.stream (x.peer fd).sent).drop (x.peer fd).got ∧
      (wire.locate (x.peer fd).sent ((x.peer fd).got + bytes.length)).isSome
  | _ => True

instance (streams : List (List Msg)) (x : Presentation) : DecidablePred (x.Keeps streams)
  | ⟨.accept a, sent⟩ => inferInstanceAs (Decidable (a.fd < maxClientNum ∧ sent ∈ streams))
  | ⟨.read fd bytes _, _⟩ =>
    inferInstanceAs (Decidable (bytes <+: (wire.stream (x.peer fd).sent).drop (x.peer fd).got ∧
      (wire.locate (x.peer fd).sent ((x.peer fd).got + bytes.length)).isSome))
  | ⟨.close _, _⟩ => .isTrue trivial
  | ⟨.observe _ _, _⟩ => .isTrue trivial
  | ⟨.list _ _, _⟩ => .isTrue trivial

/-- That is enough if the streams may be sent. -/
lemma conforms_of_keeps {streams : List (List Msg)} (sendable : ∀ ms ∈ streams, Sendable ms)
    (keeps : x.Keeps streams i) : x.Conforms i := by
  obtain ⟨input, sent⟩ := i
  cases input with
  | accept a => exact ⟨keeps.1, sendable sent keeps.2⟩
  | read fd bytes heap => exact ⟨keeps.1, Format.Pos.not_splitsHeader keeps.2⟩
  | close | observe | list => trivial

/-- The first of two users gets the focus; the second sends its name and an image. -/
def nameAndImage : List PresentationInput :=
  [⟨.accept ⟨4, 10, .blank⟩, []⟩, ⟨.observe (fun _ => false) [12], []⟩,
    ⟨.accept ⟨5, 11, .blank⟩, [Msg.ab, twoByteImage]⟩,
    ⟨.read 5 [2, 0, 0, 0, 2, 0, 0, 0, 97, 98, 5, 0, 0, 0, 2, 0, 0, 0, 255] .cleared, []⟩,
    ⟨.read 5 [216] .cleared, []⟩]

/-- `list_shows` after `nameAndImage`. -/
theorem list_shows_nameAndImage : ∃ x h payload,
    exec (step .none) (start 3 ⟨1, 1, 3⟩ (fun _ => 0) fun _ => 0) nameAndImage = some (x, h) ∧
    x.server.sendList (fun _ => false) (fun _ => 0) =
      [.list 4 (intBytes sendUserList ++ intBytes payload.length ++ payload)] ∧
    readRecords.run payload = some ([⟨11, [97, 98], [255, 216]⟩], []) := by
  have run : (exec (step .none) (start 3 ⟨1, 1, 3⟩ (fun _ => 0) fun _ => 0) nameAndImage).map
      (fun r => (r.1.server.focusFd, r.1.server.userCount, (r.1.server.client 4).isSome,
        r.1.shown)) =
      some (4, 2, true, [⟨11, [97, 98], [255, 216]⟩]) := by decide +kernel
  have sendable : ∀ ms ∈ [[], [Msg.ab, twoByteImage]], Sendable ms := by
    intro ms mem
    simp only [List.mem_cons, List.not_mem_nil, or_false] at mem
    rcases mem with rfl | rfl
    · exact ⟨trivial, by simp, by simp⟩
    · exact ⟨by simp [NamesFit, Msg.ab, twoByteImage],
        by simp [Msg.RequestFits, Msg.ab, twoByteImage], by simp [Msg.Allocatable, Msg.ab, twoByteImage]⟩
  have keeps : Admitted (step .none) (Keeps [[], [Msg.ab, twoByteImage]])
      (start 3 ⟨1, 1, 3⟩ (fun _ => 0) fun _ => 0) nameAndImage := by decide +kernel
  have adm := keeps.mono fun _ _ _ ok => conforms_of_keeps sendable ok
  obtain ⟨⟨x, h⟩, e, state⟩ := Option.map_eq_some_iff.mp run
  simp only [Prod.mk.injEq] at state
  obtain ⟨focus, count, holder, records⟩ := state
  obtain ⟨payload, sent, read⟩ := list_shows (run_of_exec adm e)
    ⟨by rw [focus]; decide, by rw [count]; decide⟩ (by rwa [focus]) (by rw [records]; decide)
    (fun _ => false) fun _ => 0
  rw [focus] at sent
  rw [records] at read
  exact ⟨x, h, payload, e, sent, read⟩

end Presentation

end Projector
