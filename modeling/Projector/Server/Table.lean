import Mathlib.Data.Finset.Card
import Mathlib.Data.List.Dedup
import Projector.Server.Effect

/-!
# The client table

Three structures describe who is connected: the watched descriptors, the table of objects and the counter.
`Table` says that they agree on the descriptors, `Counted` that the counter counts them. Both are kept by
each operation on a connection (`accept`, `received`, `drop`) and by every step of the server.
-/

namespace Projector

namespace Server

/-- The watched descriptors are the listening socket and the connections, and every object is in the slot
of its descriptor. -/
structure Table (s : Server) : Prop where
  listening : s.client s.serverSocket = none
  watched : ∀ i, s.readFds i = true ↔ i = s.serverSocket ∨ (s.client i).isSome
  slot : ∀ i c, s.client i = some c → c.fd = i
  nonneg : ∀ i, (s.client i).isSome → 0 ≤ i

/-- `userCount` is the number of connections. -/
def Counted (s : Server) : Prop :=
  ∃ ids : Finset Int, (∀ i, i ∈ ids ↔ (s.client i).isSome) ∧ s.userCount = ids.card

/-- Two servers with the same connections. -/
structure SameTable (s t : Server) : Prop where
  serverSocket : t.serverSocket = s.serverSocket
  readFds : t.readFds = s.readFds
  client : ∀ i, (t.client i).map Client.fd = (s.client i).map Client.fd
  userCount : t.userCount = s.userCount

variable {s t : Server} {a : Accepted} {fd : Int} {c : Client} {r : Recv} {bytes : List UInt8}

namespace SameTable

/-- A server has its own table. -/
lemma refl (s : Server) : SameTable s s := ⟨rfl, rfl, fun _ => rfl, rfl⟩

/-- To have the same table is transitive. -/
lemma trans {u : Server} (h : SameTable s t) (h' : SameTable t u) : SameTable s u where
  serverSocket := h'.serverSocket.trans h.serverSocket
  readFds := h'.readFds.trans h.readFds
  client i := (h'.client i).trans (h.client i)
  userCount := h'.userCount.trans h.userCount

/-- The same slots are in use. -/
lemma isSome (h : SameTable s t) (i : Int) : (t.client i).isSome = (s.client i).isSome := by
  have same := congrArg Option.isSome (h.client i)
  simpa using same

/-- The table is sound where it is the same. -/
lemma table (h : SameTable s t) (inv : s.Table) : t.Table where
  listening := by
    have none := h.isSome s.serverSocket
    rw [inv.listening] at none
    rw [h.serverSocket]
    simpa using none
  watched i := by rw [h.readFds, h.serverSocket, h.isSome, inv.watched]
  slot i c hc := by
    have same := h.client i
    rw [hc, Option.map_some] at same
    obtain ⟨d, hd, e⟩ := Option.map_eq_some_iff.mp same.symm
    rw [← e, inv.slot i d hd]
  nonneg i hi := inv.nonneg i (by rwa [← h.isSome])

/-- The counter is right where the table is the same. -/
lemma counted (h : SameTable s t) (inv : s.Counted) : t.Counted := by
  obtain ⟨ids, mem, count⟩ := inv
  exact ⟨ids, fun i => by rw [mem, h.isSome], by rw [h.userCount, count]⟩

end SameTable

/-- A call of `receive` leaves the table as it is. -/
lemma sameTable_received (hc : s.client fd = some c) (hfd : r.client.fd = c.fd)
    (hcount : r.globals.userCount = s.userCount) : SameTable s (s.received fd r) where
  serverSocket := rfl
  readFds := rfl
  client i := by
    rw [received_client]
    by_cases e : i = fd
    · rw [e, Function.update_self, hc, Option.map_some, Option.map_some, hfd]
    · rw [Function.update_of_ne e]
  userCount := hcount

/-- `bzero` leaves the table alone. -/
lemma sameTable_wipe : SameTable s (s.wipe bytes) := ⟨rfl, rfl, fun _ => rfl, rfl⟩

/-- Storing into the two variables of the focus leaves the table as it is. -/
lemma sameTable_focus (focusFd readyFd : Int) :
    SameTable s { s with focusFd := focusFd, readyFd := readyFd } := ⟨rfl, rfl, fun _ => rfl, rfl⟩

namespace Table

/-- A watched descriptor other than the listening socket has an object. -/
lemma isSome (inv : s.Table) (watched : s.readFds fd = true) (ne : fd ≠ s.serverSocket) :
    (s.client fd).isSome := ((inv.watched fd).mp watched).resolve_left ne

/-- A descriptor that is not watched has no object. -/
lemma eq_none (inv : s.Table) (fresh : s.readFds fd = false) : s.client fd = none := by
  cases hc : s.client fd with
  | none => rfl
  | some c =>
    have watched := (inv.watched fd).mpr (.inr (by rw [hc]; rfl))
    rw [fresh] at watched
    contradiction

/-- A connection is watched. -/
lemma readFds (inv : s.Table) (hc : (s.client fd).isSome) : s.readFds fd = true :=
  (inv.watched fd).mpr (.inr hc)

/-- The listening socket has no object. -/
lemma ne_listening (inv : s.Table) (hc : (s.client fd).isSome) : fd ≠ s.serverSocket := by
  rintro rfl
  rw [inv.listening] at hc
  contradiction

/-- Only the listening socket is watched at the start. -/
lemma start (serverSocket : Int) (screen : Screen) (fbp chunk : Mem) :
    (start serverSocket screen fbp chunk).Table where
  listening := rfl
  watched i := by simp [Projector.start]
  slot i c h := by simp [Projector.start] at h
  nonneg i h := by simp [Projector.start] at h

/-- A newcomer gets a slot and is watched. -/
lemma accept (inv : s.Table) (nonneg : 0 ≤ a.fd) (fresh : s.readFds a.fd = false) :
    (s.acceptClient a).Table where
  listening := by
    have ne : s.serverSocket ≠ a.fd := fun e => by
      have watched := (inv.watched s.serverSocket).mpr (.inl rfl)
      rw [e, fresh] at watched
      contradiction
    rw [acceptClient_client, acceptClient_serverSocket, Function.update_of_ne ne, inv.listening]
  watched i := by
    rw [acceptClient_readFds, acceptClient_client, acceptClient_serverSocket]
    by_cases e : i = a.fd
    · simp [e]
    · rw [Function.update_of_ne e, Function.update_of_ne e, inv.watched]
  slot i c h := by
    rcases acceptClient_eq_some.mp h with ⟨rfl, rfl⟩ | ⟨_, old⟩
    · exact new_fd ..
    · exact inv.slot i c old
  nonneg i h := by
    rcases isSome_acceptClient.mp h with rfl | old
    · exact nonneg
    · exact inv.nonneg i old

/-- A connection that ended has no slot and is not watched. -/
lemma drop (inv : s.Table) (ne : fd ≠ s.serverSocket) : (s.dropClient fd).Table where
  listening := by
    rw [dropClient_client, dropClient_serverSocket, Function.update_of_ne ne.symm, inv.listening]
  watched i := by
    rw [dropClient_readFds, dropClient_client, dropClient_serverSocket]
    by_cases e : i = fd
    · simp [e, ne]
    · rw [Function.update_of_ne e, Function.update_of_ne e, inv.watched]
  slot i c h := inv.slot i c (dropClient_eq_some.mp h).2
  nonneg i h := inv.nonneg i (isSome_dropClient.mp h).2

end Table

namespace Counted

/-- Nobody is counted at the start. -/
lemma start (serverSocket : Int) (screen : Screen) (fbp chunk : Mem) :
    (start serverSocket screen fbp chunk).Counted := ⟨∅, by simp [Projector.start], rfl⟩

/-- A newcomer is counted once. -/
lemma accept (inv : s.Counted) (table : s.Table) (fresh : s.readFds a.fd = false) :
    (s.acceptClient a).Counted := by
  obtain ⟨ids, mem, count⟩ := inv
  have new : a.fd ∉ ids := by
    rw [mem, table.eq_none fresh]
    exact Bool.false_ne_true
  refine ⟨insert a.fd ids, fun i => ?_, ?_⟩
  · rw [isSome_acceptClient, Finset.mem_insert, mem]
  · rw [acceptClient_toGlobals, join_userCount, Finset.card_insert_of_notMem new, count]
    rfl

/-- A connection that ended is not counted any more. -/
lemma drop (inv : s.Counted) (hc : s.client fd = some c) : (s.dropClient fd).Counted := by
  obtain ⟨ids, mem, count⟩ := inv
  have old : fd ∈ ids := by
    rw [mem, hc]
    rfl
  refine ⟨ids.erase fd, fun i => ?_, ?_⟩
  · rw [isSome_dropClient, Finset.mem_erase, mem]
  · have pos := Finset.card_pos.mpr ⟨fd, old⟩
    rw [dropClient_toGlobals s fd hc, leave_userCount, Finset.card_erase_of_mem old, count]
    omega

/-- Somebody is connected: the counter is positive. -/
lemma pos (inv : s.Counted) (hc : (s.client fd).isSome) : 0 < s.userCount := by
  obtain ⟨ids, mem, count⟩ := inv
  have card := Finset.card_pos.mpr ⟨fd, (mem fd).mpr hc⟩
  omega

/-- When all connections have slots of the table, the counter is the number of slots in use. -/
lemma eq_countP (inv : s.Counted) (bound : ∀ i, (s.client i).isSome → i ∈ slots) :
    s.userCount = slots.countP fun i => (s.client i).isSome := by
  obtain ⟨ids, mem, count⟩ := inv
  have same : ids = (slots.filter fun i => (s.client i).isSome).toFinset := by
    ext i
    rw [List.mem_toFinset, List.mem_filter, mem]
    exact ⟨fun h => ⟨bound i h, h⟩, fun h => h.2⟩
  rw [count, same, List.toFinset_card_of_nodup (nodup_slots.filter _), List.countP_eq_length_filter]

end Counted

/-- Who has the focus after a connection was closed had it before. -/
lemma dropClient_holder (inv : s.Table) (hc : s.client fd = some c)
    (h : ((s.dropClient fd).client (s.dropClient fd).focusFd).isSome) :
    (s.dropClient fd).focusFd = s.focusFd ∧ (s.client s.focusFd).isSome := by
  have focus : (s.dropClient fd).focusFd =
      if c.fd = s.focusFd ∧ s.userCount = 1 then -1 else s.focusFd := by
    rw [dropClient_toGlobals s fd hc, leave_focusFd]
  have stays : ∀ i, ((s.dropClient fd).client i).isSome → (s.client i).isSome :=
    fun i hi => (isSome_dropClient.mp hi).2
  rw [focus] at h ⊢
  split at h
  -- The last user left: `focus_fd` is -1, which is no descriptor.
  · have nonneg := inv.nonneg _ (stays _ h)
    contradiction
  · rename_i keep
    rw [if_neg keep]
    exact ⟨rfl, stays _ h⟩

/-! ## One step -/

section step

variable {tj : TurboJpeg} {i : Input} {o : List Output}

/-- A descriptor stays watched unless the step serves its connection. -/
lemma Effect.readFds (e : Effect tj s i t o) {j : Int} (ne : i.connection ≠ some j)
    (watched : s.readFds j = true) : t.readFds j = true := by
  cases e with
  | @accept a =>
    rw [acceptClient_readFds]
    by_cases same : j = a.fd
    · rw [same, Function.update_self]
    · rwa [Function.update_of_ne same]
  | refuse =>
    have other : j ≠ _ := fun e => ne (congrArg some e.symm)
    rwa [wipe_readFds, dropClient_readFds, Function.update_of_ne other, received_readFds]
  | close =>
    have other : j ≠ _ := fun e => ne (congrArg some e.symm)
    rwa [dropClient_readFds, Function.update_of_ne other]
  | _ => exact watched

/-- A new connection was accepted. -/
lemma Effect.isSome (e : Effect tj s i t o) {j : Int} (hc : (t.client j).isSome) :
    (s.client j).isSome ∨ ∃ a, i = .accept a ∧ j = a.fd := by
  cases e with
  | @accept a =>
    rcases isSome_acceptClient.mp hc with same | old
    · exact .inr ⟨a, rfl, same⟩
    · exact .inl old
  | read _ _ h _ f =>
    rw [(sameTable_wipe).isSome, (sameTable_received h f.fd f.userCount).isSome] at hc
    exact .inl hc
  | refuse _ _ h _ f =>
    rw [wipe_client, isSome_dropClient, (sameTable_received h f.fd f.userCount).isSome] at hc
    exact .inl hc.2
  | close => exact .inl (isSome_dropClient.mp hc).2
  | _ => exact .inl hc

/-- `Table` and `Counted` together. -/
structure Sound (s : Server) : Prop extends s.Table where
  counted : s.Counted

/-- The server starts soundly. -/
lemma Sound.start (serverSocket : Int) (screen : Screen) (fbp chunk : Mem) :
    (start serverSocket screen fbp chunk).Sound :=
  ⟨.start .., .start ..⟩

/-- A server with the same table is sound. -/
lemma SameTable.sound (h : SameTable s t) (inv : s.Sound) : t.Sound :=
  ⟨h.table inv.toTable, h.counted inv.counted⟩

/-- An accept keeps the table sound. -/
lemma Sound.accept (inv : s.Sound) (nonneg : 0 ≤ a.fd) (fresh : s.readFds a.fd = false) :
    (s.acceptClient a).Sound :=
  ⟨inv.toTable.accept nonneg fresh, inv.counted.accept inv.toTable fresh⟩

/-- A departure keeps the table sound. -/
lemma Sound.drop (inv : s.Sound) (watched : s.readFds fd = true) (ne : fd ≠ s.serverSocket) :
    (s.dropClient fd).Sound := by
  obtain ⟨c, hc⟩ := Option.isSome_iff_exists.mp (inv.isSome watched ne)
  exact ⟨inv.toTable.drop ne, inv.counted.drop hc⟩

/-- One step. -/
lemma Sound.effect (inv : s.Sound) (e : Effect tj s i t o) : t.Sound := by
  cases e with
  | accept nonneg fresh => exact inv.accept nonneg fresh
  | read _ _ hc _ f => exact sameTable_wipe.sound ((sameTable_received hc f.fd f.userCount).sound inv)
  -- `receive` has changed the object before the connection is closed.
  | @refuse fd bytes heap c r watched ne hc _ f =>
    have same := sameTable_received hc f.fd f.userCount
    exact sameTable_wipe.sound ((same.sound inv).drop (by rwa [same.readFds])
      (by rwa [same.serverSocket]))
  | close watched ne => exact inv.drop watched ne
  | settled => exact inv
  | found => exact (sameTable_focus _ _).sound inv
  | alone => exact inv
  | nobody => exact inv
  | other => exact (sameTable_focus _ _).sound inv
  | list => exact inv

end step

end Server

/-! ## Reached states -/

/-- The server can be in `s` after putting out `h`, when every input meets `ok`. -/
def Reached (tj : TurboJpeg) (ok : Server → Input → Prop) (h : List Output) (s : Server) : Prop :=
  ∃ serverSocket screen fbp chunk,
    Run (Server.step tj) ok (start serverSocket screen fbp chunk) h s

variable {tj : TurboJpeg} {ok : Server → Input → Prop} {h : List Output} {s : Server}

/-- The induction over runs, with the table sound. -/
lemma Reached.invariant {I : Server → List Output → Prop}
    (init : ∀ serverSocket screen fbp chunk, I (start serverSocket screen fbp chunk) [])
    (keeps : ∀ s h i t o, s.Sound → I s h → ok s i → s.step tj i = some (t, o) → I t (h ++ o))
    (r : Reached tj ok h s) : s.Sound ∧ I s h := by
  obtain ⟨serverSocket, screen, fbp, chunk, run⟩ := r
  apply run.invariant (I := fun s h => s.Sound ∧ I s h) ⟨.start .., init ..⟩
  rintro t h i u o ⟨sound, inv⟩ hok st
  exact ⟨sound.effect (Server.effect_of_step st), keeps t h i u o sound inv hok st⟩

/-- Every reached state is sound. -/
theorem Reached.sound (r : Reached tj ok h s) : s.Sound :=
  (r.invariant (I := fun _ _ => True) (fun _ _ _ _ => trivial)
    (fun _ _ _ _ _ _ _ _ _ => trivial)).1

/-- The accepted descriptors have a slot of the table. -/
def Server.Small (_ : Server) : Input → Prop
  | .accept a => a.fd < maxClientNum
  | _ => True

/-- Then all connections are in the table. -/
theorem Reached.inTable (small : ∀ s i, ok s i → s.Small i) (r : Reached tj ok h s) {j : Int}
    (hc : (s.client j).isSome) : j ∈ slots := by
  have bound : ∀ i, (s.client i).isSome → i < maxClientNum := by
    refine (r.invariant (I := fun s _ => ∀ i, (s.client i).isSome → i < maxClientNum)
      (fun _ _ _ _ i hi => by simp [start] at hi) ?_).2
    intro s h i t o _ inv hok st j hj
    rcases (Server.effect_of_step st).isSome hj with old | ⟨a, rfl, rfl⟩
    · exact inv j old
    · exact small s _ hok
  exact mem_slots.mpr ⟨r.sound.nonneg j hc, bound j hc⟩

/-- A state computed from the start of `Server.blank`, with what was computed about it. -/
lemma Reached.of_exec {β : Type*} {is : List Input} {f : Server × List Output → β} {b : β}
    (e : (exec (Server.step tj) Server.blank is).map f = some b) :
    ∃ s h, exec (Server.step tj) Server.blank is = some (s, h) ∧
      Reached tj (fun _ _ => True) h s ∧ f (s, h) = b := by
  obtain ⟨⟨s, h⟩, e, fb⟩ := Option.map_eq_some_iff.mp e
  exact ⟨s, h, e, ⟨_, _, _, _, run_of_exec (admitted_true _ _) e⟩, fb⟩

/-- One more step. -/
lemma Reached.snoc {i : Input} {t : Server} {o : List Output} (r : Reached tj ok h s) (hok : ok s i)
    (st : s.step tj i = some (t, o)) : Reached tj ok (h ++ o) t := by
  obtain ⟨serverSocket, screen, fbp, chunk, run⟩ := r
  exact ⟨serverSocket, screen, fbp, chunk, .snoc i run hok st⟩

namespace Server

/-- Three users come in, and the first is given the focus. -/
def threeUsers : List Input :=
  [.accept ⟨4, 10, .blank⟩, .observe (fun _ => false) [12], .accept ⟨5, 11, .blank⟩,
    .accept ⟨6, 12, .blank⟩]

/-- The server with the three users. -/
def three : Server :=
  ((blank.acceptClient ⟨4, 10, .blank⟩).commit.acceptClient ⟨5, 11, .blank⟩).acceptClient
    ⟨6, 12, .blank⟩

/-- The three users are a run of the server. -/
lemma three_reached : Reached .none Small
    [.accepted 4, .isset 4, .grant 4, .accepted 5, .accepted 6] three := by
  have small : Admitted (Server.step .none) Small blank threeUsers :=
    ⟨(by decide : (4 : Int) < 30), trivial, (by decide : (5 : Int) < 30),
      (by decide : (6 : Int) < 30), trivial⟩
  exact ⟨3, ⟨1, 1, 3⟩, fun _ => 0, fun _ => 0, run_of_exec small rfl⟩

end Server

end Projector
