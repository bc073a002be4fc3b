import Projector.Server.Follow

/-!
# Every copy is inside its block

On a stream that is cut outside its headers, in which no name is longer than the first one and a focus
request holds an id, every byte that `Client::receive` touches is inside the chunk or the block it belongs
to. `Client.Safe` is what this needs of the object at a position of the stream: room for the names to come.
-/

namespace Projector

/-- No later name is longer than the first. -/
def NamesFit : List Msg → Prop
  | [] => True
  | m :: ms =>
    if m.type = recvName then ∀ n ∈ ms, n.type = recvName → n.payload.length ≤ m.payload.length
    else NamesFit ms

/-- A focus request is empty or has the four bytes of an id. -/
def Msg.RequestFits (m : Msg) : Prop :=
  m.type = changeFocusStatus → m.payload = [] ∨ 4 ≤ m.payload.length

/-- The name buffer takes the names to come; without one, the first name is the longest. -/
def Client.Room (c : Client) (ms : List Msg) : Prop :=
  match c.userName with
  | some b => ∀ m ∈ ms, m.type = recvName → (m.payload.length : Int) + 1 ≤ b.size
  | none => NamesFit ms

/-- The object can take the messages from a position on. -/
structure Client.Safe (c : Client) (q : wire.Pos) : Prop where
  room : c.Room q.messages
  requests : ∀ m ∈ q.messages, m.RequestFits
  named : ∀ m k rest lt, q = .inside m k rest lt → m.type = recvName → c.userName ≠ none

namespace Client

variable {c c' : Client} {m : Msg} {rest : List Msg} {k : Nat}

/-- Behind a message there is room for the others. -/
lemma Room.tail (h : c.Room (m :: rest)) (named : m.type = recvName → c.userName ≠ none) :
    c.Room rest := by
  unfold Room at h ⊢
  cases hu : c.userName with
  | none =>
    rw [hu] at h
    -- Without a buffer behind it, `m` was no name.
    have other : m.type ≠ recvName := fun e => named e hu
    simpa only [NamesFit, if_neg other] using h
  | some b =>
    rw [hu] at h
    exact fun n mem => h n (List.mem_cons_of_mem m mem)

/-- Only the size of the name buffer matters. -/
lemma Room.congr (h : c.Room rest) (size : c'.userName.map Block.size = c.userName.map Block.size) :
    c'.Room rest := by
  unfold Room at h ⊢
  cases hu : c.userName with
  | none =>
    rw [hu] at h size
    rw [Option.map_eq_none_iff.mp size]
    exact h
  | some b =>
    rw [hu] at h size
    obtain ⟨b', hb', e⟩ := Option.map_eq_some_iff.mp size
    rw [hb']
    intro m mem hn
    rw [e]
    exact h m mem hn

/-- The room for the name the object is in. -/
lemma Room.name {b : Block} (h : c.Room (m :: rest)) (hu : c.userName = some b)
    (hn : m.type = recvName) : (m.payload.length : Int) + 1 ≤ b.size := by
  unfold Room at h
  rw [hu] at h
  exact h m List.mem_cons_self hn

end Client

namespace Recv

variable {tj : TurboJpeg} {heap : Heap} {buf : Mem} {len : Nat} {r r' : Recv} {m : Msg} {c : Client}
  {g : Globals} {p q : wire.Pos} {d : List Msg} {rest : List Msg} {k : Nat}

/-- What a call has done so far was in bounds, and its object can take the rest of the stream. -/
structure Guarded (p : wire.Pos) (r : Recv) : Prop where
  inBounds : ∀ e ∈ r.log, e.InBounds
  safe : ∀ d q, p.consume r.chunkRead = some (d, q) → r.client.Safe q

/-- The position after some more bytes decides what is to be shown. -/
lemma Guarded.step {n : Nat} {d' : List Msg} {q' : wire.Pos} {es : List Event} (h : Guarded p r)
    (e : p.consume r.chunkRead = some (d, q)) (next : q.consume n = some (d', q'))
    (chunkRead : r'.chunkRead = r.chunkRead + n) (log : r'.log = r.log ++ es)
    (inBounds : ∀ e ∈ es, e.InBounds) (safe : r.client.Safe q → r'.client.Safe q') :
    Guarded p r' where
  inBounds x mem := by
    rw [log] at mem
    exact (List.mem_append.mp mem).elim (h.inBounds x) (inBounds x)
  safe d'' q'' e' := by
    have step := Format.Pos.consume_add e n
    rw [next, ← chunkRead, e'] at step
    obtain ⟨_, rfl⟩ := Prod.mk.inj (Option.some.inj step)
    exact safe (h.safe d q e)

/-- The header touches eight bytes of the chunk and the ends of the new blocks. -/
lemma inBounds_headerLog (room : r.chunkRead + 8 ≤ len) {x : Event} (mem : x ∈ headerLog m len r) :
    x.InBounds := by
  unfold headerLog at mem
  simp only [List.mem_append, List.mem_cons, List.not_mem_nil, or_false] at mem
  rcases mem with ((rfl | rfl) | mem) | mem
  · simp only [Event.InBounds]
    omega
  · simp only [Event.InBounds]
    omega
  · split at mem
    · simp only [List.mem_cons, List.not_mem_nil, or_false] at mem
      rcases mem with rfl | rfl <;> simp only [Event.InBounds] <;> omega
    · contradiction
  · split at mem
    · simp only [List.mem_cons, List.not_mem_nil, or_false] at mem
      rcases mem with rfl | rfl <;> simp only [Event.InBounds] <;> omega
    · contradiction

/-- Behind the header of `m` the name buffer takes it, and what comes after it. -/
lemma HeaderDone.room (f : HeaderDone m len r r') (h : r.client.Room (m :: rest)) :
    r'.client.Room (m :: rest) ∧ (m.type = recvName → r'.client.userName ≠ none) := by
  obtain ⟨rb, un, hc, _, hun⟩ := f.client
  have name : r'.client.userName = un := by
    rw [hc]
    rfl
  by_cases first : m.type = recvName ∧ r.client.userName = none
  · rw [if_pos first] at hun
    -- The first name sets the size of the buffer for all later ones.
    obtain ⟨mem, rfl⟩ := hun
    unfold Client.Room at h ⊢
    rw [first.2] at h
    rw [name]
    refine ⟨fun n mem hn => ?_, fun _ => by simp⟩
    simp only [NamesFit, if_pos first.1] at h
    rcases List.mem_cons.mp mem with rfl | mem
    · exact le_rfl
    · have le := h n mem hn
      simp only []
      omega
  · rw [if_neg first] at hun
    refine ⟨h.congr (by rw [name, hun]), fun hn => ?_⟩
    rw [name, hun]
    exact fun none => first ⟨hn, none⟩

/-- The header branch. -/
lemma header_guarded (h : Guarded p r) (hbuf : buf.read 0 len = p.bytes.take len)
    (e : p.consume r.chunkRead = some (d, .boundary (m :: rest))) (room : r.chunkRead + 8 ≤ len) :
    Post (Guarded p) (fun _ => True) (r.header heap buf len) := by
  apply (header_spec (header_at hbuf e room)).mono _ (fun _ _ => trivial)
  intro r' f
  have touched (x : Event) (mem : x ∈ headerLog m len r) : x.InBounds := inBounds_headerLog room mem
  by_cases ne : 0 < m.payload.length
  · have next : (.boundary (m :: rest) : wire.Pos).consume 8 = some ([], .inside m 0 rest ne) :=
      Format.Pos.consume_header_inside (F := wire) ne
    apply h.step e next f.chunkRead f.log touched
    intro safe
    obtain ⟨fits, named⟩ := f.room safe.room
    refine ⟨fits, safe.requests, ?_⟩
    rintro _ _ _ _ ⟨⟩
    exact named
  · have next : (.boundary (m :: rest) : wire.Pos).consume 8 = some ([m], .boundary rest) :=
      Format.Pos.consume_header_boundary (F := wire) ne
    apply h.step e next f.chunkRead f.log touched
    intro safe
    obtain ⟨fits, named⟩ := f.room safe.room
    exact ⟨fits.tail named, fun n mem => safe.requests n (List.mem_cons_of_mem m mem),
      fun _ _ _ _ e => nomatch e⟩

/-- A store into the receive buffer of the message the object is in. -/
lemma inBounds_store {n : Nat} (h : r.client.Inside m k) (chunk : r.chunkRead + n ≤ len)
    (fits : k + n ≤ m.payload.length) {x : Event}
    (mem : x ∈ [.bufRead r.chunkRead n len,
      .write .recvBuffer (r.client.recvBuffer.getD .null).size r.client.recvOffset n]) :
    x.InBounds := by
  obtain ⟨b, hb, acc, skip⟩ := h.block
  have offset : r.client.recvOffset ≤ k := by
    by_cases ha : Accumulates m.type
    · exact (acc ha).1.le
    · rw [skip ha]
      exact Nat.zero_le k
  simp only [List.mem_cons, List.not_mem_nil, or_false] at mem
  rcases mem with rfl | rfl
  · exact chunk
  · simp only [Event.InBounds, hb, Option.getD_some]
    omega

/-- A piece that does not reach the end of the payload. -/
lemma part_guarded {lt : k < m.payload.length} (h : Guarded p r)
    (e : p.consume r.chunkRead = some (d, .inside m k rest lt)) (inside : r.client.Inside m k)
    (more : r.chunkRead < len) (short : k + (len - r.chunkRead) < m.payload.length) :
    Guarded p (r.part buf len) := by
  have next : (.inside m k rest lt : wire.Pos).consume (len - r.chunkRead) =
      some ([], .inside m (k + (len - r.chunkRead)) rest short) :=
    Format.Pos.consume_part (F := wire) lt short
  have stays {c' : Client} (name : c'.userName = r.client.userName)
      (safe : r.client.Safe (.inside m k rest lt)) :
      c'.Safe (.inside m (k + (len - r.chunkRead)) rest short) := by
    refine ⟨safe.room.congr (by rw [name]), safe.requests, ?_⟩
    rintro _ _ _ _ ⟨⟩
    rw [name]
    exact safe.named m k rest lt rfl
  by_cases ha : Accumulates r.client.headerType
  · rw [part_of_accumulates ha]
    exact h.step e next rfl rfl (fun x mem => inBounds_store inside (by omega) (by omega) mem)
      (stays rfl)
  · rw [part_of_not_accumulates ha]
    exact h.step e next rfl (List.append_nil _).symm (by simp) (stays rfl)

/-- What the last piece of a payload does in bounds: the log grows by such events only, and the name buffer
keeps its size. -/
structure FinalSafe (r r' : Recv) : Prop where
  log : ∃ es, r'.log = r.log ++ es ∧ ∀ x ∈ es, x.InBounds
  size : r'.client.userName.map Block.size = r.client.userName.map Block.size

/-- The store of the last piece. -/
lemma inBounds_store_final (inside : r.client.Inside m k) (lt : k < m.payload.length)
    (chunk : r.chunkRead + (m.payload.length - k) ≤ len) :
    FinalSafe r (r.store buf len r.client.remainBytes.toNat) := by
  rw [readSize_of_inside inside]
  exact ⟨⟨_, rfl, fun x mem => inBounds_store inside chunk (by omega) mem⟩, rfl⟩

/-- More of the same. -/
lemma FinalSafe.trans {r'' : Recv} (h : FinalSafe r r') (h' : FinalSafe r' r'') : FinalSafe r r'' where
  log := by
    obtain ⟨es, hl, he⟩ := h.log
    obtain ⟨es', hl', he'⟩ := h'.log
    exact ⟨es ++ es', by rw [hl', hl, List.append_assoc],
      fun x mem => (List.mem_append.mp mem).elim (he x) (he' x)⟩
  size := h'.size.trans h.size

/-- Reading on touches no block. -/
lemma finalSafe_advance (r : Recv) (n : Nat) : FinalSafe r (r.advance n) :=
  ⟨⟨[], (List.append_nil _).symm, by simp⟩, rfl⟩

/-- A complete image. -/
lemma keepImage_safe {b : Block} (hb : r.client.recvBuffer = some b)
    (size : b.size = (m.payload.length : Int) + 1) (off : r.client.recvOffset = m.payload.length) :
    Post (FinalSafe r) (fun _ => True) (r.keepImage heap) := by
  have kept : Post (ImageKept b r) (Throws heap m) (r.keepImage heap) := keepImage_spec hb
  apply kept.mono _ (fun _ _ => trivial)
  rintro r' ⟨_, _, ⟨jb, client⟩, _, log⟩
  refine ⟨⟨_, log, fun x mem => ?_⟩, by rw [client]⟩
  simp only [List.mem_cons, List.not_mem_nil, or_false] at mem
  rcases mem with rfl | rfl | rfl | rfl | rfl <;> simp only [Event.InBounds] <;> omega

/-- Drawing stays in bounds. -/
lemma drawFocused_safe : FinalSafe r (r.drawFocused tj) := by
  have drawn : Drawn r (r.drawFocused tj) := drawFocused_spec
  obtain ⟨_, ⟨w, x, y, client⟩, _, log⟩ := drawn
  refine ⟨⟨_, log, fun x mem => ?_⟩, by rw [client]⟩
  split at mem
  · rw [List.mem_singleton.mp mem]
    trivial
  · contradiction

/-- A complete name, for which there is room. -/
lemma name_safe {b un : Block} (hb : r.client.recvBuffer = some b)
    (size : b.size = (m.payload.length : Int) + 1) (off : r.client.recvOffset = m.payload.length)
    (hu : r.client.userName = some un) (fits : (m.payload.length : Int) + 1 ≤ un.size) :
    FinalSafe r r.name := by
  refine ⟨⟨_, rfl, fun x mem => ?_⟩, by simp [name, hu]⟩
  simp only [List.mem_cons, List.not_mem_nil, or_false, hb, hu, off, Option.getD_some] at mem
  rcases mem with rfl | rfl | rfl | rfl <;> simp only [Event.InBounds] <;> omega

/-- A complete focus request, which holds an id. -/
lemma focus_safe {b : Block} (hb : r.client.recvBuffer = some b) (size : 4 ≤ b.size) :
    FinalSafe r r.focus := by
  refine ⟨⟨_, rfl, fun x mem => ?_⟩, rfl⟩
  simp only [List.mem_cons, List.not_mem_nil, or_false, hb, Option.getD_some] at mem
  rcases mem with rfl | rfl
  · exact size
  · trivial

/-- The last piece of a payload is in bounds. -/
lemma final_safe {lt : k < m.payload.length} (inside : r.client.Inside m k)
    (hb : buf.read r.chunkRead (m.payload.length - k) = m.payload.drop k)
    (chunk : r.chunkRead + (m.payload.length - k) ≤ len)
    (safe : r.client.Safe (.inside m k rest lt)) :
    Post (FinalSafe r) (fun _ => True) (r.final tj heap buf len) := by
  have stored : FinalSafe r (r.store buf len r.client.remainBytes.toNat) :=
    inBounds_store_final inside lt chunk
  apply final_rule
  case image =>
    intro hi
    obtain ⟨mem, hm, off, _⟩ := store_full len inside lt.le (.inl (inside.type ▸ hi)) hb
    apply (keepImage_safe hm rfl off).mono _ (fun _ h => h)
    intro t kept
    exact ((stored.trans kept).trans drawFocused_safe).trans (finalSafe_advance _ _)
  case name =>
    intro hn
    rw [inside.type] at hn
    obtain ⟨mem, hm, off, _⟩ := store_full len inside lt.le (.inr hn) hb
    obtain ⟨un, hu⟩ := Option.ne_none_iff_exists'.mp (safe.named m k rest lt rfl hn)
    exact (stored.trans (name_safe hm rfl off hu (safe.room.name hu hn))).trans
      (finalSafe_advance _ _)
  case focus =>
    intro hf
    rw [inside.type] at hf
    have long : 4 ≤ m.payload.length := by
      refine (safe.requests m List.mem_cons_self hf).resolve_left fun empty => ?_
      simp [empty] at lt
    obtain ⟨mem, hm, _⟩ := inside.block
    obtain ⟨b, hb, size⟩ : ∃ b, (r.store buf len r.client.remainBytes.toNat).client.recvBuffer
        = some b ∧ b.size = (m.payload.length : Int) + 1 := ⟨_, rfl, by simp [hm]⟩
    exact (stored.trans (focus_safe hb (by omega))).trans (finalSafe_advance _ _)
  case other => exact fun _ _ _ => stored.trans (finalSafe_advance _ _)

/-- The end of a payload. -/
lemma final_guarded {lt : k < m.payload.length} (h : Guarded p r)
    (hbuf : buf.read 0 len = p.bytes.take len)
    (e : p.consume r.chunkRead = some (d, .inside m k rest lt)) (inside : r.client.Inside m k)
    (le : r.chunkRead ≤ len) (long : m.payload.length - k ≤ len - r.chunkRead) :
    Post (Guarded p) (fun _ => True) (r.final tj heap buf len) := by
  have hb := payload_at hbuf e long
  have done : Post (FinalDone m k r) (Throws heap m) (r.final tj heap buf len) :=
    final_spec inside lt hb
  -- `FinalDone` gives the new position, `FinalSafe` the log and the name buffer.
  have both := done.and (final_safe inside hb (by omega) (h.safe d _ e))
  apply both.mono _ (fun _ _ => trivial)
  rintro r' ⟨f, ⟨es, log, touched⟩, size⟩
  have next : (.inside m k rest lt : wire.Pos).consume (m.payload.length - k) =
      some ([m], .boundary rest) := Format.Pos.consume_final (F := wire) lt
  apply h.step e next f.chunkRead log touched
  intro safe
  exact ⟨(safe.room.tail (safe.named m k rest lt rfl)).congr size,
    fun n mem => safe.requests n (List.mem_cons_of_mem m mem), fun _ _ _ _ e => nomatch e⟩

/-- One round on a chunk that does not end inside a header. -/
lemma round_guarded {d' : List Msg} (hbuf : buf.read 0 len = p.bytes.take len)
    (hlen : p.consume len = some (d', q)) (f : Following c g p len r) (h : Guarded p r)
    (more : r.chunkRead < len) : Post (Guarded p) (fun _ => True) (r.round tj heap buf len) := by
  apply round_stream_rule hlen f more
  case header =>
    intro d m rest e _ room
    exact header_guarded h hbuf e room
  case part =>
    intro d m k rest lt e inside _ short
    exact part_guarded h e inside more short
  case final =>
    intro d m k rest lt e inside _ long
    exact final_guarded h hbuf e inside more.le long

end Recv

/-- A call of `receive` on a chunk that does not end inside a header, by an object that can take the stream:
it follows the stream and stays in bounds. -/
theorem receive_safe {tj : TurboJpeg} {heap : Heap} {buf : Mem} {len : Nat} {c : Client}
    {g : Globals} {p q : wire.Pos} {d : List Msg} (at_ : c.At p) (safe : c.Safe p)
    (hbuf : buf.read 0 len = p.bytes.take len) (e : p.consume len = some (d, q)) :
    Post (fun r => (r.client.At q ∧ Recv.Applied c g d r) ∧ r.client.Safe q ∧ ∀ e ∈ r.log, e.InBounds)
      (Recv.OutOfMemory heap p) (c.receive tj heap g buf len) := by
  have start : Recv.Guarded p ⟨[], 0, c, g⟩ := by
    refine ⟨by simp, ?_⟩
    intro d q e
    rw [Format.Pos.consume_zero] at e
    obtain ⟨_, rfl⟩ := Prod.mk.inj (Option.some.inj e)
    exact safe
  apply (receive_rule at_ hbuf e start fun r f guarded more =>
    Recv.round_guarded hbuf e f guarded more).mono _ (fun _ h => h)
  rintro r ⟨follows, whole, guarded⟩
  exact ⟨follows, guarded.safe d q (by rwa [whole]), guarded.inBounds⟩

end Projector
