import Projector.Server.Effect
import Projector.Server.Lengths
import Projector.Server.Reassembly
import Projector.Server.Table

/-!
# The receive buffer on any bytes

A peer may send anything, and the chunks may be cut anywhere. `Client.Buffered` is what `receive` keeps at
the head of its loop all the same: when bytes of a payload are still to come, the buffer has the size of
the last header, and what is stored and what is to come fit into it. Every round keeps it
(`round_buffered`), so every copy of a payload is inside the chunk and inside the buffer. `recvBuffer_kept`
is the result for any sequence of calls, and `Server.object_run` says that the objects of the server live
through such sequences.
-/

namespace Projector

/-- Inside a payload: the buffer is that of the header, and takes all of the payload; an image and a name
are stored without a gap. -/
structure Client.Filling (c : Client) : Prop where
  block : ∃ b, c.recvBuffer = some b ∧ b.size = c.headerLength + 1
  fits : c.recvOffset + c.remainBytes ≤ c.headerLength
  exactly : Recv.Accumulates c.headerType → c.recvOffset + c.remainBytes = c.headerLength

/-- The invariant of the loop of `receive`. -/
def Client.Buffered (c : Client) : Prop := 0 < c.remainBytes → c.Filling

/-- A store into `recvBuffer` is inside it. -/
def Event.Stored : Event → Prop
  | .write .recvBuffer size off n => 0 ≤ off ∧ off + n ≤ size
  | _ => True

/-- A copy from the chunk to `recvBuffer` is inside both. -/
def Event.Copied : Event → Prop
  | .bufRead off n len => off + n ≤ len
  | e => e.Stored

/-- A copy inside both blocks is a store inside the receive buffer. -/
lemma Event.Copied.stored {e : Event} (h : e.Copied) : e.Stored := by
  cases e with
  | bufRead => trivial
  | _ => exact h

/-- A log grows by such events. -/
def Grows (P : Event → Prop) (es fs : List Event) : Prop := ∃ new, fs = es ++ new ∧ ∀ e ∈ new, P e

namespace Grows

variable {P Q : Event → Prop} {es fs gs : List Event}

/-- A log grows by nothing. -/
lemma refl (es : List Event) : Grows P es es := ⟨[], (List.append_nil es).symm, by simp⟩

/-- What is added in two parts. -/
lemma trans (h : Grows P es fs) (h' : Grows P fs gs) : Grows P es gs := by
  obtain ⟨new, rfl, all⟩ := h
  obtain ⟨new', rfl, all'⟩ := h'
  refine ⟨new ++ new', List.append_assoc .., fun e mem => ?_⟩
  exact (List.mem_append.mp mem).elim (all e) (all' e)

/-- A weaker property of what is added. -/
lemma mono (h : Grows P es fs) (weaker : ∀ e, P e → Q e) : Grows Q es fs := by
  obtain ⟨new, log, all⟩ := h
  exact ⟨new, log, fun e mem => weaker e (all e mem)⟩

/-- What is new meets the condition. -/
lemma drop (h : Grows P es fs) {e : Event} (mem : e ∈ fs.drop es.length) : P e := by
  obtain ⟨new, rfl, all⟩ := h
  rw [List.drop_left] at mem
  exact all e mem

/-- All of it does, when the old part did. -/
lemma all (h : Grows P es fs) (old : ∀ e ∈ es, P e) : ∀ e ∈ fs, P e := by
  obtain ⟨new, rfl, all⟩ := h
  exact fun e mem => (List.mem_append.mp mem).elim (old e) (all e)

end Grows

namespace Recv

variable {tj : TurboJpeg} {heap : Heap} {buf : Mem} {len : Nat} {r t : Recv}

/-! ## One round -/

/-- The buffer of the header just read. A length that wraps gets none: `new` throws. -/
lemma newRecvBuffer_buffered (range : InInt r.client.headerLength)
    (entered : r.client.remainBytes = r.client.headerLength ∧ r.client.recvOffset = 0) :
    Post (fun t => t.client.Buffered ∧ Grows Event.Stored r.log t.log)
      (fun s => Grows Event.Stored r.log s.recv.log) (r.newRecvBuffer heap) := by
  obtain ⟨remain, start⟩ := entered
  apply newRecvBuffer_rule
  case empty =>
    intro empty
    -- Without a payload the next bytes are a header again.
    refine ⟨fun more => ?_, .refl _⟩
    rw [remain] at more
    exact absurd empty (Int.not_le.mpr more)
  case thrown => exact fun _ _ => ⟨_, rfl, by simp [Event.Stored]⟩
  case found =>
    intro b pos found
    obtain ⟨size, nonneg⟩ := Heap.new_size found
    rw [wrap32_succ range nonneg] at size
    refine ⟨fun _ => ⟨⟨_, rfl, size⟩, ?_, fun _ => ?_⟩, _, rfl, ?_⟩
    · simp [remain, start]
    · simp [remain, start]
    · simp [Event.Stored, wrap32_succ range nonneg]
      omega

/-- The name buffer has no part in this. -/
lemma newUserName_buffered (h : r.client.Buffered) :
    Post (fun t => t.client.Buffered ∧ Grows Event.Stored r.log t.log)
      (fun s => Grows Event.Stored r.log s.recv.log) (r.newUserName heap) := by
  apply newUserName_rule
  case other => exact fun _ => ⟨h, .refl _⟩
  case thrown => exact fun _ _ => ⟨_, rfl, by simp [Event.Stored]⟩
  case found =>
    intro b _ _
    refine ⟨fun more => ?_, _, rfl, by simp [Event.Stored]⟩
    obtain ⟨block, fits, exactly⟩ := h more
    exact ⟨block, fits, exactly⟩

/-- Any eight bytes as a header, whatever there was before. -/
lemma header_buffered :
    Post (fun t => t.client.Buffered ∧ Grows Event.Stored r.log t.log)
      (fun s => Grows Event.Stored r.log s.recv.log) (r.header heap buf len) := by
  have read : Grows Event.Stored r.log
      (r.log ++ [.bufRead r.chunkRead 4 len, .bufRead (r.chunkRead + 4) 4 len]) :=
    ⟨_, rfl, by simp [Event.Stored]⟩
  apply header_rule (M := fun t => t.client.Buffered ∧ Grows Event.Stored r.log t.log)
  case invalid => exact fun _ _ _ _ _ => read
  case valid =>
    intro type length _ hl _
    have range : InInt length := hl ▸ intOfBytes_inInt _
    apply (newRecvBuffer_buffered ?range ?entered).mono
    case range => exact range
    case entered => exact ⟨rfl, rfl⟩
    · rintro t ⟨buffered, grows⟩
      exact ⟨buffered, read.trans grows⟩
    · intro s grows
      exact read.trans grows
  case name =>
    rintro t ⟨buffered, grows⟩
    apply (newUserName_buffered buffered).mono
    · rintro u ⟨buffered', grows'⟩
      exact ⟨buffered', grows.trans grows'⟩
    · intro s grows'
      exact grows.trans grows'

/-- Bytes of the chunk into a buffer that takes them. -/
lemma store_copied {n : Nat} (h : r.client.Filling) (le : n ≤ r.client.remainBytes)
    (inside : r.chunkRead + n ≤ len) : Grows Event.Copied r.log (r.store buf len n).log := by
  obtain ⟨⟨b, found, size⟩, fits, _⟩ := h
  refine ⟨_, store_log .., ?_⟩
  simp [Event.Copied, Event.Stored, found, size]
  omega

/-- A piece of a payload that goes on: what is stored and what is to come add up as before, or the piece
is skipped. -/
lemma part_buffered (h : r.client.Filling) (more : r.chunkRead < len)
    (short : (len : Int) - r.chunkRead < r.client.remainBytes) :
    (r.part buf len).client.Buffered ∧ Grows Event.Copied r.log (r.part buf len).log := by
  by_cases ha : Accumulates r.client.headerType
  · rw [part_of_accumulates ha]
    refine ⟨fun _ => ?_, store_copied h (by omega) (by omega)⟩
    obtain ⟨⟨b, found, size⟩, _, exactly⟩ := h
    have total := exactly ha
    refine ⟨⟨_, rfl, by simp [found, size]⟩, ?_, fun _ => ?_⟩
    · simp
      omega
    · simp
      omega
  · rw [part_of_not_accumulates ha]
    refine ⟨fun _ => ?_, .refl _⟩
    obtain ⟨block, fits, _⟩ := h
    refine ⟨block, ?_, fun ha' => absurd ha' ha⟩
    simp
    omega

/-- A complete image leaves `remainBytes` and the receive buffer alone. -/
lemma keepImage_copied :
    Post (fun t => t.client.remainBytes = r.client.remainBytes ∧ Grows Event.Copied r.log t.log)
      (fun s => Grows Event.Copied r.log s.recv.log) (r.keepImage heap) := by
  apply keepImage_rule
  case thrown => exact fun _ => ⟨_, rfl, by simp [Event.Copied, Event.Stored]⟩
  case found =>
    rintro b c _ rfl
    exact ⟨rfl, _, rfl, by simp [Event.Copied, Event.Stored]⟩

/-- Drawing stores nothing in the receive buffer. -/
lemma drawFocused_copied : (r.drawFocused tj).client.remainBytes = r.client.remainBytes ∧
    Grows Event.Copied r.log (r.drawFocused tj).log := by
  have drawn : Drawn r (r.drawFocused tj) := drawFocused_spec
  obtain ⟨_, ⟨w, x, y, client⟩, _, log⟩ := drawn
  rw [client, log]
  refine ⟨rfl, _, rfl, ?_⟩
  by_cases foc : r.globals.focusFd = r.client.fd <;> simp [foc, Event.Copied, Event.Stored]

/-- Keeping the name stores nothing in the receive buffer. -/
lemma name_copied : Grows Event.Copied r.log r.name.log :=
  ⟨_, rfl, by simp [Event.Copied, Event.Stored]⟩

/-- Keeping the requested id stores nothing in the receive buffer. -/
lemma focus_copied : Grows Event.Copied r.log r.focus.log :=
  ⟨_, rfl, by simp [Event.Copied, Event.Stored]⟩

/-- The end of a payload: nothing is to come any more. -/
lemma final_buffered (h : r.client.Filling) (pos : 0 < r.client.remainBytes)
    (whole : r.client.remainBytes ≤ (len : Int) - r.chunkRead) :
    Post (fun t => t.client.Buffered ∧ Grows Event.Copied r.log t.log)
      (fun s => Grows Event.Copied r.log s.recv.log) (r.final tj heap buf len) := by
  have stored : Grows Event.Copied r.log (r.store buf len r.client.remainBytes.toNat).log :=
    store_copied h (by omega) (by omega)
  have ends {t : Recv} (same : t.client.remainBytes = r.client.remainBytes) :
      (t.advance r.client.remainBytes.toNat).client.Buffered := by
    intro more
    simp only [advance_client, same] at more
    omega
  apply final_rule
  case image =>
    intro _
    apply keepImage_copied.mono
    · rintro t ⟨same, grows⟩
      have drawn : _ ∧ Grows Event.Copied t.log (t.drawFocused tj).log := drawFocused_copied
      exact ⟨ends (drawn.1.trans same), (stored.trans grows).trans drawn.2⟩
    · intro s grows
      exact stored.trans grows
  case name => exact fun _ => ⟨ends rfl, stored.trans name_copied⟩
  case focus => exact fun _ => ⟨ends rfl, stored.trans focus_copied⟩
  case other => exact fun _ _ _ => ⟨ends rfl, stored⟩

/-- From `r` to a later log, stores into the buffer are inside it, and when `r` is inside a payload, the
bytes for it come from the chunk. -/
structure Within (r : Recv) (es : List Event) : Prop where
  stored : Grows Event.Stored r.log es
  copied : 0 < r.client.remainBytes → Grows Event.Copied r.log es

/-- Inside a payload the second part says it all. -/
lemma Within.payload {es : List Event} (h : Grows Event.Copied r.log es) : r.Within es :=
  ⟨h.mono fun _ => Event.Copied.stored, fun _ => h⟩

/-- At a header there is no second part. -/
lemma Within.boundary {es : List Event} (h : Grows Event.Stored r.log es)
    (boundary : r.client.remainBytes ≤ 0) : r.Within es :=
  ⟨h, fun pos => absurd boundary (Int.not_le.mpr pos)⟩

/-- Every round keeps the invariant. -/
theorem round_buffered (h : r.client.Buffered) (more : r.chunkRead < len) :
    Post (fun t => t.client.Buffered ∧ r.Within t.log) (fun s => r.Within s.recv.log)
      (r.round tj heap buf len) := by
  apply round_rule
  case header =>
    intro boundary
    apply header_buffered.mono
    · rintro t ⟨buffered, grows⟩
      exact ⟨buffered, .boundary grows boundary⟩
    · intro s grows
      exact .boundary grows boundary
  case part =>
    intro pos short
    have goesOn : (r.part buf len).client.Buffered ∧ _ := part_buffered (h pos) more short
    exact ⟨goesOn.1, .payload goesOn.2⟩
  case final =>
    intro pos whole
    apply (final_buffered (h pos) pos whole).mono
    · rintro t ⟨buffered, grows⟩
      exact ⟨buffered, .payload grows⟩
    · intro s grows
      exact .payload grows

/-- What the round that starts here does. -/
def added (tj : TurboJpeg) (heap : Heap) (buf : Mem) (len : Nat) (r : Recv) : List Event :=
  (doneLog (r.round tj heap buf len)).drop r.log.length

/-- A round, however it ends. -/
lemma within_round (h : r.client.Buffered) (more : r.chunkRead < len) :
    r.Within (doneLog (r.round tj heap buf len)) := by
  apply doneLog_of_post
  apply (round_buffered h more).mono _ (fun _ h => h)
  rintro t ⟨_, within⟩
  exact within

/-- The same with all that has been stored before. -/
lemma round_stored (h : r.client.Buffered) (stored : ∀ e ∈ r.log, e.Stored)
    (more : r.chunkRead < len) :
    Post (fun t => t.client.Buffered ∧ ∀ e ∈ t.log, e.Stored) (fun s => ∀ e ∈ s.recv.log, e.Stored)
      (r.round tj heap buf len) := by
  apply (round_buffered h more).mono
  · rintro t ⟨buffered, within⟩
    exact ⟨buffered, within.stored.all stored⟩
  · intro s within
    exact within.stored.all stored

/-- Every point that a call comes to. -/
lemma Visits.buffered {c : Client} {g : Globals} (h : c.Buffered)
    (v : Visits tj heap buf len ⟨[], 0, c, g⟩ t) : t.client.Buffered := by
  apply v.rule (I := fun t => t.client.Buffered) (E := fun _ => True) h
  intro t _ buffered more
  apply (round_buffered buffered (more_eq_true.mp more)).mono _ (fun _ _ => trivial)
  rintro u ⟨buffered', _⟩
  exact buffered'

end Recv

/-! ## Calls -/

/-- A call that is not left early keeps the invariant, and every call stores inside the buffer. -/
lemma receive_buffered {tj : TurboJpeg} {heap : Heap} {buf : Mem} {len : Nat} {c : Client}
    {g : Globals} (h : c.Buffered) :
    Post (fun r => r.client.Buffered ∧ ∀ e ∈ r.log, e.Stored) (fun s => ∀ e ∈ s.recv.log, e.Stored)
      (c.receive tj heap g buf len) := by
  apply receive_keeps ⟨h, by simp⟩
  rintro t _ ⟨buffered, stored⟩ more
  exact Recv.round_stored buffered stored more

/-- A call of `receive`: a chunk, and the globals as the other connections and the threads have left
them. -/
structure Call extends Piece where
  globals : Globals

/-- `receive` as a step of the object. A call that returns -1 or throws is the last one. -/
def Client.call (tj : TurboJpeg) (c : Client) (x : Call) : Option (Client × List Event) :=
  match c.receive tj x.heap x.globals x.buf x.len with
  | .ok r => some (r.client, r.log)
  | .error _ => none

/-- A call that returns. -/
lemma call_eq_some {tj : TurboJpeg} {c d : Client} {x : Call} {es : List Event} :
    c.call tj x = some (d, es) ↔
      ∃ r, c.receive tj x.heap x.globals x.buf x.len = .ok r ∧ d = r.client ∧ es = r.log := by
  unfold Client.call
  cases c.receive tj x.heap x.globals x.buf x.len with
  | ok r => simp [eq_comm]
  | error s => simp

/-- What is asked of a call: the invariant wherever its loop comes, stores inside the receive buffer, and
bytes of a payload from inside the chunk. -/
structure Client.Bounded (tj : TurboJpeg) (c : Client) (x : Call) : Prop where
  buffered : ∀ t, Recv.Visits tj x.heap x.buf x.len ⟨[], 0, c, x.globals⟩ t → t.client.Buffered
  stored : ∀ e ∈ doneLog (c.receive tj x.heap x.globals x.buf x.len), e.Stored
  copied : ∀ t, Recv.Visits tj x.heap x.buf x.len ⟨[], 0, c, x.globals⟩ t → t.chunkRead < x.len →
    0 < t.client.remainBytes → ∀ e ∈ t.added tj x.heap x.buf x.len, e.Copied

/-- The invariant of the object is all that a call needs. -/
lemma Client.Buffered.bounded {tj : TurboJpeg} {c : Client} (h : c.Buffered) (x : Call) :
    c.Bounded tj x where
  buffered t v := v.buffered h
  stored := by
    apply doneLog_of_post (Q := fun es => ∀ e ∈ es, e.Stored)
    apply (receive_buffered h).mono _ (fun _ h => h)
    rintro r ⟨_, stored⟩
    exact stored
  copied t v more pos e mem := by
    have within : t.Within (doneLog (t.round tj x.heap x.buf x.len)) :=
      Recv.within_round (v.buffered h) more
    exact (within.copied pos).drop mem

/-- A new object expects a header. -/
lemma new_buffered (screen : Screen) (raw : Client) (socket : Int) (id : Int32) :
    (Client.new screen raw socket id).Buffered := by
  intro pos
  exact absurd pos (by simp [Client.new, Client.init])

/-- The calls of an object, from the first on. -/
lemma run_buffered {tj : TurboJpeg} {screen : Screen} {raw : Client} {socket : Int} {id : Int32}
    {h : List Event} {c : Client}
    (run : Run (Client.call tj) (fun _ _ => True) (Client.new screen raw socket id) h c) :
    c.Buffered ∧ ∀ e ∈ h, e.Stored := by
  apply run.invariant (I := fun c h => c.Buffered ∧ ∀ e ∈ h, e.Stored)
  · exact ⟨new_buffered screen raw socket id, by simp⟩
  · rintro c h x d es ⟨buffered, stored⟩ _ called
    obtain ⟨r, hr, rfl, rfl⟩ := call_eq_some.mp called
    obtain ⟨buffered', stored'⟩ := (receive_buffered buffered).of_ok hr
    exact ⟨buffered', fun e mem => (List.mem_append.mp mem).elim (stored e) (stored' e)⟩

/-- The receive buffer on any bytes: whatever chunks a new object has taken, the next call keeps the
invariant and stays inside the buffer and the chunk. -/
theorem recvBuffer_kept (tj : TurboJpeg) (screen : Screen) (raw : Client) (socket : Int) (id : Int32)
    {h : List Event} {c : Client}
    (run : Run (Client.call tj) (fun _ _ => True) (Client.new screen raw socket id) h c) :
    c.Buffered ∧ (∀ e ∈ h, e.Stored) ∧ ∀ x, c.Bounded tj x := by
  obtain ⟨buffered, stored⟩ := run_buffered run
  exact ⟨buffered, stored, buffered.bounded⟩

/-- A chunk that a call gets when nobody has the focus. -/
def Call.ofBytes (bs : List UInt8) : Call := ⟨.ofBytes bs, ⟨-1, 4, 1, fun _ => 0⟩⟩

/-- `recvBuffer_kept` in the middle of an image of four bytes, two of which the first call got. -/
theorem recvBuffer_kept_image : ∃ h c,
    Run (Client.call .none) (fun _ _ => True) (Client.new ⟨1, 1, 3⟩ .blank 4 9) h c ∧
    c.remainBytes = 2 ∧ c.recvOffset = 2 ∧ c.headerLength = 4 ∧
    c.Buffered ∧ (∀ e ∈ h, e.Stored) ∧ ∀ x, c.Bounded .none x := by
  have run : (exec (Client.call .none) (Client.new ⟨1, 1, 3⟩ .blank 4 9)
      [.ofBytes (intBytes recvImage ++ intBytes 4 ++ [1, 2])]).map
        (fun p => (p.1.remainBytes, p.1.recvOffset, p.1.headerLength)) = some (2, 2, 4) := by
    decide +kernel
  obtain ⟨⟨c, h⟩, e, fields⟩ := Option.map_eq_some_iff.mp run
  obtain ⟨remain, fields⟩ := Prod.mk.inj fields
  obtain ⟨off, length⟩ := Prod.mk.inj fields
  have run' := run_of_exec (admitted_true _ _) e
  exact ⟨h, c, run', remain, off, length, recvBuffer_kept .none ⟨1, 1, 3⟩ .blank 4 9 run'⟩

namespace Server

variable {tj : TurboJpeg} {ok : Server → Input → Prop} {h : List Output} {s t : Server}

/-- An object of the table after a step was there before, is new, or has got a call. -/
lemma Effect.object {i : Input} {o : List Output} (e : Effect tj s i t o) {j : Int} {d : Client}
    (hd : t.client j = some d) :
    s.client j = some d ∨ (∃ a : Accepted, d = Client.new s.screen a.raw a.fd a.lastip) ∨
      ∃ c x es, s.client j = some c ∧ c.call tj x = some (d, es) := by
  cases e with
  | @accept a =>
    rcases acceptClient_eq_some.mp hd with ⟨_, new⟩ | ⟨_, old⟩
    · exact .inr (.inl ⟨a, new.symm⟩)
    · exact .inl old
  | @read fd bytes heap c r _ _ hc hr _ =>
    rw [wipe_client] at hd
    rcases received_eq_some.mp hd with ⟨rfl, rfl⟩ | ⟨_, old⟩
    · exact .inr (.inr ⟨c, ⟨⟨s.chunk.overlay bytes, bytes.length, heap⟩, s.toGlobals⟩, r.log, hc,
        call_eq_some.mpr ⟨r, hr, rfl, rfl⟩⟩)
    · exact .inl old
  | refuse =>
    rw [wipe_client] at hd
    -- The object of the call is gone, the others have not changed.
    obtain ⟨other, hd⟩ := dropClient_eq_some.mp hd
    rcases received_eq_some.mp hd with ⟨same, _⟩ | ⟨_, old⟩
    · exact absurd same other
    · exact .inl old
  | close => exact .inl (dropClient_eq_some.mp hd).2
  | _ => exact .inl hd

/-- The life of an object of the server is a run of `Client.call`: what the other connections and the
threads do reaches it as the globals of its next call only. -/
theorem object_run (r : Reached tj ok h s) {i : Int} {c : Client} (hc : s.client i = some c) :
    ∃ screen raw socket id es,
      Run (Client.call tj) (fun _ _ => True) (Client.new screen raw socket id) es c := by
  have lives := r.invariant (I := fun s _ => ∀ i c, s.client i = some c →
    ∃ screen raw socket id es,
      Run (Client.call tj) (fun _ _ => True) (Client.new screen raw socket id) es c) ?start ?step
  · exact lives.2 i c hc
  case start =>
    intro _ _ _ _ i c hc
    simp [start] at hc
  case step =>
    intro s h i t o _ inv _ st j d hd
    rcases (effect_of_step st).object hd with old | ⟨a, rfl⟩ | ⟨c, x, es, hc, called⟩
    · exact inv j d old
    · exact ⟨s.screen, a.raw, a.fd, a.lastip, [], .nil⟩
    · obtain ⟨screen, raw, socket, id, es', run⟩ := inv j c hc
      exact ⟨screen, raw, socket, id, _, .snoc x run trivial called⟩

/-- The objects of the server keep the invariant of `receive` between their calls. -/
theorem buffered (r : Reached tj ok h s) {i : Int} {c : Client} (hc : s.client i = some c) :
    c.Buffered := by
  obtain ⟨_, _, _, _, _, run⟩ := object_run r hc
  exact (run_buffered run).1

end Server

end Projector
