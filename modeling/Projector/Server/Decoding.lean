import Projector.Server.Client
import Projector.Server.Follow
import Projector.Server.Rounds

/-!
# What a focus request is taken for

Of a focus request only the piece behind the last cut is kept: pieces that do not reach the end of the
payload are accumulated for images and names only, and the last one is copied to the start of the receive
buffer. `received_request` gives the four bytes that are stored in `ready_fd`: those of that piece, then
those that `new` found, and the terminator if it is among them. `decodes_iff` compares them with the id
that was sent.
-/

namespace Projector

/-- The parser goes from the point `r` of a call to the point `u` of the same call or a later one, and the
chunks hold these bytes on the way. The last of them may go on behind `u`. -/
inductive Delivers (tj : TurboJpeg) : List (List UInt8) → Recv → Recv → Prop where
  | last {heap buf len r u bs} :
    buf.read r.chunkRead bs.length = bs →
    r.chunkRead + bs.length ≤ len →
    Recv.Visits tj heap buf len r u →
    u.chunkRead = r.chunkRead + bs.length →
    Delivers tj [bs] r u
  | next {heap buf len r t u bs bss} :
    buf.read r.chunkRead bs.length = bs →
    r.chunkRead + bs.length = len →
    Recv.Visits tj heap buf len r t →
    len ≤ t.chunkRead →
    Delivers tj bss ⟨[], 0, t.client, t.globals⟩ u →
    Delivers tj (bs :: bss) r u

/-- The object has skipped `k` bytes of the focus request `m`; `fresh` is what `new` found in the receive
buffer. -/
structure Client.Waiting (c : Client) (m : Msg) (fresh : Mem) (k : Nat) : Prop where
  type : c.headerType = changeFocusStatus
  remain : c.remainBytes = (m.payload.length : Int) - k
  offset : c.recvOffset = 0
  block : ∃ size, c.recvBuffer = some ⟨size, fresh.set m.payload.length 0⟩

/-- The id that is stored when the last cut is behind `k` bytes of the payload. -/
def requestedId (fresh : Mem) (payload : List UInt8) (k : Nat) : Int :=
  intOfBytes (((fresh.set payload.length 0).overlay (payload.drop k)).read 0 4)

namespace Recv

variable {tj : TurboJpeg} {heap : Heap} {buf : Mem} {len : Nat} {r : Recv} {m : Msg} {fresh : Mem}
  {k : Nat}

/-- A block for the payload of `m`, and what it holds. -/
lemma new_eq_some {site : Site} {j : Nat} {b : Block}
    (h : heap.new site j (wrap32 ((m.payload.length : Int) + 1)) = some b) :
    m.Allocatable ∧ ∃ fresh, heap site j = some fresh ∧ b.mem = fresh := by
  unfold Heap.new at h
  by_cases neg : wrap32 ((m.payload.length : Int) + 1) < 0
  · simp [neg] at h
  · rw [if_neg neg, Option.map_eq_some_iff] at h
    obtain ⟨fresh, found, rfl⟩ := h
    exact ⟨(wrap32_length (by omega)).2, fresh, found, rfl⟩

/-- The receive buffer of `m`: what `new` found, with the terminator. -/
lemma newRecvBuffer_block (hl : r.client.headerLength = m.payload.length)
    (ne : 0 < m.payload.length) :
    Post
      (fun t => m.Allocatable ∧ ∃ fresh, heap .recvBuffer r.chunkRead = some fresh ∧
        ∃ size, t.client.recvBuffer = some ⟨size, fresh.set m.payload.length 0⟩)
      (fun _ => True) (r.newRecvBuffer heap) := by
  have pos : (m.payload.length : Int) > 0 := by omega
  cases hn : heap.new .recvBuffer r.chunkRead (wrap32 ((m.payload.length : Int) + 1)) with
  | none =>
    simp only [newRecvBuffer, hl, if_pos pos, hn]
    trivial
  | some b =>
    obtain ⟨fits, fresh, found, rfl⟩ := new_eq_some hn
    simp only [newRecvBuffer, hl, if_pos pos, hn]
    exact ⟨fits, b.mem, found, b.size, rfl⟩

/-- The name buffer is another block. -/
lemma newUserName_recvBuffer :
    Post (fun t => t.client.recvBuffer = r.client.recvBuffer) (fun _ => True)
      (r.newUserName heap) := by
  apply newUserName_rule
  case other => exact fun _ => rfl
  case thrown => exact fun _ _ => trivial
  case found => exact fun _ _ _ => rfl

/-- The header of a message leaves the receive buffer as `new` found it, with the terminator. -/
lemma header_block (hb : buf.read r.chunkRead 8 = wire.header m) (ne : 0 < m.payload.length) :
    Post
      (fun t => m.Allocatable ∧ ∃ fresh, heap .recvBuffer (r.chunkRead + 8) = some fresh ∧
        ∃ size, t.client.recvBuffer = some ⟨size, fresh.set m.payload.length 0⟩)
      (fun _ => True) (r.header heap buf len) := by
  obtain ⟨ht, hl⟩ := header_fields hb
  simp only [header, ht, hl, if_neg m.valid]
  apply Post.bind (newRecvBuffer_block rfl ne)
  rintro t ⟨fits, fresh, found, size, block⟩
  apply newUserName_recvBuffer.mono _ (fun _ h => h)
  intro u same
  exact ⟨fits, fresh, found, size, same.trans block⟩

/-- The header of a focus request. -/
lemma header_request (hb : buf.read r.chunkRead 8 = wire.header m)
    (hf : m.type = changeFocusStatus) (ne : 0 < m.payload.length) :
    Post
      (fun t => m.Allocatable ∧
        (∃ fresh, heap .recvBuffer (r.chunkRead + 8) = some fresh ∧ t.client.Waiting m fresh 0) ∧
        t.chunkRead = r.chunkRead + 8 ∧ t.globals = r.globals)
      (Throws heap m) (r.header heap buf len) := by
  have spec : Post (HeaderDone m len r) (Throws heap m) (r.header heap buf len) := header_spec hb
  have blocks : Post _ (fun _ => True) (r.header heap buf len) := header_block hb ne
  apply (spec.and blocks).mono _ (fun _ h => h)
  rintro t ⟨f, fits, fresh, found, block⟩
  obtain ⟨rb, un, client, _⟩ := f.client
  refine ⟨fits, ⟨fresh, found, ?_, ?_, ?_, block⟩, f.chunkRead, f.globals⟩
  · rw [client]
    exact hf
  · rw [client]
    simp [entered]
  · rw [client]
    rfl

variable (buf len) in
/-- A piece of a focus request that does not reach its end is skipped. -/
lemma part_request (w : r.client.Waiting m fresh k) :
    (r.part buf len).client.Waiting m fresh (k + (len - r.chunkRead)) ∧
      (r.part buf len).chunkRead = r.chunkRead + (len - r.chunkRead) ∧
      (r.part buf len).globals = r.globals := by
  have skips : ¬ Accumulates r.client.headerType := by
    rw [w.type]
    decide
  rw [part_of_not_accumulates skips]
  refine ⟨⟨w.type, ?_, w.offset, w.block⟩, rfl, rfl⟩
  simp only [advance_client, w.remain]
  omega

/-- The last piece of a focus request goes to the start of the receive buffer. -/
lemma final_request (w : r.client.Waiting m fresh k) (lt : k < m.payload.length)
    (hb : buf.read r.chunkRead (m.payload.length - k) = m.payload.drop k) :
    Post
      (fun t => t.globals.readyFd = requestedId fresh m.payload k ∧
        t.chunkRead = r.chunkRead + (m.payload.length - k))
      (fun _ => False) (r.final tj heap buf len) := by
  obtain ⟨size, block⟩ := w.block
  have left : r.client.remainBytes.toNat = m.payload.length - k := by
    rw [w.remain]
    omega
  have piece : (m.payload.drop k).length = m.payload.length - k := List.length_drop
  rw [final_focus w.type, post_ok, left]
  constructor
  · rw [advance_globals, focus_globals]
    simp only [store_client, block, w.offset, Option.getD_some, requestedId]
    rw [← piece, Mem.memcpy_eq_overlay _ (by rw [piece, hb])]
  · rw [advance_chunkRead, focus_chunkRead, store_chunkRead]

/-! ## One chunk -/

/-- A header and what follows it. -/
lemma read_header {off : Nat} {bs : List UInt8}
    (h : buf.read off (wire.header m ++ bs).length = wire.header m ++ bs) :
    buf.read off 8 = wire.header m ∧ buf.read (off + 8) bs.length = bs := by
  have eight : (wire.header m).length = 8 := wire.length_header m
  have both := Mem.read_append h
  rwa [eight] at both

variable (tj heap buf len) in
/-- The call on a chunk that ends inside the request skips to the end of the chunk. -/
lemma visits_part (w : r.client.Waiting m fresh k) (le : r.chunkRead ≤ len)
    (short : k + (len - r.chunkRead) < m.payload.length) :
    ∃ t, Visits tj heap buf len r t ∧ t.chunkRead = len ∧
      t.client.Waiting m fresh (k + (len - r.chunkRead)) ∧ t.globals = r.globals := by
  by_cases more : r.chunkRead < len
  · obtain ⟨waiting, read, globals⟩ := part_request buf len w
    refine ⟨r.part buf len, .single more ?_, by omega, waiting, globals⟩
    have remain := w.remain
    rw [round, if_neg (by omega), if_pos (by omega)]
  · have none : len - r.chunkRead = 0 := by omega
    rw [none]
    exact ⟨r, .start, by omega, w, rfl⟩

variable (tj heap) in
/-- The call on a chunk with the end of the request comes to the point behind it. -/
lemma visits_final (w : r.client.Waiting m fresh k) (lt : k < m.payload.length)
    (hb : buf.read r.chunkRead (m.payload.length - k) = m.payload.drop k)
    (room : r.chunkRead + (m.payload.length - k) ≤ len) :
    ∃ t, Visits tj heap buf len r t ∧ t.chunkRead = r.chunkRead + (m.payload.length - k) ∧
      t.globals.readyFd = requestedId fresh m.payload k := by
  have remain := w.remain
  cases ht : r.final tj heap buf len with
  | error s => exact ((final_request w lt hb).of_error ht).elim
  | ok t =>
    obtain ⟨stored, read⟩ := (final_request w lt hb).of_ok ht
    refine ⟨t, .single (by omega) ?_, read, stored⟩
    rw [round, if_neg (by omega), if_neg (by omega), ht]

/-- The call on a chunk with the header of the request comes to the point behind it, on the way to any
later one. -/
lemma visits_header {u : Recv} (boundary : r.client.remainBytes ≤ 0)
    (hb : buf.read r.chunkRead 8 = wire.header m) (hf : m.type = changeFocusStatus)
    (ne : 0 < m.payload.length) (v : Visits tj heap buf len r u) (later : u ≠ r) :
    m.Allocatable ∧ ∃ t fresh, Visits tj heap buf len t u ∧ t.client.Waiting m fresh 0 ∧
      t.chunkRead = r.chunkRead + 8 ∧ t.globals = r.globals := by
  rcases v.cases_head with same | ⟨t, _, ht, rest⟩
  · exact absurd same later
  · rw [round, if_pos boundary] at ht
    obtain ⟨fits, ⟨fresh, _, waiting⟩, read, globals⟩ := (header_request hb hf ne).of_ok ht
    exact ⟨fits, t, fresh, rest, waiting, read, globals⟩

variable (tj) in
/-- The call on a chunk that starts with the header, when `new` finds this memory. -/
lemma visits_enter {c : Client} (g : Globals) (fresh : Mem) (fits : m.Allocatable)
    (hf : m.type = changeFocusStatus) (ne : 0 < m.payload.length) (boundary : c.remainBytes ≤ 0)
    (bs : List UInt8) :
    ∃ t, Visits tj (fun _ _ => some fresh) (Mem.overlay (fun _ => 0) (wire.header m ++ bs))
      (8 + bs.length) ⟨[], 0, c, g⟩ t ∧ t.client.Waiting m fresh 0 ∧ t.chunkRead = 8 := by
  have here : (Mem.overlay (fun _ => 0) (wire.header m ++ bs)).read 0 8 = wire.header m :=
    (read_header (Mem.read_overlay (fun _ => 0) (wire.header m ++ bs))).1
  cases ht : header (fun _ _ => some fresh) (Mem.overlay (fun _ => 0) (wire.header m ++ bs))
      (8 + bs.length) ⟨[], 0, c, g⟩ with
  | error s =>
    have thrown := (header_request here hf ne).of_error ht
    exact absurd fits (thrown.2 fun _ _ => rfl)
  | ok t =>
    obtain ⟨_, ⟨fresh', found, waiting⟩, read, _⟩ := (header_request here hf ne).of_ok ht
    obtain rfl := Option.some.inj found
    have more : (⟨[], 0, c, g⟩ : Recv).chunkRead < 8 + bs.length := by
      show 0 < 8 + bs.length
      omega
    have went : round tj (fun _ _ => some fresh) (Mem.overlay (fun _ => 0) (wire.header m ++ bs))
        (8 + bs.length) ⟨[], 0, c, g⟩ = .ok t := by rw [round, if_pos boundary, ht]
    have place : t.chunkRead = 8 := read.trans (Nat.zero_add 8)
    exact ⟨t, .single more went, waiting, place⟩

end Recv

/-! ## The chunks of a request -/

section delivers

variable {tj : TurboJpeg} {r u : Recv} {m : Msg} {init : List (List UInt8)} {last : List UInt8}

/-- Behind the first piece. -/
lemma flatten_drop {q : List UInt8} {qs : List (List UInt8)} {p : List UInt8}
    (bytes : (q :: qs).flatten ++ last = p) : qs.flatten ++ last = p.drop q.length := by
  rw [← bytes, List.flatten_cons, List.append_assoc, List.drop_left]

/-- From inside the request on. -/
lemma Delivers.waiting {fresh : Mem} {k : Nat} (d : Delivers tj (init ++ [last]) r u)
    (w : r.client.Waiting m fresh k) (bytes : init.flatten ++ last = m.payload.drop k)
    (ne : last ≠ []) :
    u.globals.readyFd = requestedId fresh m.payload (k + init.flatten.length) := by
  have size := congrArg List.length bytes
  rw [List.length_append, List.length_drop] at size
  have pos := List.length_pos_of_ne_nil ne
  induction init generalizing r k with
  | nil =>
    cases d with
    | @last heap buf len _ _ _ hb room v read =>
      rw [List.flatten_nil, List.nil_append] at bytes
      rw [bytes, List.length_drop] at hb room read
      obtain ⟨t, vt, readt, stored⟩ :=
        Recv.visits_final tj heap w (by omega) hb room
      rw [v.unique vt (by omega), stored]
      rfl
    | next _ _ _ _ d => cases d
  | cons q qs ih =>
    cases hd : qs ++ [last] with
    | nil => simp at hd
    | cons b bs =>
      rw [List.cons_append, hd] at d
      cases d with
      | @next heap buf len _ t _ _ _ hb room v stop d =>
        rw [List.flatten_cons, List.length_append] at size
        obtain ⟨t', vt, readt, waiting, globals⟩ :=
          Recv.visits_part tj heap buf len w (by omega) (by omega)
        obtain rfl := v.unique vt (by omega)
        have piece : len - r.chunkRead = q.length := by omega
        rw [piece] at waiting
        rw [← hd] at d
        have rest := flatten_drop bytes
        rw [List.drop_drop] at rest
        rw [ih d waiting rest (by rw [List.length_drop.symm, ← rest, List.length_append]),
          List.flatten_cons, List.length_append, Nat.add_assoc]

/-- The pieces of the payload, with the header in front of the first one. -/
def requestPieces (m : Msg) (init : List (List UInt8)) (last : List UInt8) : List (List UInt8) :=
  (init ++ [last]).modifyHead (wire.header m ++ ·)

/-- What is stored in `ready_fd` when the request is complete. -/
theorem received_request (hf : m.type = changeFocusStatus) (boundary : r.client.remainBytes ≤ 0)
    (bytes : init.flatten ++ last = m.payload) (ne : last ≠ [])
    (d : Delivers tj (requestPieces m init last) r u) :
    m.Allocatable ∧ ∃ fresh, u.globals.readyFd = requestedId fresh m.payload init.flatten.length := by
  have size := congrArg List.length bytes
  rw [List.length_append] at size
  have pos := List.length_pos_of_ne_nil ne
  have eight : (wire.header m).length = 8 := wire.length_header m
  cases init with
  | nil =>
    rw [List.flatten_nil, List.nil_append] at bytes
    cases d with
    | @last heap buf len _ _ _ hb room v read =>
      obtain ⟨head, payload⟩ := Recv.read_header hb
      rw [List.length_append, eight, bytes] at room read
      obtain ⟨fits, t, fresh, vt, waiting, readt, _⟩ :=
        Recv.visits_header boundary head hf (by omega) v (by
          rintro rfl
          omega)
      have rest : buf.read t.chunkRead (m.payload.length - 0) = m.payload.drop 0 := by
        rw [readt, List.drop_zero, ← bytes]
        exact payload
      obtain ⟨w, vw, readw, stored⟩ := Recv.visits_final tj heap waiting (by omega) rest
        (by omega : _ ≤ len)
      rw [vt.unique vw (by omega)]
      exact ⟨fits, fresh, stored⟩
    | next _ _ _ _ d => cases d
  | cons q qs =>
    cases hd : qs ++ [last] with
    | nil => simp at hd
    | cons b bs =>
      rw [requestPieces, List.cons_append, hd, List.modifyHead_cons] at d
      cases d with
      | @next heap buf len _ t _ _ _ hb room v stop d =>
        obtain ⟨head, _⟩ := Recv.read_header hb
        rw [List.length_append, eight] at room
        rw [List.flatten_cons, List.length_append] at size
        obtain ⟨fits, t', fresh, vt, waiting, readt, _⟩ :=
          Recv.visits_header boundary head hf (by omega) v (by
            rintro rfl
            omega)
        obtain ⟨w, vw, readw, skipped, _⟩ :=
          Recv.visits_part tj heap buf len waiting (by omega) (by omega)
        obtain rfl := vt.unique vw (by omega)
        have piece : 0 + (len - t'.chunkRead) = q.length := by omega
        rw [piece] at skipped
        rw [← hd] at d
        refine ⟨fits, fresh, ?_⟩
        rw [d.waiting skipped (flatten_drop bytes) ne, List.flatten_cons, List.length_append]

variable (tj) in
/-- Chunks that deliver the rest of a request. -/
lemma Delivers.exists_waiting {fresh : Mem} {k : Nat} (start : r.chunkRead = 0)
    (w : r.client.Waiting m fresh k) (bytes : init.flatten ++ last = m.payload.drop k)
    (ne : last ≠ []) : ∃ u, Delivers tj (init ++ [last]) r u := by
  have size := congrArg List.length bytes
  rw [List.length_append, List.length_drop] at size
  have pos := List.length_pos_of_ne_nil ne
  induction init generalizing r k with
  | nil =>
    have here : (Mem.overlay (fun _ => 0) last).read r.chunkRead last.length = last := by
      rw [start, Mem.read_overlay]
    have rest : (Mem.overlay (fun _ => 0) last).read r.chunkRead (m.payload.length - k) =
        m.payload.drop k := by
      rw [← bytes, List.flatten_nil, List.nil_append, ← List.length_drop, ← bytes, List.flatten_nil,
        List.nil_append, here]
    have whole : last.length = m.payload.length - k := by simpa using size
    obtain ⟨t, v, read, _⟩ := Recv.visits_final tj .cleared w (by omega) rest
      (by omega : _ ≤ last.length)
    exact ⟨t, .last here (by omega) v (by omega)⟩
  | cons q qs ih =>
    have here : (Mem.overlay (fun _ => 0) q).read r.chunkRead q.length = q := by
      rw [start, Mem.read_overlay]
    rw [List.flatten_cons, List.length_append] at size
    obtain ⟨t, v, read, waiting, _⟩ := Recv.visits_part tj .cleared
      (Mem.overlay (fun _ => 0) q) q.length w (by omega) (by omega)
    have piece : q.length - r.chunkRead = q.length := by omega
    rw [piece] at waiting
    have rest := flatten_drop bytes
    rw [List.drop_drop] at rest
    obtain ⟨u, d⟩ := ih (r := ⟨[], 0, t.client, t.globals⟩) rfl waiting rest
      (by rw [List.length_drop.symm, ← rest, List.length_append])
    exact ⟨u, .next here (by omega) v (by omega) d⟩

/-- Whatever `new` finds, the request can be delivered. -/
lemma exists_request (tj : TurboJpeg) {c : Client} (g : Globals) {m : Msg}
    {init : List (List UInt8)} {last : List UInt8} (fresh : Mem) (fits : m.Allocatable)
    (hf : m.type = changeFocusStatus) (boundary : c.remainBytes ≤ 0)
    (bytes : init.flatten ++ last = m.payload) (ne : last ≠ []) :
    ∃ u, Delivers tj (requestPieces m init last) ⟨[], 0, c, g⟩ u ∧
      u.globals.readyFd = requestedId fresh m.payload init.flatten.length := by
  have size := congrArg List.length bytes
  rw [List.length_append] at size
  have pos := List.length_pos_of_ne_nil ne
  have eight : (wire.header m).length = 8 := wire.length_header m
  have enter := Recv.visits_enter tj g fresh fits hf (by omega) boundary
  cases init with
  | nil =>
    rw [List.flatten_nil, List.nil_append] at bytes
    obtain ⟨t, v, waiting, read⟩ := enter last
    have whole := Mem.read_overlay (fun _ => 0) (wire.header m ++ last)
    have long : last.length = m.payload.length := congrArg List.length bytes
    have rest : (Mem.overlay (fun _ => 0) (wire.header m ++ last)).read t.chunkRead
        (m.payload.length - 0) = m.payload.drop 0 := by
      rw [read, List.drop_zero, Nat.sub_zero, ← bytes, ← Nat.zero_add 8]
      exact (Recv.read_header whole).2
    obtain ⟨u, w, readu, stored⟩ := Recv.visits_final tj (fun _ _ => some fresh) waiting (by omega)
      rest (by omega : _ ≤ 8 + last.length)
    have start : (⟨[], 0, c, g⟩ : Recv).chunkRead = 0 := rfl
    exact ⟨u, .last whole (by rw [List.length_append, eight]; omega) (v.trans w)
      (by rw [List.length_append, eight]; omega), stored⟩
  | cons q qs =>
    rw [List.flatten_cons, List.length_append] at size
    obtain ⟨t, v, waiting, read⟩ := enter q
    obtain ⟨t', w, read', skipped, _⟩ := Recv.visits_part tj (fun _ _ => some fresh)
      (Mem.overlay (fun _ => 0) (wire.header m ++ q)) (8 + q.length) waiting (by omega) (by omega)
    have piece : 0 + (8 + q.length - t.chunkRead) = q.length := by omega
    rw [piece] at skipped
    have rest := flatten_drop bytes
    obtain ⟨u, d⟩ := Delivers.exists_waiting tj (r := ⟨[], 0, t'.client, t'.globals⟩) rfl
      skipped rest ne
    refine ⟨u, ?_, ?_⟩
    · exact .next (Mem.read_overlay (fun _ => 0) (wire.header m ++ q))
        (by rw [List.length_append, eight]; exact Nat.zero_add _) (v.trans w) (by omega) d
    · rw [d.waiting skipped rest ne, List.flatten_cons, List.length_append]

end delivers

/-! ## The id -/

section id

variable {p : List UInt8} {k : Nat}

/-- A byte of the block that is neither copied nor the terminator is the one `new` found. -/
lemma request_fresh (fresh : Mem) {i : Nat} (behind : p.length - k ≤ i) (ne : i ≠ p.length) :
    ((fresh.set p.length 0).overlay (p.drop k)) i = fresh i := by
  have out : (p.drop k).length ≤ i := by rwa [List.length_drop]
  have other : ¬ ((i : Int) = p.length) := by omega
  rw [Mem.overlay, List.getD, List.getElem?_eq_none out, Option.getD_none, Mem.set, if_neg other]

/-- A last piece of four bytes gives its first four. -/
lemma requestedId_of_long (fresh : Mem) (long : k + 4 ≤ p.length) :
    requestedId fresh p k = intOfBytes ((p.drop k).take 4) := by
  have four : 4 ≤ (p.drop k).length := by
    rw [List.length_drop]
    omega
  rw [requestedId, ← Mem.take_read _ 0 four, Mem.read_overlay]

/-- A request of three bytes in one piece gives them and the terminator. -/
lemma requestedId_of_three (fresh : Mem) (three : p.length = 3) :
    requestedId fresh p 0 = intOfBytes (p ++ [0]) := by
  have four : 4 = p.length + 1 := by omega
  have last : ((fresh.set p.length 0).overlay p) p.length = 0 := by
    simp [Mem.overlay, Mem.set]
  rw [requestedId, List.drop_zero, four, Mem.read_add, Mem.read_overlay]
  simp [Mem.read, last]

/-- When one of the four bytes is what `new` found, the id depends on it. -/
lemma requestedId_ne {i : Nat} (lt : i < 4) (behind : p.length - k ≤ i) (ne : i ≠ p.length) :
    requestedId (fun _ => 0) p k ≠ requestedId (fun _ => 1) p k := by
  intro e
  have bytes := intOfBytes_inj (by simp) (by simp) e
  have byte := congrArg (fun l => l[i]?) bytes
  simp only [Mem.read, List.getElem?_map, List.getElem?_range lt, Option.map_some, Nat.zero_add,
    request_fresh _ behind ne, Option.some.injEq] at byte
  exact absurd byte (by decide)

/-- When the id stored is right whatever `new` finds. -/
lemma requestedId_iff (lt : k < p.length) (old : Int) :
    (∀ fresh, requestedId fresh p k = if 4 ≤ p.length then intOfBytes (p.take 4) else old) ↔
      (k + 4 ≤ p.length ∧ (p.drop k).take 4 = p.take 4) ∨
      (p.length = 3 ∧ k = 0 ∧ intOfBytes (p ++ [0]) = old) := by
  by_cases long : k + 4 ≤ p.length
  · have four : 4 ≤ p.length := by omega
    have not_three : p.length ≠ 3 := by omega
    simp only [requestedId_of_long _ long, if_pos four, forall_const, long, true_and, not_three,
      false_and, or_false]
    exact ⟨intOfBytes_inj (by simp; omega) (by simp; omega), fun e => by rw [e]⟩
  · by_cases three : p.length = 3 ∧ k = 0
    · obtain ⟨three, rfl⟩ := three
      have short : ¬ 4 ≤ p.length := by omega
      simp [requestedId_of_three _ three, three]
    · have neither : ¬ ((k + 4 ≤ p.length ∧ (p.drop k).take 4 = p.take 4) ∨
          (p.length = 3 ∧ k = 0 ∧ intOfBytes (p ++ [0]) = old)) := by
        rintro (⟨h, _⟩ | ⟨h, h', _⟩)
        · exact long h
        · exact three ⟨h, h'⟩
      refine ⟨fun all => ?_, fun h => absurd h neither⟩
      have same := (all fun _ => 0).trans (all fun _ => 1).symm
      -- A byte of the block that is not the terminator is among the four.
      by_cases zero : k = 0
      · exact absurd same (requestedId_ne (i := p.length + 1) (by omega) (by omega) (by omega))
      · exact absurd same (requestedId_ne (i := p.length - k) (by omega) (by omega) (by omega))

end id

/-- Focus requests, however they are cut behind the header, from any object at a boundary: the value stored
in `ready_fd` is the id that was sent, or the old value when there is no whole id, whatever else is in
memory and behind the request, exactly when the first four bytes of the last piece are those of the
payload, or the payload is three bytes in one piece that give the old value with the terminator. A payload
of `2 ^ 31 - 1` bytes is never received. -/
theorem decodes_iff (tj : TurboJpeg) (c : Client) (g : Globals) (m : Msg) (init : List (List UInt8))
    (last : List UInt8) (hf : m.type = changeFocusStatus) (boundary : c.remainBytes ≤ 0)
    (bytes : init.flatten ++ last = m.payload) (ne : last ≠ []) :
    (∀ r u, r.client = c → r.globals = g → Delivers tj (requestPieces m init last) r u →
      u.globals.readyFd =
        if 4 ≤ m.payload.length then intOfBytes (m.payload.take 4) else g.readyFd) ↔
      ¬ m.Allocatable ∨
      (init.flatten.length + 4 ≤ m.payload.length ∧
        (m.payload.drop init.flatten.length).take 4 = m.payload.take 4) ∨
      (m.payload.length = 3 ∧ init.flatten.length = 0 ∧ intOfBytes (m.payload ++ [0]) = g.readyFd) := by
  have size := congrArg List.length bytes
  rw [List.length_append] at size
  have pos := List.length_pos_of_ne_nil ne
  rw [← requestedId_iff (by omega) g.readyFd]
  constructor
  · intro right
    by_cases fits : m.Allocatable
    · refine .inr fun fresh => ?_
      obtain ⟨u, d, stored⟩ := exists_request tj g fresh fits hf boundary bytes ne
      rw [← stored]
      exact right _ u rfl rfl d
    · exact .inl fits
  · rintro right r u rfl rfl d
    obtain ⟨fits, fresh, stored⟩ := received_request hf boundary bytes ne d
    rw [stored]
    exact (right.resolve_left (not_not_intro fits)) fresh

/-- A request that says 7 twice. -/
def Msg.sevenTwice : Msg where
  type := changeFocusStatus
  payload := intBytes 7 ++ intBytes 7
  type_valid := (Msg.request 7).type_valid
  length_lt := by rw [List.length_append, length_intBytes]; decide

/-- `decodes_iff` for this request in three pieces, of which the last holds the id again. -/
theorem decodes_iff_twice :
    (∀ r u, r.client = Client.new ⟨1, 1, 3⟩ .blank 4 9 → r.globals = ⟨4, 4, 1, fun _ => 0⟩ →
      Delivers .none (requestPieces .sevenTwice [[7], [0, 0, 0]] [7, 0, 0, 0]) r u →
      u.globals.readyFd = if 4 ≤ Msg.sevenTwice.payload.length then
        intOfBytes (Msg.sevenTwice.payload.take 4) else 4) ↔
      ¬ Msg.sevenTwice.Allocatable ∨
      ([[7], [0, 0, 0]].flatten.length + 4 ≤ Msg.sevenTwice.payload.length ∧
        (Msg.sevenTwice.payload.drop [[7], [0, 0, 0]].flatten.length).take 4 =
          Msg.sevenTwice.payload.take 4) ∨
      (Msg.sevenTwice.payload.length = 3 ∧ [[7], [0, 0, 0]].flatten.length = 0 ∧
        intOfBytes (Msg.sevenTwice.payload ++ [0]) = 4) :=
  decodes_iff .none (Client.new ⟨1, 1, 3⟩ .blank 4 9) ⟨4, 4, 1, fun _ => 0⟩ .sevenTwice
    [[7], [0, 0, 0]] [7, 0, 0, 0] rfl (by decide) (by decide) (by decide)

/-- A request for 7 of which the first chunk ends behind the first byte: 0 is stored. -/
theorem request_cut :
    ¬ ∀ r u, r.client = Client.new ⟨1, 1, 3⟩ .blank 4 9 → r.globals = ⟨4, 4, 1, fun _ => 0⟩ →
      Delivers .none (requestPieces (.request 7) [[7]] [0, 0, 0]) r u →
      u.globals.readyFd = if 4 ≤ (Msg.request 7).payload.length then
        intOfBytes ((Msg.request 7).payload.take 4) else 4 := by
  intro right
  have bytes : [[7]].flatten ++ [0, 0, 0] = (Msg.request 7).payload := by decide
  have boundary : (Client.new ⟨1, 1, 3⟩ .blank 4 9).remainBytes ≤ 0 := by decide
  have fits : (Msg.request 7).Allocatable := by
    unfold Msg.Allocatable
    decide
  obtain ⟨u, d, stored⟩ := exists_request .none ⟨4, 4, 1, fun _ => 0⟩ (fun _ => 0)
    fits rfl boundary bytes (by decide)
  have id := right _ u rfl rfl d
  rw [stored] at id
  exact absurd id (by decide)

end Projector
