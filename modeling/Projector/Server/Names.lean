import Projector.Server.Reassembly
import Projector.Server.Safety

/-!
# The name buffer over a whole connection

The buffer of the name is allocated at the first header of type 2 and filled at the end of every later
message of that type. `Names` relates its size to the first name of the stream and the copies into it to
the names completed so far; every branch of `receive` keeps it, and `names_fit_iff` is the result for all
the chunks of a connection: no copy leaves the buffer exactly when no later name is longer than the first.
-/

namespace Projector

/-- A copy into the name buffer: the size of the block, where the copy starts, and how long it is. -/
structure NameWrite where
  size : Int
  off : Int
  count : Nat
deriving DecidableEq

/-- The copy is inside the block. -/
def NameWrite.Inside (w : NameWrite) : Prop := 0 ≤ w.off ∧ w.off + w.count ≤ w.size

instance (w : NameWrite) : Decidable w.Inside := inferInstanceAs (Decidable (_ ∧ _))

/-- The copies into the name buffer according to a log. -/
def nameWrites (es : List Event) : List NameWrite :=
  es.filterMap fun e => match e with
    | .write .userName size off n => some ⟨size, off, n⟩
    | _ => none

/-- The names kept according to a log: `userName[0..userNameLength)` behind each name. -/
def namesKept (es : List Event) : List (List UInt8) :=
  es.filterMap fun e => match e with
    | .done type data => if type = recvName then some data else none
    | _ => none

/-- The copies of two parts. -/
lemma nameWrites_append (es fs : List Event) :
    nameWrites (es ++ fs) = nameWrites es ++ nameWrites fs := by
  simp [nameWrites]

/-- The names kept in two parts. -/
lemma namesKept_append (es fs : List Event) :
    namesKept (es ++ fs) = namesKept es ++ namesKept fs := by
  simp [namesKept]

/-- The first name of a stream. -/
def firstName (ms : List Msg) : Option Msg := ms.find? fun m => m.type = recvName

/-- The message that the position is inside of. -/
def Format.Pos.current {μ β : Type*} {F : Format μ β} : F.Pos → List μ
  | .boundary _ => []
  | .inside m _ _ _ => [m]

/-- One more message is the first name only where there was none. -/
lemma firstName_concat (d : List Msg) (m : Msg) :
    firstName (d ++ [m]) = (firstName d).or (if m.type = recvName then some m else none) := by
  by_cases hn : m.type = recvName <;> simp [firstName, List.find?_append, hn]

/-- One more message fits when it is no name, or not longer than the first one. -/
lemma namesFit_concat (d : List Msg) (m : Msg) : NamesFit (d ++ [m]) ↔
    NamesFit d ∧ (m.type = recvName → ∀ f, firstName d = some f →
      m.payload.length ≤ f.payload.length) := by
  induction d with
  | nil => by_cases hn : m.type = recvName <;> simp [NamesFit, firstName, hn]
  | cons a d ih =>
    by_cases ha : a.type = recvName
    · have first : firstName (a :: d) = some a := by simp [firstName, ha]
      simp only [List.cons_append, NamesFit, if_pos ha, first, Option.some.injEq, List.mem_append,
        List.mem_singleton]
      constructor
      · intro all
        exact ⟨fun n mem => all n (.inl mem), fun hn f e => e ▸ all m (.inr rfl) hn⟩
      · rintro ⟨all, last⟩ n (mem | rfl) hn
        · exact all n mem hn
        · exact last hn a rfl
    · have first : firstName (a :: d) = firstName d := by simp [firstName, ha]
      simp only [List.cons_append, NamesFit, if_neg ha, first]
      exact ih

/-- What the name buffer and the log have to do with the messages `d` completed before the position `q`. -/
structure Names (d : List Msg) (q : wire.Pos) (c : Client) (log : List Event) : Prop where
  size : c.userName.map Block.size =
    (firstName (d ++ q.current)).map fun f => (f.payload.length : Int) + 1
  writes : (∀ w ∈ nameWrites log, w.Inside) ↔ NamesFit d
  kept : namesKept log = Recv.payloads recvName d

namespace Recv

variable {tj : TurboJpeg} {heap : Heap} {buf : Mem} {len : Nat} {r r' : Recv} {m : Msg}
  {d : List Msg} {rest : List Msg} {k : Nat} {log : List Event}

/-- The header stores the terminator of a first name, at the end of its block. -/
lemma nameWrites_headerLog : ∀ w ∈ nameWrites (headerLog m len r), w.Inside := by
  intro w mem
  unfold headerLog at mem
  by_cases empty : 0 < m.payload.length <;>
    by_cases first : m.type = recvName ∧ r.client.userName = none <;>
      simp [nameWrites, empty, first] at mem
  all_goals
    subst mem
    simp only [NameWrite.Inside]
    omega

/-- A header keeps no name. -/
lemma namesKept_headerLog : namesKept (headerLog m len r) = [] := by
  unfold headerLog
  by_cases empty : 0 < m.payload.length <;>
    by_cases first : m.type = recvName ∧ r.client.userName = none <;>
      simp [namesKept, empty, first]

/-- Copies in the block change nothing about whether all are. -/
lemma inside_append {es fs : List Event} (new : ∀ w ∈ nameWrites fs, w.Inside) :
    (∀ w ∈ nameWrites (es ++ fs), w.Inside) ↔ ∀ w ∈ nameWrites es, w.Inside := by
  rw [nameWrites_append]
  constructor
  · exact fun all w mem => all w (List.mem_append_left _ mem)
  · exact fun all w mem => (List.mem_append.mp mem).elim (all w) (new w)

/-- Behind the header of `m` the buffer has the size of the first name, which may be `m`. -/
lemma HeaderDone.size (f : HeaderDone m len r r')
    (h : r.client.userName.map Block.size =
      (firstName d).map fun f => (f.payload.length : Int) + 1) :
    r'.client.userName.map Block.size =
      (firstName (d ++ [m])).map fun f => (f.payload.length : Int) + 1 := by
  obtain ⟨rb, un, client, _, hun⟩ := f.client
  have name : r'.client.userName = un := by
    rw [client]
    rfl
  rw [firstName_concat, name]
  by_cases first : m.type = recvName ∧ r.client.userName = none
  · rw [if_pos first] at hun
    obtain ⟨mem, rfl⟩ := hun
    rw [first.2, Option.map_none, eq_comm, Option.map_eq_none_iff] at h
    rw [h, if_pos first.1]
    rfl
  · rw [if_neg first] at hun
    rw [hun, h]
    by_cases hn : m.type = recvName
    · have some_ : r.client.userName ≠ none := fun none => first ⟨hn, none⟩
      cases hf : firstName d with
      | none =>
        rw [hf, Option.map_none, Option.map_eq_none_iff] at h
        exact absurd h some_
      | some f => rfl
    · rw [if_neg hn, Option.or_none]

/-- The header of a message with a payload. -/
lemma HeaderDone.names (f : HeaderDone m len r r') (ne : 0 < m.payload.length)
    (h : Names d (.boundary (m :: rest)) r.client (log ++ r.log)) :
    Names d (.inside m 0 rest ne) r'.client (log ++ r'.log) where
  size := f.size (by simpa [Format.Pos.current] using h.size)
  writes := by
    rw [f.log, ← List.append_assoc, inside_append nameWrites_headerLog]
    exact h.writes
  kept := by
    rw [f.log, ← List.append_assoc, namesKept_append, namesKept_headerLog, List.append_nil]
    exact h.kept

/-- The header of an empty message, which completes it. -/
lemma HeaderDone.names_empty (f : HeaderDone m len r r') (empty : m.payload = [])
    (h : Names d (.boundary (m :: rest)) r.client (log ++ r.log)) :
    Names (d ++ [m]) (.boundary rest) r'.client (log ++ r'.log) where
  size := by
    have size := f.size (d := d) (by simpa [Format.Pos.current] using h.size)
    simpa [Format.Pos.current] using size
  writes := by
    rw [f.log, ← List.append_assoc, inside_append nameWrites_headerLog, namesFit_concat]
    -- An empty name is not longer than any other.
    simp only [empty, List.length_nil, Nat.zero_le, implies_true, and_true]
    exact h.writes
  kept := by
    rw [f.log, ← List.append_assoc, namesKept_append, namesKept_headerLog, List.append_nil,
      payloads_append, payloads_of_empty _ empty, List.append_nil]
    exact h.kept

/-- A piece that does not reach the end of the payload. -/
lemma part_names {lt : k < m.payload.length} {k' : Nat} {lt' : k' < m.payload.length}
    (h : Names d (.inside m k rest lt) r.client (log ++ r.log)) :
    Names d (.inside m k' rest lt') (r.part buf len).client (log ++ (r.part buf len).log) := by
  by_cases ha : Accumulates r.client.headerType
  · rw [part_of_accumulates ha]
    refine ⟨h.size, ?_, ?_⟩
    · rw [advance_log, store_log, ← List.append_assoc, inside_append (by simp [nameWrites])]
      exact h.writes
    · rw [advance_log, store_log, ← List.append_assoc, namesKept_append, h.kept]
      exact List.append_nil _
  · rw [part_of_not_accumulates ha]
    exact ⟨h.size, h.writes, h.kept⟩

/-- What the end of `m` does with the name buffer: nothing, or two copies at the end of a name. -/
structure FinalName (m : Msg) (r r' : Recv) : Prop where
  size : r'.client.userName.map Block.size = r.client.userName.map Block.size
  log : ∃ es, r'.log = r.log ++ es ∧
    nameWrites es = (if m.type = recvName then
      [⟨(r.client.userName.getD .null).size, 0, m.payload.length⟩,
        ⟨(r.client.userName.getD .null).size, m.payload.length, 1⟩] else []) ∧
    namesKept es = if m.type = recvName then [m.payload] else []

/-- The end of a message of another type. -/
lemma FinalName.other {es : List Event} (hn : m.type ≠ recvName)
    (size : r'.client.userName = r.client.userName) (log : r'.log = r.log ++ es)
    (noWrite : nameWrites es = []) (noName : namesKept es = []) : FinalName m r r' where
  size := by rw [size]
  log := ⟨es, log, by rw [noWrite, if_neg hn], by rw [noName, if_neg hn]⟩

/-- The end of an image leaves the name alone. -/
lemma final_image_name (inside : r.client.Inside m k) (hi : m.type = recvImage) :
    Post (FinalName m r) (fun _ => True) (r.final tj heap buf len) := by
  have hn : m.type ≠ recvName := by simp [hi]
  rw [final_image (by rwa [inside.type])]
  obtain ⟨b, hb⟩ : ∃ b, (r.store buf len r.client.remainBytes.toNat).client.recvBuffer = some b :=
    ⟨_, rfl⟩
  cases hk : (r.store buf len r.client.remainBytes.toNat).keepImage heap with
  | error s => trivial
  | ok t =>
    obtain ⟨_, _, ⟨jb, client⟩, _, log⟩ := (keepImage_spec (m := m) hb).of_ok hk
    have drawn : Drawn t (t.drawFocused tj) := drawFocused_spec
    obtain ⟨_, ⟨w, x, y, client'⟩, _, log'⟩ := drawn
    show FinalName m r ((t.drawFocused tj).advance _)
    refine .other hn ?_ (by rw [advance_log, log', log, store_log, List.append_assoc,
      List.append_assoc]) ?_ ?_
    · rw [advance_client, client', client]
      rfl
    · by_cases foc : t.globals.focusFd = t.client.fd <;> simp [nameWrites, foc]
    · by_cases foc : t.globals.focusFd = t.client.fd <;> simp [namesKept, foc]

/-- What keeping a name adds to the log. -/
lemma name_log : r.name.log = r.log ++
    [.read .recvBuffer (r.client.recvBuffer.getD .null).size r.client.recvOffset,
      .write .userName (r.client.userName.getD .null).size 0 r.client.recvOffset,
      .write .userName (r.client.userName.getD .null).size r.client.recvOffset 1,
      .done recvName r.name.client.name] := rfl

/-- The end of a name copies it into the name buffer. -/
lemma final_name_name (inside : r.client.Inside m k) (lt : k < m.payload.length)
    (hb : buf.read r.chunkRead (m.payload.length - k) = m.payload.drop k) (hn : m.type = recvName)
    (named : r.client.userName ≠ none) :
    Post (FinalName m r) (fun _ => True) (r.final tj heap buf len) := by
  have done : FinalName m r ((r.store buf len r.client.remainBytes.toNat).name.advance
      r.client.remainBytes.toNat) := by
    obtain ⟨mem, hm, off, full⟩ := store_full len inside lt.le (.inr hn) hb
    obtain ⟨un, hu⟩ := Option.ne_none_iff_exists'.mp named
    have payload := name_name hm off
    rw [full] at payload
    have same : (r.store buf len r.client.remainBytes.toNat).client.userName = some un := hu
    refine ⟨by simp [name, hu], _,
      by rw [advance_log, name_log, store_log, List.append_assoc], ?_, ?_⟩
    · rw [same, hu, off, if_pos hn]
      rfl
    · rw [payload, if_pos hn]
      rfl
  rw [final_name (by rwa [inside.type])]
  exact done

/-- The end of `m`. -/
lemma final_names (inside : r.client.Inside m k) (lt : k < m.payload.length)
    (hb : buf.read r.chunkRead (m.payload.length - k) = m.payload.drop k)
    (named : m.type = recvName → r.client.userName ≠ none) :
    Post (FinalName m r) (fun _ => True) (r.final tj heap buf len) := by
  by_cases hi : m.type = recvImage
  · exact final_image_name inside hi
  · by_cases hn : m.type = recvName
    · exact final_name_name inside lt hb hn (named hn)
    · by_cases hf : m.type = changeFocusStatus
      · rw [final_focus (by rwa [inside.type])]
        exact .other hn rfl (by rw [advance_log, focus, emit_log, store_log, List.append_assoc])
          (by simp [nameWrites]) (by simp [namesKept])
      · rw [final_other (by rwa [inside.type]) (by rwa [inside.type]) (by rwa [inside.type])]
        exact .other hn rfl (by rw [advance_log, store_log]) (by simp [nameWrites])
          (by simp [namesKept])

/-- The two copies of a name are in the block when it takes the name and the terminator. -/
lemma inside_copies {size : Int} {n : Nat} :
    (∀ w ∈ [NameWrite.mk size 0 n, ⟨size, n, 1⟩], w.Inside) ↔ (n : Int) + 1 ≤ size := by
  simp only [List.forall_mem_cons, NameWrite.Inside]
  constructor
  · rintro ⟨_, ⟨_, last⟩, _⟩
    exact last
  · intro last
    exact ⟨⟨by omega, by omega⟩, ⟨by omega, last⟩, by simp⟩

/-- The end of a payload completes its message. -/
lemma FinalName.names {lt : k < m.payload.length} (f : FinalName m r r') (ne : m.payload ≠ [])
    (h : Names d (.inside m k rest lt) r.client (log ++ r.log)) :
    Names (d ++ [m]) (.boundary rest) r'.client (log ++ r'.log) := by
  have size : r.client.userName.map Block.size =
      (firstName (d ++ [m])).map fun f => (f.payload.length : Int) + 1 := h.size
  obtain ⟨es, hl, writes, kept⟩ := f.log
  constructor
  case size => rw [f.size, size, Format.Pos.current, List.append_nil]
  case writes =>
    rw [hl, ← List.append_assoc, nameWrites_append, writes, namesFit_concat, ← h.writes,
      List.forall_mem_append]
    apply and_congr_right
    intro _
    by_cases hn : m.type = recvName
    · rw [firstName_concat, if_pos hn] at size
      rw [if_pos hn, inside_copies]
      cases hf : firstName d with
      | none =>
        -- The buffer was allocated for this name.
        rw [hf, Option.none_or, Option.map_some] at size
        obtain ⟨b, hb, e⟩ := Option.map_eq_some_iff.mp size
        rw [hb, Option.getD_some, e]
        simp
      | some f =>
        rw [hf, Option.some_or, Option.map_some] at size
        obtain ⟨b, hb, e⟩ := Option.map_eq_some_iff.mp size
        rw [hb, Option.getD_some, e]
        simp [hn]
    · simp [hn]
  case kept =>
    rw [hl, ← List.append_assoc, namesKept_append, h.kept, kept, payloads_append,
      payloads_single _ ne]

/-! ## One call -/

variable {c : Client} {g : Globals} {p q : wire.Pos} {ds : List Msg}

/-- `Names` at a point of a call that started at `p`, behind the messages `ds` and the log of the calls
before. -/
def NamesAt (ds : List Msg) (log : List Event) (p : wire.Pos) (r : Recv) : Prop :=
  ∀ d q, p.consume r.chunkRead = some (d, q) → Names (ds ++ d) q r.client (log ++ r.log)

/-- Some more bytes. -/
lemma NamesAt.step {n : Nat} {d' : List Msg} {q' : wire.Pos} (h : NamesAt ds log p r)
    (e : p.consume r.chunkRead = some (d, q)) (next : q.consume n = some (d', q'))
    (chunkRead : r'.chunkRead = r.chunkRead + n)
    (keeps : Names (ds ++ d) q r.client (log ++ r.log) →
      Names (ds ++ d ++ d') q' r'.client (log ++ r'.log)) : NamesAt ds log p r' := by
  intro d'' q'' e'
  have step := Format.Pos.consume_add e n
  rw [next, ← chunkRead, e'] at step
  obtain ⟨rfl, rfl⟩ := Prod.mk.inj (Option.some.inj step)
  rw [← List.append_assoc]
  exact keeps (h d q e)

/-- A whole header. -/
lemma header_named (h : NamesAt ds log p r) (hbuf : buf.read 0 len = p.bytes.take len)
    (e : p.consume r.chunkRead = some (d, .boundary (m :: rest))) (room : r.chunkRead + 8 ≤ len) :
    Post (NamesAt ds log p) (fun _ => True) (r.header heap buf len) := by
  apply (header_spec (header_at hbuf e room)).mono _ (fun _ _ => trivial)
  intro r' f
  by_cases ne : 0 < m.payload.length
  · have next : (.boundary (m :: rest) : wire.Pos).consume 8 = some ([], .inside m 0 rest ne) :=
      Format.Pos.consume_header_inside (F := wire) ne
    apply h.step e next f.chunkRead
    intro names
    rw [List.append_nil]
    exact f.names ne names
  · have next : (.boundary (m :: rest) : wire.Pos).consume 8 = some ([m], .boundary rest) :=
      Format.Pos.consume_header_boundary (F := wire) ne
    apply h.step e next f.chunkRead
    exact f.names_empty (List.eq_nil_of_length_eq_zero (by omega))

/-- The end of a payload. -/
lemma final_named {lt : k < m.payload.length} (h : NamesAt ds log p r)
    (hbuf : buf.read 0 len = p.bytes.take len)
    (e : p.consume r.chunkRead = some (d, .inside m k rest lt)) (inside : r.client.Inside m k)
    (long : m.payload.length - k ≤ len - r.chunkRead) :
    Post (NamesAt ds log p) (fun _ => True) (r.final tj heap buf len) := by
  have hb := payload_at hbuf e long
  have names := h d _ e
  have named (hn : m.type = recvName) : r.client.userName ≠ none := by
    intro none
    have size : r.client.userName.map Block.size = (firstName (ds ++ d ++ [m])).map fun f =>
        (f.payload.length : Int) + 1 := names.size
    rw [none, Option.map_none, firstName_concat, if_pos hn] at size
    cases hf : firstName (ds ++ d) <;> simp [hf] at size
  have done : Post (FinalDone m k r) (Throws heap m) (r.final tj heap buf len) :=
    final_spec inside lt hb
  apply (done.and (final_names inside lt hb named)).mono _ (fun _ _ => trivial)
  rintro r' ⟨f, f'⟩
  have next : (.inside m k rest lt : wire.Pos).consume (m.payload.length - k) =
      some ([m], .boundary rest) := Format.Pos.consume_final (F := wire) lt
  apply h.step e next f.chunkRead
  apply f'.names
  rintro empty
  simp [empty] at lt

/-- One round on a chunk that does not end inside a header. -/
lemma round_named {d' : List Msg} (hbuf : buf.read 0 len = p.bytes.take len)
    (hlen : p.consume len = some (d', q)) (f : Following c g p len r) (h : NamesAt ds log p r)
    (more : r.chunkRead < len) : Post (NamesAt ds log p) (fun _ => True) (r.round tj heap buf len) := by
  apply round_stream_rule hlen f more
  case header =>
    intro d m rest e _ room
    exact header_named h hbuf e room
  case part =>
    intro d m k rest lt e _ _ short
    have next : (.inside m k rest lt : wire.Pos).consume (len - r.chunkRead) =
        some ([], .inside m (k + (len - r.chunkRead)) rest short) :=
      Format.Pos.consume_part (F := wire) lt short
    apply h.step e next part_chunkRead
    intro names
    rw [List.append_nil]
    exact part_names names
  case final =>
    intro d m k rest lt e inside _ long
    exact final_named h hbuf e inside long

end Recv

section feed

variable {tj : TurboJpeg} {c : Client} {g : Globals} {p q : wire.Pos} {ds d : List Msg}
  {log : List Event}

/-- A call on a chunk that does not end inside a header. -/
theorem receive_names {heap : Heap} {buf : Mem} {len : Nat} (at_ : c.At p)
    (names : Names ds p c log) (hbuf : buf.read 0 len = p.bytes.take len)
    (e : p.consume len = some (d, q)) :
    Post (fun r => (r.client.At q ∧ Recv.Applied c g d r) ∧ Names (ds ++ d) q r.client (log ++ r.log))
      (Recv.OutOfMemory heap p) (c.receive tj heap g buf len) := by
  have start : Recv.NamesAt ds log p ⟨[], 0, c, g⟩ := by
    intro d q e
    rw [Format.Pos.consume_zero] at e
    obtain ⟨rfl, rfl⟩ := Prod.mk.inj (Option.some.inj e)
    simpa using names
  apply (receive_rule at_ hbuf e start fun r f named more =>
    Recv.round_named hbuf e f named more).mono _ (fun _ h => h)
  rintro r ⟨follows, whole, named⟩
  exact ⟨follows, named d q (by rwa [whole])⟩

/-- All the chunks of a connection. -/
lemma feed_names {xs : List Piece} {s : Fed} (at_ : c.At p) (named : c.Named)
    (names : Names ds p c log)
    (bytes : xs.flatMap Piece.data <+: p.bytes)
    (whole : ∀ k, (p.consume ((xs.take k).map Piece.len).sum).isSome)
    (e : feed tj xs c g = .ok s) (reached : p.consume (xs.map Piece.len).sum = some (d, q)) :
    Names (ds ++ d) q s.client (log ++ s.log) ∧
      s.client.name = (Recv.payloads recvName d).getLastD c.name := by
  induction xs generalizing c g p ds d log s with
  | nil =>
    rw [List.map_nil, List.sum_nil, Format.Pos.consume_zero] at reached
    obtain ⟨rfl, rfl⟩ := Prod.mk.inj (Option.some.inj reached)
    cases e
    simpa using names
  | cons x xs ih =>
    rw [List.map_cons, List.sum_cons] at reached
    obtain ⟨_, first, rest⟩ := Piece.cut_first bytes
    obtain ⟨r, t, hr, ht, rfl⟩ := feed_cons_eq_ok.mp e
    have here := whole 1
    simp only [List.take_succ_cons, List.take_zero, List.map_cons, List.map_nil, List.sum_cons,
      List.sum_nil, Nat.add_zero] at here
    obtain ⟨⟨d₁, q₁⟩, e₁⟩ := Option.isSome_iff_exists.mp here
    obtain ⟨⟨at', ap⟩, names'⟩ := (receive_names at_ names first e₁).of_ok hr
    obtain ⟨named', name⟩ := ap.name named
    have later (n : Nat) : p.consume (x.len + n) = (q₁.consume n).map fun r => (d₁ ++ r.1, r.2) :=
      Format.Pos.consume_add e₁ n
    rw [later, Option.map_eq_some_iff] at reached
    obtain ⟨⟨d₂, q₂⟩, e₂, ends⟩ := reached
    obtain ⟨rfl, rfl⟩ := Prod.mk.inj ends
    rw [← (Format.Pos.bytes_of_consume e₁).1] at rest
    have whole' (k : Nat) : (q₁.consume ((xs.take k).map Piece.len).sum).isSome := by
      have point := whole (k + 1)
      rw [List.take_succ_cons, List.map_cons, List.sum_cons, later, Option.isSome_map] at point
      exact point
    obtain ⟨names'', name'⟩ := ih at' named' names' rest whole' ht e₂
    refine ⟨by simpa [List.append_assoc] using names'', ?_⟩
    rw [Recv.payloads_append, getLastD_append, ← name]
    exact name'

/-- A cut outside the headers is a position of the stream. -/
lemma locate_isSome {ms : List Msg} {xs : List Piece} (bytes : xs.flatMap Piece.data <+: wire.stream ms)
    {k : Nat} (cut : ¬ wire.SplitsHeader ms ((xs.take k).map Piece.len).sum) :
    ((.boundary ms : wire.Pos).consume ((xs.take k).map Piece.len).sum).isSome := by
  have part : ((xs.take k).map Piece.len).sum ≤ (wire.stream ms).length := by
    have first : (xs.take k).flatMap Piece.data <+: xs.flatMap Piece.data := by
      rw [← List.take_append_drop k xs, List.flatMap_append, List.take_append_drop]
      exact List.prefix_append _ _
    have le := (first.trans bytes).length_le
    rwa [Piece.length_flatMap_data] at le
  rw [Option.isSome_iff_ne_none]
  exact fun none => cut ((Format.Pos.locate_eq_none part).mp none)

/-- All the chunks of a new connection, cut outside the headers, which complete the messages `d`: every copy
into the name buffer is inside it, terminator included, and behind each name the object holds that name,
exactly when no later name of `d` is longer than the first one. -/
theorem names_fit_iff {screen : Screen} {raw : Client} {fd : Int} {id : Int32} {ms : List Msg}
    {xs : List Piece} {s : Fed} (bytes : xs.flatMap Piece.data <+: wire.stream ms)
    (cuts : ∀ k, ¬ wire.SplitsHeader ms ((xs.take k).map Piece.len).sum)
    (e : feed tj xs (Client.new screen raw fd id) g = .ok s)
    (reached : wire.locate ms (xs.map Piece.len).sum = some (d, q)) :
    ((∀ w ∈ nameWrites s.log, w.Inside) ∧ namesKept s.log = Recv.payloads recvName d ∧
      s.client.name = (Recv.payloads recvName d).getLastD []) ↔ NamesFit d := by
  have start : Names [] (.boundary ms) (Client.new screen raw fd id) [] := by
    constructor
    case size => rfl
    case writes => simp [nameWrites, NamesFit]
    case kept => rfl
  have boundary : (Client.new screen raw fd id).At (.boundary ms) := by
    show (-1 : Int) ≤ 0
    decide
  obtain ⟨names, name⟩ := feed_names boundary (fun _ => rfl) start bytes
    (fun k => locate_isSome bytes (cuts k)) e reached
  have writes := names.writes
  have kept := names.kept
  simp only [List.nil_append] at kept writes
  constructor
  · exact fun h => writes.mp h.1
  · exact fun fits => ⟨writes.mpr fits, kept, name⟩

end feed

/-- A name of two letters. -/
def Msg.ab : Msg := ⟨recvName, [97, 98], by decide, by decide⟩

/-- A name of one letter. -/
def Msg.c : Msg := ⟨recvName, [99], by decide, by decide⟩

/-- Two names in two chunks, cut inside the first name. -/
def abThenC : List Piece :=
  [.ofBytes [2, 0, 0, 0, 2, 0, 0, 0, 97], .ofBytes [98, 2, 0, 0, 0, 1, 0, 0, 0, 99]]

/-- `names_fit_iff` for a name and a shorter one. -/
theorem names_fit_iff_shorter : ∃ s d q,
    feed .none abThenC (Client.new ⟨1, 1, 3⟩ .blank 4 9) ⟨-1, 4, 1, fun _ => 0⟩ = .ok s ∧
    wire.locate [.ab, .c] (abThenC.map Piece.len).sum = some (d, q) ∧
    (((∀ w ∈ nameWrites s.log, w.Inside) ∧ namesKept s.log = Recv.payloads recvName d ∧
      s.client.name = (Recv.payloads recvName d).getLastD []) ↔ NamesFit d) := by
  have cuts (k : Nat) : ¬ wire.SplitsHeader [.ab, .c] ((abThenC.take k).map Piece.len).sum := by
    apply Format.Pos.not_splitsHeader
    rcases k with _ | _ | k
    · rfl
    · decide +kernel
    · rw [List.take_of_length_le (Nat.le_add_left 2 k)]
      decide +kernel
  have bytes : abThenC.flatMap Piece.data <+: wire.stream [.ab, .c] := by decide +kernel
  have reached : wire.locate [.ab, .c] (abThenC.map Piece.len).sum =
      some ([.ab, .c], .boundary []) := by rfl
  have run : (feed .none abThenC (Client.new ⟨1, 1, 3⟩ .blank 4 9)
      ⟨-1, 4, 1, fun _ => 0⟩).toBool = true := by decide +kernel
  cases e : feed .none abThenC (Client.new ⟨1, 1, 3⟩ .blank 4 9) ⟨-1, 4, 1, fun _ => 0⟩ with
  | error stop =>
    rw [e] at run
    contradiction
  | ok s => exact ⟨s, _, _, rfl, reached, names_fit_iff bytes cuts e reached⟩

/-- A name behind a shorter one: the copy of three bytes and the terminator go into a block of two. -/
theorem name_overflows : ∃ s,
    feed .none [.ofBytes (wire.stream [.c, .ab])] (Client.new ⟨1, 1, 3⟩ .blank 4 9)
      ⟨-1, 4, 1, fun _ => 0⟩ = .ok s ∧
    wire.locate [.c, .ab] 19 = some ([.c, .ab], .boundary []) ∧
    ¬ ((∀ w ∈ nameWrites s.log, w.Inside) ∧
      namesKept s.log = Recv.payloads recvName [.c, .ab] ∧
      s.client.name = (Recv.payloads recvName [.c, .ab]).getLastD []) := by
  have run : (feed .none [.ofBytes (wire.stream [.c, .ab])] (Client.new ⟨1, 1, 3⟩ .blank 4 9)
      ⟨-1, 4, 1, fun _ => 0⟩).toOption.map (fun s => nameWrites s.log) =
        some [⟨2, 1, 1⟩, ⟨2, 0, 1⟩, ⟨2, 1, 1⟩, ⟨2, 0, 2⟩, ⟨2, 2, 1⟩] := by decide +kernel
  obtain ⟨s, e, writes⟩ := Option.map_eq_some_iff.mp run
  refine ⟨s, ?_, by rfl, fun all => ?_⟩
  · cases h : feed .none [.ofBytes (wire.stream [.c, .ab])] (Client.new ⟨1, 1, 3⟩ .blank 4 9)
      ⟨-1, 4, 1, fun _ => 0⟩ with
    | error stop => simp [h, Except.toOption] at e
    | ok t =>
      rw [h] at e
      exact congrArg _ (Option.some.inj e)
  · have last := all.1 ⟨2, 2, 1⟩ (by simp [writes])
    exact absurd last (by decide)

end Projector
