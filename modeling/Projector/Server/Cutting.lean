import Projector.Server.Parsing
import Projector.Server.Reassembly
import Projector.Server.Rounds

/-!
# Two calls of `receive` and one

On any bytes, well-formed or not, a call of `receive` and then another one do what one call on all the
bytes does (`receive_joins`), unless the cut is inside a header, where the first call looks behind its
chunk, or inside a focus request, whose first bytes it forgets.

`Lags` relates a call on a piece to the call on all the bytes, which may be behind by the part of a payload
that the piece ends with. Every branch of the loop keeps it.
-/

namespace Projector

/-- What a call does for the messages it completes. -/
def deeds (es : List Event) : List Event :=
  es.filter fun e => match e with
    | .done _ _ | .draw _ => true
    | _ => false

/-- What is done in two parts. -/
@[simp] lemma deeds_append (es fs : List Event) : deeds (es ++ fs) = deeds es ++ deeds fs :=
  List.filter_append es fs

/-- Nothing is done without an event. -/
@[simp] lemma deeds_nil : deeds [] = [] := rfl

/-- The payload of such a message is used when it is complete. -/
def Recv.Used (type : Int) : Prop := Accumulates type ∨ type = changeFocusStatus

/-- Two objects that go on alike: they may differ in what a message left behind that is complete or that
nobody uses. -/
structure Client.Equivalent (c d : Client) : Prop where
  fields : ∃ b o, d = { c with recvBuffer := b, recvOffset := o }
  payload : 0 < c.remainBytes → Recv.Used c.headerType →
    d.recvBuffer.getD .null = c.recvBuffer.getD .null ∧ d.recvOffset = c.recvOffset

namespace Client.Equivalent

variable {c d e : Client}

/-- An object goes on like itself. -/
lemma refl (c : Client) : c.Equivalent c := ⟨⟨_, _, rfl⟩, fun _ _ => ⟨rfl, rfl⟩⟩

/-- To go on alike is symmetric. -/
lemma symm (h : c.Equivalent d) : d.Equivalent c := by
  obtain ⟨⟨b, o, rfl⟩, payload⟩ := h
  exact ⟨⟨_, _, rfl⟩, fun busy used => (payload busy used).imp Eq.symm Eq.symm⟩

/-- To go on alike is transitive. -/
lemma trans (h : c.Equivalent d) (h' : d.Equivalent e) : c.Equivalent e := by
  obtain ⟨⟨b, o, rfl⟩, payload⟩ := h
  obtain ⟨⟨b', o', rfl⟩, payload'⟩ := h'
  refine ⟨⟨b', o', rfl⟩, fun busy used => ?_⟩
  obtain ⟨block, offset⟩ := payload busy used
  obtain ⟨block', offset'⟩ := payload' busy used
  exact ⟨block'.trans block, offset'.trans offset⟩

end Client.Equivalent

namespace Recv

/-- A call on a piece at `r` and the call on all the bytes in `buf` at `r'`: the piece begins at byte `d`,
behind the events `es`, and the call on all the bytes has `n` bytes of the payload still before it that
`r` has dealt with. -/
structure Lags (buf : Mem) (es : List Event) (d n : Nat) (r r' : Recv) : Prop where
  chunkRead : r'.chunkRead + n = r.chunkRead + d
  client : ∃ b o, r'.client = { r.client with
    recvBuffer := b, recvOffset := o, remainBytes := r.client.remainBytes + n }
  globals : r'.globals = r.globals
  log : deeds r'.log = deeds es ++ deeds r.log
  cut : n ≠ 0 → 0 < r.client.remainBytes ∧ r.client.headerType ≠ changeFocusStatus
  payload : 0 < r.client.remainBytes → Used r.client.headerType →
    r.client.recvBuffer.getD .null = ⟨(r'.client.recvBuffer.getD .null).size,
      (r'.client.recvBuffer.getD .null).mem.memcpy r'.client.recvOffset buf r'.chunkRead n⟩ ∧
    r.client.recvOffset = r'.client.recvOffset + n

/-- Two calls that were left early alike. -/
structure LeftAlike (es : List Event) (s s' : Stop) : Prop where
  exit : s'.exit = s.exit
  globals : s'.recv.globals = s.recv.globals
  log : deeds s'.recv.log = deeds es ++ deeds s.recv.log

variable {tj : TurboJpeg} {heap heap' : Heap} {buf buf' : Mem} {len len' d n m : Nat}
  {es : List Event} {r r' : Recv}

/-- Two calls at the same byte. -/
lemma Lags.level (chunkRead : r'.chunkRead = r.chunkRead + d)
    (client : ∃ b o, r'.client = { r.client with recvBuffer := b, recvOffset := o })
    (globals : r'.globals = r.globals) (log : deeds r'.log = deeds es ++ deeds r.log)
    (payload : 0 < r.client.remainBytes → Used r.client.headerType →
      r.client.recvBuffer.getD .null = r'.client.recvBuffer.getD .null ∧
      r.client.recvOffset = r'.client.recvOffset) : Lags buf es d 0 r r' where
  chunkRead := chunkRead
  client := by
    obtain ⟨b, o, client⟩ := client
    exact ⟨b, o, by simpa using client⟩
  globals := globals
  log := log
  cut := fun ne => absurd rfl ne
  payload := fun busy used => by simpa using payload busy used

/-- What the fields of the objects have in common. -/
lemma Lags.fields (h : Lags buf es d n r r') : r'.client.headerType = r.client.headerType ∧
    r'.client.remainBytes = r.client.remainBytes + n := by
  obtain ⟨b, o, client⟩ := h.client
  rw [client]
  exact ⟨rfl, rfl⟩

/-- The same block gives the same result of `new`. -/
lemma new_congr {site : Site} {k k' : Nat} {size : Int} (fresh : heap' site k' = heap site k) :
    heap'.new site k' size = heap.new site k size := by
  rw [Heap.new, Heap.new, fresh]

/-! ## A header -/

/-- The two calls have read the same header. -/
structure Entered (es : List Event) (d : Nat) (r r' : Recv) : Prop where
  chunkRead : r'.chunkRead = r.chunkRead + d
  client : ∃ b, r'.client = { r.client with recvBuffer := b }
  globals : r'.globals = r.globals
  log : deeds r'.log = deeds es ++ deeds r.log
  length : r.client.remainBytes = r.client.headerLength

/-- Both calls allocate the receive buffer, or both throw. -/
lemma newRecvBuffer_lags (h : Entered es d r r')
    (fresh : heap' .recvBuffer r'.chunkRead = heap .recvBuffer r.chunkRead) :
    Agree (fun t t' => Lags buf' es d 0 t t' ∧ t.chunkRead = r.chunkRead) (LeftAlike es)
      (r.newRecvBuffer heap) (r'.newRecvBuffer heap') := by
  obtain ⟨log, k, c, g⟩ := r'
  obtain ⟨chunkRead, ⟨b, client⟩, globals, logs, length⟩ := h
  dsimp only at chunkRead client globals logs fresh
  subst client globals
  simp only [newRecvBuffer, new_congr fresh]
  by_cases pos : r.client.headerLength > 0
  · simp only [if_pos pos]
    cases heap.new .recvBuffer r.chunkRead (wrap32 (r.client.headerLength + 1)) with
    | none => exact ⟨rfl, rfl, by simpa [deeds] using logs⟩
    | some b =>
      exact ⟨.level chunkRead ⟨_, _, rfl⟩ rfl (by simpa [deeds] using logs) fun _ _ => ⟨rfl, rfl⟩, rfl⟩
  · simp only [if_neg pos]
    refine ⟨.level chunkRead ⟨b, _, rfl⟩ rfl logs fun busy => ?_, rfl⟩
    omega

/-- Both calls allocate the name buffer, or both throw. -/
lemma newUserName_lags (h : Lags buf' es d 0 r r')
    (fresh : heap' .userName r'.chunkRead = heap .userName r.chunkRead) :
    Agree (Lags buf' es d 0) (LeftAlike es) (r.newUserName heap) (r'.newUserName heap') := by
  obtain ⟨log, k, c, g⟩ := r'
  obtain ⟨chunkRead, ⟨b, o, client⟩, globals, logs, -, payload⟩ := h
  dsimp only at chunkRead client globals logs fresh payload
  subst client globals
  simp only [newUserName, new_congr fresh]
  by_cases first : r.client.headerType = recvName ∧ r.client.userName = none
  · simp only [if_pos first]
    cases heap.new .userName r.chunkRead (wrap32 (r.client.headerLength + 1)) with
    | none => exact ⟨rfl, rfl, by simpa [deeds] using logs⟩
    | some a =>
      exact .level chunkRead ⟨b, o, by simp⟩ rfl (by simpa [deeds] using logs)
        fun busy used => by simpa using payload busy used
  · simp only [if_neg first]
    exact .level chunkRead ⟨b, o, by simp⟩ rfl logs fun busy used => by simpa using payload busy used

/-- The two calls read the same header. -/
lemma header_lags (h : Lags buf' es d n r r') (boundary : r.client.remainBytes ≤ 0)
    (bytes : buf'.read (r.chunkRead + d) 8 = buf.read r.chunkRead 8)
    (block : heap' .recvBuffer (r.chunkRead + d + 8) = heap .recvBuffer (r.chunkRead + 8))
    (name : heap' .userName (r.chunkRead + d + 8) = heap .userName (r.chunkRead + 8)) :
    Agree (Lags buf' es d 0) (LeftAlike es) (r.header heap buf len) (r'.header heap' buf' len') := by
  have n_zero : n = 0 := by
    by_contra ne
    have busy := (h.cut ne).1
    omega
  subst n_zero
  obtain ⟨log, k, c, g⟩ := r'
  obtain ⟨chunkRead, ⟨b, o, client⟩, globals, logs, -, -⟩ := h
  dsimp only at chunkRead client globals logs
  rw [Nat.add_zero] at chunkRead
  subst client globals chunkRead
  rw [show (8 : Nat) = 4 + 4 from rfl, Mem.read_add, Mem.read_add] at bytes
  obtain ⟨sameType, sameLength⟩ := List.append_inj bytes (by simp)
  simp only [header, sameType, sameLength]
  generalize intOfBytes (buf.read r.chunkRead 4) = type
  generalize intOfBytes (buf.read (r.chunkRead + 4) 4) = length
  split
  · exact ⟨rfl, rfl, by simpa [deeds] using logs⟩
  · apply Agree.bind (R := fun t t' => Lags buf' es d 0 t t' ∧ t.chunkRead = r.chunkRead + 8)
    · apply newRecvBuffer_lags
      case h => exact ⟨Nat.add_right_comm r.chunkRead d 8, ⟨b, rfl⟩, rfl, by simpa [deeds] using logs, rfl⟩
      case fresh => exact block
    · rintro t t' ⟨lags, place⟩
      refine newUserName_lags lags ?_
      have place' : t'.chunkRead = t.chunkRead + d := lags.chunkRead
      rw [place', place]
      simpa [Nat.add_right_comm] using name

/-! ## A payload -/

/-- The two calls have stored the same bytes of a payload, of which the call on all the bytes has `n` more
to account for. -/
structure Beside (es : List Event) (d n : Nat) (r r' : Recv) : Prop where
  chunkRead : r'.chunkRead + n = r.chunkRead + d
  client : r'.client = { r.client with remainBytes := r.client.remainBytes + n }
  globals : r'.globals = r.globals
  log : deeds r'.log = deeds es ++ deeds r.log

/-- The rest of a payload, stored by both calls up to the same byte. -/
lemma store_beside (h : Lags buf' es d n r r') (busy : 0 < r.client.remainBytes)
    (used : Used r.client.headerType)
    (bytes : buf'.read (r.chunkRead + d) m = buf.read r.chunkRead m) :
    Beside es d n (r.store buf len m) (r'.store buf' len' (n + m)) := by
  obtain ⟨log, k, c, g⟩ := r'
  obtain ⟨chunkRead, ⟨b, o, client⟩, globals, logs, -, payload⟩ := h
  obtain ⟨block, offset⟩ := payload busy used
  dsimp only at chunkRead client globals logs block offset
  subst client globals
  dsimp only at block offset
  refine ⟨chunkRead, ?_, rfl, by simpa [deeds] using logs⟩
  rw [← chunkRead] at bytes
  have stored : (b.getD .null).mem.memcpy o buf' k (n + m) =
      (r.client.recvBuffer.getD .null).mem.memcpy r.client.recvOffset buf r.chunkRead m := by
    rw [← Mem.memcpy_congr (r.client.recvBuffer.getD .null).mem _ bytes, block, offset, Mem.memcpy_append]
  simp only [store_client, stored, offset]
  simp [block, Nat.add_assoc]

/-- Behind the payload the two calls are at the same byte. -/
lemma advance_beside (h : Beside es d n r r') :
    Lags buf' es d 0 (r.advance m) (r'.advance (n + m)) := by
  obtain ⟨chunkRead, client, globals, logs⟩ := h
  refine .level ?_ ⟨r.client.recvBuffer, r.client.recvOffset, ?_⟩ globals logs ?_
  · simp only [advance_chunkRead]
    omega
  · simp only [advance_client, client]
    congr 1
    push_cast
    omega
  · intro _ _
    simp [client]

/-- A piece ends inside a payload, and so does the call on all the bytes. -/
lemma part_lags (h : Lags buf' es d n r r') (busy : 0 < r.client.remainBytes)
    (left : len' - r'.chunkRead = n + (len - r.chunkRead))
    (bytes : buf'.read (r.chunkRead + d) (len - r.chunkRead) =
      buf.read r.chunkRead (len - r.chunkRead)) :
    Lags buf' es d 0 (r.part buf len) (r'.part buf' len') := by
  obtain ⟨type, remain⟩ := h.fields
  by_cases ha : Accumulates r.client.headerType
  · rw [part_of_accumulates ha, part_of_accumulates (by rwa [type]), left]
    exact advance_beside (store_beside h busy (.inl ha) bytes)
  · rw [part_of_not_accumulates ha, part_of_not_accumulates (by rwa [type]), left]
    obtain ⟨b, o, client⟩ := h.client
    refine .level ?_ ⟨b, o, ?_⟩ h.globals h.log ?_
    · have chunkRead := h.chunkRead
      simp only [advance_chunkRead]
      omega
    · simp only [advance_client, client]
      congr 1
      push_cast
      omega
    · intro _ used
      -- Of the payloads that are not accumulated only a focus request is used, and it is not cut.
      have focus : r.client.headerType = changeFocusStatus := used.resolve_left ha
      have n_zero : n = 0 := by
        by_contra ne
        exact (h.cut ne).2 focus
      subst n_zero
      simpa using h.payload busy used

/-- The call on all the bytes comes to the end of the last piece. -/
lemma part_catches_up (h : Lags buf' es d n r r') (cut : n ≠ 0) (left : len' - r'.chunkRead = n) :
    Lags buf' es d 0 r (r'.part buf' len') := by
  obtain ⟨type, remain⟩ := h.fields
  obtain ⟨busy, noRequest⟩ := h.cut cut
  obtain ⟨b, o, client⟩ := h.client
  by_cases ha : Accumulates r.client.headerType
  · rw [part_of_accumulates (by rwa [type]), left]
    obtain ⟨block, offset⟩ := h.payload busy (.inl ha)
    refine .level h.chunkRead ⟨some (r.client.recvBuffer.getD .null), r.client.recvOffset, ?_⟩
      h.globals (by simpa [deeds] using h.log) ?_
    · simp only [advance_client, store_client, block, offset, client]
      simp
    · intro _ _
      simp [block, offset]
  · rw [part_of_not_accumulates (by rwa [type]), left]
    refine .level h.chunkRead ⟨b, o, ?_⟩ h.globals h.log ?_
    · simp [client]
    · intro _ used
      exact absurd (used.resolve_left ha) noRequest

/-- A piece ends inside a payload, and the call on all the bytes does not look at it yet. -/
lemma part_falls_behind (h : Lags buf' es d 0 r r') (noRequest : r.client.headerType ≠ changeFocusStatus)
    (busy : 0 < r.client.remainBytes) (short : (len : Int) - r.chunkRead < r.client.remainBytes)
    (bytes : buf'.read (r.chunkRead + d) (len - r.chunkRead) =
      buf.read r.chunkRead (len - r.chunkRead)) :
    Lags buf' es d (len - r.chunkRead) (r.part buf len) r' := by
  obtain ⟨b, o, client⟩ := h.client
  have chunkRead : r'.chunkRead = r.chunkRead + d := h.chunkRead
  have place : r'.chunkRead + (len - r.chunkRead) = r.chunkRead + (len - r.chunkRead) + d := by omega
  by_cases ha : Accumulates r.client.headerType
  · rw [part_of_accumulates ha]
    obtain ⟨block, offset⟩ := h.payload busy (.inl ha)
    simp only [Mem.memcpy_zero] at block
    rw [Nat.add_zero] at offset
    refine ⟨place, ⟨b, o, ?_⟩, h.globals, by simpa [deeds] using h.log, fun _ => ⟨?_, noRequest⟩, ?_⟩
    · simp [client]
    · simp
      omega
    · intro _ _
      rw [← chunkRead] at bytes
      simp [block, offset, Mem.memcpy_congr _ _ bytes]
  · rw [part_of_not_accumulates ha]
    refine ⟨place, ⟨b, o, ?_⟩, h.globals, h.log, fun _ => ⟨?_, noRequest⟩, ?_⟩
    · simp [client]
    · simp
      omega
    · intro _ used
      exact absurd (used.resolve_left ha) noRequest

/-! ## The end of a payload -/

/-- Both calls keep the image, or both throw. -/
lemma keepImage_beside (h : Beside es d n r r')
    (fresh : heap' .jpegBuffer r'.chunkRead = heap .jpegBuffer r.chunkRead) :
    Agree (Beside es d n) (LeftAlike es) (r.keepImage heap) (r'.keepImage heap') := by
  obtain ⟨log, k, c, g⟩ := r'
  obtain ⟨chunkRead, client, globals, logs⟩ := h
  dsimp only at chunkRead client globals logs fresh
  subst client globals
  simp only [keepImage, new_congr fresh]
  cases heap.new .jpegBuffer r.chunkRead ((r.client.recvOffset + 1 : Nat) : Int) with
  | none => exact ⟨rfl, rfl, by simpa [deeds] using logs⟩
  | some b =>
    refine ⟨chunkRead, rfl, rfl, ?_⟩
    simp only [emit_log, deeds_append, logs, List.append_assoc]
    rfl

/-- What is left of the message is nothing to `draw()`. -/
lemma draw_remainBytes (c : Client) (fbp : Mem) (k : Int) : Client.draw tj { c with remainBytes := k } fbp =
    ({ (c.draw tj fbp).1 with remainBytes := k }, (c.draw tj fbp).2) := by
  unfold Client.draw
  by_cases pos : c.jpegOffset > 0
  · simp only [if_pos pos]
    have jpeg : Client.jpeg { c with remainBytes := k } = c.jpeg := rfl
    rw [jpeg]
    cases tj.decompressHeader2 c.jpeg with
    | none =>
      by_cases fits : c.jpegWidth = c.resX ∧ c.jpegHeight = c.resY
      · simp only [if_pos fits]
        rfl
      · simp only [if_neg fits]
    | some q =>
      by_cases fits : q.1 = c.resX ∧ q.2.1 = c.resY
      · simp only [if_pos fits]
        rfl
      · simp only [if_neg fits]
  · simp only [if_neg pos]

/-- `draw` leaves `remainBytes` alone. -/
lemma draw_remainBytes_eq (c : Client) (fbp : Mem) : (c.draw tj fbp).1.remainBytes = c.remainBytes := by
  obtain ⟨w, h, s, drawn⟩ := draw_client tj c fbp
  rw [drawn]

/-- Both calls draw the image, or neither does. -/
lemma drawFocused_beside (h : Beside es d n r r') :
    Beside es d n (r.drawFocused tj) (r'.drawFocused tj) := by
  obtain ⟨log, k, c, g⟩ := r'
  obtain ⟨chunkRead, client, globals, logs⟩ := h
  dsimp only at chunkRead client globals logs
  subst client globals
  unfold drawFocused
  by_cases foc : r.globals.focusFd = r.client.fd
  · simp only [if_pos foc]
    refine ⟨chunkRead, ?_, ?_, ?_⟩
    · simp only [emit_client, draw_remainBytes, draw_remainBytes_eq]
    · simp only [emit, draw_remainBytes]
    · simp only [emit_log, deeds_append, logs, List.append_assoc]
      rfl
  · simp only [if_neg foc]
    exact ⟨chunkRead, rfl, rfl, logs⟩

/-- Both calls keep the name. -/
lemma name_beside (h : Beside es d n r r') : Beside es d n r.name r'.name := by
  obtain ⟨log, k, c, g⟩ := r'
  obtain ⟨chunkRead, client, globals, logs⟩ := h
  dsimp only at chunkRead client globals logs
  subst client globals
  refine ⟨chunkRead, rfl, rfl, ?_⟩
  simp only [name, emit_log, deeds_append, logs, List.append_assoc]
  rfl

/-- Both calls keep the requested id. -/
lemma focus_beside (h : Beside es d n r r') : Beside es d n r.focus r'.focus := by
  obtain ⟨log, k, c, g⟩ := r'
  obtain ⟨chunkRead, client, globals, logs⟩ := h
  dsimp only at chunkRead client globals logs
  subst client globals
  refine ⟨chunkRead, rfl, rfl, ?_⟩
  simp only [focus, emit_log, deeds_append, logs, List.append_assoc]

/-- Both calls complete the payload, or are left early alike. -/
lemma final_lags (h : Lags buf' es d n r r') (busy : 0 < r.client.remainBytes)
    (bytes : buf'.read (r.chunkRead + d) r.client.remainBytes.toNat =
      buf.read r.chunkRead r.client.remainBytes.toNat)
    (fresh : heap' .jpegBuffer r'.chunkRead = heap .jpegBuffer r.chunkRead) :
    Agree (Lags buf' es d 0) (LeftAlike es) (r.final tj heap buf len)
      (r'.final tj heap' buf' len') := by
  obtain ⟨type, remain⟩ := h.fields
  have size : r'.client.remainBytes.toNat = n + r.client.remainBytes.toNat := by
    rw [remain]
    omega
  have stored (used : Used r.client.headerType) :
      Beside es d n (r.store buf len r.client.remainBytes.toNat)
        (r'.store buf' len' (n + r.client.remainBytes.toNat)) := store_beside h busy used bytes
  by_cases hi : r.client.headerType = recvImage
  · rw [final_image hi, final_image (type.trans hi), size]
    have kept : Agree (Beside es d n) (LeftAlike es)
        ((r.store buf len r.client.remainBytes.toNat).keepImage heap)
        ((r'.store buf' len' (n + r.client.remainBytes.toNat)).keepImage heap') :=
      keepImage_beside (stored (.inl (.inl hi))) fresh
    cases hk : (r.store buf len r.client.remainBytes.toNat).keepImage heap with
    | error s =>
      obtain ⟨s', hk', alike⟩ := kept.of_error hk
      rw [hk']
      exact alike
    | ok t =>
      obtain ⟨t', hk', beside⟩ := kept.of_ok hk
      rw [hk']
      exact advance_beside (drawFocused_beside beside)
  · by_cases hn : r.client.headerType = recvName
    · rw [final_name hn, final_name (type.trans hn), size]
      exact advance_beside (name_beside (stored (.inl (.inr hn))))
    · by_cases hf : r.client.headerType = changeFocusStatus
      · rw [final_focus hf, final_focus (type.trans hf), size]
        exact advance_beside (focus_beside (stored (.inr hf)))
      · rw [final_other hi hn hf, final_other (by rwa [type]) (by rwa [type]) (by rwa [type]), size]
        have unused : ¬ Used r.client.headerType := by
          rintro ((image | name) | focus)
          · exact hi image
          · exact hn name
          · exact hf focus
        obtain ⟨b, o, client⟩ := h.client
        have chunkRead := h.chunkRead
        let stored := (r'.store buf' len' (n + r.client.remainBytes.toNat)).client
        refine .level ?_ ⟨stored.recvBuffer, stored.recvOffset, ?_⟩ h.globals
          (by simpa [deeds] using h.log) fun _ used => absurd used unused
        · simp only [advance_chunkRead, store_chunkRead]
          omega
        · simp only [stored, advance_client, store_client, client]
          congr 1
          push_cast
          omega

/-- A round of the call on the piece is a round of the call on all the bytes. -/
lemma round_lags (h : Lags buf' es d n r r') (more : r.chunkRead < len)
    (bytes : ∀ i, buf' (d + i) = buf i) (length : len' = d + len)
    (block : ∀ k, heap' .recvBuffer (k + d + 8) = heap .recvBuffer (k + 8))
    (name : ∀ k, heap' .userName (k + d + 8) = heap .userName (k + 8))
    (image : heap' .jpegBuffer r'.chunkRead = heap .jpegBuffer r.chunkRead) :
    Agree (Lags buf' es d 0) (LeftAlike es) (r.round tj heap buf len)
      (r'.round tj heap' buf' len') := by
  obtain ⟨type, remain⟩ := h.fields
  have chunkRead := h.chunkRead
  have same (k n : Nat) : buf'.read (k + d) n = buf.read k n := by
    apply Mem.read_congr
    intro i _
    rw [← bytes]
    congr 1
    omega
  unfold round
  by_cases boundary : r.client.remainBytes ≤ 0
  · have boundary' : r'.client.remainBytes ≤ 0 := by
      by_contra busy'
      have busy := (h.cut (by omega)).1
      omega
    rw [if_pos boundary, if_pos boundary']
    exact header_lags h boundary (same _ _) (block _) (name _)
  · have busy : 0 < r.client.remainBytes := Int.not_le.mp boundary
    have boundary' : ¬ r'.client.remainBytes ≤ 0 := by omega
    rw [if_neg boundary, if_neg boundary']
    by_cases short : r.client.remainBytes > (len : Int) - r.chunkRead
    · have short' : r'.client.remainBytes > (len' : Int) - r'.chunkRead := by omega
      rw [if_pos short, if_pos short']
      exact part_lags h busy (by omega) (same _ _)
    · have short' : ¬ r'.client.remainBytes > (len' : Int) - r'.chunkRead := by omega
      rw [if_neg short, if_neg short']
      exact final_lags h busy (same _ _) image

/-! ## Two calls and one -/

/-- A round of the first call that does not run into the end of its chunk. -/
lemma round_level (h : Lags buf' [] 0 0 r r') {u : Recv} (hu : r.round tj heap buf len = .ok u)
    (inside : ∀ e ∈ u.log, e.InChunk) (bytes : buf'.read 0 len = buf.read 0 len) (longer : len ≤ len')
    (reaches : r.client.remainBytes ≤ (len : Int) - r.chunkRead)
    (block : ∀ k ≤ len, heap' .recvBuffer k = heap .recvBuffer k)
    (name : ∀ k ≤ len, heap' .userName k = heap .userName k)
    (image : heap' .jpegBuffer r.chunkRead = heap .jpegBuffer r.chunkRead) :
    ∃ u', r'.round tj heap' buf' len' = .ok u' ∧ Lags buf' [] 0 0 u u' := by
  obtain ⟨type, remain⟩ := h.fields
  have chunkRead : r'.chunkRead = r.chunkRead := h.chunkRead
  have agree : Agree (Lags buf' [] 0 0) (LeftAlike []) (r.round tj heap buf len)
      (r'.round tj heap' buf' len') := by
    unfold round at hu ⊢
    by_cases boundary : r.client.remainBytes ≤ 0
    · have boundary' : r'.client.remainBytes ≤ 0 := by omega
      rw [if_pos boundary] at hu
      rw [if_pos boundary, if_pos boundary']
      -- The whole header is in the chunk.
      have room : r.chunkRead + 4 + 4 ≤ len := inside _ (header_reads.of_ok hu).2
      exact header_lags h boundary (Mem.read_of_prefix bytes room) (block _ room) (name _ room)
    · have busy : 0 < r.client.remainBytes := Int.not_le.mp boundary
      have boundary' : ¬ r'.client.remainBytes ≤ 0 := by omega
      have short : ¬ r.client.remainBytes > (len : Int) - r.chunkRead := Int.not_lt.mpr reaches
      have short' : ¬ r'.client.remainBytes > (len' : Int) - r'.chunkRead := by omega
      rw [if_neg boundary, if_neg boundary', if_neg short, if_neg short']
      have room : r.chunkRead + r.client.remainBytes.toNat ≤ len := by omega
      exact final_lags h busy (Mem.read_of_prefix bytes room) (by rwa [chunkRead])
  exact agree.of_ok hu

/-- A round that ends inside a payload. -/
lemma round_short (busy : 0 < r.client.remainBytes)
    (short : (len : Int) - r.chunkRead < r.client.remainBytes) :
    r.round tj heap buf len = .ok (r.part buf len) := by
  rw [Recv.round, if_neg (by omega), if_pos (by omega)]

/-- What such a round leaves of the message. -/
lemma part_fields (r : Recv) (buf : Mem) (len : Nat) :
    (r.part buf len).client.headerType = r.client.headerType ∧
    (r.part buf len).client.remainBytes = r.client.remainBytes - (len - r.chunkRead : Nat) := by
  by_cases ha : Accumulates r.client.headerType
  · rw [part_of_accumulates ha]
    exact ⟨rfl, rfl⟩
  · rw [part_of_not_accumulates ha]
    exact ⟨rfl, rfl⟩

/-- Any other round stays inside its chunk, unless it reads a header that does not. -/
lemma round_within {u : Recv} (hu : r.round tj heap buf len = .ok u) (inside : ∀ e ∈ u.log, e.InChunk)
    (reaches : r.client.remainBytes ≤ (len : Int) - r.chunkRead) : u.chunkRead ≤ len := by
  unfold round at hu
  by_cases boundary : r.client.remainBytes ≤ 0
  · rw [if_pos boundary] at hu
    obtain ⟨read, event⟩ := header_reads.of_ok hu
    have room : r.chunkRead + 4 + 4 ≤ len := inside _ event
    omega
  · rw [if_neg boundary, if_neg (Int.not_lt.mpr reaches)] at hu
    have read := final_chunkRead.of_ok hu
    omega

/-- What was inside the chunk before a round, if everything is behind it. -/
lemma inside_before {u : Recv} (hu : r.round tj heap buf len = .ok u)
    (inside : ∀ e ∈ u.log, e.InChunk) : ∀ e ∈ r.log, e.InChunk := by
  obtain ⟨es, log, -⟩ := (frame_round.of_ok hu).log
  intro e he
  apply inside
  rw [log]
  exact List.mem_append_left _ he

/-- The first call up to a point before the end of its chunk. -/
lemma level_of_visits {c : Client} {g : Globals} (v : Visits tj heap buf len ⟨[], 0, c, g⟩ r)
    (before : r.chunkRead < len) (inside : ∀ e ∈ r.log, e.InChunk)
    (bytes : buf'.read 0 len = buf.read 0 len) (longer : len ≤ len')
    (block : ∀ k ≤ len, heap' .recvBuffer k = heap .recvBuffer k)
    (name : ∀ k ≤ len, heap' .userName k = heap .userName k)
    (image : ∀ k < r.chunkRead, heap' .jpegBuffer k = heap .jpegBuffer k) :
    ∃ r', Visits tj heap' buf' len' ⟨[], 0, c, g⟩ r' ∧ Lags buf' [] 0 0 r r' := by
  induction v with
  | start => exact ⟨_, .start, .level rfl ⟨_, _, rfl⟩ rfl rfl fun _ _ => ⟨rfl, rfl⟩⟩
  | @round t u v hc hb ih =>
    rw [more_eq_true] at hc
    have moved : t.chunkRead < u.chunkRead := (round_chunkRead hc).of_ok hb
    have reaches : t.client.remainBytes ≤ (len : Int) - t.chunkRead := by
      by_contra short
      rw [round_short (by omega) (Int.not_le.mp short), Except.ok.injEq] at hb
      rw [← hb, part_chunkRead] at before
      omega
    obtain ⟨t', v', lags⟩ := ih hc (inside_before hb inside) fun k lt => image k (by omega)
    obtain ⟨u', hu', lags'⟩ :=
      round_level lags hb inside bytes longer reaches block name (image _ moved)
    have place : t'.chunkRead = t.chunkRead := lags.chunkRead
    exact ⟨u', .round v' (more_eq_true.mpr (by omega)) hu', lags'⟩

/-- Where the call on all the bytes is when the first call returns: it still has the part of a payload
before it that the first chunk ends with. -/
lemma begins_of_visits {c : Client} {g : Globals} (v : Visits tj heap buf len ⟨[], 0, c, g⟩ r)
    (used : len ≤ r.chunkRead) (inside : ∀ e ∈ r.log, e.InChunk)
    (whole : 0 < r.client.remainBytes → r.client.headerType ≠ changeFocusStatus)
    (bytes : buf'.read 0 len = buf.read 0 len) (longer : len ≤ len') :
    r.chunkRead = len ∧ ∃ image ≤ len, ∀ heap' : Heap,
      (∀ k ≤ len, heap' .recvBuffer k = heap .recvBuffer k) →
      (∀ k ≤ len, heap' .userName k = heap .userName k) →
      (∀ k < image, heap' .jpegBuffer k = heap .jpegBuffer k) →
      ∃ n r', Visits tj heap' buf' len' ⟨[], 0, c, g⟩ r' ∧ Lags buf' [] 0 n r r' ∧
        image ≤ r'.chunkRead := by
  cases v with
  | start =>
    refine ⟨Nat.le_antisymm (Nat.zero_le _) used, 0, Nat.zero_le _, fun heap' _ _ _ => ?_⟩
    exact ⟨0, _, .start, .level rfl ⟨_, _, rfl⟩ rfl rfl fun _ _ => ⟨rfl, rfl⟩, Nat.zero_le _⟩
  | @round t _ v hc hb =>
    rw [more_eq_true] at hc
    have earlier := inside_before hb inside
    by_cases short : (len : Int) - t.chunkRead < t.client.remainBytes
    · have busy : 0 < t.client.remainBytes := by omega
      rw [round_short busy short, Except.ok.injEq] at hb
      subst hb
      obtain ⟨type, remain⟩ := part_fields t buf len
      have noRequest : t.client.headerType ≠ changeFocusStatus := by
        rw [← type]
        exact whole (by omega)
      refine ⟨by rw [part_chunkRead]; omega, t.chunkRead, by omega, fun heap' block name image => ?_⟩
      obtain ⟨t', v', lags⟩ := level_of_visits v hc earlier bytes longer block name image
      have place : t'.chunkRead = t.chunkRead := lags.chunkRead
      have room : t.chunkRead + (len - t.chunkRead) ≤ len := by omega
      exact ⟨_, t', v', part_falls_behind lags noRequest busy short (Mem.read_of_prefix bytes room),
        by omega⟩
    · have reaches : t.client.remainBytes ≤ (len : Int) - t.chunkRead := Int.not_lt.mp short
      have place : r.chunkRead = len := Nat.le_antisymm (round_within hb inside reaches) used
      refine ⟨place, len, Nat.le_refl _, fun heap' block name image => ?_⟩
      obtain ⟨t', v', lags⟩ :=
        level_of_visits v hc earlier bytes longer block name fun k lt => image k (by omega)
      obtain ⟨r', hr', lags'⟩ :=
        round_level lags hb inside bytes longer reaches block name (image _ hc)
      have before : t'.chunkRead = t.chunkRead := lags.chunkRead
      have behind : r'.chunkRead = r.chunkRead := lags'.chunkRead
      exact ⟨0, r', .round v' (more_eq_true.mpr (by omega)) hr', lags', by omega⟩

/-- Both calls have returned, and their objects go on alike. -/
structure Joined (es : List Event) (r r' : Recv) : Prop where
  client : r.client.Equivalent r'.client
  globals : r'.globals = r.globals
  log : deeds r'.log = deeds es ++ deeds r.log

/-- Two calls at the same byte go on alike. -/
lemma Lags.joined (h : Lags buf es d 0 r r') : Joined es r r' where
  client := by
    obtain ⟨b, o, client⟩ := h.client
    refine ⟨⟨b, o, by simpa using client⟩, fun busy used => ?_⟩
    obtain ⟨block, offset⟩ := h.payload busy used
    rw [block, offset]
    simp
  globals := h.globals
  log := h.log

/-- The call on all the bytes, from where it is when the first call returns. -/
lemma ends_of_visits {c : Client} {g : Globals} {image : Nat}
    (v : Visits tj heap' buf' len' ⟨[], 0, c, g⟩ r') (h : Lags buf' [] 0 n r r')
    (used : r.chunkRead = d) (later : image ≤ r'.chunkRead) (bytes : ∀ i, buf' (d + i) = buf i)
    (length : len' = d + len)
    (block : ∀ k, heap' .recvBuffer (k + d + 8) = heap .recvBuffer (k + 8))
    (name : ∀ k, heap' .userName (k + d + 8) = heap .userName (k + 8))
    (fresh : ∀ k, image ≤ k → heap' .jpegBuffer k = heap .jpegBuffer (k - d)) :
    Agree (Joined r.log) (LeftAlike r.log) (r.client.receive tj heap r.globals buf len)
      (c.receive tj heap' g buf' len') := by
  have start : Lags buf' r.log d n ⟨[], 0, r.client, r.globals⟩ r' :=
    ⟨by simpa [used] using h.chunkRead, h.client, h.globals, by simpa using h.log, h.cut, h.payload⟩
  have round {t t' : Recv} {n : Nat} (lags : Lags buf' r.log d n t t') (later : image ≤ t'.chunkRead)
      (first : n ≠ 0 → t.chunkRead = 0) (more : t.chunkRead < len) :
      Agree (Lags buf' r.log d 0) (LeftAlike r.log) (t.round tj heap buf len)
        (t'.round tj heap' buf' len') := by
    have chunkRead := lags.chunkRead
    have place : t'.chunkRead - d = t.chunkRead := by
      by_cases behind : n = 0
      · omega
      · have := first behind
        omega
    exact round_lags lags more bytes length block name ((fresh _ later).trans (by rw [place]))
  have follows {t : Recv} (w : Visits tj heap buf len ⟨[], 0, r.client, r.globals⟩ t) :
      ∃ n t', Visits tj heap' buf' len' ⟨[], 0, c, g⟩ t' ∧ Lags buf' r.log d n t t' ∧
        (n ≠ 0 → t.chunkRead = 0) ∧ image ≤ t'.chunkRead := by
    apply w.invariant
    case init => exact ⟨n, r', v, start, fun _ => rfl, later⟩
    case keeps =>
      rintro t u _ ⟨n, t', v', lags, first, later⟩ more hu
      rw [more_eq_true] at more
      obtain ⟨u', hu', lags'⟩ := (round lags later first more).of_ok hu
      have chunkRead := lags.chunkRead
      have more' : t'.chunkRead < len' := by omega
      have moved := (round_chunkRead more').of_ok hu'
      exact ⟨0, u', .round v' (more_eq_true.mpr more') hu', lags', fun ne => absurd rfl ne, by omega⟩
  cases hu : r.client.receive tj heap r.globals buf len with
  | ok u =>
    obtain ⟨w, done⟩ := (receive_visits ..).of_ok hu
    obtain ⟨n, u', v', lags, first, later'⟩ := follows w
    have chunkRead := lags.chunkRead
    by_cases level : n = 0
    · subst level
      rw [receive_of_end v' (by omega)]
      exact lags.joined
    · -- The second chunk is empty, and the call on all the bytes has the end of the first one to read.
      have place := first level
      obtain ⟨_, remain⟩ := lags.fields
      have busy := (lags.cut level).1
      have part : u'.round tj heap' buf' len' = .ok (u'.part buf' len') :=
        round_short (by omega) (by omega)
      have caught : Lags buf' r.log d 0 u (u'.part buf' len') :=
        part_catches_up lags level (by omega)
      have last : len' ≤ (u'.part buf' len').chunkRead := by
        rw [part_chunkRead]
        omega
      rw [receive_of_end (.round v' (more_eq_true.mpr (by omega)) part) last]
      exact caught.joined
  | error s =>
    obtain ⟨t, w, more, hs⟩ := (receive_visits ..).of_error hu
    obtain ⟨n, t', v', lags, first, later'⟩ := follows w
    obtain ⟨s', hs', alike⟩ := (round lags later' first more).of_error hs
    have chunkRead := lags.chunkRead
    rw [receive_of_error v' (by omega) hs']
    exact alike

end Recv

/-- The blocks of a call on two chunks: those of the first call, up to where it is in an image when it
returns, and then those of the second one. -/
def Heap.splice (x y : Heap) (len image : Nat) : Heap
  | .recvBuffer, k => if k ≤ len then x .recvBuffer k else y .recvBuffer (k - len)
  | .userName, k => if k ≤ len then x .userName k else y .userName (k - len)
  | .jpegBuffer, k => if k < image then x .jpegBuffer k else y .jpegBuffer (k - len)

/-- Every block is one of either call. -/
lemma Heap.splice_mem (x y : Heap) (len image : Nat) (site : Site) (k : Nat) :
    ∃ k', x.splice y len image site k = x site k' ∨ x.splice y len image site k = y site k' := by
  cases site with
  | jpegBuffer =>
    by_cases first : k < image
    · exact ⟨k, .inl (if_pos first)⟩
    · exact ⟨k - len, .inr (if_neg first)⟩
  | _ =>
    by_cases first : k ≤ len
    · exact ⟨k, .inl (if_pos first)⟩
    · exact ⟨k - len, .inr (if_neg first)⟩

/-- A call that ends between two messages, or in a payload that can be resumed, and that looked at no byte
behind its chunk. -/
structure Recv.WellCut (r : Recv) : Prop where
  inside : ∀ e ∈ r.log, e.InChunk
  resumable : 0 < r.client.remainBytes → r.client.headerType ≠ changeFocusStatus

instance (r : Recv) : Decidable r.WellCut :=
  decidable_of_iff ((∀ e ∈ r.log, e.InChunk) ∧
    (0 < r.client.remainBytes → r.client.headerType ≠ changeFocusStatus))
    ⟨fun ⟨i, w⟩ => ⟨i, w⟩, fun ⟨i, w⟩ => ⟨i, w⟩⟩

section calls

variable {tj : TurboJpeg} {c : Client} {g : Globals} {r : Recv} {x : Piece} {buf : Mem}

/-- Two calls, one after the other, are one call on all the bytes. -/
lemma receive_joins (hr : c.receive tj x.heap g x.buf x.len = .ok r) (cut : r.WellCut)
    (bytes : buf.read 0 x.len = x.data) (heap : Heap) (len : Nat) :
    ∃ heap', (∀ site k, ∃ k', heap' site k = x.heap site k' ∨ heap' site k = heap site k') ∧
      Agree (Recv.Joined r.log) (Recv.LeftAlike r.log)
        (r.client.receive tj heap r.globals (fun i => buf (x.len + i)) len)
        (c.receive tj heap' g buf (x.len + len)) := by
  obtain ⟨v, used⟩ := (receive_visits ..).of_ok hr
  obtain ⟨place, image, le, begins⟩ :=
    Recv.begins_of_visits v used cut.inside cut.resumable bytes (Nat.le_add_right x.len len)
  refine ⟨x.heap.splice heap x.len image, x.heap.splice_mem heap x.len image, ?_⟩
  obtain ⟨n, r', v', lags, later⟩ := begins (x.heap.splice heap x.len image) (fun k le => if_pos le)
    (fun k le => if_pos le) (fun k lt => if_pos lt)
  apply Recv.ends_of_visits v' lags place later (fun _ => rfl) rfl
  · intro k
    have behind : ¬ k + x.len + 8 ≤ x.len := by omega
    have place : k + x.len + 8 - x.len = k + 8 := by omega
    rw [Heap.splice, if_neg behind, place]
  · intro k
    have behind : ¬ k + x.len + 8 ≤ x.len := by omega
    have place : k + x.len + 8 - x.len = k + 8 := by omega
    rw [Heap.splice, if_neg behind, place]
  · intro k ge
    exact if_neg (Nat.not_lt.mpr ge)

end calls

end Projector
