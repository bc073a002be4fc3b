import Projector.Server.Receive

/-!
# What a call of `receive` may touch

For any object, any bytes and any heap: a call of `receive` keeps the descriptor and the id of its object,
the focus and the user count; the frame buffer changes only when the object has the focus; `ready_fd`
becomes the id of the last focus request that was completed. `Frame` is this relation between two points
of a call, and every branch of the loop is in it.
-/

namespace Projector

/-- From one point of a call of `receive` to a later one. -/
structure Frame (r r' : Recv) : Prop where
  fd : r'.client.fd = r.client.fd
  userID : r'.client.userID = r.client.userID
  focusFd : r'.globals.focusFd = r.globals.focusFd
  userCount : r'.globals.userCount = r.globals.userCount
  fbp : r.globals.focusFd ≠ r.client.fd → r'.globals.fbp = r.globals.fbp
  log : ∃ es, r'.log = r.log ++ es ∧
    r'.globals.readyFd = (requests es).getLastD r.globals.readyFd ∧
    (r.globals.focusFd ≠ r.client.fd → draws es = [])

namespace Frame

variable {r r' r'' : Recv}

/-- Nothing happens between a point and itself. -/
lemma refl (r : Recv) : Frame r r where
  fd := rfl
  userID := rfl
  focusFd := rfl
  userCount := rfl
  fbp := fun _ => rfl
  log := ⟨[], by simp, rfl, fun _ => rfl⟩

/-- One part of the call after the other. -/
lemma trans (h : Frame r r') (h' : Frame r' r'') : Frame r r'' where
  fd := h'.fd.trans h.fd
  userID := h'.userID.trans h.userID
  focusFd := h'.focusFd.trans h.focusFd
  userCount := h'.userCount.trans h.userCount
  fbp := fun ne => by rw [h'.fbp (by rwa [h.focusFd, h.fd]), h.fbp ne]
  log := by
    obtain ⟨es, hl, hr, hd⟩ := h.log
    obtain ⟨es', hl', hr', hd'⟩ := h'.log
    refine ⟨es ++ es', by rw [hl', hl, List.append_assoc], ?_, fun ne => ?_⟩
    · rw [hr', hr, requests_append, getLastD_append]
    · rw [draws_append, hd ne, hd' (by rwa [h.focusFd, h.fd]), List.append_nil]

/-- A part that neither draws nor requests, and leaves the globals alone. -/
lemma quiet (es : List Event) (fd : r'.client.fd = r.client.fd)
    (userID : r'.client.userID = r.client.userID) (globals : r'.globals = r.globals)
    (log : r'.log = r.log ++ es) (noRequest : requests es = []) (noDraw : draws es = []) :
    Frame r r' where
  fd := fd
  userID := userID
  focusFd := by rw [globals]
  userCount := by rw [globals]
  fbp := fun _ => by rw [globals]
  log := ⟨es, log, by rw [noRequest, globals]; rfl, fun _ => noDraw⟩

end Frame

namespace Recv

variable {tj : TurboJpeg} {heap : Heap} {buf : Mem} {len n : Nat} {r : Recv}

/-- Reading on, with an object of the same descriptor and id. -/
lemma frame_emit {c : Client} (k : Nat) (es : List Event) (fd : c.fd = r.client.fd)
    (userID : c.userID = r.client.userID) (noRequest : requests es = []) (noDraw : draws es = []) :
    Frame r ({ r with chunkRead := k, client := c }.emit es) :=
  .quiet es fd userID rfl rfl noRequest noDraw

/-- Allocating the receive buffer. -/
lemma frame_newRecvBuffer :
    Post (Frame r) (fun s => Frame r s.recv) (r.newRecvBuffer heap) := by
  apply newRecvBuffer_rule
  case empty => exact fun _ => .refl r
  case thrown => exact fun _ _ => .quiet _ rfl rfl rfl rfl rfl rfl
  case found => exact fun _ _ _ => .quiet _ rfl rfl rfl rfl rfl rfl

/-- Allocating the name buffer. -/
lemma frame_newUserName : Post (Frame r) (fun s => Frame r s.recv) (r.newUserName heap) := by
  apply newUserName_rule
  case other => exact fun _ => .refl r
  case thrown => exact fun _ _ => .quiet _ rfl rfl rfl rfl rfl rfl
  case found => exact fun _ _ _ => .quiet _ rfl rfl rfl rfl rfl rfl

/-- The header branch. -/
lemma frame_header : Post (Frame r) (fun s => Frame r s.recv) (r.header heap buf len) := by
  apply header_rule (M := Frame r)
  case invalid => exact fun _ _ _ _ _ => frame_emit _ _ rfl rfl rfl rfl
  case valid =>
    intro type length _ _ _
    have entered := frame_emit (r := r)
      (c := { r.client with
        headerType := type, headerLength := length, remainBytes := length, recvOffset := 0 })
      (r.chunkRead + 8) [.bufRead r.chunkRead 4 len, .bufRead (r.chunkRead + 4) 4 len] rfl rfl rfl rfl
    apply frame_newRecvBuffer.mono
    · intro r' h
      exact entered.trans h
    · intro s h
      exact entered.trans h
  case name =>
    intro r1 h1
    apply frame_newUserName.mono
    · intro r2 h2
      exact h1.trans h2
    · intro s h2
      exact h1.trans h2

/-- A store into the receive buffer. -/
lemma frame_store : Frame r (r.store buf len n) :=
  .quiet _ rfl rfl rfl rfl rfl rfl

/-- Reading on. -/
lemma frame_advance : Frame r (r.advance n) :=
  .quiet [] rfl rfl rfl (List.append_nil _).symm rfl rfl

/-- A piece that does not end the payload. -/
lemma frame_part : Frame r (r.part buf len) := by
  by_cases ha : Accumulates r.client.headerType
  · rw [part_of_accumulates ha]
    exact frame_store.trans frame_advance
  · rw [part_of_not_accumulates ha]
    exact frame_advance

/-- Keeping an image. -/
lemma frame_keepImage : Post (Frame r) (fun s => Frame r s.recv) (r.keepImage heap) := by
  apply keepImage_rule
  case thrown => exact fun _ => .quiet _ rfl rfl rfl rfl rfl rfl
  case found =>
    rintro b c _ rfl
    exact .quiet _ rfl rfl rfl rfl (by simp [requests]) rfl

/-- Drawing happens only with the focus. -/
lemma frame_drawFocused : Frame r (r.drawFocused tj) := by
  unfold drawFocused
  by_cases foc : r.globals.focusFd = r.client.fd
  · simp only [if_pos foc]
    -- The only branch that writes to the screen.
    obtain ⟨w, h, s, hd⟩ := draw_client tj r.client r.globals.fbp
    exact ⟨by simp [hd], by simp [hd], rfl, rfl, fun ne => absurd foc ne,
      _, rfl, rfl, fun ne => absurd foc ne⟩
  · simp only [if_neg foc]
    exact .refl r

/-- Keeping a name. -/
lemma frame_name : Frame r r.name :=
  .quiet _ rfl rfl rfl rfl (by simp [requests]) rfl

/-- A focus request stores into `ready_fd`. -/
lemma frame_focus : Frame r r.focus where
  fd := by rw [focus_client]
  userID := by rw [focus_client]
  focusFd := by rw [focus_globals]
  userCount := by rw [focus_globals]
  fbp := fun _ => by rw [focus_globals]
  log := ⟨_, rfl, by simp [requests], fun _ => by simp [draws]⟩

/-- The end of a payload. -/
lemma frame_final : Post (Frame r) (fun s => Frame r s.recv) (r.final tj heap buf len) := by
  apply final_rule
  case image =>
    intro _
    apply frame_keepImage.mono
    · intro t kept
      exact ((frame_store.trans kept).trans frame_drawFocused).trans frame_advance
    · intro s kept
      exact frame_store.trans kept
  case name => exact fun _ => (frame_store.trans frame_name).trans frame_advance
  case focus => exact fun _ => (frame_store.trans frame_focus).trans frame_advance
  case other => exact fun _ _ _ => frame_store.trans frame_advance

/-- A round of the loop. -/
lemma frame_round : Post (Frame r) (fun s => Frame r s.recv) (r.round tj heap buf len) := by
  apply round_rule
  case header => exact fun _ => frame_header
  case part => exact fun _ _ => frame_part
  case final => exact fun _ _ => frame_final

/-- Keeping an image reads nothing. -/
lemma keepImage_chunkRead :
    Post (fun t => t.chunkRead = r.chunkRead) (fun _ => True) (r.keepImage heap) := by
  apply keepImage_rule
  case thrown => exact fun _ => trivial
  case found => exact fun _ _ _ _ => rfl

/-- Drawing reads nothing. -/
lemma drawFocused_chunkRead : (r.drawFocused tj).chunkRead = r.chunkRead := by
  unfold drawFocused
  split <;> rfl

/-- The end of a payload moves the read position behind it. -/
lemma final_chunkRead : Post (fun t => t.chunkRead = r.chunkRead + r.client.remainBytes.toNat)
    (fun _ => True) (r.final tj heap buf len) := by
  apply final_rule
  case image =>
    intro _
    apply keepImage_chunkRead.mono _ (fun _ _ => trivial)
    intro t kept
    rw [advance_chunkRead, drawFocused_chunkRead, kept, store_chunkRead]
  case name => exact fun _ => rfl
  case focus => exact fun _ => rfl
  case other => exact fun _ _ _ => rfl

/-- Every round reads on. -/
lemma round_chunkRead (more : r.chunkRead < len) :
    Post (fun t => r.chunkRead < t.chunkRead) (fun _ => True) (r.round tj heap buf len) := by
  apply round_rule
  case header =>
    intro _
    apply header_reads.mono _ (fun _ _ => trivial)
    rintro t ⟨read, _⟩
    omega
  case part =>
    intro _ _
    rw [part_chunkRead]
    omega
  case final =>
    intro busy _
    apply final_chunkRead.mono _ (fun _ _ => trivial)
    intro t read
    omega

end Recv

/-- A call of `receive` uses its whole chunk unless it is left early, and stays in its frame. -/
theorem receive_frame (tj : TurboJpeg) (heap : Heap) (c : Client) (g : Globals) (buf : Mem)
    (len : Nat) :
    Post (fun r => Frame ⟨[], 0, c, g⟩ r ∧ len ≤ r.chunkRead)
      (fun s => Frame ⟨[], 0, c, g⟩ s.recv) (c.receive tj heap g buf len) := by
  have rule : Post (fun r => Frame ⟨[], 0, c, g⟩ r ∧ Recv.more len r = false)
      (fun s => Frame ⟨[], 0, c, g⟩ s.recv) (c.receive tj heap g buf len) := by
    apply iterate_rule _ _ (fun r => len - r.chunkRead) _ _ (Frame.refl _) (by simp)
    · intro r _ more
      rw [Recv.more_eq_true] at more
      omega
    · intro r f more
      rw [Recv.more_eq_true] at more
      cases hr : r.round tj heap buf len with
      | error s => exact f.trans (Recv.frame_round.of_error hr)
      | ok t =>
        -- The measure: every round moves `chunkRead` on.
        have reads := (Recv.round_chunkRead more).of_ok hr
        exact ⟨f.trans (Recv.frame_round.of_ok hr), by omega⟩
  apply rule.mono _ (fun _ h => h)
  rintro r ⟨f, done⟩
  exact ⟨f, by rwa [Recv.more_eq_false] at done⟩

end Projector
