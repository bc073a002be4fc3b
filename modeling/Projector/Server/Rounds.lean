import Projector.Server.Frame

/-!
# The rounds of a call of `receive`

`Recv.Visits` says which points a call of `receive` comes to, at the head of its loop. A call ends at one
of them with its chunk used up, or in the round that starts at one (`receive_visits`), and each value of
`chunkRead` belongs to one point at most (`Recv.Visits.unique`). What holds of every round holds of the
call by `Visits.invariant`.
-/

namespace Projector

namespace Recv

/-- The points at the head of the loop that a call comes to from `r` on. -/
abbrev Visits (tj : TurboJpeg) (heap : Heap) (buf : Mem) (len : Nat) (r : Recv) : Recv → Prop :=
  Projector.Visits (more len) (round tj heap buf len) r

/-- The round that starts here completes a message with a payload. -/
structure Completes (len : Nat) (r : Recv) : Prop where
  payload : 0 < r.client.remainBytes
  whole : r.client.remainBytes ≤ (len : Int) - r.chunkRead

variable {tj : TurboJpeg} {heap : Heap} {buf : Mem} {len : Nat} {r : Recv}

/-- What is left of the chunk is the measure of the loop. -/
lemma left_pos (t : Recv) (h : more len t = true) : 0 < len - t.chunkRead := by
  rw [more_eq_true] at h
  omega

/-- Every round leaves fewer bytes of the chunk. -/
lemma left_lt (t u : Recv) (h : more len t = true) (hr : t.round tj heap buf len = .ok u) :
    len - u.chunkRead < len - t.chunkRead := by
  rw [more_eq_true] at h
  have reads := (round_chunkRead h).of_ok hr
  omega

/-- A call is at each place of its chunk at most once, and behind the chunk at one place only. -/
lemma Visits.unique {t t' : Recv} (v : Visits tj heap buf len r t) (v' : Visits tj heap buf len r t')
    (same : len - t.chunkRead = len - t'.chunkRead) : t = t' :=
  Projector.Visits.unique (fun t => len - t.chunkRead) left_lt v v' same

/-- One round. -/
lemma Visits.single {t : Recv} (more : r.chunkRead < len) (h : r.round tj heap buf len = .ok t) :
    Visits tj heap buf len r t :=
  .round .start (more_eq_true.mpr more) h

/-- Preparing the receive buffer leaves the globals alone. -/
lemma newRecvBuffer_globals :
    Post (fun u => u.globals = r.globals) (fun s => s.recv.globals = r.globals)
      (r.newRecvBuffer heap) := by
  apply newRecvBuffer_rule
  case empty => exact fun _ => rfl
  case thrown => exact fun _ _ => rfl
  case found => exact fun _ _ _ => rfl

/-- Preparing the name buffer leaves the globals alone. -/
lemma newUserName_globals :
    Post (fun u => u.globals = r.globals) (fun s => s.recv.globals = r.globals)
      (r.newUserName heap) := by
  apply newUserName_rule
  case other => exact fun _ => rfl
  case thrown => exact fun _ _ => rfl
  case found => exact fun _ _ _ => rfl

/-- A header leaves the globals alone. -/
lemma header_globals :
    Post (fun u => u.globals = r.globals) (fun s => s.recv.globals = r.globals)
      (r.header heap buf len) := by
  apply header_rule (M := fun u => u.globals = r.globals)
  case invalid => exact fun _ _ _ _ _ => rfl
  case valid => exact fun _ _ _ _ _ => newRecvBuffer_globals
  case name =>
    intro u hu
    apply newUserName_globals.mono
    · intro t ht
      exact ht.trans hu
    · intro s hs
      exact hs.trans hu

/-- A piece that does not reach the end of its payload leaves the globals alone. -/
lemma part_globals : (r.part buf len).globals = r.globals := by
  by_cases ha : Accumulates r.client.headerType
  · rw [part_of_accumulates ha, advance_globals, store_globals]
  · rw [part_of_not_accumulates ha, advance_globals]

/-- Keeping an image leaves the globals alone. -/
lemma keepImage_globals :
    Post (fun u => u.globals = r.globals) (fun s => s.recv.globals = r.globals)
      (r.keepImage heap) := by
  apply keepImage_rule
  case thrown => exact fun _ => rfl
  case found => exact fun _ _ _ _ => rfl

/-- Drawing leaves `ready_fd` alone. -/
lemma drawFocused_readyFd : (r.drawFocused tj).globals.readyFd = r.globals.readyFd := by
  unfold drawFocused
  split <;> rfl

/-- Only the end of a focus request stores into `ready_fd`. -/
lemma final_readyFd (h : r.client.headerType ≠ changeFocusStatus) :
    Post (fun u => u.globals.readyFd = r.globals.readyFd)
      (fun s => s.recv.globals.readyFd = r.globals.readyFd) (r.final tj heap buf len) := by
  apply final_rule
  case image =>
    intro _
    apply keepImage_globals.mono
    · intro t kept
      rw [advance_globals, drawFocused_readyFd, kept, store_globals]
    · intro s kept
      rw [kept, store_globals]
  case name => exact fun _ => rfl
  case focus => exact fun hf => absurd hf h
  case other => exact fun _ _ _ => rfl

/-- A round stores into `ready_fd` only when it completes a focus request. -/
lemma round_readyFd (quiet : ¬ (r.client.headerType = changeFocusStatus ∧ r.Completes len)) :
    Post (fun u => u.globals.readyFd = r.globals.readyFd)
      (fun s => s.recv.globals.readyFd = r.globals.readyFd) (r.round tj heap buf len) := by
  apply round_rule
  case header =>
    intro _
    exact header_globals.mono (fun _ => congrArg Globals.readyFd)
      (fun _ => congrArg Globals.readyFd)
  case part => exact fun _ _ => congrArg Globals.readyFd part_globals
  case final => exact fun pos whole => final_readyFd fun e => quiet ⟨e, pos, whole⟩

/-- The header at the place of the chunk where the call is has a type that is not valid. -/
def InvalidHeader (buf : Mem) (r : Recv) : Prop :=
  intOfBytes (buf.read r.chunkRead 4) > 10 ∨ intOfBytes (buf.read r.chunkRead 4) < 0

/-- Only `new` can fail where the receive buffer is allocated. -/
lemma newRecvBuffer_exit :
    Post (fun _ => True) (fun s => s.exit = .badAlloc) (r.newRecvBuffer heap) := by
  apply newRecvBuffer_rule
  case empty => exact fun _ => trivial
  case thrown => exact fun _ _ => rfl
  case found => exact fun _ _ _ => trivial

/-- Only `new` can fail where the name buffer is allocated. -/
lemma newUserName_exit :
    Post (fun _ => True) (fun s => s.exit = .badAlloc) (r.newUserName heap) := by
  apply newUserName_rule
  case other => exact fun _ => trivial
  case thrown => exact fun _ _ => rfl
  case found => exact fun _ _ _ => trivial

/-- A header is taken for valid or not by its type alone. -/
lemma header_exit :
    Post (fun _ => ¬ InvalidHeader buf r) (fun s => s.exit = .invalidHeader ↔ InvalidHeader buf r)
      (r.header heap buf len) := by
  apply header_rule (M := fun _ => ¬ InvalidHeader buf r)
  case invalid =>
    rintro type length rfl _ invalid
    exact ⟨fun _ => invalid, fun _ => rfl⟩
  case valid =>
    rintro type length rfl _ valid
    apply newRecvBuffer_exit.mono (fun _ _ => valid)
    intro s bad
    simp [bad, InvalidHeader, valid]
  case name =>
    intro t valid
    apply newUserName_exit.mono (fun _ _ => valid)
    intro s bad
    simp [bad, valid]

/-- The end of a payload fails only for want of memory. -/
lemma final_exit :
    Post (fun _ => True) (fun s => s.exit = .badAlloc) (r.final tj heap buf len) := by
  apply final_rule
  case image =>
    intro _
    apply keepImage_rule
    case thrown => exact fun _ => rfl
    case found => exact fun _ _ _ _ => trivial
  case name => exact fun _ => trivial
  case focus => exact fun _ => trivial
  case other => exact fun _ _ _ => trivial

/-- A round gives up with -1 only at a header that is not valid. -/
lemma round_exit :
    Post (fun _ => True)
      (fun s => s.exit = .invalidHeader → r.client.remainBytes ≤ 0 ∧ InvalidHeader buf r)
      (r.round tj heap buf len) := by
  apply round_rule
  case header =>
    intro boundary
    exact header_exit.mono (fun _ _ => trivial) fun _ h e => ⟨boundary, h.mp e⟩
  case part => exact fun _ _ => trivial
  case final =>
    intro _ _
    apply final_exit.mono (fun _ h => h)
    intro s bad e
    simp [bad] at e

end Recv

/-- A call of `receive` ends at a point it comes to, its chunk used up, or in the round from there. -/
theorem receive_visits (tj : TurboJpeg) (heap : Heap) (c : Client) (g : Globals) (buf : Mem)
    (len : Nat) :
    Post (fun r => Recv.Visits tj heap buf len ⟨[], 0, c, g⟩ r ∧ len ≤ r.chunkRead)
      (fun s => ∃ t, Recv.Visits tj heap buf len ⟨[], 0, c, g⟩ t ∧ t.chunkRead < len ∧
        t.round tj heap buf len = .error s)
      (c.receive tj heap g buf len) := by
  apply (iterate_visits (fun t : Recv => len - t.chunkRead) Recv.left_pos Recv.left_lt
    (by simp)).mono
  · rintro r ⟨v, stop⟩
    exact ⟨v, Recv.more_eq_false.mp stop⟩
  · rintro s ⟨t, v, more, hs⟩
    exact ⟨t, v, Recv.more_eq_true.mp more, hs⟩

/-- What every round keeps the call keeps. -/
lemma receive_keeps {tj : TurboJpeg} {heap : Heap} {c : Client} {g : Globals} {buf : Mem} {len : Nat}
    {I : Recv → Prop} {E : Stop → Prop} (init : I ⟨[], 0, c, g⟩)
    (keeps : ∀ t, Recv.Visits tj heap buf len ⟨[], 0, c, g⟩ t → I t → t.chunkRead < len →
      Post I E (t.round tj heap buf len)) : Post I E (c.receive tj heap g buf len) := by
  have visited {t : Recv} (v : Recv.Visits tj heap buf len ⟨[], 0, c, g⟩ t) : I t :=
    v.rule init fun t vt inv more => keeps t vt inv (Recv.more_eq_true.mp more)
  apply (receive_visits tj heap c g buf len).mono
  · rintro r ⟨v, _⟩
    exact visited v
  · rintro s ⟨t, v, more, hs⟩
    exact (keeps t v (visited v) more).of_error hs

/-- A round that leaves the call is the end of it. -/
theorem receive_of_error {tj : TurboJpeg} {heap : Heap} {c : Client} {g : Globals} {buf : Mem}
    {len : Nat} {t : Recv} {s : Stop} (v : Recv.Visits tj heap buf len ⟨[], 0, c, g⟩ t)
    (more : t.chunkRead < len) (hs : t.round tj heap buf len = .error s) :
    c.receive tj heap g buf len = .error s := by
  have rest : c.receive tj heap g buf len =
      iterate (Recv.more len) (Recv.round tj heap buf len) (len + 1) t :=
    iterate_of_visits (fun t : Recv => len - t.chunkRead) Recv.left_pos Recv.left_lt v (by simp)
      (by omega)
  rw [rest, iterate_of_true (Recv.more_eq_true.mpr more), hs]
  rfl

/-- A point behind the chunk is the end of the call. -/
lemma receive_of_end {tj : TurboJpeg} {heap : Heap} {c : Client} {g : Globals} {buf : Mem} {len : Nat}
    {t : Recv} (v : Recv.Visits tj heap buf len ⟨[], 0, c, g⟩ t) (used : len ≤ t.chunkRead) :
    c.receive tj heap g buf len = .ok t := by
  have rest : c.receive tj heap g buf len =
      iterate (Recv.more len) (Recv.round tj heap buf len) len t :=
    iterate_of_visits (fun t : Recv => len - t.chunkRead) Recv.left_pos Recv.left_lt v (by simp)
      (by omega)
  rw [rest, iterate_of_false (Recv.more_eq_false.mpr used)]

end Projector
