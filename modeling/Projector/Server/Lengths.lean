import Mathlib.Data.List.Chain
import Projector.Server.Client
import Projector.Server.Follow
import Projector.Server.Rounds

/-!
# Lengths that a peer makes up

The length of a header is any `int`. It goes into the size of two blocks, each of which gets a terminator
at its end, and into `remainBytes`. `Contained` says that these stay in bounds and that a negative length
ends the call with -1; `contained_iff` says when they do: a negative length is accepted like any other, and
the largest one wraps.
-/

namespace Projector

/-- A store right behind the allocation of a block is inside that block. -/
def Event.Terminates : Event → Event → Prop
  | .new site size, .write site' size' off n =>
    site' = site ∧ size' = size ∧ 0 ≤ off ∧ off + n ≤ size
  | _, _ => True

/-- Every block has at least one byte, which excludes a size that wrapped, and its terminator is in it. -/
structure Sized (es : List Event) : Prop where
  sizes : ∀ site size, .new site size ∈ es → 1 ≤ size
  terminators : es.IsChain Event.Terminates

/-- The log does not end with an allocation, the terminator of which would be still to come. -/
def Settled (es : List Event) : Prop := ∀ site size, es.getLast? ≠ some (.new site size)

/-- Whatever came back from a call of `receive`, what it did until then. -/
def doneLog : Except Stop Recv → List Event
  | .ok r => r.log
  | .error s => s.recv.log

/-- What holds of the log however a computation ends. -/
lemma doneLog_of_post {Q : List Event → Prop} {x : Except Stop Recv}
    (h : Post (fun r => Q r.log) (fun s => Q s.recv.log) x) : Q (doneLog x) := by
  cases x with
  | ok r => exact h
  | error s => exact h

namespace Sized

variable {es fs : List Event}

/-- Nothing is allocated. -/
lemma nil : Sized [] := ⟨by simp, .nil⟩

/-- The allocations of two parts. -/
lemma append (h : Sized es) (settled : Settled es) (h' : Sized fs) : Sized (es ++ fs) where
  sizes site size mem := (List.mem_append.mp mem).elim (h.sizes site size) (h'.sizes site size)
  terminators := by
    apply h.terminators.append h'.terminators
    intro x hx y _
    cases x with
    | new site size => exact absurd hx (settled site size)
    | _ => trivial

end Sized

/-- A log that ends with a settled one is settled. -/
lemma Settled.append {es fs : List Event} (h : Settled es) (h' : Settled fs) :
    Settled (es ++ fs) := by
  intro site size e
  rw [List.getLast?_append] at e
  cases hl : fs.getLast? with
  | none =>
    rw [hl, Option.none_or] at e
    exact h site size e
  | some x =>
    rw [hl, Option.some_or] at e
    exact h' site size (hl.trans e)

namespace Recv

variable {tj : TurboJpeg} {heap : Heap} {buf : Mem} {len : Nat} {r r' r'' : Recv}

/-- From one point of a call to a later one, with all blocks in order. -/
def Adds (r r' : Recv) : Prop := ∃ es, r'.log = r.log ++ es ∧ Sized es ∧ Settled es

/-- From one point of a call to the point where it is left. -/
def AddsStop (r : Recv) (s : Stop) : Prop := ∃ es, s.recv.log = r.log ++ es ∧ Sized es

/-- Nothing is added between a point and itself. -/
lemma Adds.refl (r : Recv) : Adds r r := ⟨[], (List.append_nil _).symm, .nil, by simp [Settled]⟩

/-- One part of the call after the other. -/
lemma Adds.trans (h : Adds r r') (h' : Adds r' r'') : Adds r r'' := by
  obtain ⟨es, log, sized, settled⟩ := h
  obtain ⟨es', log', sized', settled'⟩ := h'
  exact ⟨es ++ es', by rw [log', log, List.append_assoc], sized.append settled sized',
    settled.append settled'⟩

/-- A part of the call, and then the part in which it is left. -/
lemma Adds.stop {s : Stop} (h : Adds r r') (h' : AddsStop r' s) : AddsStop r s := by
  obtain ⟨es, log, sized, settled⟩ := h
  obtain ⟨es', log', sized'⟩ := h'
  exact ⟨es ++ es', by rw [log', log, List.append_assoc], sized.append settled sized'⟩

/-- A part that allocates nothing. -/
lemma Adds.quiet (es : List Event) (log : r'.log = r.log ++ es)
    (noNew : ∀ site size, .new site size ∉ es) : Adds r r' := by
  refine ⟨es, log, ⟨fun site size mem => absurd mem (noNew site size), ?_⟩, fun site size e => ?_⟩
  · clear log
    induction es with
    | nil => exact .nil
    | cons x es ih =>
      refine (ih fun site size mem => noNew site size (List.mem_cons_of_mem x mem)).cons
        fun y _ => ?_
      cases x with
      | new site size => exact absurd List.mem_cons_self (noNew site size)
      | _ => trivial
  · exact noNew site size (List.mem_of_getLast? e)

/-- An allocation that throws. -/
lemma addsStop_new {s : Stop} {site : Site} {size : Int} (log : s.recv.log = r.log ++ [.new site size])
    (pos : 1 ≤ size) : AddsStop r s :=
  ⟨_, log, by simp [pos], .singleton _⟩

/-- A block with its terminator. -/
lemma adds_new {site : Site} {size off : Int}
    (log : r'.log = r.log ++ [.new site size, .write site size off 1]) (nonneg : 0 ≤ off)
    (inside : off + 1 ≤ size) : Adds r r' := by
  refine ⟨_, log, ⟨?_, ?_⟩, by simp [Settled]⟩
  · simp
    omega
  · exact (List.IsChain.singleton _).cons_cons ⟨rfl, rfl, nonneg, inside⟩

/-- One more than a length that does not wrap. -/
lemma inInt_succ {length : Int} (nonneg : 0 ≤ length) (fits : length < 2 ^ 31 - 1) :
    InInt (length + 1) := ⟨by omega, by omega⟩

/-- The receive buffer of a header whose length does not wrap. -/
lemma newRecvBuffer_adds (fits : r.client.headerLength < 2 ^ 31 - 1) :
    Post (Adds r) (AddsStop r) (r.newRecvBuffer heap) := by
  apply newRecvBuffer_rule
  case empty => exact fun _ => .refl r
  case thrown =>
    intro pos _
    have size := wrap32_of_inInt (inInt_succ pos.le fits)
    exact addsStop_new rfl (by omega)
  case found =>
    intro b pos _
    have size := wrap32_of_inInt (inInt_succ pos.le fits)
    exact adds_new rfl (by omega) (by omega)

/-- The name buffer of a header whose length is not negative and does not wrap. -/
lemma newUserName_adds (nonneg : 0 ≤ r.client.headerLength)
    (fits : r.client.headerLength < 2 ^ 31 - 1) :
    Post (Adds r) (AddsStop r) (r.newUserName heap) := by
  have size := wrap32_of_inInt (inInt_succ nonneg fits)
  apply newUserName_rule
  case other => exact fun _ => .refl r
  case thrown => exact fun _ _ => addsStop_new rfl (by omega)
  case found => exact fun _ _ _ => adds_new rfl (by omega) (by omega)

/-- Allocating the receive buffer leaves the length alone. -/
lemma newRecvBuffer_headerLength :
    Post (fun t => t.client.headerLength = r.client.headerLength) (fun _ => True)
      (r.newRecvBuffer heap) := by
  apply newRecvBuffer_rule
  case empty => exact fun _ => rfl
  case thrown => exact fun _ _ => trivial
  case found => exact fun _ _ _ => rfl

/-- A header whose length is not negative and does not wrap. -/
lemma header_adds (nonneg : 0 ≤ intOfBytes (buf.read (r.chunkRead + 4) 4))
    (fits : intOfBytes (buf.read (r.chunkRead + 4) 4) < 2 ^ 31 - 1) :
    Post (Adds r) (AddsStop r) (r.header heap buf len) := by
  apply header_rule (M := fun t => Adds r t ∧
    t.client.headerLength = intOfBytes (buf.read (r.chunkRead + 4) 4))
  case invalid => exact fun _ _ _ _ _ => ⟨_, rfl, by simp, .cons_cons trivial (.singleton _)⟩
  case valid =>
    intro type length _ hl _
    rw [← hl] at fits ⊢
    refine ((newRecvBuffer_adds ?fits).and newRecvBuffer_headerLength).mono ?_ ?_
    case fits => exact fits
    · rintro t ⟨adds, same⟩
      exact ⟨(Adds.quiet _ rfl (by simp)).trans adds, same⟩
    · intro s adds
      exact (Adds.quiet _ rfl (by simp)).stop adds
  case name =>
    rintro t ⟨adds, same⟩
    apply (newUserName_adds (nonneg.trans_eq same.symm) (same.trans_lt fits)).mono
    · intro u adds'
      exact adds.trans adds'
    · intro s adds'
      exact adds.stop adds'

/-- A store allocates nothing. -/
lemma store_adds {n : Nat} : Adds r (r.store buf len n) := .quiet _ rfl (by simp)

/-- Reading on allocates nothing. -/
lemma advance_adds {n : Nat} : Adds r (r.advance n) := .quiet [] (List.append_nil _).symm (by simp)

/-- A piece that does not end the payload allocates nothing. -/
lemma part_adds : Adds r (r.part buf len) := by
  by_cases ha : Accumulates r.client.headerType
  · rw [part_of_accumulates ha]
    exact store_adds.trans advance_adds
  · rw [part_of_not_accumulates ha]
    exact advance_adds

/-- The block of an image has the size of the image and one. -/
lemma keepImage_adds : Post (Adds r) (AddsStop r) (r.keepImage heap) := by
  apply keepImage_rule
  case thrown => exact fun _ => addsStop_new rfl (by omega)
  case found =>
    intro b c hb _
    obtain ⟨size, _⟩ := Heap.new_size hb
    refine ⟨_, rfl, ⟨?_, ?_⟩, by simp [Settled]⟩
    · simp
    · refine .cons_cons ⟨rfl, size, by omega, by omega⟩ ?_
      exact .cons_cons trivial (.cons_cons trivial (.cons_cons trivial (.singleton _)))

/-- Drawing allocates nothing. -/
lemma drawFocused_adds : Adds r (r.drawFocused tj) := by
  unfold drawFocused
  split
  · exact .quiet _ rfl (by simp)
  · exact .refl r

/-- Keeping a name allocates nothing. -/
lemma name_adds : Adds r r.name := .quiet _ rfl (by simp)

/-- A focus request allocates nothing. -/
lemma focus_adds : Adds r r.focus := .quiet _ rfl (by simp)

/-- The end of a payload, of whatever length. -/
lemma final_adds : Post (Adds r) (AddsStop r) (r.final tj heap buf len) := by
  apply final_rule
  case image =>
    intro _
    apply keepImage_adds.mono
    · intro t kept
      exact ((store_adds.trans kept).trans drawFocused_adds).trans advance_adds
    · intro s kept
      exact store_adds.stop kept
  case name => exact fun _ => (store_adds.trans name_adds).trans advance_adds
  case focus => exact fun _ => (store_adds.trans focus_adds).trans advance_adds
  case other => exact fun _ _ _ => store_adds.trans advance_adds

/-- One round, when it reads no header or one of a length that fits. -/
lemma round_adds (fits : r.client.remainBytes ≤ 0 →
      0 ≤ intOfBytes (buf.read (r.chunkRead + 4) 4) ∧
      intOfBytes (buf.read (r.chunkRead + 4) 4) < 2 ^ 31 - 1) :
    Post (Adds r) (AddsStop r) (r.round tj heap buf len) := by
  apply round_rule
  case header =>
    intro boundary
    obtain ⟨nonneg, lt⟩ := fits boundary
    exact header_adds nonneg lt
  case part => exact fun _ _ => part_adds
  case final => exact fun _ _ => final_adds

/-- The largest length wraps: the size of the receive buffer becomes the smallest `int`. -/
lemma header_wraps (valid : ¬ InvalidHeader buf r)
    (largest : intOfBytes (buf.read (r.chunkRead + 4) 4) = 2 ^ 31 - 1) :
    Post (fun _ => False) (fun s => .new .recvBuffer (-2 ^ 31) ∈ s.recv.log)
      (r.header heap buf len) := by
  have size : wrap32 ((2 : Int) ^ 31 - 1 + 1) = -2 ^ 31 := by decide
  have none (k : Nat) : heap.new .recvBuffer k (-2 ^ 31) = none := by simp [Heap.new]
  have pos : (2 : Int) ^ 31 - 1 > 0 := by decide
  rw [InvalidHeader] at valid
  simp only [header, largest, if_neg valid, newRecvBuffer, emit_client, emit_chunkRead, if_pos pos,
    size, none]
  exact List.mem_append_right _ (List.mem_singleton.mpr rfl)

/-- The call from `r` on reads a header with this type and this length. -/
def ReadsHeader (tj : TurboJpeg) (heap : Heap) (buf : Mem) (len : Nat) (r : Recv)
    (type length : Int) : Prop :=
  ∃ t, Visits tj heap buf len r t ∧ t.chunkRead < len ∧ t.client.remainBytes ≤ 0 ∧
    type = intOfBytes (buf.read t.chunkRead 4) ∧ length = intOfBytes (buf.read (t.chunkRead + 4) 4)

/-- A call on a single header reads just that. -/
lemma readsHeader_single {c : Client} {g : Globals} {type length : Int}
    (h : ReadsHeader tj heap buf 8 ⟨[], 0, c, g⟩ type length) (boundary : c.remainBytes ≤ 0) :
    type = intOfBytes (buf.read 0 4) ∧ length = intOfBytes (buf.read 4 4) := by
  obtain ⟨t, v, more, _, ht, hl⟩ := h
  rcases v.cases_head with rfl | ⟨u, _, hu, rest⟩
  · exact ⟨ht, hl⟩
  · rw [round, if_pos boundary] at hu
    have used : u.chunkRead = 0 + 8 := (header_reads.of_ok hu).1
    -- Behind the header the chunk is used up.
    exfalso
    rcases rest.measure_lt (fun t => 8 - t.chunkRead) left_lt with rfl | less
    · omega
    · omega

end Recv

/-- What is asked of a call of `receive` on made-up lengths: the blocks are in order, and a negative
length is answered with -1. -/
structure Contained (tj : TurboJpeg) (heap : Heap) (c : Client) (g : Globals) (buf : Mem) (len : Nat) :
    Prop where
  sized : Sized (doneLog (c.receive tj heap g buf len))
  negative : ∀ type length, Recv.ReadsHeader tj heap buf len ⟨[], 0, c, g⟩ type length → length < 0 →
    ∃ r, c.receive tj heap g buf len = .error ⟨.invalidHeader, r⟩

/-- Lengths within the block sizes keep the blocks in order. -/
lemma sized_of_lengths {tj : TurboJpeg} {heap : Heap} {c : Client} {g : Globals} {buf : Mem} {len : Nat}
    (fits : ∀ type length, Recv.ReadsHeader tj heap buf len ⟨[], 0, c, g⟩ type length →
      0 ≤ length ∧ length < 2 ^ 31 - 1) : Sized (doneLog (c.receive tj heap g buf len)) := by
  have whole : Post (Recv.Adds ⟨[], 0, c, g⟩) (Recv.AddsStop ⟨[], 0, c, g⟩)
      (c.receive tj heap g buf len) := by
    apply receive_keeps (.refl _)
    intro t v adds more
    apply (Recv.round_adds fun boundary => fits _ _ ⟨t, v, more, boundary, rfl, rfl⟩).mono
    · intro u adds'
      exact adds.trans adds'
    · intro s adds'
      exact adds.stop adds'
  apply doneLog_of_post
  apply whole.mono
  · rintro r ⟨es, log, sized, _⟩
    rw [List.nil_append] at log
    rwa [log]
  · rintro s ⟨es, log, sized⟩
    rw [List.nil_append] at log
    rwa [log]

/-- For any object and any chunk whose headers have valid types: the blocks are in order and negative
lengths are answered with -1 exactly when there are no negative lengths, and none of `2 ^ 31 - 1`. -/
theorem contained_iff (tj : TurboJpeg) (heap : Heap) (c : Client) (g : Globals) (buf : Mem) (len : Nat)
    (valid : ∀ type length, Recv.ReadsHeader tj heap buf len ⟨[], 0, c, g⟩ type length →
      0 ≤ type ∧ type ≤ 10) :
    Contained tj heap c g buf len ↔
      ∀ type length, Recv.ReadsHeader tj heap buf len ⟨[], 0, c, g⟩ type length →
        0 ≤ length ∧ length < 2 ^ 31 - 1 := by
  constructor
  · intro contained type length reads
    have nonneg : 0 ≤ length := by
      by_contra neg
      obtain ⟨r, hr⟩ := contained.negative type length reads (by omega)
      -- The call can only give up at a header that is not valid, and there is none.
      obtain ⟨t, v, more, hs⟩ := (receive_visits tj heap c g buf len).of_error hr
      obtain ⟨boundary, invalid⟩ := Recv.round_exit.of_error hs rfl
      obtain ⟨lo, hi⟩ := valid _ _ ⟨t, v, more, boundary, rfl, rfl⟩
      rcases invalid with h | h <;> omega
    refine ⟨nonneg, ?_⟩
    by_contra large
    obtain ⟨t, v, more, boundary, rfl, rfl⟩ := reads
    obtain ⟨lo, hi⟩ := valid _ _ ⟨t, v, more, boundary, rfl, rfl⟩
    have range := (intOfBytes_inInt (buf.read (t.chunkRead + 4) 4)).2
    have okay : ¬ Recv.InvalidHeader buf t := fun invalid => by
      rcases invalid with h | h <;> omega
    cases hs : t.header heap buf len with
    | ok u => exact (Recv.header_wraps okay (by omega)).of_ok hs
    | error s =>
      have wraps := (Recv.header_wraps okay (by omega)).of_error hs
      have sized := contained.sized
      rw [receive_of_error v more (by rw [Recv.round, if_pos boundary, hs])] at sized
      exact absurd (sized.sizes _ _ wraps) (by decide)
  · intro fits
    exact ⟨sized_of_lengths fits, fun type length reads neg => by
      have nonneg := (fits type length reads).1
      omega⟩

/-- The header of a name of five bytes. -/
def nameOfFive : Mem := Mem.overlay (fun _ => 0) (intBytes recvName ++ intBytes 5)

/-- `contained_iff` for the header of a name. -/
theorem contained_iff_five :
    Contained .none .cleared (Client.new ⟨1, 1, 3⟩ .blank 4 9) ⟨-1, 4, 1, fun _ => 0⟩ nameOfFive 8 ↔
      ∀ type length, Recv.ReadsHeader .none .cleared nameOfFive 8
        ⟨[], 0, Client.new ⟨1, 1, 3⟩ .blank 4 9, ⟨-1, 4, 1, fun _ => 0⟩⟩ type length →
        0 ≤ length ∧ length < 2 ^ 31 - 1 :=
  contained_iff .none .cleared (Client.new ⟨1, 1, 3⟩ .blank 4 9) ⟨-1, 4, 1, fun _ => 0⟩ nameOfFive 8
    fun type length reads => by
      obtain ⟨rfl, _⟩ := Recv.readsHeader_single reads (by decide)
      decide

/-- The header of a name of length -1. -/
def nameOfMinusOne : Mem := Mem.overlay (fun _ => 0) (intBytes recvName ++ intBytes (-1))

/-- A new client sends it: the name buffer has no bytes, the terminator is stored in front of it, and the
call returns 0. -/
theorem not_contained :
    (Client.receive .none .cleared (Client.new ⟨1, 1, 3⟩ .blank 4 9) ⟨-1, 4, 1, fun _ => 0⟩
        nameOfMinusOne 8).toOption.map Recv.log =
      some [.bufRead 0 4 8, .bufRead 4 4 8, .new .userName 0, .write .userName 0 (-1) 1] ∧
    ¬ Contained .none .cleared (Client.new ⟨1, 1, 3⟩ .blank 4 9) ⟨-1, 4, 1, fun _ => 0⟩
      nameOfMinusOne 8 := by
  have run : doneLog (Client.receive .none .cleared (Client.new ⟨1, 1, 3⟩ .blank 4 9)
      ⟨-1, 4, 1, fun _ => 0⟩ nameOfMinusOne 8) =
      [.bufRead 0 4 8, .bufRead 4 4 8, .new .userName 0, .write .userName 0 (-1) 1] := by
    decide +kernel
  refine ⟨by decide +kernel, fun contained => ?_⟩
  have sized := contained.sized
  rw [run] at sized
  exact absurd (sized.sizes .userName 0 (by simp)) (by decide)

end Projector
