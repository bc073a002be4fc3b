import Projector.Server.Alone
import Projector.Server.Cutting

/-!
# Cutting a stream of arbitrary bytes

`read()` returns the bytes of a connection in pieces of any size. For any bytes, well-formed or not, the
calls of `receive` on the pieces do what one call on all of them does (`feed_joins`), so two ways to cut
them come to the same (`recut`), and an object is what the bytes of its connection make of it, whatever
else happens in the server and however the network cuts them (`Server.object_of_bytes`). No cut may be
inside a header or a focus request: `WellCut`.
-/

namespace Projector

section feed

variable {tj : TurboJpeg} {c : Client} {g : Globals} {x y : Piece} {xs ys : List Piece} {buf : Mem}
  {s t : Fed}

/-- All calls of a feed are well cut. -/
def WellCut (tj : TurboJpeg) : List Piece → Client → Globals → Prop
  | [], _, _ => True
  | x :: xs, c, g =>
    match c.receive tj x.heap g x.buf x.len with
    | .ok r => r.WellCut ∧ WellCut tj xs r.client r.globals
    | .error _ => True

/-- The buffer holds the bytes of the chunks `xs` and goes on as the buffer of the chunk behind them. -/
structure Whole (buf : Mem) (xs : List Piece) (x : Piece) : Prop where
  bytes : buf.read 0 (xs.map Piece.len).sum = xs.flatMap Piece.data
  behind : ∀ i, buf ((xs.map Piece.len).sum + i) = x.buf i

/-- Behind the first chunk. -/
lemma Whole.tail (h : Whole buf (y :: ys) x) :
    buf.read 0 y.len = y.data ∧ Whole (fun i => buf (y.len + i)) ys x := by
  obtain ⟨bytes, behind⟩ := h
  rw [List.map_cons, List.sum_cons] at bytes behind
  rw [Mem.read_add, List.flatMap_cons] at bytes
  obtain ⟨first, rest⟩ := List.append_inj bytes (by simp [Piece.length_data])
  refine ⟨first, ?_, fun i => ?_⟩
  · rw [← rest]
    apply Mem.read_congr
    intro i _
    simp
  · rw [← behind, Nat.add_assoc]

instance decidableWellCut (tj : TurboJpeg) : ∀ xs c g, Decidable (WellCut tj xs c g)
  | [], _, _ => .isTrue trivial
  | x :: xs, c, g =>
    match h : c.receive tj x.heap g x.buf x.len with
    | .ok r =>
      have := decidableWellCut tj xs r.client r.globals
      decidable_of_iff (r.WellCut ∧ WellCut tj xs r.client r.globals) (by rw [WellCut, h])
    | .error _ => .isTrue (by rw [WellCut, h]; trivial)

/-- A call by itself is one call on its bytes. -/
lemma Recv.Joined.refl (r : Recv) : r.Joined [] r := ⟨.refl _, rfl, rfl⟩

/-- A call is left early like itself. -/
lemma Recv.LeftAlike.refl (s : Stop) : Recv.LeftAlike [] s s := ⟨rfl, rfl, rfl⟩

/-- Chunks one by one are one call on all the bytes. -/
theorem feed_joins (fed : feed tj xs c g = .ok s) (cut : WellCut tj xs c g) (whole : Whole buf xs x) :
    ∃ heap, (∀ site k, ∃ p ∈ xs ++ [x], ∃ k', heap site k = p.heap site k') ∧
      Agree (Recv.Joined s.log) (Recv.LeftAlike s.log)
        (s.client.receive tj x.heap s.globals x.buf x.len)
        (c.receive tj heap g buf ((xs.map Piece.len).sum + x.len)) := by
  induction xs generalizing c g s buf with
  | nil =>
    cases fed
    have same : buf = x.buf := by
      funext i
      simpa using whole.behind i
    refine ⟨x.heap, fun site k => ⟨x, by simp, k, rfl⟩, ?_⟩
    rw [same, List.map_nil, List.sum_nil, Nat.zero_add]
    cases c.receive tj x.heap g x.buf x.len with
    | ok r => exact .refl r
    | error e => exact .refl e
  | cons y ys ih =>
    obtain ⟨r, t, hr, ht, rfl⟩ := feed_cons_eq_ok.mp fed
    rw [WellCut, hr] at cut
    obtain ⟨first, others⟩ := cut
    rw [List.map_cons, List.sum_cons, Nat.add_assoc]
    obtain ⟨bytes, rest⟩ := whole.tail
    obtain ⟨heap, blocks, agree⟩ := ih ht others rest
    obtain ⟨heap', blocks', agree'⟩ :=
      receive_joins hr first bytes heap ((ys.map Piece.len).sum + x.len)
    refine ⟨heap', fun site k => ?_, ?_⟩
    · obtain ⟨k', own | other⟩ := blocks' site k
      · exact ⟨y, by simp, k', own⟩
      · obtain ⟨p, hp, k'', found⟩ := blocks site k'
        exact ⟨p, List.mem_cons_of_mem _ hp, k'', other.trans found⟩
    · apply agree.trans agree'
      · rintro u v w ⟨client, globals, log⟩ ⟨client', globals', log'⟩
        exact ⟨client.trans client', globals'.trans globals, by simp [log', log]⟩
      · rintro u v w ⟨exit, globals, log⟩ ⟨exit', globals', log'⟩
        exact ⟨exit'.trans exit, globals'.trans globals, by simp [log', log]⟩

/-- Some chunks in one buffer. -/
lemma exists_whole (xs : List Piece) (x : Piece) : ∃ buf, Whole buf xs x := by
  refine ⟨Mem.overlay (fun k => x.buf (k - (xs.map Piece.len).sum)) (xs.flatMap Piece.data), ?_, ?_⟩
  · rw [← Piece.length_flatMap_data, Mem.read_overlay]
  · intro i
    rw [← Piece.length_flatMap_data]
    simp [Mem.overlay]

/-- The buffer holds the last chunk, too. -/
lemma Whole.all (h : Whole buf xs x) :
    buf.read 0 ((xs.map Piece.len).sum + x.len) = (xs ++ [x]).flatMap Piece.data := by
  have last : buf.read (0 + (xs.map Piece.len).sum) x.len = x.data := by
    apply Mem.read_congr
    intro i _
    simpa using h.behind i
  rw [Mem.read_add, h.bytes, last]
  simp

/-- The same bytes cut in another way. -/
lemma Whole.otherwise (h : Whole buf xs x)
    (bytes : (xs ++ [x]).flatMap Piece.data = (ys ++ [y]).flatMap Piece.data)
    (behind : ∀ i, x.buf (x.len + i) = y.buf (y.len + i)) :
    (xs.map Piece.len).sum + x.len = (ys.map Piece.len).sum + y.len ∧ Whole buf ys y := by
  have total : (xs.map Piece.len).sum + x.len = (ys.map Piece.len).sum + y.len := by
    simpa [Piece.length_data] using congrArg List.length bytes
  have all := h.all
  rw [total, bytes, Mem.read_add, List.flatMap_append] at all
  obtain ⟨first, last⟩ := List.append_inj all (by rw [Mem.length_read, Piece.length_flatMap_data])
  refine ⟨total, first, fun i => ?_⟩
  by_cases inside : i < y.len
  · have byte := congrArg (fun l => l[i]?) last
    simpa [Mem.read, Piece.data, inside] using byte
  · obtain ⟨j, rfl⟩ := Nat.exists_eq_add_of_le (Nat.not_lt.mp inside)
    rw [← behind, ← h.behind]
    congr 1
    omega

/-- The one call with the blocks that every call finds. -/
lemma feed_joins_blocks {blocks : Site → Option Mem} (fed : feed tj xs c g = .ok s)
    (cut : WellCut tj xs c g) (whole : Whole buf xs x)
    (heap : ∀ p ∈ xs ++ [x], p.heap = fun site _ => blocks site) :
    Agree (Recv.Joined s.log) (Recv.LeftAlike s.log)
      (s.client.receive tj x.heap s.globals x.buf x.len)
      (c.receive tj (fun site _ => blocks site) g buf ((xs.map Piece.len).sum + x.len)) := by
  obtain ⟨h, found, agree⟩ := feed_joins fed cut whole
  have same : h = fun site _ => blocks site := by
    funext site k
    obtain ⟨p, hp, k', e⟩ := found site k
    rw [e, heap p hp]
  rwa [same] at agree

/-- Two ways to cut the same bytes leave objects that go on alike. -/
lemma equivalent_of_cuts {blocks : Site → Option Mem} (fed : feed tj xs c g = .ok s)
    (fed' : feed tj ys c g = .ok t) (cut : WellCut tj xs c g) (cut' : WellCut tj ys c g)
    (bytes : xs.flatMap Piece.data = ys.flatMap Piece.data)
    (heap : ∀ p ∈ xs ++ ys, p.heap = fun site _ => blocks site) : s.client.Equivalent t.client := by
  let nothing : Piece := ⟨fun _ => 0, 0, fun site _ => blocks site⟩
  obtain ⟨buf, whole⟩ := exists_whole xs nothing
  have same : (xs ++ [nothing]).flatMap Piece.data = (ys ++ [nothing]).flatMap Piece.data := by
    simp [bytes]
  obtain ⟨total, whole'⟩ := whole.otherwise same fun _ => rfl
  have agree := feed_joins_blocks fed cut whole (List.forall_mem_append.mpr
    ⟨fun p hp => heap p (List.mem_append_left _ hp), List.forall_mem_singleton.mpr rfl⟩)
  have agree' := feed_joins_blocks fed' cut' whole' (List.forall_mem_append.mpr
    ⟨fun p hp => heap p (List.mem_append_right _ hp), List.forall_mem_singleton.mpr rfl⟩)
  -- The last chunks are empty, so the last calls do nothing.
  obtain ⟨w, hw, joined⟩ := agree.of_ok rfl
  obtain ⟨w', hw', joined'⟩ := agree'.of_ok rfl
  rw [total, hw', Except.ok.injEq] at hw
  subst hw
  exact joined.client.trans joined'.client.symm

/-- What comes of two cuttings of the same bytes, given what came of all chunks but the last ones: the
last calls both return, with objects that go on alike and the same globals, or are both left early in the
same way, and the same messages have been handed on and the same images drawn. -/
def SameOutcome (s t : Fed) : Except Stop Recv → Except Stop Recv → Prop :=
  Agree
    (fun u v => u.client.Equivalent v.client ∧ v.globals = u.globals ∧
      deeds (t.log ++ v.log) = deeds (s.log ++ u.log))
    (fun e f => f.exit = e.exit ∧ f.recv.globals = e.recv.globals ∧
      deeds (t.log ++ f.recv.log) = deeds (s.log ++ e.recv.log))

/-- Any two ways to cut the same bytes, with the same behind them, come to the same. -/
theorem recut (blocks : Site → Option Mem) (fed : feed tj xs c g = .ok s)
    (fed' : feed tj ys c g = .ok t) (cut : WellCut tj xs c g) (cut' : WellCut tj ys c g)
    (bytes : (xs ++ [x]).flatMap Piece.data = (ys ++ [y]).flatMap Piece.data)
    (behind : ∀ i, x.buf (x.len + i) = y.buf (y.len + i))
    (heap : ∀ p ∈ xs ++ [x], p.heap = fun site _ => blocks site)
    (heap' : ∀ p ∈ ys ++ [y], p.heap = fun site _ => blocks site) :
    SameOutcome s t (s.client.receive tj x.heap s.globals x.buf x.len)
      (t.client.receive tj y.heap t.globals y.buf y.len) := by
  obtain ⟨buf, whole⟩ := exists_whole xs x
  obtain ⟨total, whole'⟩ := whole.otherwise bytes behind
  have agree := feed_joins_blocks fed cut whole heap
  have agree' := feed_joins_blocks fed' cut' whole' heap'
  rw [total] at agree
  apply agree.trans agree'.symm
  · rintro u w v ⟨client, globals, log⟩ ⟨client', globals', log'⟩
    exact ⟨client.trans client'.symm, globals'.symm.trans globals, by simp [← log, ← log']⟩
  · rintro u w v ⟨exit, globals, log⟩ ⟨exit', globals', log'⟩
    exact ⟨exit'.symm.trans exit, globals'.symm.trans globals, by simp [← log, ← log']⟩

/-- `recut` on an image and a header that is not valid, for an object that has the focus: the bytes are cut
in the image or in front of it. -/
theorem recut_invalid : ∃ s t,
    feed .none [.ofBytes [5, 0, 0, 0, 2, 0, 0, 0, 255]] (Client.new ⟨1, 1, 3⟩ .blank 4 9)
      ⟨4, 4, 1, fun _ => 0⟩ = .ok s ∧
    feed .none [.ofBytes [5, 0, 0, 0, 2, 0, 0, 0]] (Client.new ⟨1, 1, 3⟩ .blank 4 9)
      ⟨4, 4, 1, fun _ => 0⟩ = .ok t ∧
    SameOutcome s t
      (s.client.receive .none .cleared s.globals
        (Mem.overlay (fun _ => 0) [216, 11, 0, 0, 0, 0, 0, 0, 0]) 9)
      (t.client.receive .none .cleared t.globals
        (Mem.overlay (fun _ => 0) [255, 216, 11, 0, 0, 0, 0, 0, 0, 0]) 10) := by
  have returned {z : Except Stop Fed} (h : z.toOption.isSome) : ∃ s, z = .ok s := by
    cases z with
    | ok s => exact ⟨s, rfl⟩
    | error e => cases h
  have fed : (feed .none [.ofBytes [5, 0, 0, 0, 2, 0, 0, 0, 255]] (Client.new ⟨1, 1, 3⟩ .blank 4 9)
      ⟨4, 4, 1, fun _ => 0⟩).toOption.isSome := by decide +kernel
  have fed' : (feed .none [.ofBytes [5, 0, 0, 0, 2, 0, 0, 0]] (Client.new ⟨1, 1, 3⟩ .blank 4 9)
      ⟨4, 4, 1, fun _ => 0⟩).toOption.isSome := by decide +kernel
  obtain ⟨s, hs⟩ := returned fed
  obtain ⟨t, ht⟩ := returned fed'
  refine ⟨s, t, hs, ht, ?_⟩
  exact recut (x := .ofBytes [216, 11, 0, 0, 0, 0, 0, 0, 0])
    (y := .ofBytes [255, 216, 11, 0, 0, 0, 0, 0, 0, 0]) (fun _ => some fun _ => 0) hs ht
    (by decide +kernel) (by decide +kernel) (by decide +kernel)
    (fun _ => by simp [Piece.ofBytes, Mem.overlay]) (List.forall_iff_forall_mem.mp ⟨rfl, rfl⟩)
    (List.forall_iff_forall_mem.mp ⟨rfl, rfl⟩)

end feed

/-- Two objects that parse alike from here on: they may differ in the size of the last picture and in what
is left in the receive buffer of messages that are complete. -/
structure Client.ParsesLike (c d : Client) : Prop where
  fields : ∃ w h s b o, d = { c with
    jpegWidth := w, jpegHeight := h, jpegSubsamp := s, recvBuffer := b, recvOffset := o }
  payload : 0 < c.remainBytes → Recv.Used c.headerType →
    d.recvBuffer.getD .null = c.recvBuffer.getD .null ∧ d.recvOffset = c.recvOffset

/-- Objects that parse alike, on either side of two that go on alike. -/
lemma Client.ParsesLike.of {c c' d d' : Client} (h : c.SameParser c') (e : c'.Equivalent d')
    (h' : d.SameParser d') : c.ParsesLike d := by
  obtain ⟨w, x, y, rfl⟩ := h
  obtain ⟨⟨b, o, rfl⟩, payload⟩ := e
  obtain ⟨w', x', y', rfl⟩ := h'.symm
  exact ⟨⟨w', x', y', b, o, rfl⟩, payload⟩

/-- The chunks of a connection. -/
def piecesAlone (fd : Int) (is : List Input) : List Piece := (callsAlone fd is).map Call.toPiece

/-- The calls of an object as a feed, under whatever globals. -/
lemma feed_of_calls {tj' : TurboJpeg} {cs : List Call} {c d d' : Client} {es : List Event}
    (tj : TurboJpeg) (g : Globals) (e : exec (Client.call tj') d cs = some (d', es)) (same : d.SameParser c) :
    ∃ s, feed tj (cs.map Call.toPiece) c g = .ok s ∧ d'.SameParser s.client := by
  induction cs generalizing c d g es with
  | nil =>
    cases e
    exact ⟨_, rfl, same⟩
  | cons x xs ih =>
    obtain ⟨u, o, h', called, rest, rfl⟩ := exec_cons_eq_some.mp e
    obtain ⟨r, hr, rfl, rfl⟩ := call_eq_some.mp called
    have calls : Agree Recv.Alike Recv.AlikeStop (d.receive tj' x.heap x.globals x.buf x.len)
        (c.receive tj x.heap g x.buf x.len) := receive_alike same
    obtain ⟨r', hr', alike⟩ := calls.of_ok hr
    obtain ⟨s, hs, same'⟩ := ih r'.globals rest alike.client
    exact ⟨_, feed_cons_eq_ok.mpr ⟨r', s, hr', hs, rfl⟩, same'⟩

namespace Server

variable {fd : Int}

/-- The only user gets the focus after the header of an image, and sends the image then. -/
def inTwo : List Input := [.read 5 [5, 0, 0, 0, 2, 0, 0, 0] .cleared,
  .observe (fun _ => false) [12], .read 5 [255, 216] .cleared]

end Server

end Projector
