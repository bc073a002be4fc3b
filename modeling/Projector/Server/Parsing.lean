import Projector.Server.Follow
import Projector.Server.Frame

/-!
# Parsing and drawing

A call of `receive` is two things at once. It is a parser: what it makes of its chunk and of the memory it
is given depends on its object alone, not on the focus, the screen or the decoder (`receive_alike`). And it
carries out what the messages ask for: each complete image is drawn when the object has the focus, and the
screen is what the images drawn make of it one after the other (`receive_performs`).
-/

namespace Projector

/-- A log without the calls of `draw()`. -/
def parsed (es : List Event) : List Event :=
  es.filter fun e => match e with
    | .draw _ => false
    | _ => true

/-- What is parsed in two parts. -/
@[simp] lemma parsed_append (es fs : List Event) : parsed (es ++ fs) = parsed es ++ parsed fs :=
  List.filter_append es fs

/-- Nothing is parsed without an event. -/
@[simp] lemma parsed_nil : parsed [] = [] := rfl

/-- The log of a parser, with a call of `draw()` behind each complete image if there is the focus. -/
def performed (focus : Prop) [Decidable focus] (es : List Event) : List Event :=
  es.flatMap fun e => match e with
    | .done type data => if type = recvImage ∧ focus then [e, .draw data] else [e]
    | _ => [e]

/-- The images completed according to a log. -/
def images (es : List Event) : List (List UInt8) :=
  es.filterMap fun e => match e with
    | .done type data => if type = recvImage then some data else none
    | _ => none

/-- What `draw()` works on: the size of the last picture that its decoder has seen, and the screen. -/
structure Canvas where
  jpegWidth : Int
  jpegHeight : Int
  jpegSubsamp : Int
  fbp : Mem

/-- `draw()` on an image, for an object with a screen of this size. -/
def paint (tj : TurboJpeg) (resX resY : Int) (p : Canvas) (jpeg : List UInt8) : Canvas :=
  if 0 < jpeg.length then
    let p := match tj.decompressHeader2 jpeg with
      | some (w, h, s) => { p with jpegWidth := w, jpegHeight := h, jpegSubsamp := s }
      | none => p
    if p.jpegWidth = resX ∧ p.jpegHeight = resY then
      { p with fbp := tj.decompress2 jpeg p.fbp p.jpegWidth 0 p.jpegHeight }
    else p
  else p

/-- The images one after the other. -/
def paints (tj : TurboJpeg) (resX resY : Int) (p : Canvas) (jpegs : List (List UInt8)) : Canvas :=
  jpegs.foldl (paint tj resX resY) p

namespace Recv

/-- Two points of calls that have parsed the same. -/
structure Alike (r r' : Recv) : Prop where
  chunkRead : r'.chunkRead = r.chunkRead
  client : ∃ w h s, r'.client = { r.client with jpegWidth := w, jpegHeight := h, jpegSubsamp := s }
  log : parsed r'.log = parsed r.log

/-- The same for calls that were left early. -/
def AlikeStop (s s' : Stop) : Prop := s'.exit = s.exit ∧ s.recv.Alike s'.recv

variable {tj tj' : TurboJpeg} {heap : Heap} {buf : Mem} {len n : Nat} {r r' : Recv}

/-- Two such points differ in the picture, the globals and the draws only. -/
lemma Alike.eq (h : r.Alike r') : ∃ log w x y g, r' = { r with
      log := log
      client := { r.client with jpegWidth := w, jpegHeight := x, jpegSubsamp := y }
      globals := g } ∧ parsed log = parsed r.log := by
  obtain ⟨log', k', c', g'⟩ := r'
  obtain ⟨chunkRead, ⟨w, x, y, client⟩, logs⟩ := h
  exact ⟨log', w, x, y, g', by rw [← chunkRead, ← client], logs⟩

/-! ## The parser -/

/-- Both calls allocate the receive buffer, or both throw. -/
lemma newRecvBuffer_alike (h : r.Alike r') :
    Agree Alike AlikeStop (r.newRecvBuffer heap) (r'.newRecvBuffer heap) := by
  obtain ⟨log, w, x, y, g, rfl, logs⟩ := h.eq
  unfold newRecvBuffer
  by_cases pos : r.client.headerLength > 0
  · simp only [if_pos pos]
    cases heap.new .recvBuffer r.chunkRead (wrap32 (r.client.headerLength + 1)) with
    | none => exact ⟨rfl, rfl, ⟨w, x, y, rfl⟩, by simpa using logs⟩
    | some b => exact ⟨rfl, ⟨w, x, y, rfl⟩, by simpa using logs⟩
  · simp only [if_neg pos]
    exact ⟨rfl, ⟨w, x, y, rfl⟩, logs⟩

/-- Both calls allocate the name buffer, or both throw. -/
lemma newUserName_alike (h : r.Alike r') :
    Agree Alike AlikeStop (r.newUserName heap) (r'.newUserName heap) := by
  obtain ⟨log, w, x, y, g, rfl, logs⟩ := h.eq
  unfold newUserName
  by_cases first : r.client.headerType = recvName ∧ r.client.userName = none
  · simp only [if_pos first]
    cases heap.new .userName r.chunkRead (wrap32 (r.client.headerLength + 1)) with
    | none => exact ⟨rfl, rfl, ⟨w, x, y, rfl⟩, by simpa using logs⟩
    | some b => exact ⟨rfl, ⟨w, x, y, rfl⟩, by simpa using logs⟩
  · simp only [if_neg first]
    exact ⟨rfl, ⟨w, x, y, rfl⟩, logs⟩

/-- The header branch does not depend on what the calls differ in. -/
lemma header_alike (h : r.Alike r') :
    Agree Alike AlikeStop (r.header heap buf len) (r'.header heap buf len) := by
  obtain ⟨log, w, x, y, g, rfl, logs⟩ := h.eq
  simp only [header]
  generalize intOfBytes (buf.read r.chunkRead 4) = type
  generalize intOfBytes (buf.read (r.chunkRead + 4) 4) = length
  split
  · exact ⟨rfl, rfl, ⟨w, x, y, rfl⟩, by simpa using logs⟩
  · apply Agree.bind (R := Alike)
    · exact newRecvBuffer_alike ⟨rfl, ⟨w, x, y, rfl⟩, by simpa using logs⟩
    · intro t t' alike
      exact newUserName_alike alike

/-- Nor does a store into the receive buffer. -/
lemma store_alike (h : r.Alike r') : (r.store buf len n).Alike (r'.store buf len n) := by
  obtain ⟨log, w, x, y, g, rfl, logs⟩ := h.eq
  exact ⟨rfl, ⟨w, x, y, rfl⟩, by simpa using logs⟩

/-- Nor does reading on. -/
lemma advance_alike (h : r.Alike r') : (r.advance n).Alike (r'.advance n) := by
  obtain ⟨log, w, x, y, g, rfl, logs⟩ := h.eq
  exact ⟨rfl, ⟨w, x, y, rfl⟩, logs⟩

/-- Nor does a piece that does not end the payload. -/
lemma part_alike (h : r.Alike r') : (r.part buf len).Alike (r'.part buf len) := by
  have type : r'.client.headerType = r.client.headerType := by
    obtain ⟨w, x, y, e⟩ := h.client
    rw [e]
  by_cases ha : Accumulates r.client.headerType
  · rw [part_of_accumulates ha, part_of_accumulates (by rwa [type]), h.chunkRead]
    exact advance_alike (store_alike h)
  · rw [part_of_not_accumulates ha, part_of_not_accumulates (by rwa [type]), h.chunkRead]
    exact advance_alike h

/-- Both calls keep the image, or both throw. -/
lemma keepImage_alike (h : r.Alike r') :
    Agree Alike AlikeStop (r.keepImage heap) (r'.keepImage heap) := by
  obtain ⟨log, w, x, y, g, rfl, logs⟩ := h.eq
  simp only [keepImage]
  cases heap.new .jpegBuffer r.chunkRead ((r.client.recvOffset + 1 : Nat) : Int) with
  | none => exact ⟨rfl, rfl, ⟨w, x, y, rfl⟩, by simpa using logs⟩
  | some b =>
    refine ⟨rfl, ⟨w, x, y, rfl⟩, ?_⟩
    simp only [emit_log, parsed_append, logs]
    rfl

/-- Drawing is no part of parsing. -/
lemma drawFocused_alike (h : r.Alike r') : (r.drawFocused tj).Alike (r'.drawFocused tj') := by
  have drawn : Drawn r (r.drawFocused tj) := drawFocused_spec
  have drawn' : Drawn r' (r'.drawFocused tj') := drawFocused_spec
  obtain ⟨k, ⟨w, x, y, c⟩, _, log⟩ := drawn
  obtain ⟨k', ⟨w', x', y', c'⟩, _, log'⟩ := drawn'
  obtain ⟨chunkRead, ⟨w₀, x₀, y₀, client⟩, logs⟩ := h
  have noDraw (p : Prop) [Decidable p] (jpeg : List UInt8) :
      parsed (if p then [.draw jpeg] else []) = [] := by
    split <;> rfl
  refine ⟨?_, ⟨w', x', y', ?_⟩, ?_⟩
  · rw [k', k, chunkRead]
  · rw [c', c, client]
  · rw [log', log, parsed_append, parsed_append, noDraw, noDraw, logs]

/-- Both calls keep the same name. -/
lemma name_alike (h : r.Alike r') : r.name.Alike r'.name := by
  obtain ⟨log, w, x, y, g, rfl, logs⟩ := h.eq
  refine ⟨rfl, ⟨w, x, y, rfl⟩, ?_⟩
  simp only [name, emit_log, parsed_append, logs]
  rfl

/-- Both calls keep the same request. -/
lemma focus_alike (h : r.Alike r') : r.focus.Alike r'.focus := by
  obtain ⟨log, w, x, y, g, rfl, logs⟩ := h.eq
  exact ⟨rfl, ⟨w, x, y, rfl⟩, by simpa [focus] using logs⟩

/-- The end of a payload, whether or not the image is drawn. -/
lemma final_alike (h : r.Alike r') :
    Agree Alike AlikeStop (r.final tj heap buf len) (r'.final tj' heap buf len) := by
  obtain ⟨w, x, y, client⟩ := h.client
  have type : r'.client.headerType = r.client.headerType := by rw [client]
  have size : r'.client.remainBytes.toNat = r.client.remainBytes.toNat := by rw [client]
  have stored : (r.store buf len r.client.remainBytes.toNat).Alike
      (r'.store buf len r.client.remainBytes.toNat) := store_alike h
  by_cases hi : r.client.headerType = recvImage
  · rw [final_image hi, final_image (type.trans hi), size]
    have kept : Agree Alike AlikeStop ((r.store buf len r.client.remainBytes.toNat).keepImage heap)
        ((r'.store buf len r.client.remainBytes.toNat).keepImage heap) := keepImage_alike stored
    cases hk : (r.store buf len r.client.remainBytes.toNat).keepImage heap with
    | error s =>
      obtain ⟨s', hk', alike⟩ := kept.of_error hk
      rw [hk']
      exact alike
    | ok t =>
      obtain ⟨t', hk', alike⟩ := kept.of_ok hk
      rw [hk']
      exact advance_alike (drawFocused_alike alike)
  · by_cases hn : r.client.headerType = recvName
    · rw [final_name hn, final_name (type.trans hn), size]
      exact advance_alike (name_alike stored)
    · by_cases hf : r.client.headerType = changeFocusStatus
      · rw [final_focus hf, final_focus (type.trans hf), size]
        exact advance_alike (focus_alike stored)
      · rw [final_other hi hn hf, final_other (by rwa [type]) (by rwa [type]) (by rwa [type]), size]
        exact advance_alike stored

/-- A round of the loop. -/
lemma round_alike (h : r.Alike r') :
    Agree Alike AlikeStop (r.round tj heap buf len) (r'.round tj' heap buf len) := by
  obtain ⟨w, x, y, client⟩ := h.client
  have remain : r'.client.remainBytes = r.client.remainBytes := by rw [client]
  unfold round
  rw [remain, h.chunkRead]
  by_cases boundary : r.client.remainBytes ≤ 0
  · rw [if_pos boundary, if_pos boundary]
    exact header_alike h
  · rw [if_neg boundary, if_neg boundary]
    by_cases short : r.client.remainBytes > (len : Int) - r.chunkRead
    · rw [if_pos short, if_pos short]
      exact part_alike h
    · rw [if_neg short, if_neg short]
      exact final_alike h

end Recv

/-- Two calls on the same chunk, for objects that differ in the size of the last picture only, parse the
same, whatever the focus, the screen and the decoder. -/
theorem receive_alike {tj tj' : TurboJpeg} {heap : Heap} {c c' : Client} {g g' : Globals} {buf : Mem}
    {len : Nat}
    (h : ∃ w h s, c' = { c with jpegWidth := w, jpegHeight := h, jpegSubsamp := s }) :
    Agree Recv.Alike Recv.AlikeStop (c.receive tj heap g buf len) (c'.receive tj' heap g' buf len) := by
  apply iterate_agrees
  case h => exact ⟨rfl, h, rfl⟩
  case together =>
    intro r r' alike
    simp only [Recv.more, alike.chunkRead]
  case rounds =>
    intro r r' alike _
    exact Recv.round_alike alike

/-! ## The performer -/

/-- What is performed in two parts. -/
lemma performed_append (focus : Prop) [Decidable focus] (es fs : List Event) :
    performed focus (es ++ fs) = performed focus es ++ performed focus fs := List.flatMap_append

/-- The images of two parts. -/
lemma images_append (es fs : List Event) : images (es ++ fs) = images es ++ images fs :=
  List.filterMap_append

/-- A log without draws begins with something else. -/
lemma parsed_cons {e : Event} {es : List Event} :
    parsed (e :: es) = e :: es ↔ (∀ jpeg, e ≠ .draw jpeg) ∧ parsed es = es := by
  cases e with
  | draw jpeg =>
    have shorter : (parsed es).length ≤ es.length := List.length_filter_le _ _
    have other : parsed es ≠ .draw jpeg :: es := by
      intro same
      rw [same, List.length_cons] at shorter
      omega
    exact ⟨fun h => absurd h other, fun h => absurd rfl (h.1 jpeg)⟩
  | _ => simp [parsed]

/-- Nothing is put behind an event that completes no image. -/
lemma performed_quiet (focus : Prop) [Decidable focus] {es : List Event} (noImage : images es = []) :
    performed focus es = es := by
  induction es with
  | nil => rfl
  | cons e es ih =>
    rw [← List.singleton_append, images_append, List.append_eq_nil_iff] at noImage
    rw [← List.singleton_append, performed_append, ih noImage.2]
    congr 1
    cases e with
    | done type data =>
      have other : type ≠ recvImage := by
        rintro rfl
        simp [images] at noImage
      simp [performed, other]
    | _ => rfl

namespace Recv

/-- What `draw()` works on at a point of a call. -/
def canvas (r : Recv) : Canvas where
  jpegWidth := r.client.jpegWidth
  jpegHeight := r.client.jpegHeight
  jpegSubsamp := r.client.jpegSubsamp
  fbp := r.globals.fbp

/-- The object has the focus. -/
def Focused (r : Recv) : Prop := r.globals.focusFd = r.client.fd

instance : DecidablePred Focused := fun _ => inferInstanceAs (Decidable (_ = _))

/-- From one point of a call to a later one the images completed are drawn, if the object has the focus,
and nothing else is. -/
structure Performs (tj : TurboJpeg) (r r' : Recv) : Prop where
  resX : r'.client.resX = r.client.resX
  resY : r'.client.resY = r.client.resY
  focused : r'.Focused ↔ r.Focused
  log : ∃ es, parsed es = es ∧ r'.log = r.log ++ performed r.Focused es ∧
    r'.canvas = paints tj r.client.resX r.client.resY r.canvas (if r.Focused then images es else [])

variable {tj : TurboJpeg} {heap : Heap} {buf : Mem} {len n : Nat} {r r' r'' : Recv}

namespace Performs

/-- Nothing is performed between a point and itself. -/
lemma refl (r : Recv) : Performs tj r r where
  resX := rfl
  resY := rfl
  focused := Iff.rfl
  log := ⟨[], rfl, (List.append_nil _).symm, by simp [images, paints]⟩

/-- One part of the call after the other. -/
lemma trans (h : Performs tj r r') (h' : Performs tj r' r'') : Performs tj r r'' where
  resX := h'.resX.trans h.resX
  resY := h'.resY.trans h.resY
  focused := h'.focused.trans h.focused
  log := by
    obtain ⟨es, he, log, canvas⟩ := h.log
    obtain ⟨es', he', log', canvas'⟩ := h'.log
    have focused := propext h.focused
    simp only [focused, h.resX, h.resY] at log' canvas'
    refine ⟨es ++ es', by rw [parsed_append, he, he'], ?_, ?_⟩
    · rw [log', log, performed_append, List.append_assoc]
    · rw [canvas', canvas]
      split
      · rw [images_append, paints, paints, paints, List.foldl_append]
      · rfl

/-- A part that completes no image. -/
lemma quiet (es : List Event) (client : r'.client.resX = r.client.resX ∧
      r'.client.resY = r.client.resY ∧ r'.client.fd = r.client.fd)
    (focus : r'.globals.focusFd = r.globals.focusFd) (canvas : r'.canvas = r.canvas)
    (log : r'.log = r.log ++ es) (noDraw : parsed es = es) (noImage : images es = []) :
    Performs tj r r' where
  resX := client.1
  resY := client.2.1
  focused := by rw [Focused, Focused, focus, client.2.2]
  log := ⟨es, noDraw, by rw [performed_quiet _ noImage, log], by rw [canvas, noImage]; simp [paints]⟩

end Performs

/-- Allocating the receive buffer draws nothing. -/
lemma newRecvBuffer_performs :
    Post (Performs tj r) (fun s => Performs tj r s.recv) (r.newRecvBuffer heap) := by
  apply newRecvBuffer_rule
  case empty => exact fun _ => .refl r
  case thrown => exact fun _ _ => .quiet _ ⟨rfl, rfl, rfl⟩ rfl rfl rfl rfl rfl
  case found => exact fun _ _ _ => .quiet _ ⟨rfl, rfl, rfl⟩ rfl rfl rfl rfl rfl

/-- Allocating the name buffer draws nothing. -/
lemma newUserName_performs :
    Post (Performs tj r) (fun s => Performs tj r s.recv) (r.newUserName heap) := by
  apply newUserName_rule
  case other => exact fun _ => .refl r
  case thrown => exact fun _ _ => .quiet _ ⟨rfl, rfl, rfl⟩ rfl rfl rfl rfl rfl
  case found => exact fun _ _ _ => .quiet _ ⟨rfl, rfl, rfl⟩ rfl rfl rfl rfl rfl

/-- A header draws nothing. -/
lemma header_performs :
    Post (Performs tj r) (fun s => Performs tj r s.recv) (r.header heap buf len) := by
  apply header_rule (M := Performs tj r)
  case invalid => exact fun _ _ _ _ _ => .quiet _ ⟨rfl, rfl, rfl⟩ rfl rfl rfl rfl rfl
  case valid =>
    intro type length _ _ _
    have entered : Performs tj r ({ r with
        client := { r.client with
          headerType := type, headerLength := length, remainBytes := length, recvOffset := 0 }
        chunkRead := r.chunkRead + 8 }.emit
      [.bufRead r.chunkRead 4 len, .bufRead (r.chunkRead + 4) 4 len]) :=
      .quiet _ ⟨rfl, rfl, rfl⟩ rfl rfl rfl rfl rfl
    apply newRecvBuffer_performs.mono
    · intro t h
      exact entered.trans h
    · intro s h
      exact entered.trans h
  case name =>
    intro t h
    apply newUserName_performs.mono
    · intro u h'
      exact h.trans h'
    · intro s h'
      exact h.trans h'

/-- A store draws nothing. -/
lemma store_performs : Performs tj r (r.store buf len n) :=
  .quiet _ ⟨rfl, rfl, rfl⟩ rfl rfl rfl rfl rfl

/-- Reading on draws nothing. -/
lemma advance_performs : Performs tj r (r.advance n) :=
  .quiet [] ⟨rfl, rfl, rfl⟩ rfl rfl (List.append_nil _).symm rfl rfl

/-- A piece that does not end the payload draws nothing. -/
lemma part_performs : Performs tj r (r.part buf len) := by
  by_cases ha : Accumulates r.client.headerType
  · rw [part_of_accumulates ha]
    exact store_performs.trans advance_performs
  · rw [part_of_not_accumulates ha]
    exact advance_performs

/-- Drawing an image. -/
lemma drawFocused_canvas : (r.drawFocused tj).canvas =
    paints tj r.client.resX r.client.resY r.canvas (if r.Focused then [r.client.jpeg] else []) := by
  unfold drawFocused
  by_cases foc : r.Focused
  · have foc' : r.globals.focusFd = r.client.fd := foc
    have size : r.client.jpeg.length = r.client.jpegOffset := by simp [Client.jpeg]
    rw [if_pos foc, if_pos foc']
    simp only [paints, List.foldl_cons, List.foldl_nil, paint, size, Client.draw]
    by_cases pos : r.client.jpegOffset > 0
    · simp only [if_pos pos]
      cases tj.decompressHeader2 r.client.jpeg with
      | none =>
        by_cases fits : r.client.jpegWidth = r.client.resX ∧ r.client.jpegHeight = r.client.resY
        · simp [canvas, fits, emit]
        · simp [canvas, fits, emit]
      | some q =>
        by_cases fits : q.1 = r.client.resX ∧ q.2.1 = r.client.resY
        · simp [canvas, fits, emit, Client.jpeg]
        · simp [canvas, fits, emit]
    · simp [pos, canvas, emit]
  · have foc' : ¬ r.globals.focusFd = r.client.fd := foc
    rw [if_neg foc, if_neg foc']
    rfl

/-- A complete image that is drawn. -/
lemma Performs.image (es : List Event) (client : r'.client.resX = r.client.resX ∧
      r'.client.resY = r.client.resY ∧ r'.client.fd = r.client.fd)
    (focus : r'.globals.focusFd = r.globals.focusFd) (canvas : r'.canvas = r.canvas)
    (log : r'.log = r.log ++ (es ++ [.done recvImage r'.client.jpeg])) (noDraw : parsed es = es)
    (noImage : images es = []) : Performs tj r (r'.drawFocused tj) := by
  have drawn : Drawn r' (r'.drawFocused tj) := drawFocused_spec
  obtain ⟨_, ⟨w, x, y, dc⟩, ⟨fbp, dg, _⟩, dl⟩ := drawn
  have focused : r'.Focused ↔ r.Focused := by rw [Focused, Focused, focus, client.2.2]
  refine ⟨by rw [dc, client.1], by rw [dc, client.2.1], ?_, es ++ [.done recvImage r'.client.jpeg],
    ?_, ?_, ?_⟩
  · rw [Focused, dc, dg, ← focused, Focused]
  · rw [parsed_append, noDraw]
    rfl
  · rw [dl, log, performed_append, performed_quiet _ noImage]
    by_cases foc : r.Focused
    · have foc' : r'.globals.focusFd = r'.client.fd := focused.mpr foc
      simp [performed, foc, foc']
    · have foc' : ¬ r'.globals.focusFd = r'.client.fd := fun h => foc (focused.mp h)
      simp [performed, foc, foc']
  · rw [drawFocused_canvas, canvas, client.1, client.2.1, images_append, noImage]
    simp only [focused]
    rfl

/-- A complete image, kept and then drawn. -/
lemma image_performs : Post (fun t => Performs tj r (t.drawFocused tj)) (fun s => Performs tj r s.recv)
    (r.keepImage heap) := by
  apply keepImage_rule
  case thrown => exact fun _ => .quiet _ ⟨rfl, rfl, rfl⟩ rfl rfl rfl rfl rfl
  case found =>
    rintro b c _ rfl
    exact .image [.new .jpegBuffer (r.client.recvOffset + 1 : Nat),
      .write .jpegBuffer b.size r.client.recvOffset 1,
      .read .recvBuffer (r.client.recvBuffer.getD .null).size r.client.recvOffset,
      .write .jpegBuffer b.size 0 r.client.recvOffset] ⟨rfl, rfl, rfl⟩ rfl rfl rfl rfl rfl

/-- Keeping a name draws nothing. -/
lemma name_performs : Performs tj r r.name :=
  .quiet _ ⟨rfl, rfl, rfl⟩ rfl rfl rfl (by simp [parsed]) (by simp [images])

/-- A focus request draws nothing. -/
lemma focus_performs : Performs tj r r.focus :=
  .quiet _ ⟨rfl, rfl, rfl⟩ rfl rfl rfl (by simp [parsed]) (by simp [images])

/-- The end of an image draws it where the object has the focus. -/
lemma final_performs :
    Post (Performs tj r) (fun s => Performs tj r s.recv) (r.final tj heap buf len) := by
  apply final_rule
  case image =>
    intro _
    apply image_performs.mono
    · intro t h
      exact (store_performs.trans h).trans advance_performs
    · intro s h
      exact store_performs.trans h
  case name => exact fun _ => (store_performs.trans name_performs).trans advance_performs
  case focus => exact fun _ => (store_performs.trans focus_performs).trans advance_performs
  case other => exact fun _ _ _ => store_performs.trans advance_performs

/-- A round of the loop. -/
lemma round_performs :
    Post (Performs tj r) (fun s => Performs tj r s.recv) (r.round tj heap buf len) := by
  apply round_rule
  case header => exact fun _ => header_performs
  case part => exact fun _ _ => part_performs
  case final => exact fun _ _ => final_performs

end Recv

/-- A call draws the images that it completes, each one right behind its completion, when its object has
the focus; and the picture is what they make of it one after the other. -/
theorem receive_performs (tj : TurboJpeg) (heap : Heap) (c : Client) (g : Globals) (buf : Mem)
    (len : Nat) :
    Post (Recv.Performs tj ⟨[], 0, c, g⟩) (fun s => Recv.Performs tj ⟨[], 0, c, g⟩ s.recv)
      (c.receive tj heap g buf len) := by
  apply iterate_keeps
  case h => exact .refl _
  case keeps =>
    intro r h _
    apply Recv.round_performs.mono
    · intro t h'
      exact h.trans h'
    · intro s h'
      exact h.trans h'

end Projector
