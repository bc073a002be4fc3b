import Projector.Server.Observer
import Projector.Server.Parsing
import Projector.Server.Picture

/-!
# What is on the screen

Many connections send images, the focus moves, and now and then `draw()` is called. `screen_shows` says what
all of this amounts to: at any time the frame buffer holds the last picture drawn that has the size of the
screen, its lines packed tightly, and what is behind the picture has not been touched since the start.
-/

namespace Projector

/-- The images that were drawn, by whichever connection. -/
def drawnImages (h : List Output) : List (List UInt8) :=
  h.filterMap fun o => match o with
    | .draw _ jpeg => some jpeg
    | _ => none

/-- The images drawn in two histories. -/
@[simp] lemma drawnImages_append (h h' : List Output) :
    drawnImages (h ++ h') = drawnImages h ++ drawnImages h' := List.filterMap_append

/-- The draws of a call of `receive`. -/
lemma drawnImages_outputs (fd : Int) (log : List Event) : drawnImages (outputs fd log) = draws log := by
  simp only [drawnImages, outputs, draws, List.filterMap_filterMap]
  congr 1
  funext e
  cases e with
  | done type data => by_cases foc : type = changeFocusStatus <;> simp [foc]
  | _ => rfl

/-- A parser that draws its images draws nothing else. -/
lemma draws_performed (focus : Prop) [Decidable focus] {es : List Event} (h : parsed es = es) :
    draws (performed focus es) = if focus then images es else [] := by
  induction es with
  | nil => simp [performed, draws, images]
  | cons e es ih =>
    have tail : parsed es = es := (parsed_cons.mp h).2
    rw [← List.singleton_append, performed_append, draws_append, ih tail, images_append]
    cases e with
    | done type data =>
      by_cases foc : focus <;> by_cases image : type = recvImage <;>
        simp [performed, draws, images, foc, image]
    | draw jpeg => exact absurd rfl ((parsed_cons.mp h).1 jpeg)
    | _ => split <;> rfl

namespace Screen

variable {tj : TurboJpeg} {s : Screen} {pic : List UInt8 → Picture} {fbp m : Mem}
  {jpeg : List UInt8} {jpegs : List (List UInt8)}

/-- The picture has the size of the screen. -/
def Fits (s : Screen) (p : Picture) : Prop := p.width = s.xres ∧ p.height = s.yres

instance (s : Screen) : DecidablePred s.Fits := fun _ => inferInstanceAs (Decidable (_ ∧ _))

/-- What is to be seen after some images: the last picture of the right size. -/
def shown (s : Screen) (pic : List UInt8 → Picture) (jpegs : List (List UInt8)) : Option Picture :=
  ((jpegs.map pic).filter s.Fits).getLast?

/-- The memory `m` holds a picture in front of what was there in `fbp`. -/
def Holds (s : Screen) (fbp : Mem) (m : Mem) : Option Picture → Prop
  | none => m = fbp
  | some p => ∀ k, m k = if k < s.yres * (s.xres * 3) then p.row (k / (s.xres * 3)) (k % (s.xres * 3))
    else fbp k

/-- The library recognises an image, as this picture. -/
structure Recognised (tj : TurboJpeg) (pic : List UInt8 → Picture) (jpeg : List UInt8) : Prop where
  ne_nil : jpeg ≠ []
  decodes : tj.Decodes jpeg (pic jpeg)

/-- Behind the picture is what was there at the start. -/
lemma Holds.behind {p : Option Picture} (h : s.Holds fbp m p) {k : Nat}
    (far : ¬ k < s.yres * (s.xres * 3)) : m k = fbp k := by
  cases p with
  | none => exact congrFun h k
  | some p => rw [h k, if_neg far]

/-- A picture of the right size is put over the last one. -/
lemma Holds.decompress {p : Option Picture} (h : s.Holds fbp m p) {q : Picture} (fits : s.Fits q)
    (decodes : tj.Decodes jpeg q) :
    s.Holds fbp (tj.decompress2 jpeg m q.width 0 q.height) (some q) := by
  obtain ⟨width, height⟩ := fits
  have stores : tj.decompress2 jpeg m q.width (0 : Nat) q.height = Store.runAll m
      ((⟨3, q.width * 3⟩ : Layout).paint q.width q.height (Layout.cell 3 q.row)) :=
    decodes.decompress m 0 (by simp)
  rw [Nat.cast_zero] at stores
  intro k
  rw [stores, ← width, ← height]
  have behind (far : ¬ k < q.height * (q.width * 3)) : m k = fbp k :=
    h.behind (by rwa [width, height] at far)
  by_cases empty : q.width = 0
  -- A picture without columns is no store at all.
  · have far : ¬ k < q.height * (q.width * 3) := by simp [empty]
    rw [if_neg far, ← behind far]
    apply Store.runAll_of_not_covers
    intro w mem
    obtain ⟨x, hx, _⟩ := Layout.mem_paint.mp mem
    omega
  · rw [Layout.runAll_paint_tight (by omega)]
    split
    · rfl
    · exact behind ‹_›

/-- One image. -/
lemma Holds.paint {p : Canvas} (known : Recognised tj pic jpeg) (h : s.Holds fbp p.fbp (s.shown pic jpegs)) :
    s.Holds fbp (paint tj s.xres s.yres p jpeg).fbp (s.shown pic (jpegs ++ [jpeg])) := by
  obtain ⟨subsamp, header⟩ := known.decodes.header
  have pos : 0 < jpeg.length := List.length_pos_iff.mpr known.ne_nil
  simp only [Projector.paint, if_pos pos, header, Nat.cast_inj]
  by_cases fits : (pic jpeg).width = s.xres ∧ (pic jpeg).height = s.yres
  · have last : s.shown pic (jpegs ++ [jpeg]) = some (pic jpeg) := by simp [shown, Fits, fits]
    rw [if_pos fits, last]
    exact h.decompress fits known.decodes
  · have same : s.shown pic (jpegs ++ [jpeg]) = s.shown pic jpegs := by simp [shown, Fits, fits]
    rw [if_neg fits, same]
    exact h

/-- Some images, one after the other. -/
lemma Holds.paints {p : Canvas} {new : List (List UInt8)} (known : ∀ jpeg ∈ new, Recognised tj pic jpeg)
    (h : s.Holds fbp p.fbp (s.shown pic jpegs)) :
    s.Holds fbp (paints tj s.xres s.yres p new).fbp (s.shown pic (jpegs ++ new)) := by
  induction new generalizing p jpegs with
  | nil => simpa [Projector.paints] using h
  | cons jpeg new ih =>
    have first := h.paint (known jpeg List.mem_cons_self)
    have rest := ih (fun j mem => known j (List.mem_cons_of_mem jpeg mem)) first
    rwa [List.append_assoc, List.singleton_append] at rest

end Screen

namespace Server

variable {tj : TurboJpeg} {ok : Server → Input → Prop} {s t : Server} {i : Input} {h o : List Output}

/-- The objects draw for the screen of the server. -/
def Sized (s : Server) : Prop :=
  ∀ i c, s.client i = some c → c.resX = s.screen.xres ∧ c.resY = s.screen.yres

/-- A call of `receive` draws the images that it puts out. -/
lemma canvas_of_performs {c : Client} {g : Globals} {r : Recv} (p : Recv.Performs tj ⟨[], 0, c, g⟩ r) :
    r.globals.fbp = (paints tj c.resX c.resY ⟨c.jpegWidth, c.jpegHeight, c.jpegSubsamp, g.fbp⟩
      (draws r.log)).fbp := by
  obtain ⟨es, he, log, canvas⟩ := p.log
  rw [List.nil_append] at log
  rw [log, draws_performed _ he]
  exact congrArg Canvas.fbp canvas

/-- A newcomer leaves the frame buffer alone. -/
lemma join_fbp (g : Globals) (fd : Int) : (g.join fd).fbp = g.fbp := by
  unfold Globals.join
  split <;> rfl

/-- A departure leaves the frame buffer alone. -/
lemma leave_fbp (g : Globals) (fd : Int) : (g.leave fd).fbp = g.fbp := by
  simp only [Globals.leave]
  split
  · split <;> rfl
  · rfl

/-- Closing a connection does not touch the screen. -/
lemma dropClient_fbp (s : Server) (fd : Int) : (s.dropClient fd).fbp = s.fbp := by
  cases hc : s.client fd with
  | none => simp [dropClient, hc]
  | some c => rw [dropClient_toGlobals s fd hc, leave_fbp]

/-- Outputs that are no draws. -/
lemma drawnImages_eq_nil (quiet : ∀ fd jpeg, .draw fd jpeg ∉ o) : drawnImages o = [] := by
  rw [drawnImages, List.filterMap_eq_nil_iff]
  intro x mem
  cases x with
  | draw fd jpeg => exact absurd mem (quiet fd jpeg)
  | _ => rfl

/-- `t` is `s` after these images were drawn. -/
structure Painted (tj : TurboJpeg) (s t : Server) (jpegs : List (List UInt8)) : Prop where
  screen : t.screen = s.screen
  fbp : ∃ p : Canvas, p.fbp = s.fbp ∧ t.fbp = (paints tj s.screen.xres s.screen.yres p jpegs).fbp

/-- Nothing was drawn. -/
lemma Painted.quiet (screen : t.screen = s.screen) (fbp : t.fbp = s.fbp)
    (noDraw : ∀ fd jpeg, .draw fd jpeg ∉ o) : Painted tj s t (drawnImages o) :=
  ⟨screen, ⟨0, 0, 0, s.fbp⟩, rfl, by rw [drawnImages_eq_nil noDraw, fbp]; rfl⟩

/-- A call of `receive`. -/
lemma painted_received {fd : Int} {c : Client} {r : Recv} (sized : s.Sized) (hc : s.client fd = some c)
    (p : Recv.Performs tj ⟨[], 0, c, s.toGlobals⟩ r) :
    Painted tj s (s.received fd r) (draws r.log) ∧ (s.received fd r).Sized := by
  have canvas := canvas_of_performs p
  obtain ⟨resX, resY⟩ := sized fd c hc
  rw [resX, resY] at canvas
  refine ⟨⟨rfl, _, rfl, canvas⟩, fun i d hd => ?_⟩
  rcases received_eq_some.mp hd with ⟨_, rfl⟩ | ⟨_, old⟩
  · exact ⟨p.resX.trans resX, p.resY.trans resY⟩
  · exact sized i d old

/-- Only a call of `receive` draws. -/
lemma Effect.noDraw (e : Effect tj s i t o) (inv : s.Sound)
    (other : ∀ fd bytes heap, i ≠ .read fd bytes heap) (fd : Int) (jpeg : List UInt8) :
    .draw fd jpeg ∉ o := by
  cases i with
  | accept a =>
    cases e
    simp
  | read fd bytes heap => exact absurd rfl (other fd bytes heap)
  | close fd =>
    cases e
    simp
  | observe beyond ws =>
    have spec := observe_spec inv e
    intro mem
    cases he : s.elected beyond with
    | none =>
      rw [he] at spec
      obtain ⟨_, e⟩ := spec.2 _ mem
      cases e
    | some fd =>
      rw [he] at spec
      obtain ⟨_, tests, rfl, tested⟩ := spec
      rcases List.mem_append.mp mem with mem | mem
      · obtain ⟨_, e⟩ := tested _ mem
        cases e
      · simp at mem
  | list beyond fresh =>
    cases e
    unfold sendList
    split <;> simp

/-- What is drawn in a step is what the step puts out, and the objects keep their size. -/
lemma Effect.drawnOn (e : Effect tj s i t o) (inv : s.Sound) (sized : s.Sized) :
    Painted tj s t (drawnImages o) ∧ t.Sized := by
  cases i with
  | accept a =>
    cases e
    refine ⟨.quiet rfl (join_fbp ..) (by simp), fun i d hd => ?_⟩
    rcases acceptClient_eq_some.mp hd with ⟨_, rfl⟩ | ⟨_, old⟩
    · exact ⟨rfl, rfl⟩
    · exact sized i d old
  | read fd bytes heap =>
    have performs (c : Client) :=
      receive_performs tj heap c s.toGlobals (s.chunk.overlay bytes) bytes.length
    cases e with
    | @read _ _ _ c r _ _ hc hr =>
      obtain ⟨⟨screen, p, hp, painted⟩, sized'⟩ :=
        painted_received sized hc ((performs c).of_ok hr)
      rw [drawnImages_append, drawnImages_outputs]
      refine ⟨⟨screen, p, hp, ?_⟩, sized'⟩
      rw [wipe_toGlobals, painted]
      simp [drawnImages]
    | @refuse _ _ _ c r _ _ hc hr =>
      obtain ⟨⟨screen, p, hp, painted⟩, sized'⟩ :=
        painted_received sized hc ((performs c).of_error hr)
      rw [drawnImages_append, drawnImages_outputs]
      refine ⟨⟨screen, p, hp, ?_⟩, fun i d hd => sized' i d (dropClient_eq_some.mp hd).2⟩
      rw [wipe_toGlobals, dropClient_fbp, painted]
      simp [drawnImages]
  | close fd =>
    cases e
    exact ⟨.quiet rfl (dropClient_fbp s fd) (by simp),
      fun i d hd => sized i d (dropClient_eq_some.mp hd).2⟩
  | observe beyond ws =>
    have noDraw := e.noDraw inv fun _ _ _ e => nomatch e
    have spec := observe_spec inv e
    cases he : s.elected beyond with
    | none =>
      rw [he] at spec
      rw [spec.1]
      exact ⟨.quiet rfl rfl noDraw, sized⟩
    | some fd =>
      rw [he] at spec
      rw [spec.1]
      exact ⟨.quiet rfl rfl noDraw, sized⟩
  | list beyond fresh =>
    have noDraw := e.noDraw inv fun _ _ _ e => nomatch e
    cases e
    exact ⟨.quiet rfl rfl noDraw, sized⟩

/-- The frame buffer holds what the images of the history make of it, as far as the library recognises
them. -/
structure Displays (pic : List UInt8 → Picture) (screen : Screen) (tj : TurboJpeg) (fbp : Mem) (s : Server)
    (h : List Output) : Prop where
  sound : s.Sound
  same : s.screen = screen
  sized : s.Sized
  holds : (∀ jpeg ∈ drawnImages h, Screen.Recognised tj pic jpeg) →
    screen.Holds fbp s.fbp (screen.shown pic (drawnImages h))

section displays

variable {serverSocket : Int} {screen : Screen} {fbp chunk : Mem} {pic : List UInt8 → Picture}

/-- Before anything is drawn. -/
lemma Displays.start : (start serverSocket screen fbp chunk).Displays pic screen tj fbp [] where
  sound := .start ..
  same := rfl
  sized i c hc := by simp [Projector.start] at hc
  holds _ := rfl

/-- One step. -/
lemma Displays.effect (inv : s.Displays pic screen tj fbp h) (e : Effect tj s i t o) :
    t.Displays pic screen tj fbp (h ++ o) := by
  obtain ⟨sound, rfl, sized, holds⟩ := inv
  obtain ⟨⟨same, p, before, after⟩, sized'⟩ := e.drawnOn sound sized
  refine ⟨sound.effect e, same, sized', fun known => ?_⟩
  rw [drawnImages_append] at known ⊢
  simp only [List.mem_append] at known
  have held := holds fun jpeg mem => known jpeg (.inl mem)
  rw [← before] at held
  rw [after]
  exact held.paints fun jpeg mem => known jpeg (.inr mem)

/-- In every run whose images the library recognises, the frame buffer holds the last picture drawn that
has the size of the screen, line after line, and behind it what was there at the start. -/
theorem screen_shows (run : Run (Server.step tj) ok (start serverSocket screen fbp chunk) h s)
    (known : ∀ jpeg ∈ drawnImages h, Screen.Recognised tj pic jpeg) :
    screen.Holds fbp s.fbp (screen.shown pic (drawnImages h)) := by
  have inv : s.Displays pic screen tj fbp h := run.invariant .start
    fun _ _ _ _ _ inv _ st => inv.effect (effect_of_step st)
  exact inv.holds known

end displays

/-- A light picture of two by two pixels. -/
def lightJpeg : List UInt8 := grayJpeg 2 2 6 [64]

/-- A dark one. -/
def darkJpeg : List UInt8 := grayJpeg 2 2 6 [62]

/-- The two files differ. -/
lemma darkJpeg_ne : darkJpeg ≠ lightJpeg := by decide +kernel

/-- What they show. -/
def shades : List (List UInt8 × Picture) := [(lightJpeg, .gray 2 2 160), (darkJpeg, .gray 2 2 96)]

/-- The picture of either file. -/
def shade (jpeg : List UInt8) : Picture := if jpeg = lightJpeg then .gray 2 2 160 else .gray 2 2 96

/-- The library recognises both. -/
lemma recognised_shade {jpeg : List UInt8} (mem : jpeg ∈ [lightJpeg, darkJpeg]) :
    Screen.Recognised (.knowing shades) shade jpeg := by
  simp only [List.mem_cons, List.not_mem_nil, or_false] at mem
  rcases mem with rfl | rfl
  · exact ⟨grayJpeg_ne_nil 2 2 6 _, TurboJpeg.decodes_knowing (by simp [shades, shade])⟩
  · refine ⟨grayJpeg_ne_nil 2 2 6 _, TurboJpeg.decodes_knowing ?_⟩
    rw [shades, List.lookup_cons, beq_eq_false_iff_ne.mpr darkJpeg_ne, shade, if_neg darkJpeg_ne]
    simp

/-- Of the two, the dark one is shown when it comes last. -/
lemma shown_dark : Screen.shown ⟨2, 2, 8⟩ shade [lightJpeg, darkJpeg] = some (.gray 2 2 96) := by
  simp [Screen.shown, Screen.Fits, shade, darkJpeg_ne, Picture.gray]

/-- Two users draw one after the other, the second when the first has left. -/
def drawInTurn : List Input :=
  [.accept ⟨4, 10, .blank⟩, .observe (fun _ => false) [12], .accept ⟨5, 11, .blank⟩,
    .read 4 (intBytes recvImage ++ intBytes lightJpeg.length ++ lightJpeg) .cleared, .close 4,
    .observe (fun _ => false) [12],
    .read 5 (intBytes recvImage ++ intBytes darkJpeg.length ++ darkJpeg) .cleared]

/-- `screen_shows` after `drawInTurn`, on a screen of two by two pixels. -/
theorem screen_shows_inTurn : ∃ s h,
    exec (Server.step (.knowing shades)) (start 3 ⟨2, 2, 8⟩ (fun _ => 7) fun _ => 0) drawInTurn =
      some (s, h) ∧
    drawnImages h = [lightJpeg, darkJpeg] ∧
    Screen.Holds ⟨2, 2, 8⟩ (fun _ => 7) s.fbp (some (.gray 2 2 96)) := by
  have run : (exec (Server.step (.knowing shades)) (start 3 ⟨2, 2, 8⟩ (fun _ => 7) fun _ => 0)
      drawInTurn).map (fun r => drawnImages r.2) = some [lightJpeg, darkJpeg] := by decide +kernel
  obtain ⟨⟨s, h⟩, e, drawn⟩ := Option.map_eq_some_iff.mp run
  dsimp only at drawn
  have known : ∀ jpeg ∈ drawnImages h, Screen.Recognised (.knowing shades) shade jpeg := by
    rw [drawn]
    exact fun jpeg => recognised_shade
  have shows_ := screen_shows (run_of_exec (admitted_true _ _) e) known
  rw [drawn, shown_dark] at shows_
  exact ⟨s, h, e, drawn, shows_⟩

end Server

end Projector
