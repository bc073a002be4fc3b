import Projector.Server.Presentation
import Projector.Server.Screen

/-!
# What everybody is shown

The server with its users, each of whom sends a stream of messages from the moment it connects. An image is
due on the screen when its user completes it while it has the focus. Whatever the order in which the users
come and go, their chunks arrive and the focus moves, the images that are drawn are those that are due, and
the frame buffer holds the last one of them that has the size of the screen (`projector_shows`).
-/

namespace Projector

/-- The images that an input completes, if they come from the holder of the focus. -/
def Presentation.completes (x : Presentation) (i : PresentationInput) : List (List UInt8) :=
  match i.input with
  | .read fd bytes _ =>
    if x.server.focusFd = fd then
      imagesCompleted (x.peer fd).sent (x.peer fd).got bytes.length
    else []
  | _ => []

/-- The server with its users, and the images that were due until now. -/
structure Projection where
  presentation : Presentation
  due : List (List UInt8)

namespace Projection

/-- One step: the server's. -/
def step (tj : TurboJpeg) (x : Projection) (i : PresentationInput) :
    Option (Projection × List Output) :=
  (x.presentation.step tj i).map fun r => (⟨r.1, x.due ++ x.presentation.completes i⟩, r.2)

/-- The users do what they do in `Presentation`. -/
def Conforms (x : Projection) (i : PresentationInput) : Prop := x.presentation.Conforms i

/-- A server that has just started. -/
def start (serverSocket : Int) (screen : Screen) (fbp chunk : Mem) : Projection where
  presentation := .start serverSocket screen fbp chunk
  due := []

end Projection

section effect

variable {tj : TurboJpeg} {x : Presentation} {i : PresentationInput} {t : Server} {o : List Output}

/-- A step draws the images that it completes. -/
lemma Presentation.Inv.drawnImages_effect (inv : x.Inv) (ok : x.Conforms i)
    (e : Server.Effect tj x.server i.input t o) : drawnImages o = x.completes i := by
  obtain ⟨input, ms⟩ := i
  cases input with
  | read fd bytes heap =>
    cases e with
    | @read _ _ _ c r _ _ hc hr =>
      obtain ⟨_, drawn⟩ := (receive_tells (inv.tells _ c hc) ok.1 ok.2).of_ok hr
      rw [drawnImages_append, drawnImages_outputs, drawn, inv.sound.slot fd c hc]
      exact List.append_nil _
    | @refuse _ _ _ c r _ _ hc hr =>
      -- A user who sends messages only is never turned out.
      have exit := (receive_tells (inv.tells _ c hc) ok.1 ok.2).of_error hr
      cases exit
  | accept | close | observe | list =>
    exact Server.drawnImages_eq_nil (e.noDraw inv.sound fun _ _ _ e => nomatch e)

end effect

/-- The type of an image is one that the server takes. -/
lemma recvImage_valid : 0 ≤ recvImage ∧ recvImage ≤ 10 := by decide

/-- The message with an image. -/
def Msg.image (jpeg : List UInt8) (small : jpeg.length < 2 ^ 31) : Msg where
  type := recvImage
  payload := jpeg
  type_valid := recvImage_valid
  length_lt := small

/-- Images that can be allocated may be sent in any number. -/
lemma sendable_images {ms : List Msg}
    (images : ∀ m ∈ ms, m.type = recvImage ∧ m.payload.length + 1 < 2 ^ 31) : Sendable ms where
  names := by
    induction ms with
    | nil => trivial
    | cons m ms ih =>
      have noName : m.type ≠ recvName := by
        rw [(images m List.mem_cons_self).1]
        decide
      rw [NamesFit, if_neg noName]
      exact ih fun m mem => images m (List.mem_cons_of_mem _ mem)
  requests m mem request := by
    rw [(images m mem).1] at request
    cases request
  lengths m mem := (images m mem).2

/-- The light picture is small. -/
lemma length_lightJpeg : Server.lightJpeg.length < 2 ^ 31 := by decide +kernel

/-- So is the dark one. -/
lemma length_darkJpeg : Server.darkJpeg.length < 2 ^ 31 := by decide +kernel

/-- A light image. -/
def lightImage : Msg := .image Server.lightJpeg length_lightJpeg

/-- A dark one. -/
def darkImage : Msg := .image Server.darkJpeg length_darkJpeg

namespace Projection

variable {tj : TurboJpeg} {x y : Projection} {h o : List Output} {i : PresentationInput}
  {pic : List UInt8 → Picture} {screen : Screen} {fbp : Mem}

/-- Every object tells what its user has sent, what was due has been drawn, and the frame buffer shows it. -/
structure Inv (pic : List UInt8 → Picture) (screen : Screen) (tj : TurboJpeg) (fbp : Mem) (x : Projection)
    (h : List Output) : Prop where
  presentation : x.presentation.Inv
  displays : x.presentation.server.Displays pic screen tj fbp h
  due : drawnImages h = x.due

/-- One step. -/
lemma Inv.step (inv : x.Inv pic screen tj fbp h) (ok : x.Conforms i)
    (st : x.step tj i = some (y, o)) : y.Inv pic screen tj fbp (h ++ o) := by
  obtain ⟨⟨p, o'⟩, moved, e⟩ := Option.map_eq_some_iff.mp st
  obtain ⟨rfl, rfl⟩ := Prod.mk.inj e
  obtain ⟨⟨t, o⟩, served, e⟩ := Option.map_eq_some_iff.mp moved
  obtain ⟨rfl, rfl⟩ := Prod.mk.inj e
  have effect := Server.effect_of_step served
  refine ⟨inv.presentation.step ok moved, inv.displays.effect effect, ?_⟩
  rw [drawnImages_append, inv.due, inv.presentation.drawnImages_effect ok effect]

/-- In every run of conforming users in which an iteration of `focusObserver` or of `userListThread` is one
step, the images drawn are those that a user completed while it had the focus, in this order; and as long as
the library recognises them, the frame buffer holds the last one that has the size of the screen, and behind
it what was there at the start. -/
theorem projector_shows {serverSocket : Int} {chunk : Mem}
    (run : Run (step tj) Conforms (start serverSocket screen fbp chunk) h x) :
    drawnImages h = x.due ∧ ((∀ jpeg ∈ x.due, Screen.Recognised tj pic jpeg) →
      screen.Holds fbp x.presentation.server.fbp (screen.shown pic x.due)) := by
  have inv : x.Inv pic screen tj fbp h := run.invariant ⟨.start .., .start, rfl⟩
    fun _ _ _ _ _ inv ok st => inv.step ok st
  refine ⟨inv.due, fun known => ?_⟩
  rw [← inv.due] at known ⊢
  exact inv.displays.holds known

/-- The first of two users gets the focus; the second sends a dark image, which is not shown, and the first a
light one in two pieces. Then the first user leaves, and the second sends its image again. -/
def lightThenDark : List PresentationInput :=
  [⟨.accept ⟨4, 10, .blank⟩, [lightImage]⟩, ⟨.observe (fun _ => false) [12], []⟩,
    ⟨.accept ⟨5, 11, .blank⟩, [darkImage, darkImage]⟩,
    ⟨.read 5 (wire.encode darkImage) .cleared, []⟩,
    ⟨.read 4 ((wire.encode lightImage).take 20) .cleared, []⟩,
    ⟨.read 4 ((wire.encode lightImage).drop 20) .cleared, []⟩, ⟨.close 4, []⟩,
    ⟨.observe (fun _ => false) [12], []⟩, ⟨.read 5 (wire.encode darkImage) .cleared, []⟩]

/-- `projector_shows` after `lightThenDark`. -/
theorem projector_shows_lightThenDark : ∃ x h,
    exec (step (.knowing Server.shades)) (start 3 ⟨2, 2, 8⟩ (fun _ => 7) fun _ => 0) lightThenDark =
      some (x, h) ∧
    x.due = [Server.lightJpeg, Server.darkJpeg] ∧ drawnImages h = x.due ∧
    Screen.Holds ⟨2, 2, 8⟩ (fun _ => 7) x.presentation.server.fbp (some (.gray 2 2 96)) := by
  have run : (exec (step (.knowing Server.shades)) (start 3 ⟨2, 2, 8⟩ (fun _ => 7) fun _ => 0)
      lightThenDark).map (fun r => r.1.due) = some [Server.lightJpeg, Server.darkJpeg] := by
    decide +kernel
  have sendable : ∀ ms ∈ [[lightImage], [darkImage, darkImage]], Sendable ms := by
    intro ms mem
    apply sendable_images
    revert mem ms
    decide +kernel
  have keeps : Admitted (step (.knowing Server.shades))
      (fun x i => x.presentation.Keeps [[lightImage], [darkImage, darkImage]] i)
      (start 3 ⟨2, 2, 8⟩ (fun _ => 7) fun _ => 0) lightThenDark := by decide +kernel
  have adm := keeps.mono fun _ _ _ ok => Presentation.conforms_of_keeps sendable ok
  obtain ⟨⟨x, h⟩, e, due⟩ := Option.map_eq_some_iff.mp run
  dsimp only at due
  have known : ∀ jpeg ∈ x.due, Screen.Recognised (.knowing Server.shades) Server.shade jpeg := by
    rw [due]
    exact fun jpeg => Server.recognised_shade
  obtain ⟨drawn, shows_⟩ : drawnImages h = x.due ∧ (_ → Screen.Holds ⟨2, 2, 8⟩ (fun _ => 7) _
      (Screen.shown ⟨2, 2, 8⟩ Server.shade x.due)) := projector_shows (run_of_exec adm e)
  have last := shows_ known
  rw [due, Server.shown_dark] at last
  exact ⟨x, h, e, due, drawn, last⟩

end Projection

end Projector
