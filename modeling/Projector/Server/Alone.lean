import Projector.Server.Buffer
import Projector.Server.Parsing

/-!
# What one connection can learn of the others

`main` reads every connection into the same buffer, and `receive` may look behind the bytes that were read.
`bzero` keeps that safe: in every run each byte of the buffer is zero or still what it was at the start
(`chunk_forgets`). So an object is what its own chunks make of it, as if nobody else were there
(`alone_of_exec`), and two servers that feed a connection the same chunks cannot be told apart by its
object, whatever else happens in them (`noninterference`).
-/

namespace Projector

/-- Globals under which nobody has the focus. -/
def Globals.nobody : Globals := ⟨-1, -1, 0, fun _ => 0⟩

/-- The call that a chunk of the connection `fd` gets when nobody else is there. -/
def Input.callAlone (fd : Int) : Input → Option Call
  | .read j bytes heap =>
    if j = fd then
      some ⟨⟨Mem.overlay (fun _ => 0) bytes, bytes.length, heap⟩, .nobody⟩
    else none
  | _ => none

/-- The chunks of a connection, as calls of its object alone. -/
def callsAlone (fd : Int) (is : List Input) : List Call := is.filterMap (Input.callAlone fd)

/-- Two objects that differ in the size of the last picture only. -/
def Client.SameParser (c d : Client) : Prop :=
  ∃ w h s, d = { c with jpegWidth := w, jpegHeight := h, jpegSubsamp := s }

namespace Client.SameParser

variable {c d e : Client}

/-- An object parses like itself. -/
lemma refl (c : Client) : c.SameParser c := ⟨_, _, _, rfl⟩

/-- To parse alike is symmetric. -/
lemma symm (h : c.SameParser d) : d.SameParser c := by
  obtain ⟨w, x, y, rfl⟩ := h
  exact ⟨c.jpegWidth, c.jpegHeight, c.jpegSubsamp, rfl⟩

/-- To parse alike is transitive. -/
lemma trans (h : c.SameParser d) (h' : d.SameParser e) : c.SameParser e := by
  obtain ⟨w, x, y, rfl⟩ := h
  obtain ⟨w', x', y', rfl⟩ := h'
  exact ⟨w', x', y', rfl⟩

end Client.SameParser

namespace Server

variable {tj : TurboJpeg} {ok : Server → Input → Prop} {s t : Server} {i : Input} {h o : List Output}
  {fd : Int} {c : Client}

/-! ## The buffer -/

/-- A step clears some of the buffer or leaves it alone. -/
lemma Effect.chunk (e : Effect tj s i t o) : t.chunk = s.chunk ∨ ∃ bytes : List UInt8,
    t.chunk = fun i => if i < bytes.length then 0 else s.chunk i := by
  cases e with
  | @read fd bytes => exact .inr ⟨bytes, rfl⟩
  | @refuse fd bytes => exact .inr ⟨bytes, rfl⟩
  | _ => exact .inl rfl

/-- Whatever was read, the buffer holds nothing of it afterwards, and the bytes that the next call of
`receive` finds behind its own are zero or were there when the server started. -/
theorem chunk_forgets {serverSocket : Int} {screen : Screen} {fbp chunk : Mem}
    (run : Run (Server.step tj) ok (start serverSocket screen fbp chunk) h s) :
    (∀ k, s.chunk k = 0 ∨ s.chunk k = chunk k) ∧
    ∀ bytes k, bytes.length ≤ k → s.chunk.overlay bytes k = 0 ∨ s.chunk.overlay bytes k = chunk k := by
  have forgotten : ∀ k, s.chunk k = 0 ∨ s.chunk k = chunk k := by
    apply run.invariant_state (I := fun s => ∀ k, s.chunk k = 0 ∨ s.chunk k = chunk k)
    · exact fun _ => .inr rfl
    · intro s i t o inv _ st k
      rcases (effect_of_step st).chunk with same | ⟨bytes, wiped⟩
      · rw [same]
        exact inv k
      · rw [wiped]
        by_cases inside : k < bytes.length
        · exact .inl (if_pos inside)
        · simp only [if_neg inside]
          exact inv k
  refine ⟨forgotten, fun bytes k behind => ?_⟩
  have kept : s.chunk.overlay bytes k = s.chunk k := by
    simp [Mem.overlay, Nat.not_lt.mpr behind]
  rw [kept]
  exact forgotten k

/-- A user sends half a header, in a server whose buffer is full of sevens. -/
def halfAHeader : List Input := [.accept ⟨4, 10, .blank⟩, .read 4 [5, 0, 0, 0] .cleared]

/-- `chunk_forgets` after `halfAHeader`. -/
theorem chunk_forgets_halfAHeader : ∃ s h,
    exec (Server.step .none) (start 3 ⟨1, 1, 3⟩ (fun _ => 0) fun _ => 7) halfAHeader = some (s, h) ∧
    s.chunk 0 = 0 ∧ s.chunk 4 = 7 ∧ (∀ k, s.chunk k = 0 ∨ s.chunk k = 7) ∧
    ∀ bytes k, bytes.length ≤ k → s.chunk.overlay bytes k = 0 ∨ s.chunk.overlay bytes k = 7 := by
  have run : (exec (Server.step .none) (start 3 ⟨1, 1, 3⟩ (fun _ => 0) fun _ => 7) halfAHeader).map
      (fun r => (r.1.chunk 0, r.1.chunk 4)) = some (0, 7) := by decide +kernel
  obtain ⟨⟨s, h⟩, e, bytes⟩ := Option.map_eq_some_iff.mp run
  obtain ⟨zero, seven⟩ := Prod.mk.inj bytes
  exact ⟨s, h, e, zero, seven, chunk_forgets (run_of_exec (admitted_true _ _) e)⟩

/-! ## One step -/

/-- A step of another connection or of a thread does not reach the object of `fd`, and a read for `fd` is
a call of it. -/
lemma Effect.own (e : Effect tj s i t o) (sound : s.Sound) (hc : s.client fd = some c)
    (stays : .closed fd ∉ o) :
    (i.callAlone fd = none ∧ t.client fd = some c) ∨ ∃ bytes heap r, i = .read fd bytes heap ∧
      c.receive tj heap s.toGlobals (s.chunk.overlay bytes) bytes.length = .ok r ∧
      t.client fd = some r.client := by
  cases e with
  | @accept a nonneg fresh =>
    have other : fd ≠ a.fd := by
      rintro rfl
      rw [sound.eq_none fresh] at hc
      cases hc
    exact .inl ⟨rfl, acceptClient_eq_some.mpr (.inr ⟨other, hc⟩)⟩
  | @read j bytes heap d r _ _ hd hr _ =>
    by_cases own : j = fd
    · subst own
      rw [hc, Option.some.injEq] at hd
      subst hd
      exact .inr ⟨bytes, heap, r, rfl, hr, received_eq_some.mpr (.inl ⟨rfl, rfl⟩)⟩
    · exact .inl ⟨if_neg own, received_eq_some.mpr (.inr ⟨Ne.symm own, hc⟩)⟩
  | @refuse j bytes heap d r =>
    have own : j ≠ fd := by
      rintro rfl
      exact stays (by simp)
    exact .inl ⟨if_neg own, dropClient_eq_some.mpr
      ⟨Ne.symm own, received_eq_some.mpr (.inr ⟨Ne.symm own, hc⟩)⟩⟩
  | @close j =>
    have own : j ≠ fd := by
      rintro rfl
      exact stays (by simp)
    exact .inl ⟨rfl, dropClient_eq_some.mpr ⟨Ne.symm own, hc⟩⟩
  | _ => exact .inl ⟨rfl, hc⟩

/-- A buffer of zeros stays one. -/
lemma Effect.blank (e : Effect tj s i t o) (blank : ∀ k, s.chunk k = 0) (k : Nat) : t.chunk k = 0 := by
  rcases e.chunk with same | ⟨bytes, wiped⟩
  · rw [same, blank]
  · simp [wiped, blank]

/-- A call among others is a call alone. -/
lemma call_alone (tj' : TurboJpeg) {d : Client} {g : Globals} {bytes : List UInt8} {heap : Heap}
    {r : Recv} (same : c.SameParser d) (blank : ∀ k, s.chunk k = 0)
    (hr : c.receive tj heap g (s.chunk.overlay bytes) bytes.length = .ok r) :
    ∃ d' es, d.call tj' ⟨⟨Mem.overlay (fun _ => 0) bytes, bytes.length, heap⟩, .nobody⟩ =
      some (d', es) ∧ r.client.SameParser d' := by
  have zero : s.chunk = fun _ => 0 := funext blank
  have alike : Agree Recv.Alike Recv.AlikeStop
      (c.receive tj heap g (s.chunk.overlay bytes) bytes.length)
      (d.receive tj' heap .nobody (s.chunk.overlay bytes) bytes.length) := receive_alike same
  obtain ⟨r', hr', like⟩ := alike.of_ok hr
  rw [zero] at hr'
  exact ⟨r'.client, r'.log, call_eq_some.mpr ⟨r', hr', rfl, rfl⟩, like.client⟩

/-! ## Runs -/

/-- As long as its connection is open, an object is what its own chunks make of it, with no focus, no
screen and any decoder. -/
theorem alone_of_exec (tj' : TurboJpeg) {is : List Input} {d : Client}
    (e : exec (Server.step tj) s is = some (t, h)) (sound : s.Sound) (blank : ∀ k, s.chunk k = 0)
    (hc : s.client fd = some c) (same : c.SameParser d) (stays : .closed fd ∉ h) :
    ∃ c' d' es, t.client fd = some c' ∧ exec (Client.call tj') d (callsAlone fd is) = some (d', es) ∧
      c'.SameParser d' := by
  induction is generalizing s c d h with
  | nil =>
    cases e
    exact ⟨c, d, [], hc, rfl, same⟩
  | cons i is ih =>
    obtain ⟨u, o, h', st, rest, rfl⟩ := exec_cons_eq_some.mp e
    rw [List.mem_append, not_or] at stays
    have effect := effect_of_step st
    have blank' := effect.blank blank
    rcases effect.own sound hc stays.1 with ⟨none, hc'⟩ | ⟨bytes, heap, r, rfl, hr, hc'⟩
    · rw [callsAlone, List.filterMap_cons_none none]
      exact ih rest (sound.effect effect) blank' hc' same stays.2
    · obtain ⟨d₁, es₁, called, same'⟩ := call_alone tj' same blank hr
      obtain ⟨c', d', es, hc'', run, same''⟩ := ih rest (sound.effect effect) blank' hc' same' stays.2
      have own : Input.callAlone fd (.read fd bytes heap) =
          some ⟨⟨Mem.overlay (fun _ => 0) bytes, bytes.length, heap⟩, .nobody⟩ := if_pos rfl
      refine ⟨c', d', es₁ ++ es, hc'', ?_, same''⟩
      rw [callsAlone, List.filterMap_cons_some own]
      exact exec_cons_eq_some.mpr ⟨d₁, es₁, es, called, run, rfl⟩

/-- Two servers whose buffers start out cleared, with a connection each whose objects parse alike: when
both have read the same chunks from it, its objects parse alike again, whatever the other connections,
the focus, the screens and the decoders were. -/
theorem noninterference {tj₁ tj₂ : TurboJpeg} {s₁ s₂ t₁ t₂ : Server} {is₁ is₂ : List Input}
    {h₁ h₂ : List Output} {c₁ c₂ : Client}
    (run₁ : exec (Server.step tj₁) s₁ is₁ = some (t₁, h₁))
    (run₂ : exec (Server.step tj₂) s₂ is₂ = some (t₂, h₂)) (sound₁ : s₁.Sound) (sound₂ : s₂.Sound)
    (blank₁ : ∀ k, s₁.chunk k = 0) (blank₂ : ∀ k, s₂.chunk k = 0) (hc₁ : s₁.client fd = some c₁)
    (hc₂ : s₂.client fd = some c₂) (same : c₁.SameParser c₂) (stays₁ : .closed fd ∉ h₁)
    (stays₂ : .closed fd ∉ h₂) (chunks : callsAlone fd is₁ = callsAlone fd is₂) :
    ∃ d₁ d₂, t₁.client fd = some d₁ ∧ t₂.client fd = some d₂ ∧ d₁.SameParser d₂ := by
  obtain ⟨d₁, d, es, hd₁, alone₁, same₁⟩ := alone_of_exec .none run₁ sound₁ blank₁ hc₁ same stays₁
  obtain ⟨d₂, d', es', hd₂, alone₂, same₂⟩ :=
    alone_of_exec .none run₂ sound₂ blank₂ hc₂ (.refl c₂) stays₂
  rw [chunks, alone₂] at alone₁
  cases alone₁
  exact ⟨d₁, d₂, hd₁, hd₂, same₁.trans same₂.symm⟩

/-- The first piece of an image of two bytes. -/
def firstPiece : List UInt8 := [5, 0, 0, 0, 2, 0, 0, 0, 255]

/-- The second of three users sends an image in two pieces, and the holder of the focus leaves in
between. -/
def amongOthers : List Input := [.read 5 firstPiece .cleared, .close 4, .read 5 [216] .cleared]

/-- The only user gets the focus and sends the image in the same pieces. -/
def byItself : List Input :=
  [.observe (fun _ => false) [12], .read 5 firstPiece .cleared, .read 5 [216] .cleared]

/-- `noninterference` for the two. -/
theorem noninterference_image : ∃ t₁ h₁ t₂ h₂ d₁ d₂,
    exec (Server.step .none) three amongOthers = some (t₁, h₁) ∧
    exec (Server.step ⟨fun _ => some (1, 1, 0), fun _ _ _ _ _ => fun _ => 255⟩)
      (blank.acceptClient ⟨5, 11, .blank⟩) byItself = some (t₂, h₂) ∧
    h₁ = [.received 5 0, .closed 4, .received 5 0] ∧
    h₂ = [.isset 5, .grant 5, .received 5 0, .draw 5 [255, 216], .received 5 0] ∧
    t₁.client 5 = some d₁ ∧ t₂.client 5 = some d₂ ∧ d₁.SameParser d₂ := by
  have run₁ : (exec (Server.step .none) three amongOthers).map Prod.snd =
      some [.received 5 0, .closed 4, .received 5 0] := by decide +kernel
  have run₂ : (exec (Server.step ⟨fun _ => some (1, 1, 0), fun _ _ _ _ _ => fun _ => 255⟩)
      (blank.acceptClient ⟨5, 11, .blank⟩) byItself).map Prod.snd =
      some [.isset 5, .grant 5, .received 5 0, .draw 5 [255, 216], .received 5 0] := by decide +kernel
  obtain ⟨⟨t₁, h₁⟩, e₁, history₁⟩ := Option.map_eq_some_iff.mp run₁
  obtain ⟨⟨t₂, h₂⟩, e₂, history₂⟩ := Option.map_eq_some_iff.mp run₂
  have sound₂ : (blank.acceptClient ⟨5, 11, .blank⟩).Sound :=
    (Sound.start ..).accept (by decide) (by decide)
  dsimp only at history₁ history₂
  have stays₁ : .closed 5 ∉ h₁ := by simp [history₁]
  have stays₂ : .closed 5 ∉ h₂ := by simp [history₂]
  have here : three.client 5 = some (.new ⟨1, 1, 3⟩ .blank 5 11) := rfl
  obtain ⟨d₁, d₂, hd₁, hd₂, same⟩ := noninterference e₁ e₂ three_reached.sound sound₂ (fun _ => rfl)
    (fun _ => rfl) here rfl (.refl _) stays₁ stays₂ rfl
  exact ⟨t₁, h₁, t₂, h₂, d₁, d₂, e₁, e₂, history₁, history₂, hd₁, hd₂, same⟩

end Server

end Projector
