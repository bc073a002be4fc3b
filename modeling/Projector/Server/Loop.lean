import Projector.Server.Table

/-!
# The table under the main loop

`main` walks over the snapshot `tmp_fds` while it closes and accepts connections, so the snapshot grows
stale. What it has not come to yet stays watched: a descriptor is only closed when the loop is at it, and
this is the invariant that makes `client[fd]` a valid pointer wherever the loop uses it. Each round that
serves a descriptor is a step of the server as a system (`effect_of_serve`), so the table stays sound.
-/

namespace Projector

/-- The input of the system that a round of the loop amounts to. -/
def Input.ofServe (serverSocket fd : Int) (a : Accepted) (r : ReadResult) : Input :=
  if fd = serverSocket then .accept a
  else
    match r with
    | .data bytes heap => if 0 < bytes.length then .read fd bytes heap else .close fd
    | .error => .close fd

namespace Server

variable {tj : TurboJpeg} {s s' : Server} {fd : Int} {a : Accepted} {r : ReadResult}
  {o : List Output} {i : Int}

/-- A round of the loop is a step of the system. -/
theorem effect_of_serve (watched : s.readFds fd = true)
    (accepts : fd = s.serverSocket → 0 ≤ a.fd ∧ s.readFds a.fd = false)
    (h : s.serve tj fd a r = some (s', o)) :
    Effect tj s (.ofServe s.serverSocket fd a r) s' o := by
  unfold serve at h
  unfold Input.ofServe
  by_cases listening : fd = s.serverSocket
  · simp only [if_pos listening, Option.some.injEq, Prod.mk.injEq] at h ⊢
    obtain ⟨rfl, rfl⟩ := h
    exact .accept (accepts listening).1 (accepts listening).2
  · simp only [if_neg listening] at h ⊢
    cases r with
    | data bytes heap =>
      by_cases some_ : 0 < bytes.length
      · simp only [if_pos some_] at h ⊢
        exact effect_of_readData watched listening h
      · simp only [if_neg some_, Option.some.injEq, Prod.mk.injEq] at h ⊢
        obtain ⟨rfl, rfl⟩ := h
        exact .close watched listening
    | error =>
      simp only [Option.some.injEq, Prod.mk.injEq] at h
      obtain ⟨rfl, rfl⟩ := h
      exact .close watched listening

end Server

namespace Input

variable {serverSocket fd : Int} {a : Accepted} {r : ReadResult}

/-- A round serves no other connection than that of its descriptor. -/
lemma connection_ofServe {j : Int} (ne : j ≠ fd) :
    (ofServe serverSocket fd a r).connection ≠ some j := by
  have other : some fd ≠ some j := fun e => ne (Option.some.inj e).symm
  unfold ofServe
  by_cases listening : fd = serverSocket
  · rw [if_pos listening]
    exact Option.some_ne_none j |>.symm
  · rw [if_neg listening]
    cases r with
    | data bytes heap =>
      by_cases some_ : 0 < bytes.length
      · simp only [if_pos some_]
        exact other
      · simp only [if_neg some_]
        exact other
    | error => exact other

/-- A round accepts at the listening socket only. -/
lemma ofServe_accept {b : Accepted} (h : ofServe serverSocket fd a r = .accept b) :
    fd = serverSocket ∧ b = a := by
  unfold ofServe at h
  by_cases listening : fd = serverSocket
  · rw [if_pos listening, accept.injEq] at h
    exact ⟨listening, h.symm⟩
  · rw [if_neg listening] at h
    cases r with
    | data bytes heap =>
      by_cases some_ : 0 < bytes.length
      · simp [if_pos some_] at h
      · simp [if_neg some_] at h
    | error => contradiction

end Input

namespace MainLoop

/-- What the surroundings promise to `main`: `select` returns some of the watched descriptors, `accept` a
descriptor that is not open and has a slot. -/
def Promised (l : MainLoop) : MainInput → Prop
  | .select tmpFds => ∀ i, tmpFds i = true → l.server.readFds i = true
  | .next a _ => l.tmpFds l.fd = true → l.fd = l.server.serverSocket →
      0 ≤ a.fd ∧ a.fd < maxClientNum ∧ l.server.readFds a.fd = false
  | .thread _ _ => True

/-- The invariant of the loop. -/
structure Inv (l : MainLoop) : Prop where
  sound : l.server.Sound
  inTable : ∀ i, (l.server.client i).isSome → i ∈ slots
  ahead : ∀ i, l.fd ≤ i → l.tmpFds i = true → l.server.readFds i = true

variable {tj : TurboJpeg} {l l' : MainLoop} {o : List Output} {i : MainInput}

/-- Before its first pass the loop has reported nothing, and nobody is connected. -/
lemma Inv.start (serverSocket : Int) (screen : Screen) (fbp chunk : Mem) :
    (start serverSocket screen fbp chunk).Inv where
  sound := .start ..
  inTable i h := by simp [MainLoop.start, Projector.start] at h
  ahead i _ h := by simp [MainLoop.start] at h

/-- The round of a descriptor that `select` reported. -/
lemma Inv.serve {a : Accepted} {r : ReadResult} {s : Server} (inv : l.Inv)
    (promised : l.Promised (.next a r)) (reported : l.tmpFds l.fd = true)
    (h : l.server.serve tj l.fd a r = some (s, o)) :
    ({ l with server := s, fd := l.fd + 1 } : MainLoop).Inv := by
  have effect := Server.effect_of_serve (inv.ahead l.fd le_rfl reported)
    (fun e => ⟨(promised reported e).1, (promised reported e).2.2⟩) h
  refine ⟨inv.sound.effect effect, fun j hc => ?_, fun j le hj => ?_⟩
  · rcases effect.isSome hc with old | ⟨b, e, rfl⟩
    · exact inv.inTable j old
    · obtain ⟨listening, rfl⟩ := Input.ofServe_accept e
      obtain ⟨nonneg, lt, _⟩ := promised reported listening
      exact mem_slots.mpr ⟨nonneg, lt⟩
  -- The round closes no descriptor but its own, which is behind the loop now.
  · change l.fd + 1 ≤ j at le
    exact effect.readFds (Input.connection_ofServe (by omega)) (inv.ahead j (by omega) hj)

/-- One event of the loop keeps the invariant. -/
lemma Inv.step (inv : l.Inv) (promised : l.Promised i) (h : l.step tj i = some (l', o)) : l'.Inv := by
  cases i with
  | select tmpFds =>
    simp only [MainLoop.step, Option.ite_none_right_eq_some, Option.some.injEq, Prod.mk.injEq] at h
    obtain ⟨_, rfl, rfl⟩ := h
    exact ⟨inv.sound, inv.inTable, fun i _ hi => promised i hi⟩
  | next a r =>
    simp only [MainLoop.step, Option.ite_none_right_eq_some] at h
    obtain ⟨_, h⟩ := h
    by_cases reported : l.tmpFds l.fd = true
    · simp only [if_pos reported, Option.bind_eq_bind, Option.bind_eq_some_iff, Prod.exists,
        Option.some.injEq, Prod.mk.injEq] at h
      obtain ⟨s, o, served, rfl, rfl⟩ := h
      exact inv.serve promised reported served
    · simp only [if_neg reported, Option.some.injEq, Prod.mk.injEq] at h
      obtain ⟨rfl, rfl⟩ := h
      -- Not reported, so nothing is done.
      refine ⟨inv.sound, inv.inTable, fun j le hj => ?_⟩
      change l.fd + 1 ≤ j at le
      exact inv.ahead j (by omega) hj
  | thread focusFd readyFd =>
    simp only [MainLoop.step, Option.some.injEq, Prod.mk.injEq] at h
    obtain ⟨rfl, rfl⟩ := h
    exact ⟨(Server.sameTable_focus _ _).sound inv.sound, inv.inTable, inv.ahead⟩

/-- Wherever the loop is, the watched set, the table and the counter agree, and a connection that it is
about to serve has its object. -/
theorem table_of_run {serverSocket : Int} {screen : Screen} {fbp chunk : Mem} {h : List Output}
    (r : Run (MainLoop.step tj) Promised (start serverSocket screen fbp chunk) h l) :
    (∀ i, l.server.readFds i = true ↔
      i = l.server.serverSocket ∨ (l.server.client i).isSome) ∧
    (∀ i c, l.server.client i = some c → 0 ≤ i ∧ i < maxClientNum ∧ c.fd = i) ∧
    (l.server.userCount = slots.countP fun i => (l.server.client i).isSome) ∧
    (l.tmpFds l.fd = true → l.fd ≠ l.server.serverSocket → (l.server.client l.fd).isSome) := by
  have inv : l.Inv := r.invariant_state (Inv.start ..) fun _ _ _ _ inv ok st => inv.step ok st
  refine ⟨inv.sound.watched, fun i c hc => ?_, inv.sound.counted.eq_countP inv.inTable,
    fun reported ne => inv.sound.isSome (inv.ahead l.fd le_rfl reported) ne⟩
  obtain ⟨lo, hi⟩ := mem_slots.mp (inv.inTable i (by rw [hc]; rfl))
  exact ⟨lo, hi, inv.sound.slot i c hc⟩

/-! ## Concrete runs -/

/-- A pass in which `select` reports one descriptor. -/
def pass (fd : Int) (a : Accepted) (r : ReadResult) : List MainInput :=
  .select (fun i => i = fd) :: List.replicate maxClientNum (.next a r)

/-- What is promised, as far as the slots of the table are concerned. -/
def Keeps (l : MainLoop) : MainInput → Prop
  | .select tmpFds => ∀ i ∈ slots, tmpFds i = true → l.server.readFds i = true
  | .next a _ => l.tmpFds l.fd = true → l.fd = l.server.serverSocket →
      0 ≤ a.fd ∧ a.fd < maxClientNum ∧ l.server.readFds a.fd = false
  | .thread _ _ => True

instance (l : MainLoop) : DecidablePred l.Keeps := fun i => by
  cases i <;> unfold Keeps <;> infer_instance

/-- `select` reports slots of the table only. -/
def InTable : MainInput → Prop
  | .select tmpFds => ∀ i, tmpFds i = true → i ∈ slots
  | _ => True

/-- Then the slots are all there is to the promise. -/
lemma promised_of_keeps (inTable : InTable i) (keeps : l.Keeps i) : l.Promised i := by
  cases i with
  | select tmpFds => exact fun i hi => keeps i (inTable i hi) hi
  | next a r => exact keeps
  | thread focusFd readyFd => trivial

/-- A pass for a descriptor of the table. -/
lemma inTable_pass {fd : Int} {a : Accepted} {r : ReadResult} (mem : fd ∈ slots) :
    ∀ i ∈ pass fd a r, InTable i := by
  rintro _ (_ | ⟨_, later⟩)
  · intro i hi
    rwa [of_decide_eq_true hi]
  · rw [List.eq_of_mem_replicate later]
    trivial

/-- Two users come, the second sends a name, and the first leaves. -/
def comeAndGo : List MainInput :=
  pass 3 ⟨4, 9, .blank⟩ .error ++ pass 3 ⟨5, 10, .blank⟩ .error ++
    pass 5 ⟨0, 0, .blank⟩ (.data [2, 0, 0, 0, 1, 0, 0, 0, 97] .cleared) ++ pass 4 ⟨0, 0, .blank⟩ .error

/-- All descriptors of this run have a slot. -/
lemma inTable_comeAndGo : ∀ i ∈ comeAndGo, InTable i := by
  intro i mem
  simp only [comeAndGo, List.mem_append] at mem
  rcases mem with ((mem | mem) | mem) | mem
  · exact inTable_pass (by decide) i mem
  · exact inTable_pass (by decide) i mem
  · exact inTable_pass (by decide) i mem
  · exact inTable_pass (by decide) i mem

/-- `table_of_run` after `comeAndGo`. -/
theorem table_of_run_comeAndGo : ∃ l h,
    exec (MainLoop.step .none) (start 3 ⟨1, 1, 3⟩ (fun _ => 0) (fun _ => 0)) comeAndGo =
      some (l, h) ∧ h = [.accepted 4, .accepted 5, .received 5 0, .closed 4] ∧
    (∀ i, l.server.readFds i = true ↔
      i = l.server.serverSocket ∨ (l.server.client i).isSome) ∧
    (∀ i c, l.server.client i = some c → 0 ≤ i ∧ i < maxClientNum ∧ c.fd = i) ∧
    (l.server.userCount = slots.countP fun i => (l.server.client i).isSome) ∧
    (l.tmpFds l.fd = true → l.fd ≠ l.server.serverSocket → (l.server.client l.fd).isSome) := by
  have adm : Admitted (MainLoop.step .none) Keeps (start 3 ⟨1, 1, 3⟩ (fun _ => 0) (fun _ => 0))
      comeAndGo := by decide +kernel
  have run : (exec (MainLoop.step .none) (start 3 ⟨1, 1, 3⟩ (fun _ => 0) (fun _ => 0)) comeAndGo).map
      Prod.snd = some [.accepted 4, .accepted 5, .received 5 0, .closed 4] := by decide +kernel
  obtain ⟨⟨l, h⟩, e, history⟩ := Option.map_eq_some_iff.mp run
  have promised := adm.mono fun _ i mem ok => promised_of_keeps (inTable_comeAndGo i mem) ok
  exact ⟨l, h, e, history, table_of_run (run_of_exec promised e)⟩

end MainLoop

end Projector
