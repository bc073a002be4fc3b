import Projector.Server.Floor
import Projector.Server.Interleaving

/-!
# Connections

The part of the floor that does not depend on the observer: a connection is accepted, served and closed, in
this order, and after a chunk that was refused nothing comes before its end. `Program.sessions_kept` says
that `main` keeps these rules in every interleaving of its rounds with the two threads, whatever the observer
stores into the variables of the focus and between which rounds it does.
-/

namespace Projector

/-- Who is connected, and whose last chunk was refused. -/
structure Sessions where
  users : Finset Int
  refused : Option Int

/-- The rules. -/
def sessions : Protocol Sessions Output where
  legal k x := (∀ fd ∈ k.refused, x = .closed fd) ∧
    match x with
    | .accepted fd => 0 ≤ fd ∧ fd < maxClientNum ∧ fd ∉ k.users
    | .closed fd => fd ∈ k.users
    | .received fd ret => fd ∈ k.users ∧ (ret = 0 ∨ ret = -1)
    | .request _ => k.users.Nonempty
    | .draw fd _ => fd ∈ k.users
    | _ => True
  next k x :=
    match x with
    | .accepted fd => { k with users := insert fd k.users }
    | .closed fd => ⟨k.users.erase fd, none⟩
    | .received fd ret => if ret = -1 then { k with refused := some fd } else k
    | _ => k

/-- Who is connected was accepted once more than closed. -/
lemma Protocol.Follows.balanced {h : List Output} (f : sessions.Follows ⟨∅, none⟩ h) (fd : Int) :
    h.count (.accepted fd) =
      h.count (.closed fd) + if fd ∈ (sessions.after ⟨∅, none⟩ h).users then 1 else 0 := by
  apply f.invariant (I := fun k h => h.count (.accepted fd) =
    h.count (.closed fd) + if fd ∈ k.users then 1 else 0)
  · simp
  · intro k h x g legal
    rw [List.count_append, List.count_append, g]
    cases x with
    | accepted i =>
      obtain ⟨_, _, _, new⟩ := legal
      by_cases own : fd = i
      · subst own
        simp [sessions, new]
      · have other : ¬ i = fd := fun e => own e.symm
        simp [sessions, own, other]
    | closed i =>
      obtain ⟨_, user⟩ := legal
      by_cases own : fd = i
      · subst own
        have user : fd ∈ k.users := user
        simp [sessions, user]
      · have other : ¬ i = fd := fun e => own e.symm
        simp [sessions, own, other]
    | received i ret =>
      have same : (sessions.next k (.received i ret)).users = k.users := by
        simp only [sessions]
        split <;> rfl
      simp [same]
    | _ => simp [sessions]

namespace Floor

/-- The connections of a floor. -/
def sessions (f : Floor) : Sessions := ⟨f.users, f.refused⟩

variable {f : Floor} {x : Output}

/-- What is legal on the floor is legal for its connections. -/
lemma legal_sessions (legal : floor.legal f x) : Projector.sessions.legal f.sessions x := by
  obtain ⟨closing, legal⟩ := legal
  refine ⟨closing, ?_⟩
  cases x with
  | draw fd jpeg => exact legal.1
  | isset | grant | list => trivial
  | _ => exact legal

/-- The connections of a floor go on as the floor does. -/
lemma next_sessions : (floor.next f x).sessions = Projector.sessions.next f.sessions x := by
  cases x with
  | accepted fd =>
    simp only [floor, join, Projector.sessions, sessions]
    split
    · rename_i nobody
      simp [nobody]
    · rfl
  | closed fd =>
    simp only [floor, leave, Projector.sessions, sessions]
    split
    · split <;> rfl
    · rfl
  | received fd ret =>
    simp only [floor, Projector.sessions, sessions]
    split <;> rfl
  | _ => rfl

end Floor

namespace Program

variable {tj : TurboJpeg} {p q : Program} {i : ProgramInput} {o h : List ProgramOutput}
  {serverSocket : Int} {screen : Screen} {fbp chunk : Mem}

/-- The program and the connections it has. -/
structure Serves (p : Program) (k : Sessions) : Prop where
  inv : p.loop.Inv
  users : ∀ i, i ∈ k.users ↔ (p.loop.server.client i).isSome
  refused : k.refused = none

/-- A step of any of the threads. -/
lemma Serves.step {k : Sessions} (w : p.Serves k) (promised : p.Promised i)
    (st : p.step tj i = some (q, o)) :
    sessions.Follows k (mainOutputs o) ∧ q.Serves (sessions.after k (mainOutputs o)) := by
  have inv' := inv_step w.inv promised st
  cases effect_of_step st with
  | @main _ j l o toMain moved =>
    rw [mainOutputs_map_main]
    rcases MainLoop.served_of_step moved (ProgramInput.toMain_ne_thread toMain) with
      ⟨same, rfl⟩ | ⟨a, r, rfl, reported, serve⟩
    · exact ⟨trivial, inv', fun i => by rw [same]; exact w.users i, w.refused⟩
    · have promised := promised _ toMain
      have effect := Server.effect_of_serve (w.inv.ahead p.loop.fd le_rfl reported)
        (fun e => ⟨(promised reported e).1, (promised reported e).2.2⟩) serve
      have small : p.loop.server.Small (.ofServe p.loop.server.serverSocket p.loop.fd a r) := by
        cases hi : Input.ofServe p.loop.server.serverSocket p.loop.fd a r with
        | accept b =>
          obtain ⟨listening, rfl⟩ := Input.ofServe_accept hi
          exact (promised reported listening).2.1
        | _ => trivial
      -- The floor as it would be if the variables of the focus were right.
      have shown : p.loop.server.Mirrors ⟨p.loop.server.focusFd, p.loop.server.readyFd, k.users, none⟩ :=
        ⟨w.inv.sound, w.inv.inTable, rfl, rfl, w.users, rfl⟩
      obtain ⟨follows, shown'⟩ := shown.effect small effect
      obtain ⟨kept, after⟩ := follows.forget Floor.sessions (fun _ _ => Floor.legal_sessions)
        fun _ _ => Floor.next_sessions
      have here : k = ⟨k.users, none⟩ := by rw [← w.refused]
      rw [here]
      refine ⟨kept, inv', fun i => ?_, ?_⟩
      · exact (congrArg (i ∈ ·.users) after).to_iff.trans (shown'.users i)
      · exact (congrArg Sessions.refused after).trans shown'.refused
  | @observer beyond written s at' o e =>
    rw [e.frame.2]
    refine ⟨trivial, inv', fun i => ?_, w.refused⟩
    rw [e.frame.1]
    exact w.users i
  | lister lists =>
    rw [mainOutputs_lists lists]
    exact ⟨trivial, inv', w.users, w.refused⟩

/-- However the steps of the two threads fall between the rounds of `main`: each connection is accepted,
served and closed in this order, a refused chunk is its last one, and the table holds the connections that
were accepted and not yet closed. -/
theorem sessions_kept (r : Run (step tj) Promised (start serverSocket screen fbp chunk) h p) :
    sessions.Follows ⟨∅, none⟩ (mainOutputs h) ∧
      ∀ fd, (mainOutputs h).count (.accepted fd) = (mainOutputs h).count (.closed fd) +
        if (p.loop.server.client fd).isSome then 1 else 0 := by
  obtain ⟨follows, serves⟩ : sessions.Follows ⟨∅, none⟩ (mainOutputs h) ∧
      p.Serves (sessions.after ⟨∅, none⟩ (mainOutputs h)) := by
    apply r.invariant (I := fun p h => sessions.Follows ⟨∅, none⟩ (mainOutputs h) ∧
      p.Serves (sessions.after ⟨∅, none⟩ (mainOutputs h)))
    · exact ⟨trivial, .start .., fun i => by simp [start, MainLoop.start, Projector.start, mainOutputs], rfl⟩
    · rintro p h i q o ⟨follows, serves⟩ promised st
      obtain ⟨follows', serves'⟩ := serves.step promised st
      rw [mainOutputs_append, Protocol.follows_append, Protocol.after_append]
      exact ⟨⟨follows, follows'⟩, serves'⟩
  refine ⟨follows, fun fd => ?_⟩
  simp only [follows.balanced fd, serves.users]

/-- A user is granted the focus, sends an image and then a header that is refused; `main` closes the
connection. -/
def untilRefused : List ProgramInput :=
  pass 3 ⟨4, 10, .blank⟩ .error ++
  [.observer (fun _ => false) 0, .observer (fun _ => false) 0, .observer (fun _ => false) 12,
    .observer (fun _ => false) 0] ++
  pass 4 ⟨0, 0, .blank⟩ (.data [5, 0, 0, 0, 1, 0, 0, 0, 255] .cleared) ++
  pass 4 ⟨0, 0, .blank⟩ (.data [216, 11, 0, 0, 0, 0, 0, 0] .cleared)

/-- All descriptors of this run have a slot. -/
lemma inTable_untilRefused : ∀ i ∈ untilRefused, InTable i := by
  intro i mem
  simp only [untilRefused, List.mem_append] at mem
  rcases mem with ((mem | mem) | mem) | mem
  · exact inTable_pass (by decide) i mem
  · apply inTable_thread
    simp only [List.mem_cons, List.not_mem_nil, or_false] at mem
    rcases mem with rfl | rfl | rfl | rfl <;> rfl
  · exact inTable_pass (by decide) i mem
  · exact inTable_pass (by decide) i mem

/-- `sessions_kept` behind `untilRefused`. -/
theorem sessions_kept_refused : ∃ p h,
    exec (step .none) (start 3 ⟨1, 1, 3⟩ (fun _ => 0) fun _ => 0) untilRefused = some (p, h) ∧
    mainOutputs h = [.accepted 4, .draw 4 [255], .received 4 0, .received 4 (-1), .closed 4] ∧
    sessions.Follows ⟨∅, none⟩ (mainOutputs h) ∧
    ∀ fd, (mainOutputs h).count (.accepted fd) = (mainOutputs h).count (.closed fd) +
      if (p.loop.server.client fd).isSome then 1 else 0 := by
  have adm : Admitted (step .none) Keeps (start 3 ⟨1, 1, 3⟩ (fun _ => 0) fun _ => 0) untilRefused := by
    decide +kernel
  have run : (exec (step .none) (start 3 ⟨1, 1, 3⟩ (fun _ => 0) fun _ => 0) untilRefused).map
      (fun r => mainOutputs r.2) =
      some [.accepted 4, .draw 4 [255], .received 4 0, .received 4 (-1), .closed 4] := by decide +kernel
  obtain ⟨⟨p, h⟩, e, history⟩ := Option.map_eq_some_iff.mp run
  have promised := adm.mono fun _ i mem ok => promised_of_keeps (inTable_untilRefused i mem) ok
  exact ⟨p, h, e, history, sessions_kept (run_of_exec promised e)⟩

end Program

end Projector
