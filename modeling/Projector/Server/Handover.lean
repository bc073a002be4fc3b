import Projector.Server.Observer

/-!
# The handover in separate steps

The first branch of `focusObserver` tests `ready_fd`, sends the grant and only then assigns
`focus_fd = ready_fd`, reading the variable anew each time while `main` goes on. `Handover` is the server
with that branch cut into its three steps. `readyFd_of_exec` says what `main` leaves in `ready_fd`, and
`committed_iff` when the descriptor that is committed is the one that was granted.
-/

namespace Projector

/-- The inputs of `main` and of `userListThread`. -/
def Input.isMain : Input → Bool
  | .observe _ _ => false
  | _ => true

/-- How far `focusObserver` has got in its first branch. -/
inductive Phase where
  | idle
  | tested
  | sent (fd : Int)
deriving DecidableEq

/-- The server while `focusObserver` is in its first branch. -/
structure Handover where
  server : Server
  phase : Phase

/-- What happens next: a step of `main`, or the next step of the branch. -/
inductive HandoverInput where
  | main (i : Input)
  | test (beyond : Int → Bool)
  | send (ws : List Int)
  | commit

/-- One step. -/
def Handover.step (tj : TurboJpeg) (x : Handover) : HandoverInput → Option (Handover × List Output)
  | .main i =>
    if i.isMain then (x.server.step tj i).map fun r => ({ x with server := r.1 }, r.2) else none
  | .test beyond =>
    if x.phase = .idle ∧ x.server.found beyond then
      some ({ x with phase := .tested }, [.isset x.server.readyFd])
    else none
  | .send ws =>
    if x.phase = .tested ∧ (Server.grantLoop 12 ws).isSome then
      some ({ x with phase := .sent x.server.readyFd }, [.grant x.server.readyFd])
    else none
  | .commit =>
    match x.phase with
    | .sent _ => some (⟨x.server.commit, .idle⟩, [])
    | _ => none

namespace Server

variable {tj : TurboJpeg} {beyond : Int → Bool} {ws : List Int} {s t : Server} {o : List Output}
  {i : Input}

/-- Without anything in between, the three steps are the iteration of the observer. -/
theorem observe_eq_pass (found : s.found beyond = true) :
    (s.observe beyond ws).map (fun r => ((⟨r.1, .idle⟩ : Handover), r.2)) =
      exec (Handover.step tj) ⟨s, .idle⟩ [.test beyond, .send ws, .commit] := by
  have fields : s.focusFd ≠ s.readyFd ∧ s.isset beyond s.readyFd = true := by
    simpa [Server.found] using found
  cases hg : grantLoop 12 ws with
  | none => simp [observe, fields, exec, Handover.step, found, hg]
  | some writes => simp [observe, fields, exec, Handover.step, found, hg]

/-- What `~Client` stores in `ready_fd`. -/
def departure (s : Server) (fd : Int) : List Int :=
  match s.client fd with
  | some c => if c.fd = s.focusFd then [if s.userCount = 1 then -1 else 0] else []
  | none => []

/-- What a step of `main` that puts out `o` stores in `ready_fd`: the first user's descriptor, the ids
requested, and the mark of a departing holder. -/
def stores (s : Server) (o : List Output) : Input → List Int
  | .accept a => if s.userCount = 0 then [a.fd] else []
  | .read fd _ _ => requested o ++ if .closed fd ∈ o then s.departure fd else []
  | .close fd => s.departure fd
  | _ => []

/-- What a sequence of steps stores. -/
def storesOf (tj : TurboJpeg) : Server → List Input → List Int
  | _, [] => []
  | s, i :: is =>
    match s.step tj i with
    | some (t, o) => s.stores o i ++ storesOf tj t is
    | none => []

/-- What a departure leaves in `ready_fd`. -/
lemma departure_readyFd {fd : Int} {c : Client} (hc : s.client fd = some c) :
    (s.dropClient fd).readyFd = (s.departure fd).getLastD s.readyFd := by
  rw [dropClient_toGlobals s fd hc, leave_readyFd, departure, hc]
  simp only []
  split <;> rfl

/-- A call of `receive` closes nothing. -/
lemma closed_notMem_outputs {fd i : Int} {log : List Event} : .closed i ∉ outputs fd log := by
  intro h
  rcases mem_outputs h with ⟨_, _, e⟩ | ⟨_, _, e⟩ <;> cases e

/-- After a step of `main`, `ready_fd` holds what was stored last. -/
lemma Effect.readyFd (e : Effect tj s i t o) (main : i.isMain = true) :
    t.readyFd = (s.stores o i).getLastD s.readyFd := by
  cases e with
  | @accept a =>
    rw [acceptClient_toGlobals, join_readyFd, stores]
    split <;> rfl
  | @read fd bytes heap c r _ _ _ _ f =>
    have open_ : .closed fd ∉ outputs fd r.log ++ [.received fd 0] := by
      simp [closed_notMem_outputs]
    obtain ⟨es, log, ready, _⟩ := f.log
    rw [List.nil_append] at log
    -- Each request stores, and the last one stays.
    rw [stores, if_neg open_, List.append_nil, requested_append, requested_outputs, log]
    simpa [requested] using ready
  | @refuse fd bytes heap c r _ _ hc _ f =>
    have shut : .closed fd ∈ outputs fd r.log ++ [.received fd (-1), .closed fd] := by simp
    obtain ⟨es, log, ready, _⟩ := f.log
    rw [List.nil_append] at log
    have self : (s.received fd r).client fd = some r.client := by simp
    have left : (s.received fd r).departure fd = s.departure fd := by
      simp only [departure, hc, self]
      rw [f.fd, received_toGlobals, f.focusFd, f.userCount]
    rw [wipe_toGlobals, departure_readyFd self, left, received_toGlobals, ready, ← log, stores,
      if_pos shut, getLastD_append, requested_append, requested_outputs]
    simp [requested]
  | @close fd =>
    cases hc : s.client fd with
    | some c => exact departure_readyFd hc
    | none => simp [dropClient, stores, departure, hc]
  | list => rfl
  | _ => contradiction

end Server

namespace Handover

variable {tj : TurboJpeg} {ws : List Int} {x y : Handover} {o : List Output} {is : List Input}

/-- After steps of `main`, `ready_fd` holds what was stored last, and the observer is where it was. -/
lemma readyFd_of_exec (e : exec (step tj) x (is.map .main) = some (y, o)) :
    y.phase = x.phase ∧
      y.server.readyFd = (Server.storesOf tj x.server is).getLastD x.server.readyFd := by
  induction is generalizing x o with
  | nil =>
    obtain ⟨rfl, rfl⟩ := Prod.mk.inj (Option.some.inj e)
    exact ⟨rfl, rfl⟩
  | cons i is ih =>
    simp only [List.map_cons, exec, step, Option.bind_eq_bind, Option.bind_eq_some_iff,
      Option.pure_def, Option.some.injEq, Prod.mk.injEq, Prod.exists, Option.ite_none_right_eq_some,
      Option.map_eq_some_iff] at e
    obtain ⟨z, o₁, ⟨main, t, o₁, st, rfl, rfl⟩, y, o₂, rest, rfl, rfl⟩ := e
    obtain ⟨phase, ready⟩ := ih rest
    refine ⟨phase, ?_⟩
    rw [ready, Server.storesOf, st, getLastD_append,
      (Server.effect_of_step st).readyFd main]

/-- The grant is sent, `main` takes some steps, and the focus is committed: the holder is the descriptor
that was granted, if and only if the last of the stores of `main` in between, if any, is that descriptor. -/
theorem committed_iff (tested : x.phase = .tested) (writes : Server.Accepting 12 ws)
    (e : exec (step tj) x (.send ws :: is.map .main) = some (y, o)) :
    ∃ z, y.step tj .commit = some (z, []) ∧ o.head? = some (.grant x.server.readyFd) ∧
      (z.server.focusFd = x.server.readyFd ↔
        ∀ fd ∈ (Server.storesOf tj x.server is).getLast?, fd = x.server.readyFd) := by
  have sends : x.step tj (.send ws) =
      some ({ x with phase := .sent x.server.readyFd }, [.grant x.server.readyFd]) := by
    simp [step, tested, Server.grantLoop_isSome writes]
  simp only [exec, sends, Option.bind_eq_bind, Option.bind_some, Option.bind_eq_some_iff,
    Option.pure_def, Option.some.injEq, Prod.mk.injEq, Prod.exists] at e
  obtain ⟨y, o, main, rfl, rfl⟩ := e
  obtain ⟨phase, ready⟩ := readyFd_of_exec main
  refine ⟨⟨y.server.commit, .idle⟩, by simp [step, phase], rfl, ?_⟩
  show y.server.readyFd = x.server.readyFd ↔ _
  -- The commit reads `ready_fd` again, and finds what `main` stored last.
  rw [ready, List.getLastD_eq_getLast?]
  cases (Server.storesOf tj x.server is).getLast? with
  | none => simp
  | some fd => simp

/-- `committed_iff` while a second user comes in. -/
theorem committed_iff_accept : ∃ y o,
    exec (step .none) ⟨Server.blank.acceptClient ⟨4, 9, .blank⟩, .tested⟩
      (.send [12] :: List.map .main [.accept ⟨5, 10, .blank⟩]) = some (y, o) ∧
    ∃ z, y.step .none .commit = some (z, []) ∧ o.head? = some (.grant 4) ∧
      (z.server.focusFd = 4 ↔
        ∀ fd ∈ (Server.storesOf .none (Server.blank.acceptClient ⟨4, 9, .blank⟩)
          [.accept ⟨5, 10, .blank⟩]).getLast?, fd = 4) := by
  have writes : Server.Accepting 12 [12] := by decide
  refine ⟨_, _, rfl, ?_⟩
  exact committed_iff (x := ⟨Server.blank.acceptClient ⟨4, 9, .blank⟩, .tested⟩) rfl writes rfl

/-- Two users; the first has the focus and asks for the second, and leaves between the grant and the
commit. -/
def holderLeaves : List HandoverInput :=
  [.main (.accept ⟨4, 9, .blank⟩), .test (fun _ => false), .send [12], .commit,
    .main (.accept ⟨5, 10, .blank⟩), .main (.read 4 (wire.encode (.request 5)) .cleared),
    .test (fun _ => false), .send [12], .main (.close 4), .commit]

/-- Descriptor 5 was granted, and 0 is committed. -/
theorem committed_other : ∃ x h,
    exec (step .none) ⟨.blank, .idle⟩ holderLeaves = some (x, h) ∧
    h = [.accepted 4, .isset 4, .grant 4, .accepted 5, .request 5, .received 4 0, .isset 5,
      .grant 5, .closed 4] ∧
    x.server.focusFd = 0 ∧ x.server.focusFd ≠ 5 := by
  have run : (exec (step .none) ⟨.blank, .idle⟩ holderLeaves).map
      (fun r => (r.2, r.1.server.focusFd)) = some ([.accepted 4, .isset 4, .grant 4, .accepted 5,
        .request 5, .received 4 0, .isset 5, .grant 5, .closed 4], 0) := by decide +kernel
  obtain ⟨⟨x, h⟩, e, f⟩ := Option.map_eq_some_iff.mp run
  obtain ⟨history, focus⟩ := Prod.mk.inj f
  exact ⟨x, h, e, history, focus, by rw [focus]; decide⟩

end Handover

end Projector
