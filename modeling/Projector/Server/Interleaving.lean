import Projector.Server.Alone
import Projector.Server.Departure
import Projector.Server.Realisation

/-!
# The observer among the other threads

Whatever rounds of `main` and steps of `userListThread` fall between its steps, `focusObserver` uses a null
pointer exactly when `main` closes the connection whose slot it is looking into (`observer_stuck_iff`); until
then the slot is in use (`inv_looking`). `calls` are its calls of `write`, and `Begun` says that some of them
are the beginning of a pass over the loop of a grant.
-/

namespace Projector

namespace MainLoop

variable {tj : TurboJpeg} {l l' : MainLoop} {i : MainInput} {o : List Output}

/-- A step of `main` itself serves a descriptor or leaves the server alone. -/
lemma served_of_step (st : l.step tj i = some (l', o))
    (main : ∀ focusFd readyFd, i ≠ .thread focusFd readyFd) :
    (l'.server = l.server ∧ o = []) ∨ ∃ a r, i = .next a r ∧ l.tmpFds l.fd = true ∧
      l.server.serve tj l.fd a r = some (l'.server, o) := by
  cases i with
  | select tmpFds =>
    simp only [step, Option.ite_none_right_eq_some, Option.some.injEq, Prod.mk.injEq] at st
    obtain ⟨_, rfl, rfl⟩ := st
    exact .inl ⟨rfl, rfl⟩
  | next a r =>
    simp only [step, Option.ite_none_right_eq_some] at st
    obtain ⟨_, st⟩ := st
    by_cases reported : l.tmpFds l.fd = true
    · simp only [if_pos reported, Option.bind_eq_bind, Option.bind_eq_some_iff, Prod.exists,
        Option.some.injEq, Prod.mk.injEq] at st
      obtain ⟨s, o, served, rfl, rfl⟩ := st
      exact .inr ⟨a, r, rfl, reported, served⟩
    · simp only [if_neg reported, Option.some.injEq, Prod.mk.injEq] at st
      obtain ⟨rfl, rfl⟩ := st
      exact .inl ⟨rfl, rfl⟩
  | thread focusFd readyFd => exact absurd rfl (main focusFd readyFd)

/-- The same as an effect on the server. -/
lemma Inv.effect (inv : l.Inv) (promised : l.Promised i) (st : l.step tj i = some (l', o))
    (main : ∀ focusFd readyFd, i ≠ .thread focusFd readyFd) :
    (l'.server = l.server ∧ o = []) ∨ ∃ a r, i = .next a r ∧
      Server.Effect tj l.server (.ofServe l.server.serverSocket l.fd a r) l'.server o := by
  rcases served_of_step st main with idle | ⟨a, r, rfl, reported, served⟩
  · exact .inl idle
  · exact .inr ⟨a, r, rfl, Server.effect_of_serve (inv.ahead l.fd le_rfl reported)
      (fun e => ⟨(promised reported e).1, (promised reported e).2.2⟩) served⟩

end MainLoop

/-- `main` itself makes no step of another thread. -/
lemma ProgramInput.toMain_ne_thread {i : ProgramInput} {j : MainInput} (h : i.toMain = some j)
    (focusFd readyFd : Int) : j ≠ .thread focusFd readyFd := by
  rintro rfl
  cases i <;> cases h

namespace Server

variable {tj : TurboJpeg} {s t : Server} {i : Input} {o : List Output} {j : Int}

/-- A step empties a slot exactly when it closes the connection. -/
lemma Effect.empties_iff (e : Effect tj s i t o) (sound : s.Sound) (there : (s.client j).isSome) :
    t.client j = none ↔ .closed j ∈ o := by
  obtain ⟨c, hc⟩ := Option.isSome_iff_exists.mp there
  constructor
  · intro gone
    by_contra stays
    rcases e.own sound hc stays with ⟨_, kept⟩ | ⟨_, _, r, _, _, kept⟩
    · rw [gone] at kept
      cases kept
    · rw [gone] at kept
      cases kept
  · intro closed
    obtain ⟨x, _, _, _, torn, _⟩ := e.leaving sound closed
    have same := torn.isSome j
    rw [dropClient_client, Function.update_self] at same
    simpa using same

end Server

namespace Program

variable {tj : TurboJpeg} {p q : Program} {i : ProgramInput} {o h : List ProgramOutput} {j : Int}
  {serverSocket : Int} {screen : Screen} {fbp chunk : Mem}

/-! ## The null pointer -/

/-- `main` does not close the connection whose slot the observer is looking into. -/
def Undisturbed (tj : TurboJpeg) (p : Program) (i : ProgramInput) : Prop :=
  ∀ j ∈ p.observer.slot, ∀ q o, p.step tj i = some (q, o) → .main (.closed j) ∉ o

/-- Who is in a slot after a step of `main`. -/
lemma empties_iff (inv : p.loop.Inv) (promised : p.Promised i) (main : i.toMain.isSome)
    (st : p.step tj i = some (q, o)) (there : (p.loop.server.client j).isSome) :
    q.loop.server.client j = none ↔ .main (.closed j) ∈ o := by
  cases effect_of_step st with
  | @main _ j' l o toMain moved =>
    have member : ProgramOutput.main (.closed j) ∈ o.map ProgramOutput.main ↔ .closed j ∈ o := by simp
    rw [member]
    rcases inv.effect (promised _ toMain) moved (ProgramInput.toMain_ne_thread toMain) with
      ⟨same, rfl⟩ | ⟨_, _, _, e⟩
    · rw [same]
      simp [Option.isSome_iff_ne_none.mp there]
    · exact e.empties_iff inv.sound there
  | observer => cases main
  | lister => cases main

/-- The observer stays where it is while `main` goes on. -/
lemma observer_of_main (main : i.toMain.isSome) (st : p.step tj i = some (q, o)) :
    q.observer = p.observer := by
  cases effect_of_step st with
  | main => rfl
  | observer => cases main
  | lister => cases main

/-- The observer is looking into a slot that is in use. -/
def Looking (p : Program) : Prop := ∀ j ∈ p.observer.slot, (p.loop.server.client j).isSome

/-- As long as `main` does not disturb it. -/
lemma Looking.step (looks : p.Looking) (inv : p.loop.Inv) (promised : p.Promised i)
    (undisturbed : p.Undisturbed tj i) (st : p.step tj i = some (q, o)) : q.Looking := by
  intro j hj
  cases effect_of_step st with
  | main toMain moved =>
    have stays := undisturbed j hj _ _ st
    have kept := (empties_iff inv promised (by rw [toMain]; rfl) st (looks j hj)).not.mpr stays
    exact Option.isSome_iff_ne_none.mpr kept
  | @observer beyond written s at' o e =>
    rw [e.frame.1]
    exact e.slot hj
  | lister => exact looks j hj

section run

variable (r : Run (step tj) (fun p i => p.Promised i ∧ p.Undisturbed tj i)
  (start serverSocket screen fbp chunk) h p)

include r

/-- In a run in which `main` does not disturb the observer, it has its slot before it at any time. -/
lemma inv_looking : p.loop.Inv ∧ p.Looking := by
  apply r.invariant_state (I := fun p => p.loop.Inv ∧ p.Looking)
  · exact ⟨.start .., by simp [Looking, start, ObserverAt.slot]⟩
  · rintro p i q o ⟨inv, looks⟩ ⟨promised, undisturbed⟩ st
    exact ⟨inv_step inv promised st, looks.step inv promised undisturbed st⟩

/-- Until `main` closes a connection whose slot the observer has already found in use, the observer can
always go on, and a step of `main` stops it exactly when it is the one that does so. -/
theorem observer_stuck_iff :
    (∀ beyond written, (p.step tj (.observer beyond written)).isSome) ∧
    ∀ i q o, p.Promised i → i.toMain.isSome → p.step tj i = some (q, o) →
      ∀ beyond written, q.step tj (.observer beyond written) = none ↔
        ∃ j ∈ p.observer.slot, .main (.closed j) ∈ o := by
  obtain ⟨inv, looks⟩ := inv_looking r
  constructor
  · intro beyond written
    rw [step, Option.isSome_map, Option.isSome_iff_ne_none, ne_eq, Server.observerStep_eq_none]
    rintro ⟨j, slot, gone⟩
    have there := looks j slot
    rw [gone] at there
    cases there
  · intro i q o promised main st beyond written
    rw [step, Option.map_eq_none_iff, Server.observerStep_eq_none, observer_of_main main st]
    apply exists_congr
    intro j
    apply and_congr_right
    intro slot
    exact empties_iff inv promised main st (looks j slot)

end run

/-- Within whole iterations the observer is not disturbed. -/
lemma InTurn.undisturbed (turn : p.InTurn tj i) : p.Promised i ∧ p.Undisturbed tj i := by
  refine ⟨turn.promised, fun j slot q o st mem => ?_⟩
  have busy : p.observer ≠ .top := by
    intro top
    rw [top] at slot
    cases slot
  refine (turn.calm busy q o st j).2.1 ?_
  exact List.mem_filterMap.mpr ⟨_, mem, rfl⟩

/-- The only user, at descriptor 0, asks for the focus for somebody who is not there. -/
def asksForNobody : List Input :=
  [.accept ⟨0, 10, .blank⟩, .read 0 [4, 0, 0, 0, 4, 0, 0, 0, 9, 0, 0, 0] .cleared]

/-- `observer_stuck_iff` where the observer has found that user in use and `select` reports him: when his
connection ends, the observer uses a null pointer. -/
theorem observer_stuck_iff_asksForNobody : ∃ p h q o,
    Run (step .none) (fun p i => p.Promised i ∧ p.Undisturbed .none i)
      (start 3 ⟨1, 1, 3⟩ (fun _ => 0) fun _ => 0) h p ∧ p.observer = .present 0 ∧
    p.step .none (.next ⟨1, 11, .blank⟩ .error) = some (q, o) ∧ o = [.main (.closed 0)] ∧
    (∀ beyond written, (p.step .none (.observer beyond written)).isSome) ∧
    ∀ beyond written, q.step .none (.observer beyond written) = none := by
  have run : (exec (Server.step .none) .blank asksForNobody).map (fun r => decide (r.1.focusFd = -1 ∧
      r.1.readyFd = 9 ∧ r.1.userCount = 1 ∧ r.1.readFds 0 = true ∧ r.1.readFds 9 = false ∧
      r.1.serverSocket = 3 ∧ (r.1.client 0).isSome)) = some true := by decide +kernel
  obtain ⟨⟨s, h'⟩, e, facts⟩ := Option.map_eq_some_iff.mp run
  dsimp only at facts
  obtain ⟨focus, ready, users, watched, missing, listening, there⟩ := of_decide_eq_true facts
  have adm : Admitted (Server.step .none) Server.Realisable .blank asksForNobody := by decide +kernel
  obtain ⟨h, tmpFds, before, _⟩ := run_of_server (by decide) (run_of_exec adm e)
  have looks : Run (step .none) (InTurn .none) (inObserver s tmpFds maxClientNum .top) []
      (inObserver s tmpFds maxClientNum .asked) := by
    apply run_observer (fun _ => false) 0
    simp [Server.observerStep, focus, ready]
  have asks : Run (step .none) (InTurn .none) (inObserver s tmpFds maxClientNum .asked) [.isset 9]
      (inObserver s tmpFds maxClientNum .absent) := by
    apply run_observer (fun _ => false) 0
    simp [Server.observerStep, ready, Server.isset, missing]
  have searches : Run (step .none) (InTurn .none) (inObserver s tmpFds maxClientNum .absent) []
      (inObserver s tmpFds maxClientNum (.searching 0)) := by
    apply run_observer (fun _ => false) 0
    simp [Server.observerStep, users]
  have finds : Run (step .none) (InTurn .none) (inObserver s tmpFds maxClientNum (.searching 0)) []
      (inObserver s tmpFds maxClientNum (.present 0)) := by
    apply run_observer (fun _ => false) 0
    simp [Server.observerStep, there]
  have reported : Run (step .none) (InTurn .none) (inObserver s tmpFds maxClientNum (.present 0)) []
      (inObserver s (fun i => i = 0) 0 (.present 0)) := run_select watched
  have whole := ((((before.trans looks).trans asks).trans searches).trans finds).trans reported
  have closing : step .none (inObserver s (fun i => i = 0) 0 (.present 0)) (.next ⟨1, 11, .blank⟩ .error) =
      some (inObserver (s.dropClient 0) (fun i => i = 0) 1 (.present 0), [.main (.closed 0)]) := by
    simp [step, mainStep, MainLoop.step, inObserver, Server.serve, listening]
  have run := whole.mono fun _ _ turn => turn.undisturbed
  obtain ⟨on, stuck⟩ := observer_stuck_iff run
  refine ⟨_, _, _, _, run, rfl, closing, rfl, on, fun beyond written => ?_⟩
  have promised : (inObserver s (fun i => i = 0) 0 (.present 0)).Promised
      (.next ⟨1, 11, .blank⟩ .error) := by
    rintro j ⟨⟩ _ e
    have zero : (0 : Int) = s.serverSocket := e
    rw [listening] at zero
    cases zero
  exact (stuck _ _ _ promised rfl closing beyond written).mpr ⟨0, rfl, by simp⟩


end Program

/-! ## The calls of `write` -/

/-- The calls of `write` of the observer, with the descriptor of each. -/
def calls (h : List ProgramOutput) : List (Int × Server.Write) :=
  h.filterMap fun o => match o with
    | .wrote fd w => some (fd, w)
    | _ => none

/-- The calls of two histories. -/
@[simp] lemma calls_append (h h' : List ProgramOutput) : calls (h ++ h') = calls h ++ calls h' :=
  List.filterMap_append

/-- `main` writes no grant. -/
@[simp] lemma calls_map_main (o : List Output) : calls (o.map .main) = [] := by
  simp [calls, List.filterMap_map]

/-- `userListThread` writes no grant. -/
lemma calls_lists {o : List ProgramOutput} {nwrite : Int}
    (lists : o = [] ∨ ∃ fd frame, o = [.list fd frame nwrite]) : calls o = [] := by
  rcases lists with rfl | ⟨_, _, rfl⟩
  · rfl
  · rfl

namespace Server

/-- The calls of `write` of one whole pass over the loop of a grant. -/
def IsGrant (ws : List Write) : Prop := ∃ results, grantLoop 12 results = some ws

/-- These calls of the loop are done, and so many bytes remain. -/
def Begun (writeRemain : Int) (ws : List Write) : Prop :=
  ∀ results more, grantLoop writeRemain results = some more → IsGrant (ws ++ more)

variable {writeRemain written : Int} {ws : List Write}

/-- Nothing is written yet. -/
lemma Begun.nil : Begun 12 [] := fun results _ h => ⟨results, h⟩

/-- One more `write`. -/
lemma Begun.write (b : Begun writeRemain ws) (pos : 0 < writeRemain) :
    Begun (writeRemain - written) (ws ++ [⟨12 - writeRemain, writeRemain, written⟩]) := by
  intro results more h
  rw [List.append_assoc]
  exact b (written :: results) _ (by simp [grantLoop, pos, h])

/-- A pass ends when no bytes remain. -/
lemma Begun.isGrant (b : Begun writeRemain ws) (ended : ¬ 0 < writeRemain) : IsGrant ws := by
  have whole := b [] [] (by simp [grantLoop, ended])
  rwa [List.append_nil] at whole

end Server

/-- The bytes of a grant that remain to be written, in the loop that writes one. -/
def ObserverAt.remaining : ObserverAt → Option Int
  | .granting n => some n
  | .offering _ n => some n
  | _ => none

/-- What remains behind a `write`. -/
lemma remaining_afterWrite {n written : Int} {again : Int → ObserverAt} {done : ObserverAt}
    (loop : ∀ m, (again m).remaining = some m) (ended : done.remaining = none) :
    (Server.afterWrite n written again done).remaining =
      if n - written > 0 then some (n - written) else none := by
  unfold Server.afterWrite
  split
  · exact loop _
  · exact ended

end Projector
