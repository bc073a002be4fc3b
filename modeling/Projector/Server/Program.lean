import Projector.Base.Simulation
import Projector.Server.Listing
import Projector.Server.Loop

/-!
# The three threads

`main`, `focusObserver` and `userListThread` run side by side without a lock. `Program` is the three of them
with their positions. `main` goes by whole rounds of its loop: an `accept`, an end of file, or a chunk with
the call of `receive` on it and, where that fails, the end of the connection is one step, so no other thread
gets in between two accesses of `receive`. The observer stops in front of its tests, in front of each `write`,
which takes the descriptor anew every time, and in front of each store; a test of two shared variables
(`focus_fd != ready_fd`, the bit of `ready_fd` in `read_fds`, a slot and what it points to) is one step, and
so is an assignment of one of them to another. `userListThread` stops in front of each slot of its two passes
and in front of its only `write`. Any of the three may go next.

`Program.refines` says that whatever they do is a run of the loop of `main` in which other threads store
into the two variables of the focus, so the table stays sound.
-/

namespace Projector

/-- Where `focusObserver` is: what it does next. -/
inductive ObserverAt where
  /-- `focus_fd != ready_fd` -/
  | top
  /-- `FD_ISSET(ready_fd, &read_fds)` -/
  | asked
  /-- `write(ready_fd, ...)`, with so many bytes remaining -/
  | granting (writeRemain : Int)
  /-- `focus_fd = ready_fd` -/
  | granted
  /-- `userCount == 0` -/
  | absent
  /-- `i < MAX_CLIENT_NUM && client[i] != NULL` -/
  | searching (i : Int)
  /-- `FD_ISSET(client[i]->fd, &read_fds)` -/
  | present (i : Int)
  /-- `client[i]->fd == focus_fd` -/
  | watched (i : Int)
  /-- `write(client[i]->fd, ...)`, with so many bytes remaining -/
  | offering (i writeRemain : Int)
  /-- `focus_fd = client[i]->fd` -/
  | offered (i : Int)
  /-- `ready_fd = focus_fd` -/
  | taken
deriving DecidableEq

/-- The slot that it has found in use and is going to look into again. -/
def ObserverAt.slot : ObserverAt → Option Int
  | .present i => some i
  | .watched i => some i
  | .offering i _ => some i
  | .offered i => some i
  | _ => none

/-- Where `userListThread` is. -/
inductive ListerAt where
  /-- `focus_fd > 0 && userCount > 1` -/
  | asleep
  /-- `userListCount = userCount - 1` -/
  | counting
  /-- The first pass, with the slots it has still to look at. -/
  | measuring (userListCount dataLength : Int) (slots : List Int)
  /-- The second pass. -/
  | copying (dataLength : Int) (fill : Server.Fill) (slots : List Int)

deriving instance DecidableEq for Server.Write

/-- What others see of the program, and the tests of the observer. -/
inductive ProgramOutput where
  | main (o : Output)
  /-- `FD_ISSET` at this index. -/
  | isset (i : Int)
  /-- A `write` of a piece of the grant to this descriptor. -/
  | wrote (fd : Int) (w : Server.Write)
  /-- The `write` of a list to this descriptor, and its result. -/
  | list (fd : Int) (frame : List UInt8) (nwrite : Int)
deriving DecidableEq

namespace Server

/-- `writeRemain -= written` behind a `write`, and round again while there is something left. -/
def afterWrite (writeRemain written : Int) (again : Int → ObserverAt) (done : ObserverAt) : ObserverAt :=
  if writeRemain - written > 0 then again (writeRemain - written) else done

/-- The next step of `focusObserver`, with what `FD_ISSET` finds beyond the set and the result of a
`write`. -/
def observerStep (beyond : Int → Bool) (written : Int) (s : Server) :
    ObserverAt → Option (Server × ObserverAt × List ProgramOutput)
  | .top => some (s, if s.focusFd ≠ s.readyFd then .asked else .top, [])
  | .asked => some (s, if s.isset beyond s.readyFd then .granting 12 else .absent, [.isset s.readyFd])
  | .granting n =>
    some (s, afterWrite n written .granting .granted, [.wrote s.readyFd ⟨12 - n, n, written⟩])
  | .granted => some (s.commit, .top, [])
  | .absent => some (s, if s.userCount = 0 then .top else .searching 0, [])
  | .searching i =>
    if i < maxClientNum then
      some (s, if (s.client i).isSome then .present i else .searching (i + 1), [])
    else some (s, .top, [])
  | .present i => (s.client i).map fun c =>
    (s, if s.isset beyond c.fd then .watched i else .searching (i + 1), [.isset c.fd])
  | .watched i => (s.client i).map fun c =>
    (s, if c.fd = s.focusFd then .searching (i + 1) else .offering i 12, [])
  | .offering i n => (s.client i).map fun c =>
    (s, afterWrite n written (.offering i) (.offered i), [.wrote c.fd ⟨12 - n, n, written⟩])
  | .offered i => (s.client i).map fun c => ({ s with focusFd := c.fd }, .taken, [])
  | .taken => some ({ s with readyFd := s.focusFd }, .top, [])

/-- The next step of `userListThread`, with the memory that `new` finds and the result of `write`. -/
def listerStep (beyond : Int → Bool) (fresh : Mem) (nwrite : Int) (s : Server) :
    ListerAt → Option (ListerAt × List ProgramOutput)
  | .asleep => some (if s.listGuard then .counting else .asleep, [])
  | .counting => some (.measuring (s.userCount - 1) 4 slots, [])
  | .measuring k n (i :: is) => some (.measuring k (wrap32 (n + s.recordSize beyond i)) is, [])
  | .measuring k n [] =>
    -- `new` throws for a negative size.
    if wrap32 (headerSize + n) < 0 then none else some (.copying n (.start fresh n k) slots, [])
  | .copying n f (i :: is) =>
    match s.listed beyond i with
    | some c => some (.copying n (f.putClient c) is, [])
    | none => some (.copying n f is, [])
  -- `sndBufRemain -= sndBufRemain` ends the loop behind its first `write`, whatever that returned.
  | .copying _ f [] => some (.asleep, [.list s.focusFd (f.sendBuf.read 0 f.sendOffset) nwrite])

end Server

/-- The three threads. -/
structure Program where
  loop : MainLoop
  observer : ObserverAt
  lister : ListerAt

/-- Who goes next, and what it meets. -/
inductive ProgramInput where
  | select (tmpFds : Int → Bool)
  | next (a : Accepted) (r : ReadResult)
  | observer (beyond : Int → Bool) (written : Int)
  | lister (beyond : Int → Bool) (fresh : Mem) (nwrite : Int)

/-- The same for `main` alone. -/
def ProgramInput.toMain : ProgramInput → Option MainInput
  | .select tmpFds => some (.select tmpFds)
  | .next a r => some (.next a r)
  | _ => none

namespace Program

/-- `main` when it has created the two threads. -/
def start (serverSocket : Int) (screen : Screen) (fbp chunk : Mem) : Program where
  loop := .start serverSocket screen fbp chunk
  observer := .top
  lister := .asleep

/-- A step of `main`. -/
def mainStep (tj : TurboJpeg) (p : Program) (i : MainInput) : Option (Program × List ProgramOutput) :=
  (p.loop.step tj i).map fun r => ({ p with loop := r.1 }, r.2.map .main)

/-- One step. -/
def step (tj : TurboJpeg) (p : Program) : ProgramInput → Option (Program × List ProgramOutput)
  | .select tmpFds => p.mainStep tj (.select tmpFds)
  | .next a r => p.mainStep tj (.next a r)
  | .observer beyond written =>
    (p.loop.server.observerStep beyond written p.observer).map fun r =>
      ({ p with loop := { p.loop with server := r.1 }, observer := r.2.1 }, r.2.2)
  | .lister beyond fresh nwrite =>
    (p.loop.server.listerStep beyond fresh nwrite p.lister).map fun r => ({ p with lister := r.1 }, r.2)

/-- What the surroundings promise to `main`. -/
def Promised (p : Program) (i : ProgramInput) : Prop := ∀ j ∈ i.toMain, p.loop.Promised j

end Program

/-- What `main` puts out. -/
def mainOutputs (h : List ProgramOutput) : List Output :=
  h.filterMap fun o => match o with
    | .main o => some o
    | _ => none

/-- The outputs of `main` in two histories. -/
@[simp] lemma mainOutputs_append (h h' : List ProgramOutput) :
    mainOutputs (h ++ h') = mainOutputs h ++ mainOutputs h' := List.filterMap_append

/-- The outputs of `main` alone. -/
@[simp] lemma mainOutputs_map_main (o : List Output) : mainOutputs (o.map .main) = o := by
  simp [mainOutputs, List.filterMap_map]

/-! ## What the observer does -/

namespace Server

/-- The ways a step of the observer can go. -/
inductive Observes (s : Server) :
    ObserverAt → Server → ObserverAt → List ProgramOutput → Prop where
  | settled :
    s.focusFd = s.readyFd →
    Observes s .top s .top []
  | changed :
    s.focusFd ≠ s.readyFd →
    Observes s .top s .asked []
  | found {beyond} :
    s.isset beyond s.readyFd = true →
    Observes s .asked s (.granting 12) [.isset s.readyFd]
  | missing {beyond} :
    s.isset beyond s.readyFd = false →
    Observes s .asked s .absent [.isset s.readyFd]
  | grant {n written} :
    Observes s (.granting n) s (afterWrite n written .granting .granted)
      [.wrote s.readyFd ⟨12 - n, n, written⟩]
  | commit :
    Observes s .granted s.commit .top []
  | alone :
    s.userCount = 0 →
    Observes s .absent s .top []
  | search :
    s.userCount ≠ 0 →
    Observes s .absent s (.searching 0) []
  | use {i : Int} :
    i < maxClientNum →
    (s.client i).isSome →
    Observes s (.searching i) s (.present i) []
  | skip {i : Int} :
    i < maxClientNum →
    s.client i = none →
    Observes s (.searching i) s (.searching (i + 1)) []
  | nobody {i : Int} :
    ¬ i < maxClientNum →
    Observes s (.searching i) s .top []
  | member {i c beyond} :
    s.client i = some c →
    s.isset beyond c.fd = true →
    Observes s (.present i) s (.watched i) [.isset c.fd]
  | stranger {i c beyond} :
    s.client i = some c →
    s.isset beyond c.fd = false →
    Observes s (.present i) s (.searching (i + 1)) [.isset c.fd]
  | holder {i c} :
    s.client i = some c →
    c.fd = s.focusFd →
    Observes s (.watched i) s (.searching (i + 1)) []
  | other {i c} :
    s.client i = some c →
    c.fd ≠ s.focusFd →
    Observes s (.watched i) s (.offering i 12) []
  | offer {i n c written} :
    s.client i = some c →
    Observes s (.offering i n) s (afterWrite n written (.offering i) (.offered i))
      [.wrote c.fd ⟨12 - n, n, written⟩]
  | take {i c} :
    s.client i = some c →
    Observes s (.offered i) { s with focusFd := c.fd } .taken []
  | settle :
    Observes s .taken { s with readyFd := s.focusFd } .top []

variable {tj : TurboJpeg} {beyond : Int → Bool} {written : Int} {s t : Server}
  {at_ at' : ObserverAt} {o : List ProgramOutput}

/-- The ways listed are all. -/
lemma observes_of_step (st : s.observerStep beyond written at_ = some (t, at', o)) :
    s.Observes at_ t at' o := by
  cases at_ with
  | top =>
    simp only [observerStep, Option.some.injEq, Prod.mk.injEq] at st
    obtain ⟨rfl, rfl, rfl⟩ := st
    by_cases same : s.focusFd = s.readyFd
    · rw [if_neg (not_not.mpr same)]
      exact .settled same
    · rw [if_pos same]
      exact .changed same
  | asked =>
    simp only [observerStep, Option.some.injEq, Prod.mk.injEq] at st
    obtain ⟨rfl, rfl, rfl⟩ := st
    cases hi : s.isset beyond s.readyFd with
    | true => exact .found hi
    | false => exact .missing hi
  | granting n =>
    simp only [observerStep, Option.some.injEq, Prod.mk.injEq] at st
    obtain ⟨rfl, rfl, rfl⟩ := st
    exact .grant
  | granted =>
    simp only [observerStep, Option.some.injEq, Prod.mk.injEq] at st
    obtain ⟨rfl, rfl, rfl⟩ := st
    exact .commit
  | absent =>
    simp only [observerStep, Option.some.injEq, Prod.mk.injEq] at st
    obtain ⟨rfl, rfl, rfl⟩ := st
    by_cases zero : s.userCount = 0
    · rw [if_pos zero]
      exact .alone zero
    · rw [if_neg zero]
      exact .search zero
  | searching i =>
    simp only [observerStep] at st
    by_cases inTable : i < maxClientNum
    · simp only [if_pos inTable, Option.some.injEq, Prod.mk.injEq] at st
      obtain ⟨rfl, rfl, rfl⟩ := st
      cases hc : s.client i with
      | none => exact .skip inTable hc
      | some c => exact .use inTable (by rw [hc]; rfl)
    · simp only [if_neg inTable, Option.some.injEq, Prod.mk.injEq] at st
      obtain ⟨rfl, rfl, rfl⟩ := st
      exact .nobody inTable
  | present i =>
    simp only [observerStep, Option.map_eq_some_iff, Prod.mk.injEq] at st
    obtain ⟨c, hc, rfl, rfl, rfl⟩ := st
    cases hi : s.isset beyond c.fd with
    | true => exact .member hc hi
    | false => exact .stranger hc hi
  | watched i =>
    simp only [observerStep, Option.map_eq_some_iff, Prod.mk.injEq] at st
    obtain ⟨c, hc, rfl, rfl, rfl⟩ := st
    by_cases own : c.fd = s.focusFd
    · rw [if_pos own]
      exact .holder hc own
    · rw [if_neg own]
      exact .other hc own
  | offering i n =>
    simp only [observerStep, Option.map_eq_some_iff, Prod.mk.injEq] at st
    obtain ⟨c, hc, rfl, rfl, rfl⟩ := st
    exact .offer hc
  | offered i =>
    simp only [observerStep, Option.map_eq_some_iff, Prod.mk.injEq] at st
    obtain ⟨c, hc, rfl, rfl, rfl⟩ := st
    exact .take hc
  | taken =>
    simp only [observerStep, Option.some.injEq, Prod.mk.injEq] at st
    obtain ⟨rfl, rfl, rfl⟩ := st
    exact .settle

/-- The observer stores into the two variables only, and puts out nothing of what `main` does. -/
lemma Observes.frame (e : s.Observes at_ t at' o) :
    t = { s with focusFd := t.focusFd, readyFd := t.readyFd } ∧ mainOutputs o = [] := by
  cases e <;> exact ⟨rfl, rfl⟩

/-- The loop of a grant to the requested descriptor looks into no slot. -/
lemma slot_granting (n : Int) : (afterWrite n written .granting .granted).slot = none := by
  unfold afterWrite
  split <;> rfl

/-- That of a grant to a user who was searched for stays at its slot. -/
lemma slot_offering (i n : Int) :
    (afterWrite n written (.offering i) (.offered i)).slot = some i := by
  unfold afterWrite
  split <;> rfl

/-- The slot that the observer looks into is in use when it gets there. -/
lemma Observes.slot (e : s.Observes at_ t at' o) {i : Int} (next : at'.slot = some i) :
    (s.client i).isSome := by
  cases e with
  | use _ hc =>
    obtain rfl := Option.some.inj next
    exact hc
  | member hc | other hc =>
    obtain rfl := Option.some.inj next
    rw [hc]
    rfl
  | offer hc =>
    rw [slot_offering] at next
    obtain rfl := Option.some.inj next
    rw [hc]
    rfl
  | grant =>
    rw [slot_granting] at next
    cases next
  | _ => cases next

/-- The observer can go on unless the slot that it looks into is empty. -/
lemma observerStep_eq_none : s.observerStep beyond written at_ = none ↔
    ∃ i, at_.slot = some i ∧ s.client i = none := by
  cases at_ with
  | searching i =>
    simp only [observerStep, ObserverAt.slot]
    split <;> simp
  | _ => simp [observerStep, ObserverAt.slot]

end Server

namespace Program

variable {tj : TurboJpeg} {p q : Program} {i : ProgramInput} {o h : List ProgramOutput}

/-! ## The ways a step can go -/

/-- A step of the program is one of `main`, of the observer or of `userListThread`. -/
inductive Effect (tj : TurboJpeg) (p : Program) :
    ProgramInput → Program → List ProgramOutput → Prop where
  | main {i j l o} :
    i.toMain = some j →
    p.loop.step tj j = some (l, o) →
    Effect tj p i { p with loop := l } (o.map .main)
  | observer {beyond written s at' o} :
    p.loop.server.Observes p.observer s at' o →
    Effect tj p (.observer beyond written)
      { p with loop := { p.loop with server := s }, observer := at' } o
  | lister {beyond fresh nwrite at' o} :
    o = [] ∨ (∃ fd frame, o = [.list fd frame nwrite]) →
    Effect tj p (.lister beyond fresh nwrite) { p with lister := at' } o

/-- `userListThread` puts out nothing but lists. -/
lemma listerStep_output {s : Server} {beyond : Int → Bool} {fresh : Mem} {nwrite : Int}
    {at_ at' : ListerAt} (st : s.listerStep beyond fresh nwrite at_ = some (at', o)) :
    o = [] ∨ ∃ fd frame, o = [.list fd frame nwrite] := by
  cases at_ with
  | asleep =>
    cases st
    exact .inl rfl
  | counting =>
    cases st
    exact .inl rfl
  | measuring k n is =>
    cases is with
    | nil =>
      simp only [Server.listerStep, Option.ite_none_left_eq_some, Option.some.injEq,
        Prod.mk.injEq] at st
      obtain ⟨_, _, rfl⟩ := st
      exact .inl rfl
    | cons i is =>
      cases st
      exact .inl rfl
  | copying n f is =>
    cases is with
    | nil =>
      cases st
      exact .inr ⟨_, _, rfl⟩
    | cons i is =>
      simp only [Server.listerStep] at st
      cases hc : s.listed beyond i with
      | none =>
        rw [hc] at st
        cases st
        exact .inl rfl
      | some c =>
        rw [hc] at st
        cases st
        exact .inl rfl

/-- So it puts out nothing of what `main` does. -/
lemma mainOutputs_lists {nwrite : Int} (lists : o = [] ∨ ∃ fd frame, o = [.list fd frame nwrite]) :
    mainOutputs o = [] := by
  rcases lists with rfl | ⟨_, _, rfl⟩
  · rfl
  · rfl

/-- The ways listed are all. -/
lemma effect_of_step (st : p.step tj i = some (q, o)) : Effect tj p i q o := by
  cases i with
  | select tmpFds =>
    simp only [step, mainStep, Option.map_eq_some_iff, Prod.mk.injEq, Prod.exists] at st
    obtain ⟨l, o, st, rfl, rfl⟩ := st
    exact .main rfl st
  | next a r =>
    simp only [step, mainStep, Option.map_eq_some_iff, Prod.mk.injEq, Prod.exists] at st
    obtain ⟨l, o, st, rfl, rfl⟩ := st
    exact .main rfl st
  | observer beyond written =>
    simp only [step, Option.map_eq_some_iff, Prod.mk.injEq, Prod.exists] at st
    obtain ⟨s, at', o, st, rfl, rfl⟩ := st
    exact .observer (Server.observes_of_step st)
  | lister beyond fresh nwrite =>
    simp only [step, Option.map_eq_some_iff, Prod.mk.injEq, Prod.exists] at st
    obtain ⟨at', o, st, rfl, rfl⟩ := st
    exact .lister (listerStep_output st)

/-! ## The loop of `main` under the threads -/

/-- What `main` sees of the two threads are stores into the two variables of the focus. -/
lemma simulation_mainLoop : Simulation (step tj) Promised (MainLoop.step tj) MainLoop.Promised
    fun p h l h' => p.loop = l ∧ mainOutputs h = h' := by
  rintro p h l h' i q o ⟨rfl, rfl⟩ promised st
  cases effect_of_step st with
  | main toMain moved =>
    exact ⟨_, _, .single _ (promised _ toMain) moved, rfl, by rw [mainOutputs_append,
      mainOutputs_map_main]⟩
  | @observer beyond written s at' o e =>
    obtain ⟨stored, quiet⟩ := e.frame
    refine ⟨_, [], .single (.thread s.focusFd s.readyFd) trivial rfl, ?_, ?_⟩
    · rw [← stored]
    · rw [mainOutputs_append, quiet]
  | lister lists => exact ⟨_, [], .nil, rfl, by rw [mainOutputs_append, mainOutputs_lists lists]⟩

section run

variable {serverSocket : Int} {screen : Screen} {fbp chunk : Mem}

/-- A run of the program is a run of the loop of `main`. -/
lemma run_mainLoop (r : Run (step tj) Promised (start serverSocket screen fbp chunk) h p) :
    Run (MainLoop.step tj) MainLoop.Promised (.start serverSocket screen fbp chunk) (mainOutputs h)
      p.loop := by
  obtain ⟨l, h', run, rfl, rfl⟩ := simulation_mainLoop.run ⟨rfl, rfl⟩ r
  exact run

/-- One step of any of the threads. -/
lemma inv_step (inv : p.loop.Inv) (promised : p.Promised i) (st : p.step tj i = some (q, o)) :
    q.loop.Inv := by
  obtain ⟨l, o', run, rfl, _⟩ := simulation_mainLoop p [] p.loop [] i q o ⟨rfl, rfl⟩ promised st
  exact run.invariant_state inv fun _ _ _ _ inv ok st => inv.step ok st

/-- The invariant of the loop holds between any two steps. -/
lemma inv_of_run (r : Run (step tj) Promised (start serverSocket screen fbp chunk) h p) :
    p.loop.Inv :=
  r.invariant_state (I := fun p => p.loop.Inv) (MainLoop.Inv.start ..)
    fun _ _ _ _ inv ok st => inv_step inv ok st

/-- However the three threads are interleaved, `main` by whole rounds of its loop: it does what it does when
others store into the two variables now and then, and the watched set, the table and the counter agree
between any two steps. -/
theorem refines (r : Run (step tj) Promised (start serverSocket screen fbp chunk) h p) :
    Run (MainLoop.step tj) MainLoop.Promised (.start serverSocket screen fbp chunk) (mainOutputs h)
      p.loop ∧
    (∀ i, p.loop.server.readFds i = true ↔
      i = p.loop.server.serverSocket ∨ (p.loop.server.client i).isSome) ∧
    (∀ i c, p.loop.server.client i = some c → 0 ≤ i ∧ i < maxClientNum ∧ c.fd = i) ∧
    (p.loop.server.userCount = slots.countP fun i => (p.loop.server.client i).isSome) := by
  have inv := inv_of_run r
  refine ⟨run_mainLoop r, inv.sound.watched, fun i c hc => ?_, inv.sound.counted.eq_countP inv.inTable⟩
  obtain ⟨lo, hi⟩ := mem_slots.mp (inv.inTable i (by rw [hc]; rfl))
  exact ⟨lo, hi, inv.sound.slot i c hc⟩

end run

/-- A user comes, and the observer writes the grant in two pieces. -/
def grantToFour : List ProgramInput :=
  [.select (fun i => i = 3), .next ⟨4, 9, .blank⟩ .error, .next ⟨4, 9, .blank⟩ .error,
    .next ⟨4, 9, .blank⟩ .error, .next ⟨4, 9, .blank⟩ .error, .observer (fun _ => false) 0,
    .observer (fun _ => false) 0, .observer (fun _ => false) 7, .next ⟨4, 9, .blank⟩ .error,
    .observer (fun _ => false) 5]

/-- Nothing is promised to the threads. -/
lemma promised_thread {i : ProgramInput} (thread : i.toMain = none) : p.Promised i := by
  intro j mem
  rw [thread] at mem
  cases mem

/-- Nothing is promised in a round that serves nobody. -/
lemma promised_unreported {a : Accepted} {r : ReadResult} (idle : p.loop.tmpFds p.loop.fd = false) :
    p.Promised (.next a r) := by
  rintro j ⟨⟩ reported
  rw [idle] at reported
  cases reported

/-- This run keeps the promises. -/
lemma promised_grantToFour :
    Admitted (step .none) Promised (start 3 ⟨1, 1, 3⟩ (fun _ => 0) fun _ => 0) grantToFour := by
  refine ⟨?_, promised_unreported rfl, promised_unreported rfl, promised_unreported rfl, ?_,
    promised_thread rfl, promised_thread rfl, promised_thread rfl, promised_unreported rfl,
    promised_thread rfl, trivial⟩
  · rintro _ ⟨⟩ i hi
    exact hi
  · rintro _ ⟨⟩ _ _
    exact ⟨by decide, by decide, by decide⟩

/-- A pass of `main` in which `select` reports one descriptor. -/
def pass (fd : Int) (a : Accepted) (r : ReadResult) : List ProgramInput :=
  .select (fun i => i = fd) :: List.replicate maxClientNum (.next a r)

/-- `select` reports slots of the table only. -/
def InTable (i : ProgramInput) : Prop := ∀ j ∈ i.toMain, MainLoop.InTable j

/-- What is promised, as far as the slots of the table are concerned. -/
def Keeps (p : Program) (i : ProgramInput) : Prop := ∀ j ∈ i.toMain, p.loop.Keeps j

instance (p : Program) : DecidablePred p.Keeps := fun _ => by
  unfold Keeps
  infer_instance

/-- Then the slots are all there is to the promise. -/
lemma promised_of_keeps (inTable : InTable i) (keeps : p.Keeps i) : p.Promised i :=
  fun j mem => MainLoop.promised_of_keeps (inTable j mem) (keeps j mem)

/-- The threads have nothing to do with `select`. -/
lemma inTable_thread (thread : i.toMain = none) : InTable i := by
  intro j mem
  rw [thread] at mem
  cases mem

/-- A pass for a descriptor of the table. -/
lemma inTable_pass {fd : Int} {a : Accepted} {r : ReadResult} (slot : fd ∈ slots) :
    ∀ i ∈ pass fd a r, InTable i := by
  rintro _ (_ | ⟨_, later⟩) j mem
  · obtain rfl := Option.some.inj mem
    intro i hi
    rwa [of_decide_eq_true hi]
  · rw [List.eq_of_mem_replicate later] at mem
    obtain rfl := Option.some.inj mem
    trivial

/-- `refines` in the middle of `grantToFour`. -/
theorem refines_grantToFour : ∃ p h,
    exec (step .none) (start 3 ⟨1, 1, 3⟩ (fun _ => 0) fun _ => 0) grantToFour = some (p, h) ∧
    h = [.main (.accepted 4), .isset 4, .wrote 4 ⟨0, 12, 7⟩, .wrote 4 ⟨7, 5, 5⟩] ∧
    p.observer = .granted ∧
    Run (MainLoop.step .none) MainLoop.Promised (.start 3 ⟨1, 1, 3⟩ (fun _ => 0) fun _ => 0)
      (mainOutputs h) p.loop ∧
    (∀ i, p.loop.server.readFds i = true ↔
      i = p.loop.server.serverSocket ∨ (p.loop.server.client i).isSome) ∧
    (∀ i c, p.loop.server.client i = some c → 0 ≤ i ∧ i < maxClientNum ∧ c.fd = i) ∧
    (p.loop.server.userCount = slots.countP fun i => (p.loop.server.client i).isSome) :=
  ⟨_, _, rfl, rfl, rfl, refines (run_of_exec promised_grantToFour rfl)⟩

end Program

end Projector
