import Projector.Base.Response
import Projector.Server.Outgoing

/-!
# An iteration of the observer

`focusObserver` has a search loop and two loops around `write`, and the other threads may go between any two
of its steps. As long as `write` takes some of the bytes of a grant and `main` does not direct the rest of one
elsewhere, it still gets back to its top within a bounded number of steps of its own, and what it has written
until then is nothing or one whole grant, all of it to one descriptor, which has the focus then
(`observer_returns`).
-/

namespace Projector

/-- A step of the observer. -/
def ProgramInput.isObserver : ProgramInput → Bool
  | .observer _ _ => true
  | _ => false

/-- How many steps of its own the observer makes at most before it is at its top again. -/
def ObserverAt.rank : ObserverAt → Nat
  | .top => 108
  | .asked => 107
  | .granting n => n.toNat + 1
  | .granted => 1
  | .absent => 106
  | .searching i => 3 * (maxClientNum - i).toNat + 15
  | .present i => 3 * (maxClientNum - i).toNat + 14
  | .watched i => 3 * (maxClientNum - i).toNat + 13
  | .offering _ n => n.toNat + 2
  | .offered _ => 2
  | .taken => 1

/-- It makes at least one more. -/
lemma ObserverAt.rank_pos (at_ : ObserverAt) : 0 < at_.rank := by
  cases at_ <;> simp only [rank] <;> omega

namespace Server

variable {s t : Server} {at_ at' : ObserverAt} {g : List (Int × Write)} {d n written : Int}
  {beyond : Int → Bool} {o : List ProgramOutput}

/-- So much of a grant is written, all of it to one descriptor. -/
def Part (g : List (Int × Write)) (d writeRemain : Int) : Prop :=
  ∃ ws : List Write, g = ws.map (Prod.mk d) ∧
    ws.flatMap Write.bytes = grantBytes.take (12 - writeRemain).toNat

/-- A whole grant is written, all of it to one descriptor. -/
def Whole (g : List (Int × Write)) : Prop := ∃ d, Part g d 0

/-- What the observer has written in this iteration when it is at this place. -/
def Written (s : Server) (g : List (Int × Write)) : ObserverAt → Prop
  | .granting n => 0 < n ∧ n ≤ 12 ∧ (n = 12 → g = []) ∧ Part g s.readyFd n
  | .granted => Whole g
  | .searching i => 0 ≤ i ∧ g = []
  | .present i => 0 ≤ i ∧ i < maxClientNum ∧ g = []
  | .watched i => 0 ≤ i ∧ i < maxClientNum ∧ g = []
  | .offering i n => 0 < n ∧ n ≤ 12 ∧ Part g i n
  | .offered _ => Whole g
  | .taken => Whole g
  | _ => g = []

/-- What it has written when it is at its top again. -/
def Ended (s : Server) (g : List (Int × Write)) : Prop :=
  g = [] ∨ (Whole g ∧ s.focusFd = s.readyFd)

/-- Nothing is written yet. -/
lemma Part.nil : Part [] d 12 := ⟨[], rfl, rfl⟩

/-- The next `write`. -/
lemma Part.write (part : Part g d n) (le : n ≤ 12) (takes : 1 ≤ written ∧ written ≤ n) :
    Part (g ++ [(d, ⟨12 - n, n, written⟩)]) d (n - written) := by
  obtain ⟨ws, rfl, bytes⟩ := part
  refine ⟨ws ++ [⟨12 - n, n, written⟩], by simp, ?_⟩
  have count : (12 - n).toNat + written.toNat = (12 - (n - written)).toNat := by omega
  rw [List.flatMap_append, List.flatMap_singleton, bytes, Write.bytes, ← List.take_add, count]

/-- Behind a `write` there is more to write, or the grant is whole. -/
lemma Part.afterWrite {again : Int → ObserverAt} {done : ObserverAt} (part : Part g d n) (le : n ≤ 12)
    (takes : 1 ≤ written ∧ written ≤ n) :
    (∃ m, 0 < m ∧ m < n ∧ Server.afterWrite n written again done = again m ∧
      Part (g ++ [(d, ⟨12 - n, n, written⟩)]) d m) ∨
    (Server.afterWrite n written again done = done ∧ Whole (g ++ [(d, ⟨12 - n, n, written⟩)])) := by
  have next := part.write le takes
  unfold Server.afterWrite
  by_cases more : n - written > 0
  · rw [if_pos more]
    exact .inl ⟨n - written, more, by omega, rfl, next⟩
  · have last : n - written = 0 := by omega
    rw [if_neg more]
    rw [last] at next
    exact .inr ⟨rfl, d, next⟩

/-- A step in the loop of a grant. -/
lemma Written.write (sound : s.Sound) (takes : ∀ n ∈ at_.remaining, 1 ≤ written ∧ written ≤ n)
    (w : s.Written g at_) (busy : at_.remaining = some n)
    (st : s.observerStep beyond written at_ = some (t, at', o)) :
    t.Written (g ++ calls o) at' ∧ at'.rank + 1 ≤ at_.rank := by
  have takes := takes n busy
  cases at_ with
  | granting m =>
    obtain rfl := Option.some.inj busy
    cases st
    obtain ⟨pos, le, _, part⟩ := w
    rcases part.afterWrite le takes with ⟨k, left, less, next, part⟩ | ⟨next, whole⟩
    · rw [next]
      refine ⟨⟨left, by omega, fun all => by omega, part⟩, ?_⟩
      simp only [ObserverAt.rank]
      omega
    · rw [next]
      refine ⟨whole, ?_⟩
      simp only [ObserverAt.rank]
      omega
  | offering i m =>
    obtain rfl := Option.some.inj busy
    obtain ⟨c, hc, e⟩ := Option.map_eq_some_iff.mp st
    cases e
    rw [sound.slot i c hc]
    obtain ⟨pos, le, part⟩ := w
    rcases part.afterWrite le takes with ⟨k, left, less, next, part⟩ | ⟨next, whole⟩
    · rw [next]
      refine ⟨⟨left, by omega, part⟩, ?_⟩
      simp only [ObserverAt.rank]
      omega
    · rw [next]
      refine ⟨whole, ?_⟩
      simp only [ObserverAt.rank]
      omega
  | _ => cases busy

/-- A step of the observer brings it back to its top or nearer to it. -/
lemma Written.observer (w : s.Written g at_) (sound : s.Sound)
    (takes : ∀ n ∈ at_.remaining, 1 ≤ written ∧ written ≤ n)
    (st : s.observerStep beyond written at_ = some (t, at', o)) :
    (at' = .top ∧ t.Ended (g ++ calls o)) ∨
      (t.Written (g ++ calls o) at' ∧ at'.rank + 1 ≤ at_.rank) := by
  cases left : at_.remaining with
  | some n => exact .inr (Written.write sound takes w left st)
  | none =>
    have silent : calls o = [] := by
      rcases (Program.silent (observes_of_step st) left).2 with rfl | ⟨i, rfl⟩ <;> rfl
    rw [silent, List.append_nil]
    cases observes_of_step st with
    | settled | alone => exact .inl ⟨rfl, .inl w⟩
    | nobody => exact .inl ⟨rfl, .inl w.2⟩
    | commit | settle => exact .inl ⟨rfl, .inr ⟨w, rfl⟩⟩
    | changed | missing => exact .inr ⟨w, le_rfl⟩
    | found =>
      obtain rfl : g = [] := w
      exact .inr ⟨⟨by decide, le_rfl, fun _ => rfl, .nil⟩, by decide⟩
    | search => exact .inr ⟨⟨le_rfl, w⟩, le_rfl⟩
    | use inTable => exact .inr ⟨⟨w.1, inTable, w.2⟩, le_rfl⟩
    | member => exact .inr ⟨w, le_rfl⟩
    | skip inTable =>
      refine .inr ⟨⟨by have := w.1; omega, w.2⟩, ?_⟩
      simp only [ObserverAt.rank]
      omega
    | stranger | holder =>
      obtain ⟨nonneg, inTable, none⟩ := w
      refine .inr ⟨⟨by omega, none⟩, ?_⟩
      simp only [ObserverAt.rank]
      omega
    | other =>
      obtain ⟨_, inTable, rfl⟩ := w
      refine .inr ⟨⟨by decide, le_rfl, .nil⟩, ?_⟩
      have twelve : (12 : Int).toNat = 12 := rfl
      simp only [ObserverAt.rank, twelve]
      omega
    | take => exact .inr ⟨w, le_rfl⟩
    | grant | offer => cases left

end Server

namespace Program

variable {tj : TurboJpeg} {p q : Program} {i : ProgramInput} {is : List ProgramInput}
  {h h' o : List ProgramOutput}

/-- `write` takes some of the bytes of a grant, and `main` does not direct the rest of one elsewhere. -/
structure Unhindered (tj : TurboJpeg) (p : Program) (i : ProgramInput) : Prop where
  promised : p.Promised i
  takes : p.Takes i
  directs : i.toMain.isSome → ∀ r ∈ p.step tj i, r.1.partly = p.partly

/-- What the observer has written stays so while `main` goes on. -/
lemma written_of_main {l : MainLoop} {g : List (Int × Server.Write)}
    (w : p.loop.server.Written g p.observer) (directs : { p with loop := l }.partly = p.partly) :
    l.server.Written g p.observer := by
  cases at_ : p.observer with
  | granting n =>
    rw [at_] at w
    obtain ⟨pos, le, fresh, part⟩ := w
    refine ⟨pos, le, fresh, ?_⟩
    by_cases all : n = 12
    · rw [fresh all, all]
      exact .nil
    · have some_ : n < 12 := by omega
      simp only [partly, at_, if_pos some_, Option.some.injEq, Prod.mk.injEq, and_true] at directs
      rwa [directs]
  | _ =>
    rw [at_] at w
    exact w

/-- Wherever the observer is in an iteration, what it has written in it so far is as it should be. -/
structure Iterates (p : Program) (h : List ProgramOutput) : Prop where
  loop : p.loop.Inv
  written : p.loop.server.Written (calls h) p.observer

/-- The observer is at its top again, and has written nothing or one whole grant. -/
structure Returned (p : Program) (h : List ProgramOutput) : Prop where
  top : p.observer = .top
  ended : p.loop.server.Ended (calls h)

/-- A step of any of the threads. -/
lemma Iterates.step (it : p.Iterates h) (ok : p.Unhindered tj i) (st : p.step tj i = some (q, o)) :
    (i.isObserver = true ∧ q.Returned (h ++ o)) ∨
      (q.Iterates (h ++ o) ∧ q.observer.rank + (if i.isObserver then 1 else 0) ≤ p.observer.rank) := by
  have loop := inv_step it.loop ok.promised st
  have main (toMain : i.toMain.isSome) (other : i.isObserver = false) : q.Iterates (h ++ o) ∧
      q.observer.rank + (if i.isObserver then 1 else 0) ≤ p.observer.rank := by
    have directs := ok.directs toMain _ st
    cases effect_of_step st with
    | main _ _ =>
      refine ⟨⟨loop, ?_⟩, by rw [other]; exact le_rfl⟩
      rw [calls_append, calls_map_main, List.append_nil]
      exact written_of_main (p := p) it.written directs
    | observer => cases toMain
    | lister => cases toMain
  cases i with
  | select => exact .inr (main rfl rfl)
  | next => exact .inr (main rfl rfl)
  | observer beyond written =>
    simp only [step, Option.map_eq_some_iff, Prod.mk.injEq, Prod.exists] at st
    obtain ⟨s, at', o, st, rfl, rfl⟩ := st
    rcases it.written.observer it.loop.sound ok.takes st with ⟨top, ended⟩ | ⟨written, less⟩
    · exact .inl ⟨rfl, top, by rwa [calls_append]⟩
    · exact .inr ⟨⟨loop, by rwa [calls_append]⟩, less⟩
  | lister beyond fresh nwrite =>
    simp only [step, Option.map_eq_some_iff, Prod.mk.injEq, Prod.exists] at st
    obtain ⟨at', o, st, rfl, rfl⟩ := st
    refine .inr ⟨⟨loop, ?_⟩, le_rfl⟩
    rw [calls_append, calls_lists (listerStep_output st), List.append_nil]
    exact it.written

/-- From its top the observer is back there after at most 108 steps of its own, whatever the other threads do
in between, and what it has written until then is nothing or the bytes of one grant, all of them to one
descriptor, and then `focus_fd` and `ready_fd` are the same. -/
theorem observer_returns {serverSocket : Int} {screen : Screen} {fbp chunk : Mem}
    (r : Run (step tj) Promised (start serverSocket screen fbp chunk) h p) (top : p.observer = .top)
    (adm : Admitted (step tj) (Unhindered tj) p is) (e : exec (step tj) p is = some (q, h'))
    (many : 108 ≤ is.countP ProgramInput.isObserver) :
    ∃ js ks t o, is = js ++ ks ∧ exec (step tj) p js = some (t, o) ∧ t.observer = .top ∧
      0 < js.countP ProgramInput.isObserver ∧ js.countP ProgramInput.isObserver ≤ 108 ∧
      (calls o = [] ∨ ∃ (fd : Int) (ws : List Server.Write), calls o = ws.map (Prod.mk fd) ∧
        ws.flatMap Server.Write.bytes = Server.grantBytes ∧
        t.loop.server.focusFd = t.loop.server.readyFd) := by
  have start : p.Iterates [] := ⟨inv_of_run r, by rw [top]; rfl⟩
  have left : p.observer.rank = 108 := by rw [top]; rfl
  obtain ⟨js, ks, t, o, split, front, ⟨back, ended⟩, some_, few⟩ := exec_reaches
    (I := Iterates) (E := Returned) (fun p => p.observer.rank) (fun p _ _ => p.observer.rank_pos)
    (fun _ _ _ _ _ it ok st => it.step ok st) start adm e (by rwa [left])
  refine ⟨js, ks, t, o, split, front, back, some_, by rwa [← left], ?_⟩
  rcases ended with none | ⟨⟨fd, ws, e, bytes⟩, settled⟩
  · exact .inl none
  · exact .inr ⟨fd, ws, e, bytes, settled⟩

/-- The only user is granted the focus in two writes, and sends an image in between. -/
def grantInTwo : List ProgramInput :=
  [.observer (fun _ => false) 0, .observer (fun _ => false) 0, .observer (fun _ => false) 7] ++
  pass 4 ⟨0, 0, .blank⟩ (.data [5, 0, 0, 0, 1, 0, 0, 0, 255] .cleared) ++
  .observer (fun _ => false) 5 :: List.replicate 104 (.observer (fun _ => false) 0)

/-- All descriptors of this run have a slot. -/
lemma inTable_grantInTwo : ∀ i ∈ grantInTwo, InTable i := by
  intro i mem
  simp only [grantInTwo, List.mem_append, List.mem_cons, List.not_mem_nil, or_false] at mem
  rcases mem with ((rfl | rfl | rfl) | mem) | rfl | mem
  · exact inTable_thread rfl
  · exact inTable_thread rfl
  · exact inTable_thread rfl
  · exact inTable_pass (by decide) i mem
  · exact inTable_thread rfl
  · rw [List.eq_of_mem_replicate mem]
    exact inTable_thread rfl

/-- `observer_returns` for `grantInTwo`. -/
theorem observer_returns_grantInTwo : ∃ p h q h',
    exec (step .none) (start 3 ⟨1, 1, 3⟩ (fun _ => 0) fun _ => 0) (pass 3 ⟨4, 10, .blank⟩ .error) =
      some (p, h) ∧
    exec (step .none) p grantInTwo = some (q, h') ∧
    calls h' = [(4, ⟨0, 12, 7⟩), (4, ⟨7, 5, 5⟩)] ∧
    ∃ js ks t o, grantInTwo = js ++ ks ∧ exec (step .none) p js = some (t, o) ∧ t.observer = .top ∧
      0 < js.countP ProgramInput.isObserver ∧ js.countP ProgramInput.isObserver ≤ 108 ∧
      (calls o = [] ∨ ∃ (fd : Int) (ws : List Server.Write), calls o = ws.map (Prod.mk fd) ∧
        ws.flatMap Server.Write.bytes = Server.grantBytes ∧
        t.loop.server.focusFd = t.loop.server.readyFd) := by
  have comes : (exec (step .none) (start 3 ⟨1, 1, 3⟩ (fun _ => 0) fun _ => 0)
      (pass 3 ⟨4, 10, .blank⟩ .error)).map (fun r => decide (r.1.observer = .top ∧
        Admitted (step .none) (fun p i => p.Keeps i ∧ p.Takes i ∧
          (i.toMain.isSome → ∀ r ∈ p.step .none i, r.1.partly = p.partly)) r.1 grantInTwo ∧
        (exec (step .none) r.1 grantInTwo).map (fun r => calls r.2) =
          some [(4, ⟨0, 12, 7⟩), (4, ⟨7, 5, 5⟩)])) = some true := by decide +kernel
  obtain ⟨⟨p, h⟩, e, facts⟩ := Option.map_eq_some_iff.mp comes
  obtain ⟨top, adm, run⟩ := of_decide_eq_true facts
  obtain ⟨⟨q, h'⟩, e', written⟩ := Option.map_eq_some_iff.mp run
  have before : Admitted (step .none) Keeps (start 3 ⟨1, 1, 3⟩ (fun _ => 0) fun _ => 0)
      (pass 3 ⟨4, 10, .blank⟩ .error) := by decide +kernel
  have reached := run_of_exec
    (before.mono fun _ i mem ok => promised_of_keeps (inTable_pass (by decide) i mem) ok) e
  have unhindered : Admitted (step .none) (Unhindered .none) p grantInTwo :=
    adm.mono fun _ i mem ok => ⟨promised_of_keeps (inTable_grantInTwo i mem) ok.1, ok.2.1, ok.2.2⟩
  exact ⟨p, h, q, h', e, e', written, observer_returns reached top unhindered e' (by decide +kernel)⟩

end Program

end Projector
