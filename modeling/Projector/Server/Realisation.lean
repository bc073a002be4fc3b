import Projector.Server.Program

/-!
# From whole iterations to the steps of the observer

The other direction: whatever `Server.step` can do, the program can do. `Program.realises` takes the steps
of a run of the server one by one. An accept, a read or an end of file is a pass of `main` in which `select`
reports this one descriptor; an iteration of a thread is the steps of the thread, with nobody else in
between. So the runs of the server are the interleavings of `Program.reduces` and no others.
-/

namespace Projector

/-- What the program shows of what the server does: a grant, when its last byte is written. -/
def seen (h : List ProgramOutput) : List Output :=
  h.filterMap fun o => match o with
    | .main o => some o
    | .isset i => some (.isset i)
    | .wrote fd w => if w.count ≤ w.result then some (.grant fd) else none
    | .list fd frame _ => some (.list fd frame)

/-- What two histories show. -/
@[simp] lemma seen_append (h h' : List ProgramOutput) : seen (h ++ h') = seen h ++ seen h' :=
  List.filterMap_append

/-- What `main` alone shows. -/
@[simp] lemma seen_map_main (o : List Output) : seen (o.map .main) = o := by
  simp [seen, List.filterMap_map]

/-- Nobody came, left or asked for the focus. -/
def Uneventful (o : List Output) : Prop := ∀ fd, .accepted fd ∉ o ∧ .closed fd ∉ o ∧ .request fd ∉ o

/-- `read` returns no more bytes than it was asked for. -/
def ProgramInput.Bounded : ProgramInput → Prop
  | .next _ (.data bytes _) => bytes.length ≤ maxBuf
  | _ => True

/-- The accepted descriptors have a slot of the table, and the lists fit into memory. -/
def Server.Realisable (s : Server) : Input → Prop
  | .accept a => a.fd < maxClientNum
  | .list beyond _ => s.dataLength beyond + headerSize < 2 ^ 31
  | _ => True

instance (s : Server) : DecidablePred s.Realisable
  | .accept a => inferInstanceAs (Decidable (a.fd < maxClientNum))
  | .list beyond _ => inferInstanceAs (Decidable (s.dataLength beyond + headerSize < 2 ^ 31))
  | .read .. => .isTrue trivial
  | .close .. => .isTrue trivial
  | .observe .. => .isTrue trivial

namespace Program

variable {tj : TurboJpeg} {p : Program} {s t : Server} {tmpFds : Int → Bool} {beyond : Int → Bool}
  {o : List Output} {fd d : Int} {a : Accepted} {r : ReadResult} {at_ : ObserverAt}

/-- The surroundings keep their promises, and while the observer is in the middle of an iteration nobody
comes, leaves or asks for the focus. -/
structure InTurn (tj : TurboJpeg) (p : Program) (i : ProgramInput) : Prop where
  promised : p.Promised i
  bounded : i.Bounded
  calm : p.observer ≠ .top → ∀ q o, p.step tj i = some (q, o) → Uneventful (mainOutputs o)

/-- The program with `main` and the observer at some place, and `userListThread` asleep. -/
def inObserver (s : Server) (tmpFds : Int → Bool) (fd : Int) (at_ : ObserverAt) : Program where
  loop := ⟨s, tmpFds, fd⟩
  observer := at_
  lister := .asleep

/-! ## A pass of `main` -/

/-- A step that puts out nothing eventful. -/
lemma InTurn.of_step {i : ProgramInput} {q : Program} {po : List ProgramOutput}
    (promised : p.Promised i) (bounded : i.Bounded) (st : p.step tj i = some (q, po))
    (quiet : p.observer ≠ .top → Uneventful (mainOutputs po)) : p.InTurn tj i where
  promised := promised
  bounded := bounded
  calm busy q' po' st' := by
    rw [st] at st'
    cases st'
    exact quiet busy

/-- Without an output nothing happened. -/
lemma uneventful_nil : Uneventful [] := by simp [Uneventful]

/-- `select` reports one descriptor. -/
lemma run_select (watched : s.readFds fd = true) :
    Run (step tj) (InTurn tj) (inObserver s tmpFds maxClientNum at_) []
      (inObserver s (fun i => i = fd) 0 at_) := by
  have st : step tj (inObserver s tmpFds maxClientNum at_) (.select fun i => i = fd) =
      some (inObserver s (fun i => i = fd) 0 at_, []) := rfl
  have promised : (inObserver s tmpFds maxClientNum at_).Promised (.select fun i => i = fd) := by
    rintro j ⟨⟩ i hi
    rw [of_decide_eq_true hi]
    exact watched
  exact .single _ (.of_step promised trivial st fun _ => uneventful_nil) st

/-- The rounds of descriptors that were not reported. -/
lemma run_skip {n : Nat} (bound : fd + n ≤ maxClientNum)
    (idle : ∀ i, fd ≤ i → i < fd + n → tmpFds i = false) :
    Run (step tj) (InTurn tj) (inObserver s tmpFds fd at_) [] (inObserver s tmpFds (fd + n) at_) := by
  induction n with
  | zero => simpa using Run.nil
  | succ n ih =>
    have before := ih (by omega) fun i le lt => idle i le (by omega)
    have unreported : tmpFds (fd + n) = false := idle (fd + n) (by omega) (by omega)
    have lt : fd + n < maxClientNum := by omega
    have next : fd + (n + 1 : Nat) = fd + n + 1 := by omega
    have st : step tj (inObserver s tmpFds (fd + n) at_) (.next ⟨0, 0, .blank⟩ .error) =
        some (inObserver s tmpFds (fd + (n + 1 : Nat)) at_, []) := by
      simp only [step, mainStep, MainLoop.step, inObserver, if_pos lt, unreported, next]
      rfl
    have bounded : (ProgramInput.next ⟨0, 0, .blank⟩ .error).Bounded := trivial
    exact before.snoc _ (.of_step (promised_unreported unreported) bounded st fun _ => uneventful_nil) st

/-- The round of the reported descriptor. -/
lemma run_serve (lt : fd < maxClientNum)
    (accepts : fd = s.serverSocket → 0 ≤ a.fd ∧ a.fd < maxClientNum ∧ s.readFds a.fd = false)
    (bounded : ∀ bytes heap, r = .data bytes heap → bytes.length ≤ maxBuf)
    (quiet : at_ ≠ .top → Uneventful o) (serve : s.serve tj fd a r = some (t, o)) :
    Run (step tj) (InTurn tj) (inObserver s (fun i => i = fd) fd at_) (o.map .main)
      (inObserver t (fun i => i = fd) (fd + 1) at_) := by
  have st : step tj (inObserver s (fun i => i = fd) fd at_) (.next a r) =
      some (inObserver t (fun i => i = fd) (fd + 1) at_, o.map .main) := by
    simp only [step, mainStep, MainLoop.step, inObserver, if_pos lt, serve]
    rfl
  have promised : (inObserver s (fun i => i = fd) fd at_).Promised (.next a r) := by
    rintro j ⟨⟩ _
    exact accepts
  have bounded : (ProgramInput.next a r).Bounded := by
    cases r with
    | data bytes heap => exact bounded bytes heap rfl
    | error => trivial
  exact .single _ (.of_step promised bounded st (by rwa [mainOutputs_map_main])) st

/-- A pass that serves one descriptor. -/
lemma run_pass (range : 0 ≤ fd ∧ fd < maxClientNum) (watched : s.readFds fd = true)
    (accepts : fd = s.serverSocket → 0 ≤ a.fd ∧ a.fd < maxClientNum ∧ s.readFds a.fd = false)
    (bounded : ∀ bytes heap, r = .data bytes heap → bytes.length ≤ maxBuf)
    (quiet : at_ ≠ .top → Uneventful o) (serve : s.serve tj fd a r = some (t, o)) :
    Run (step tj) (InTurn tj) (inObserver s tmpFds maxClientNum at_) (o.map .main)
      (inObserver t (fun i => i = fd) maxClientNum at_) := by
  have selected : Run (step tj) (InTurn tj) (inObserver s tmpFds maxClientNum at_) []
      (inObserver s (fun i => i = fd) 0 at_) := run_select watched
  have before : Run (step tj) (InTurn tj) (inObserver s (fun i => i = fd) 0 at_) []
      (inObserver s (fun i => i = fd) (0 + fd.toNat) at_) := by
    apply run_skip
    · omega
    · intro i _ lt
      have ne : i ≠ fd := by omega
      simp [ne]
  have here : (0 : Int) + fd.toNat = fd := by omega
  rw [here] at before
  have after : Run (step tj) (InTurn tj) (inObserver t (fun i => i = fd) (fd + 1) at_) []
      (inObserver t (fun i => i = fd) (fd + 1 + (maxClientNum - 1 - fd.toNat : Nat)) at_) := by
    apply run_skip
    · have := range.2
      simp only [maxClientNum] at *
      omega
    · intro i le _
      have ne : i ≠ fd := by omega
      simp [ne]
  have last : fd + 1 + (maxClientNum - 1 - fd.toNat : Nat) = maxClientNum := by
    simp only [maxClientNum] at *
    omega
  rw [last] at after
  have served := run_serve range.2 accepts bounded quiet serve
  simpa using ((selected.trans before).trans served).trans after

/-! ## An iteration of `focusObserver` -/

/-- The observer goes whenever it likes. -/
lemma InTurn.observer {written : Int} : p.InTurn tj (.observer beyond written) where
  promised j mem := by cases mem
  bounded := trivial
  calm _ q po st := by
    simp only [step, Option.map_eq_some_iff, Prod.mk.injEq, Prod.exists] at st
    obtain ⟨_, _, _, st, _, rfl⟩ := st
    rw [(Server.observes_of_step st).frame.2]
    simp [Uneventful]

/-- One step of the observer. -/
lemma run_observer {at_ at' : ObserverAt} {po : List ProgramOutput} (beyond : Int → Bool)
    (written : Int) (st : s.observerStep beyond written at_ = some (t, at', po)) :
    Run (step tj) (InTurn tj) (inObserver s tmpFds d at_) po (inObserver t tmpFds d at') := by
  apply Run.single (.observer beyond written) .observer
  simp only [step, inObserver, st]
  rfl

/-- The loop that writes a grant. -/
lemma run_grant (again : Int → ObserverAt) (done : ObserverAt) {n : Int} {results : List Int}
    {ws : List Server.Write}
    (write : ∀ n w, s.observerStep beyond w (again n) =
      some (s, Server.afterWrite n w again done, [.wrote fd ⟨12 - n, n, w⟩]))
    (pos : 0 < n) (h : Server.grantLoop n results = some ws) :
    Run (step tj) (InTurn tj) (inObserver s tmpFds d (again n)) (ws.map (.wrote fd))
      (inObserver s tmpFds d done) ∧ seen (ws.map (.wrote fd)) = [.grant fd] := by
  induction results generalizing n ws with
  | nil => simp [Server.grantLoop, pos] at h
  | cons w results ih =>
    simp only [Server.grantLoop, gt_iff_lt, if_pos pos, Option.map_eq_some_iff] at h
    obtain ⟨ws, h, rfl⟩ := h
    have first : Run (step tj) (InTurn tj) (inObserver s tmpFds d (again n)) _ _ :=
      run_observer beyond w (write n w)
    by_cases left : n - w > 0
    · rw [Server.afterWrite, if_pos left] at first
      obtain ⟨rest, shown⟩ := ih left h
      refine ⟨first.trans rest, ?_⟩
      have unfinished : ¬ n ≤ w := by omega
      have hidden : seen [.wrote fd ⟨12 - n, n, w⟩] = [] := by simp [seen, unfinished]
      rw [List.map_cons, ← List.singleton_append, seen_append, hidden, shown]
      rfl
    · rw [Server.afterWrite, if_neg left] at first
      -- No further `write`: the results are used up.
      have ended : ws = [] := by
        cases results with
        | nil =>
          rw [Server.grantLoop, if_neg left, Option.some.injEq] at h
          exact h.symm
        | cons w' results =>
          rw [Server.grantLoop, if_neg left] at h
          cases h
      subst ended
      have finished : n ≤ w := by omega
      exact ⟨first, by simp [seen, finished]⟩

/-- The slots from some number on. -/
lemma slots_drop {n : Nat} (lt : n < maxClientNum) : slots.drop n = (n : Int) :: slots.drop (n + 1) := by
  have length : slots.length = maxClientNum := by simp [slots]
  rw [List.drop_eq_getElem_cons (by rwa [length])]
  simp [slots]

/-- What the observer does at a slot that is not in use. -/
lemma run_empty {n : Nat} (lt : n < maxClientNum) (hc : s.client n = none) :
    Run (step tj) (InTurn tj) (inObserver s tmpFds d (.searching n)) []
      (inObserver s tmpFds d (.searching (n + 1 : Nat))) := by
  have inTable : (n : Int) < maxClientNum := by omega
  apply run_observer (fun _ => false) 0
  simp only [Server.observerStep, if_pos inTable, hc]
  rfl

/-- What it does at one that is. -/
lemma run_client (beyond : Int → Bool) (sound : s.Sound) {n : Nat} {c : Client} (lt : n < maxClientNum)
    (hc : s.client n = some c) :
    Run (step tj) (InTurn tj) (inObserver s tmpFds d (.searching n)) [.isset c.fd]
      (inObserver s tmpFds d (if s.isset beyond c.fd = true ∧ c.fd ≠ s.focusFd then .offering c.fd 12
        else .searching (n + 1 : Nat))) := by
  have inTable : (n : Int) < maxClientNum := by omega
  have slot : c.fd = n := sound.slot n c hc
  have use : Run (step tj) (InTurn tj) (inObserver s tmpFds d (.searching n)) []
      (inObserver s tmpFds d (.present n)) := by
    apply run_observer beyond 0
    simp only [Server.observerStep, if_pos inTable, hc]
    rfl
  have test : Run (step tj) (InTurn tj) (inObserver s tmpFds d (.present n)) [.isset c.fd]
      (inObserver s tmpFds d (if s.isset beyond c.fd then .watched n else .searching (n + 1))) := by
    apply run_observer beyond 0
    simp [Server.observerStep, hc]
  have tested := use.trans test
  rw [List.nil_append] at tested
  by_cases isset : s.isset beyond c.fd = true
  · rw [if_pos isset] at tested
    have compare : Run (step tj) (InTurn tj) (inObserver s tmpFds d (.watched n)) []
        (inObserver s tmpFds d (if c.fd = s.focusFd then .searching (n + 1) else .offering n 12)) := by
      apply run_observer beyond 0
      simp [Server.observerStep, hc]
    have done := tested.trans compare
    rw [List.append_nil] at done
    by_cases holder : c.fd = s.focusFd
    · rw [if_pos holder] at done
      rw [if_neg (fun h => h.2 holder)]
      exact done
    · rw [if_neg holder] at done
      rw [if_pos ⟨isset, holder⟩, slot]
      rwa [slot] at done
  · rw [if_neg isset] at tested
    rw [if_neg (fun h => isset h.1)]
    exact tested

/-- Where the observer is behind its search. -/
def afterSearch : Option Int → ObserverAt
  | none => .top
  | some fd => .offering fd 12

/-- The search from some slot on. -/
lemma run_search (beyond : Int → Bool) (sound : s.Sound) {n : Nat} (le : n ≤ maxClientNum) :
    ∃ po, Run (step tj) (InTurn tj) (inObserver s tmpFds d (.searching n)) po
        (inObserver s tmpFds d (afterSearch (s.search beyond (slots.drop n)).2)) ∧
      seen po = (s.search beyond (slots.drop n)).1 := by
  induction left : maxClientNum - n generalizing n with
  | zero =>
    have last : n = maxClientNum := by omega
    subst last
    refine ⟨[], ?_, rfl⟩
    apply run_observer beyond 0
    have behind : slots.drop maxClientNum = [] := by decide
    rw [behind]
    rfl
  | succ k ih =>
    have lt : n < maxClientNum := by omega
    obtain ⟨po, rest, shown⟩ := ih (n := n + 1) (by omega) (by omega)
    rw [slots_drop lt]
    cases hc : s.client n with
    | none =>
      simp only [Server.search, hc]
      exact ⟨po, by simpa using (run_empty lt hc).trans rest, shown⟩
    | some c =>
      have visit : Run (step tj) (InTurn tj) (inObserver s tmpFds d (.searching n)) [.isset c.fd] _ :=
        run_client beyond sound lt hc
      simp only [Server.search, hc]
      by_cases hit : s.isset beyond c.fd = true ∧ c.fd ≠ s.focusFd
      · rw [if_pos hit] at visit
        simp only [if_pos hit]
        exact ⟨_, visit, rfl⟩
      · rw [if_neg hit] at visit
        simp only [if_neg hit]
        refine ⟨_, visit.trans rest, ?_⟩
        rw [seen_append, shown]
        rfl

/-- The observer offers the focus to the client of a slot, and stores. -/
lemma run_offer (sound : s.Sound) (there : (s.client fd).isSome) {results : List Int}
    {ws : List Server.Write} (h : Server.grantLoop 12 results = some ws) :
    ∃ po, Run (step tj) (InTurn tj) (inObserver s tmpFds d (.offering fd 12)) po
        (inObserver { s with focusFd := fd, readyFd := fd } tmpFds d .top) ∧ seen po = [.grant fd] := by
  obtain ⟨c, hc⟩ := Option.isSome_iff_exists.mp there
  have slot : c.fd = fd := sound.slot fd c hc
  have write (n w : Int) : s.observerStep (fun _ => false) w (.offering fd n) =
      some (s, Server.afterWrite n w (.offering fd) (.offered fd), [.wrote fd ⟨12 - n, n, w⟩]) := by
    simp [Server.observerStep, hc, slot]
  obtain ⟨written, shown⟩ : Run (step tj) (InTurn tj) (inObserver s tmpFds d (.offering fd 12)) _ _ ∧ _ :=
    run_grant (.offering fd) (.offered fd) write (by decide) h
  have take : Run (step tj) (InTurn tj) (inObserver s tmpFds d (.offered fd)) []
      (inObserver { s with focusFd := fd } tmpFds d .taken) := by
    apply run_observer (fun _ => false) 0
    simp [Server.observerStep, hc, slot]
  have settle : Run (step tj) (InTurn tj) (inObserver { s with focusFd := fd } tmpFds d .taken) []
      (inObserver { s with focusFd := fd, readyFd := fd } tmpFds d .top) :=
    run_observer (fun _ => false) 0 rfl
  have stored := take.trans settle
  rw [List.append_nil] at stored
  exact ⟨_, written.trans stored, by rw [List.append_nil, shown]⟩

/-- An iteration of the observer. -/
lemma run_observe (sound : s.Sound) {results : List Int}
    (h : s.observe beyond results = some (t, o)) :
    ∃ po, Run (step tj) (InTurn tj) (inObserver s tmpFds d .top) po (inObserver t tmpFds d .top) ∧
      seen po = o := by
  have look : Run (step tj) (InTurn tj) (inObserver s tmpFds d .top) []
      (inObserver s tmpFds d (if s.focusFd ≠ s.readyFd then .asked else .top)) :=
    run_observer beyond 0 rfl
  have test : Run (step tj) (InTurn tj) (inObserver s tmpFds d .asked) [.isset s.readyFd]
      (inObserver s tmpFds d (if s.isset beyond s.readyFd then .granting 12 else .absent)) :=
    run_observer beyond 0 rfl
  unfold Server.observe at h
  by_cases same : s.focusFd = s.readyFd
  · simp only [if_pos same, Option.some.injEq, Prod.mk.injEq] at h
    obtain ⟨rfl, rfl⟩ := h
    rw [if_neg (not_not.mpr same)] at look
    exact ⟨[], look, rfl⟩
  · rw [if_neg same] at h
    rw [if_pos same] at look
    have asked := look.trans test
    rw [List.nil_append] at asked
    by_cases isset : s.isset beyond s.readyFd = true
    · simp only [if_pos isset, Option.bind_eq_bind, Option.bind_eq_some_iff, Option.some.injEq,
        Prod.mk.injEq] at h
      obtain ⟨ws, hw, rfl, rfl⟩ := h
      rw [if_pos isset] at asked
      have write (n w : Int) : s.observerStep beyond w (.granting n) =
          some (s, Server.afterWrite n w .granting .granted, [.wrote s.readyFd ⟨12 - n, n, w⟩]) := rfl
      obtain ⟨written, shown⟩ : Run (step tj) (InTurn tj) (inObserver s tmpFds d (.granting 12)) _ _ ∧ _ :=
        run_grant .granting .granted write (by decide) hw
      have commit : Run (step tj) (InTurn tj) (inObserver s tmpFds d .granted) []
          (inObserver s.commit tmpFds d .top) := run_observer beyond 0 rfl
      refine ⟨_, (asked.trans written).trans commit, ?_⟩
      rw [List.append_nil, seen_append, shown]
      rfl
    · rw [if_neg isset] at h asked
      have absent : Run (step tj) (InTurn tj) (inObserver s tmpFds d .absent) []
          (inObserver s tmpFds d (if s.userCount = 0 then .top else .searching 0)) :=
        run_observer beyond 0 rfl
      have missed := asked.trans absent
      by_cases zero : s.userCount = 0
      · simp only [if_pos zero, Option.some.injEq, Prod.mk.injEq] at h
        obtain ⟨rfl, rfl⟩ := h
        rw [if_pos zero] at missed
        exact ⟨_, missed, rfl⟩
      · rw [if_neg zero] at h missed
        obtain ⟨po, searching, shown⟩ : ∃ po, Run (step tj) (InTurn tj)
            (inObserver s tmpFds d (.searching 0)) po _ ∧ _ := run_search beyond sound (Nat.zero_le _)
        rw [List.drop_zero] at searching shown
        have searched := missed.trans searching
        cases hs : s.search beyond slots with
        | mk tests hit =>
          rw [hs] at searched shown h
          cases hit with
          | none =>
            simp only [Option.some.injEq, Prod.mk.injEq] at h
            obtain ⟨rfl, rfl⟩ := h
            refine ⟨_, searched, ?_⟩
            rw [seen_append, shown]
            rfl
          | some fd =>
            simp only [Option.bind_eq_bind, Option.bind_eq_some_iff, Option.some.injEq,
              Prod.mk.injEq] at h
            obtain ⟨ws, hw, rfl, rfl⟩ := h
            have mem : fd ∈ s.others :=
              (Server.head?_others.mp (Server.searched sound.toTable hs).hit.symm).1
            obtain ⟨po', offered, granted⟩ : ∃ po', Run (step tj) (InTurn tj)
                (inObserver s tmpFds d (.offering fd 12)) po' _ ∧ _ :=
              run_offer sound (Server.mem_others.mp mem).2.1 hw
            refine ⟨_, searched.trans offered, ?_⟩
            rw [seen_append, seen_append, shown, granted]
            rfl

/-! ## An iteration of `userListThread` -/

/-- `userListThread` goes between two iterations of the observer. -/
lemma InTurn.lister {fresh : Mem} {nwrite : Int} (top : p.observer = .top) :
    p.InTurn tj (.lister beyond fresh nwrite) where
  promised j mem := by cases mem
  bounded := trivial
  calm busy := absurd top busy

/-- `userListThread` at some place, and the others between two of theirs. -/
def inLister (s : Server) (tmpFds : Int → Bool) (fd : Int) (at_ : ListerAt) : Program where
  loop := ⟨s, tmpFds, fd⟩
  observer := .top
  lister := at_

/-- One step of the thread. -/
lemma run_lister {at_ at' : ListerAt} {po : List ProgramOutput} (beyond : Int → Bool) (fresh : Mem)
    (nwrite : Int) (st : s.listerStep beyond fresh nwrite at_ = some (at', po)) :
    Run (step tj) (InTurn tj) (inLister s tmpFds d at_) po (inLister s tmpFds d at') := by
  apply Run.single (.lister beyond fresh nwrite) (.lister rfl)
  simp only [step, inLister, st]
  rfl

/-- The first pass, from some slots on. -/
lemma run_measure {k n : Int} {is : List Int} (nonneg : 0 ≤ n)
    (fits : n + s.recordSizes beyond is < 2 ^ 31) :
    Run (step tj) (InTurn tj) (inLister s tmpFds d (.measuring k n is)) []
      (inLister s tmpFds d (.measuring k (n + s.recordSizes beyond is) [])) := by
  induction is generalizing n with
  | nil => simpa using Run.nil
  | cons i is ih =>
    rw [Server.recordSizes_cons] at fits ⊢
    push_cast at fits
    have small : wrap32 (n + s.recordSize beyond i) = n + s.recordSize beyond i := by
      apply wrap32_of_inInt
      constructor
      · omega
      · omega
    have first : Run (step tj) (InTurn tj) (inLister s tmpFds d (.measuring k n (i :: is))) []
        (inLister s tmpFds d (.measuring k (n + s.recordSize beyond i) is)) := by
      apply run_lister beyond (fun _ => 0) 0
      rw [Server.listerStep, small]
    have rest := first.trans (ih (by omega) (by omega))
    rw [List.nil_append] at rest
    push_cast
    rwa [add_assoc] at rest

/-- The second pass, from some slots on. -/
lemma run_copy {n : Int} {f : Server.Fill} {is : List Int} :
    Run (step tj) (InTurn tj) (inLister s tmpFds d (.copying n f is)) []
      (inLister s tmpFds d (.copying n
        (is.foldl (fun f i => match s.listed beyond i with
          | some c => f.putClient c
          | none => f) f) [])) := by
  induction is generalizing f with
  | nil => exact .nil
  | cons i is ih =>
    have first : Run (step tj) (InTurn tj) (inLister s tmpFds d (.copying n f (i :: is))) []
        (inLister s tmpFds d (.copying n (match s.listed beyond i with
          | some c => f.putClient c
          | none => f) is)) := by
      apply run_lister beyond (fun _ => 0) 0
      simp only [Server.listerStep]
      cases s.listed beyond i with
      | none => rfl
      | some c => rfl
    exact first.trans ih

/-- An iteration of the thread on a list that fits into memory. -/
lemma run_list {fresh : Mem} (fits : s.dataLength beyond + headerSize < 2 ^ 31) :
    ∃ po, Run (step tj) (InTurn tj) (inLister s tmpFds d .asleep) po (inLister s tmpFds d .asleep) ∧
      seen po = s.sendList beyond fresh := by
  unfold Server.sendList
  by_cases guard : s.listGuard
  · rw [if_pos guard]
    have length : (4 : Int) + s.recordSizes beyond slots = s.dataLength beyond := by
      rw [Server.dataLength_eq_recordSizes]
      push_cast
      rfl
    simp only [headerSize] at fits
    have count : Run (step tj) (InTurn tj) (inLister s tmpFds d .asleep) []
        (inLister s tmpFds d .counting) := by
      apply run_lister beyond fresh 0
      rw [Server.listerStep, if_pos guard]
    have begin_ : Run (step tj) (InTurn tj) (inLister s tmpFds d .counting) []
        (inLister s tmpFds d (.measuring (s.userCount - 1) 4 slots)) := run_lister beyond fresh 0 rfl
    have measure : Run (step tj) (InTurn tj)
        (inLister s tmpFds d (.measuring (s.userCount - 1) 4 slots)) []
        (inLister s tmpFds d (.measuring (s.userCount - 1) (4 + s.recordSizes beyond slots) [])) :=
      run_measure (by decide) (by omega)
    rw [length] at measure
    have small : ¬ wrap32 (headerSize + s.dataLength beyond) < 0 := by
      rw [wrap32_of_inInt ⟨by simp only [headerSize]; omega, by simp only [headerSize]; omega⟩]
      simp only [headerSize]
      omega
    have allocate : Run (step tj) (InTurn tj)
        (inLister s tmpFds d (.measuring (s.userCount - 1) (s.dataLength beyond) [])) []
        (inLister s tmpFds d (.copying (s.dataLength beyond)
          (.start fresh (s.dataLength beyond) (s.userCount - 1)) slots)) := by
      apply run_lister beyond fresh 0
      rw [Server.listerStep, if_neg small]
    have copy : Run (step tj) (InTurn tj) (inLister s tmpFds d (.copying (s.dataLength beyond)
        (.start fresh (s.dataLength beyond) (s.userCount - 1)) slots)) []
        (inLister s tmpFds d (.copying (s.dataLength beyond) (s.fill beyond fresh) [])) := run_copy
    have send : Run (step tj) (InTurn tj)
        (inLister s tmpFds d (.copying (s.dataLength beyond) (s.fill beyond fresh) []))
        [.list s.focusFd (s.frame beyond fresh) (s.frame beyond fresh).length]
        (inLister s tmpFds d .asleep) := run_lister beyond fresh _ rfl
    exact ⟨_, ((((count.trans begin_).trans measure).trans allocate).trans copy).trans send, rfl⟩
  · rw [if_neg guard]
    have sleep : Run (step tj) (InTurn tj) (inLister s tmpFds d .asleep) []
        (inLister s tmpFds d .asleep) := by
      apply run_lister beyond fresh 0
      rw [Server.listerStep, if_neg guard]
    exact ⟨[], sleep, rfl⟩

/-! ## Runs -/

/-- The server and the program that does what it has done. -/
structure Realised (serverSocket : Int) (s : Server) (h' : List Output) (p : Program)
    (h : List ProgramOutput) : Prop where
  resting : ∃ tmpFds, p = inObserver s tmpFds maxClientNum .top
  seen : seen h = h'
  sound : s.Sound
  inTable : ∀ i, (s.client i).isSome → i ∈ slots
  listening : s.serverSocket = serverSocket

/-- One step of the server is a run of the program. -/
lemma run_step (sound : s.Sound) (inTable : ∀ i, (s.client i).isSome → i ∈ slots)
    (range : 0 ≤ s.serverSocket ∧ s.serverSocket < maxClientNum) {i : Input} (ok : s.Realisable i)
    (st : s.step tj i = some (t, o)) :
    ∃ po tmpFds', Run (step tj) (InTurn tj) (inObserver s tmpFds maxClientNum .top) po
      (inObserver t tmpFds' maxClientNum .top) ∧ Projector.seen po = o := by
  have shown : Projector.seen (o.map .main) = o := seen_map_main o
  cases i with
  | accept a =>
    simp only [Server.step, Option.ite_none_right_eq_some] at st
    obtain ⟨⟨nonneg, fresh⟩, st⟩ := st
    refine ⟨_, _, run_pass (a := a) (r := .error) range ((sound.watched _).mpr (.inl rfl))
      (fun _ => ⟨nonneg, ok, fresh⟩) ?_ (absurd rfl) ?_, shown⟩
    · rintro _ _ ⟨⟩
    · rw [Server.serve, if_pos rfl, st]
  | read fd bytes heap =>
    simp only [Server.step, Option.ite_none_right_eq_some] at st
    obtain ⟨⟨watched, ne, some_, bounded⟩, st⟩ := st
    refine ⟨_, _, run_pass (a := ⟨0, 0, .blank⟩) (r := .data bytes heap)
      (mem_slots.mp (inTable fd (sound.isSome watched ne))) watched (fun e => absurd e ne) ?_
      (absurd rfl) ?_, shown⟩
    · rintro _ _ ⟨⟩
      exact bounded
    · simp only [Server.serve, if_neg ne, if_pos some_, st]
  | close fd =>
    simp only [Server.step, Option.ite_none_right_eq_some] at st
    obtain ⟨⟨watched, ne⟩, st⟩ := st
    refine ⟨_, _, run_pass (a := ⟨0, 0, .blank⟩) (r := .error)
      (mem_slots.mp (inTable fd (sound.isSome watched ne))) watched (fun e => absurd e ne) ?_
      (absurd rfl) ?_, shown⟩
    · rintro _ _ ⟨⟩
    · simp only [Server.serve, if_neg ne, st]
  | observe beyond results =>
    obtain ⟨po, run, shown⟩ : ∃ po, Run (step tj) (InTurn tj) (inObserver s tmpFds maxClientNum .top) po
        (inObserver t tmpFds maxClientNum .top) ∧ Projector.seen po = o := run_observe sound st
    exact ⟨po, tmpFds, run, shown⟩
  | list beyond fresh =>
    simp only [Server.step, Option.some.injEq, Prod.mk.injEq] at st
    obtain ⟨rfl, rfl⟩ := st
    obtain ⟨po, run, shown⟩ : ∃ po, Run (step tj) (InTurn tj) (inObserver s tmpFds maxClientNum .top) po
        (inObserver s tmpFds maxClientNum .top) ∧ Projector.seen po = s.sendList beyond fresh := run_list ok
    exact ⟨po, tmpFds, run, shown⟩

/-- The simulation. -/
lemma simulation_program {serverSocket : Int}
    (range : 0 ≤ serverSocket ∧ serverSocket < maxClientNum) :
    Simulation (Server.step tj) Server.Realisable (step tj) (InTurn tj) (Realised serverSocket) := by
  rintro s h' p h i t o ⟨⟨tmpFds, rfl⟩, rfl, sound, inTable, rfl⟩ ok st
  have effect := Server.effect_of_step st
  obtain ⟨po, tmpFds', run, shown⟩ : ∃ po tmpFds', Run (step tj) (InTurn tj)
      (inObserver s tmpFds maxClientNum .top) po (inObserver t tmpFds' maxClientNum .top) ∧
      Projector.seen po = o :=
    run_step sound inTable range ok st
  refine ⟨_, po, run, ⟨tmpFds', rfl⟩, by rw [seen_append, shown], sound.effect effect, fun j hj => ?_, ?_⟩
  · rcases effect.isSome hj with old | ⟨a, rfl, rfl⟩
    · exact inTable j old
    · cases effect with
      | accept nonneg => exact mem_slots.mpr ⟨nonneg, ok⟩
  · cases effect <;> rfl

/-- The run of the program, from its start to where no thread is in the middle of anything. -/
lemma run_of_server {serverSocket : Int} {screen : Screen} {fbp chunk : Mem} {h' : List Output}
    (range : 0 ≤ serverSocket ∧ serverSocket < maxClientNum)
    (r : Run (Server.step tj) Server.Realisable (Projector.start serverSocket screen fbp chunk) h' s) :
    ∃ h tmpFds, Run (step tj) (InTurn tj) (start serverSocket screen fbp chunk) h
      (inObserver s tmpFds maxClientNum .top) ∧ seen h = h' := by
  have start : Realised serverSocket (Projector.start serverSocket screen fbp chunk) []
      (start serverSocket screen fbp chunk) [] :=
    ⟨⟨_, rfl⟩, rfl, .start .., fun i hi => by simp [Projector.start] at hi, rfl⟩
  obtain ⟨_, h, run, ⟨tmpFds, rfl⟩, shown, _⟩ := (simulation_program range).run start r
  exact ⟨h, tmpFds, run, shown⟩

/-- Whatever the server does in steps that are whole iterations, the program can do in the single steps of
the observer and rounds of `main`. -/
theorem realises {serverSocket : Int} {screen : Screen} {fbp chunk : Mem} {h' : List Output}
    (range : 0 ≤ serverSocket ∧ serverSocket < maxClientNum)
    (r : Run (Server.step tj) Server.Realisable (Projector.start serverSocket screen fbp chunk) h' s) :
    ∃ p h, Run (step tj) (InTurn tj) (start serverSocket screen fbp chunk) h p ∧
      p.loop.server = s ∧ p.observer = .top ∧ p.lister = .asleep ∧ seen h = h' := by
  obtain ⟨h, tmpFds, run, shown⟩ := run_of_server range r
  exact ⟨_, h, run, rfl, rfl, rfl, shown⟩

/-- A user comes and gets the focus, another one comes, and the first sends an image and sees the list. -/
def imageAndList : List Input :=
  [.accept ⟨4, 10, .blank⟩, .observe (fun _ => false) [7, 5], .accept ⟨5, 11, .blank⟩,
    .read 4 [5, 0, 0, 0, 1, 0, 0, 0, 255] .cleared, .list (fun _ => false) fun _ => 0]

/-- What comes of it. -/
def imageAndListOutputs : List Output :=
  [.accepted 4, .isset 4, .grant 4, .accepted 5, .draw 4 [255], .received 4 0,
    .list 4 [3, 0, 0, 0, 16, 0, 0, 0, 1, 0, 0, 0, 11, 0, 0, 0, 0, 0, 0, 0, 0, 0, 0, 0]]

/-- `realises` for `imageAndList`. -/
theorem realises_imageAndList : ∃ p h,
    Run (step .none) (InTurn .none) (start 3 ⟨1, 1, 3⟩ (fun _ => 0) fun _ => 0) h p ∧
    p.loop.server.focusFd = 4 ∧ p.observer = .top ∧ seen h = imageAndListOutputs := by
  have adm : Admitted (Server.step .none) Server.Realisable .blank imageAndList := by decide +kernel
  have run : (exec (Server.step .none) .blank imageAndList).map (fun r => (r.1.focusFd, r.2)) =
      some (4, imageAndListOutputs) := by decide +kernel
  obtain ⟨⟨s, h'⟩, e, result⟩ := Option.map_eq_some_iff.mp run
  obtain ⟨focus, history⟩ := Prod.mk.inj result
  obtain ⟨p, h, run, rfl, top, _, shown⟩ := realises (by decide) (run_of_exec adm e)
  exact ⟨p, h, run, focus, top, shown.trans history⟩

end Program

end Projector
