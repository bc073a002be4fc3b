import Projector.Server.Interleaving

/-!
# From the steps of the observer to whole iterations

`Server.step` takes an iteration of `focusObserver` as one step. `Program.reduces` says when that is all
there is to see: as long as nobody comes, leaves or asks for the focus while the observer is in the middle
of an iteration, every run in which its steps fall between the rounds of `main` is matched by a run of
`Server.step`. The tests of the observer stay true behind it (`Pass`), so the whole iteration can be put
where it stores into `focus_fd`; what it still does after that, the store into `ready_fd`, is put there too,
since no call of `receive` looks at `ready_fd` (`receive_ready`).
-/

namespace Projector

/-- The outputs of `main` among those of the server. -/
def served (h : List Output) : List Output :=
  h.filter fun o => match o with
    | .isset _ => false
    | .grant _ => false
    | .list _ _ => false
    | _ => true

/-- The outputs of `main` in two histories. -/
@[simp] lemma served_append (h h' : List Output) : served (h ++ h') = served h ++ served h' :=
  List.filter_append h h'

/-- Where `main` alone is at work nothing is granted. -/
lemma granted_of_served {o : List Output} (h : served o = o) : granted o = [] := by
  apply granted_eq_nil
  intro fd mem
  rw [← h] at mem
  simp [served] at mem

/-- What a call of `receive` puts out is an output of `main`. -/
lemma served_outputs (fd : Int) (log : List Event) : served (outputs fd log) = outputs fd log := by
  rw [served, List.filter_eq_self]
  intro o mem
  rcases Server.mem_outputs mem with ⟨_, _, rfl⟩ | ⟨_, _, rfl⟩
  · rfl
  · rfl

/-! ## `receive` and `ready_fd` -/

/-- Without its draws a log is what was parsed. -/
lemma parsed_performed (focus : Prop) [Decidable focus] (es : List Event) :
    parsed (performed focus es) = parsed es := by
  induction es with
  | nil => rfl
  | cons e es ih =>
    rw [← List.singleton_append, performed_append, parsed_append, parsed_append, ih]
    congr 1
    cases e with
    | done type data =>
      by_cases drawn : type = recvImage ∧ focus
      · simp [performed, drawn, parsed]
      · simp [performed, drawn, parsed]
    | _ => rfl

/-- Two calls that have parsed and performed the same, from globals that differ in `ready_fd` only. -/
lemma Recv.Alike.eq_of_performs {tj : TurboJpeg} {c : Client} {g : Globals} {x : Int} {r r' : Recv}
    (alike : r.Alike r') (frame : Frame ⟨[], 0, c, g⟩ r)
    (frame' : Frame ⟨[], 0, c, { g with readyFd := x }⟩ r') (perf : Performs tj ⟨[], 0, c, g⟩ r)
    (perf' : Performs tj ⟨[], 0, c, { g with readyFd := x }⟩ r') (quiet : requests r.log = []) :
    r' = { r with globals := { r.globals with readyFd := x } } := by
  obtain ⟨es, he, log, canvas⟩ := perf.log
  obtain ⟨es', he', log', canvas'⟩ := perf'.log
  rw [List.nil_append] at log log'
  have same : es' = es := by
    have logs := alike.log
    rwa [log, log', parsed_performed, parsed_performed, he, he'] at logs
  subst same
  have logs : r'.log = r.log := log'.trans log.symm
  have canvases : r'.canvas = r.canvas := canvas'.trans canvas.symm
  obtain ⟨fs, log'', ready, _⟩ := frame'.log
  rw [List.nil_append] at log''
  have unasked : requests fs = [] := by rw [← log'', logs, quiet]
  rw [unasked] at ready
  have focus := frame'.focusFd.trans frame.focusFd.symm
  have count := frame'.userCount.trans frame.userCount.symm
  obtain ⟨_, w, h, y, g', rfl, _⟩ := alike.eq
  obtain ⟨⟨focusFd, readyFd, userCount, fbp⟩, rfl⟩ : ∃ g, g = g' := ⟨_, rfl⟩
  cases r
  cases canvases
  cases logs
  cases focus
  cases count
  cases ready
  rfl

/-- `receive` does not look at `ready_fd`: without a focus request it leaves there what it finds, and does
everything else as before. -/
lemma receive_ready {tj : TurboJpeg} {heap : Heap} {c : Client} {g : Globals} {buf : Mem} {len : Nat}
    {r : Recv} (hr : c.receive tj heap g buf len = .ok r) (quiet : requests r.log = []) (x : Int) :
    c.receive tj heap { g with readyFd := x } buf len =
      .ok { r with globals := { r.globals with readyFd := x } } := by
  have alike : Agree Recv.Alike Recv.AlikeStop (c.receive tj heap g buf len)
      (c.receive tj heap { g with readyFd := x } buf len) := receive_alike ⟨_, _, _, rfl⟩
  obtain ⟨r', hr', like⟩ := alike.of_ok hr
  rw [hr', like.eq_of_performs ((receive_frame ..).of_ok hr).1 ((receive_frame ..).of_ok hr').1
    ((receive_performs ..).of_ok hr) ((receive_performs ..).of_ok hr') quiet]

namespace Server

variable {tj : TurboJpeg} {s t : Server} {fd : Int} {a : Accepted} {r : ReadResult} {o : List Output}

/-- A round of `main` as a step of the server. -/
lemma step_of_serve (watched : s.readFds fd = true)
    (accepts : fd = s.serverSocket → 0 ≤ a.fd ∧ s.readFds a.fd = false)
    (bounded : ∀ bytes heap, r = .data bytes heap → bytes.length ≤ maxBuf)
    (h : s.serve tj fd a r = some (t, o)) :
    s.step tj (.ofServe s.serverSocket fd a r) = some (t, o) := by
  unfold serve at h
  unfold Input.ofServe
  by_cases listening : fd = s.serverSocket
  · simp only [if_pos listening] at h ⊢
    rw [step, if_pos (accepts listening), h]
  · simp only [if_neg listening] at h ⊢
    cases r with
    | data bytes heap =>
      by_cases some_ : 0 < bytes.length
      · simp only [if_pos some_] at h ⊢
        rw [step, if_pos ⟨watched, listening, some_, bounded bytes heap rfl⟩, h]
      · simp only [if_neg some_] at h ⊢
        rw [step, if_pos ⟨watched, listening⟩, h]
    | error =>
      simp only at h ⊢
      rw [step, if_pos ⟨watched, listening⟩, h]

/-- The ways a round of `main` can go. -/
inductive Round (tj : TurboJpeg) (s : Server) (fd : Int) (a : Accepted) :
    ReadResult → Server → List Output → Prop where
  | accept {r : ReadResult} :
    fd = s.serverSocket →
    Round tj s fd a r (s.acceptClient a) [.accepted a.fd]
  | read {bytes heap c x} :
    fd ≠ s.serverSocket →
    0 < bytes.length →
    s.client fd = some c →
    c.receive tj heap s.toGlobals (s.chunk.overlay bytes) bytes.length = .ok x →
    Round tj s fd a (.data bytes heap) ((s.received fd x).wipe bytes)
      (outputs fd x.log ++ [.received fd 0])
  | refuse {r : ReadResult} {t : Server} {log : List Event} :
    Round tj s fd a r t (outputs fd log ++ [.received fd (-1), .closed fd])
  | close {r : ReadResult} :
    Round tj s fd a r (s.dropClient fd) [.closed fd]

/-- The ways listed are all. -/
lemma round_of_serve (h : s.serve tj fd a r = some (t, o)) : Round tj s fd a r t o := by
  unfold serve at h
  by_cases listening : fd = s.serverSocket
  · simp only [if_pos listening, Option.some.injEq, Prod.mk.injEq] at h
    obtain ⟨rfl, rfl⟩ := h
    exact .accept listening
  · simp only [if_neg listening] at h
    cases r with
    | error =>
      simp only [Option.some.injEq, Prod.mk.injEq] at h
      obtain ⟨rfl, rfl⟩ := h
      exact .close
    | data bytes heap =>
      by_cases some_ : 0 < bytes.length
      · simp only [if_pos some_, readData] at h
        cases hc : s.client fd with
        | none => simp [hc] at h
        | some c =>
          simp only [hc] at h
          cases hr : c.receive tj heap s.toGlobals (s.chunk.overlay bytes) bytes.length with
          | ok x =>
            simp only [hr, Option.some.injEq, Prod.mk.injEq] at h
            obtain ⟨rfl, rfl⟩ := h
            exact .read listening some_ hc hr
          | error stop =>
            obtain ⟨exit, x⟩ := stop
            cases exit with
            | invalidHeader =>
              simp only [hr, Option.some.injEq, Prod.mk.injEq] at h
              obtain ⟨_, rfl⟩ := h
              exact .refuse
            | badAlloc => simp [hr] at h
      · simp only [if_neg some_, Option.some.injEq, Prod.mk.injEq] at h
        obtain ⟨rfl, rfl⟩ := h
        exact .close

namespace Round

/-- A round puts out nothing of the threads. -/
lemma served_eq (e : Round tj s fd a r t o) : served o = o := by
  cases e with
  | accept => rfl
  | read =>
    rw [served_append, served_outputs]
    rfl
  | refuse =>
    rw [served_append, served_outputs]
    rfl
  | close => rfl

/-- An uneventful round is a call of `receive` that completes no focus request. -/
lemma uneventful (e : Round tj s fd a r t o) (quiet : Uneventful o) :
    ∃ bytes heap c x, r = .data bytes heap ∧ fd ≠ s.serverSocket ∧ 0 < bytes.length ∧
      s.client fd = some c ∧
      c.receive tj heap s.toGlobals (s.chunk.overlay bytes) bytes.length = .ok x ∧
      requests x.log = [] ∧ t = (s.received fd x).wipe bytes ∧
      o = outputs fd x.log ++ [.received fd 0] := by
  cases e with
  | accept => exact absurd List.mem_cons_self (quiet a.fd).1
  | @read bytes heap c x ne some_ hc hr =>
    have unasked : requests x.log = [] := by
      rw [← requested_outputs fd, requested, List.filterMap_eq_nil_iff]
      intro o mem
      cases o with
      | request id => exact absurd (List.mem_append_left _ mem) (quiet id).2.2
      | _ => rfl
    exact ⟨bytes, heap, c, x, rfl, ne, some_, hc, hr, unasked, rfl, rfl⟩
  | refuse => exact absurd (by simp) (quiet fd).2.1
  | close => exact absurd List.mem_cons_self (quiet fd).2.1

/-- It leaves the table and the two variables of the focus alone. -/
lemma sameTable (e : Round tj s fd a r t o) (quiet : Uneventful o) :
    SameTable s t ∧ t.focusFd = s.focusFd ∧ t.readyFd = s.readyFd := by
  obtain ⟨bytes, heap, c, x, _, _, _, hc, hr, unasked, rfl, _⟩ := e.uneventful quiet
  have frame := ((receive_frame ..).of_ok hr).1
  obtain ⟨es, log, ready, _⟩ := frame.log
  rw [List.nil_append] at log
  rw [← log, unasked] at ready
  exact ⟨(sameTable_received hc frame.fd frame.userCount).trans sameTable_wipe, frame.focusFd, ready⟩

/-- And it goes the same way whatever `ready_fd` is. -/
lemma ready (e : Round tj s fd a r t o) (quiet : Uneventful o) (x : Int) :
    ({ s with readyFd := x } : Server).serve tj fd a r = some ({ t with readyFd := x }, o) := by
  obtain ⟨bytes, heap, c, y, rfl, ne, some_, hc, hr, unasked, rfl, rfl⟩ := e.uneventful quiet
  have hr' := receive_ready hr unasked x
  simp only [serve, if_neg ne, if_pos some_, readData, hc]
  rw [hr']
  rfl

end Round

/-! ## What the observer knows -/

/-- The requested descriptor was not found. -/
def Missed (s : Server) : Prop := s.focusFd ≠ s.readyFd ∧ ∃ beyond, s.isset beyond s.readyFd = false

/-- Where the observer is in an iteration, what it has found out is still so; and these are its calls of
`write` in this iteration. -/
inductive Pass (s : Server) : ObserverAt → List (Int × Write) → Prop where
  | top :
    Pass s .top []
  | asked :
    s.focusFd ≠ s.readyFd →
    Pass s .asked []
  | granting {beyond n ws} :
    s.focusFd ≠ s.readyFd →
    s.isset beyond s.readyFd = true →
    0 < n →
    Begun n ws →
    Pass s (.granting n) (ws.map (Prod.mk s.readyFd))
  | granted {beyond ws} :
    s.focusFd ≠ s.readyFd →
    s.isset beyond s.readyFd = true →
    IsGrant ws →
    Pass s .granted (ws.map (Prod.mk s.readyFd))
  | absent :
    s.Missed →
    Pass s .absent []
  | searching {i} :
    s.Missed →
    s.userCount ≠ 0 →
    (∀ j ∈ s.others, i ≤ j) →
    Pass s (.searching i) []
  | present {i} :
    s.Missed →
    s.userCount ≠ 0 →
    (s.client i).isSome →
    (∀ j ∈ s.others, i ≤ j) →
    Pass s (.present i) []
  | watched {i} :
    s.Missed →
    s.userCount ≠ 0 →
    (s.client i).isSome →
    (∀ j ∈ s.others, i ≤ j) →
    Pass s (.watched i) []
  | offering {i n ws} :
    s.Missed →
    s.userCount ≠ 0 →
    s.others.head? = some i →
    0 < n →
    Begun n ws →
    Pass s (.offering i n) (ws.map (Prod.mk i))
  | offered {i ws} :
    s.Missed →
    s.userCount ≠ 0 →
    s.others.head? = some i →
    IsGrant ws →
    Pass s (.offered i) (ws.map (Prod.mk i))
  | taken :
    Pass s .taken []

variable {at_ at' : ObserverAt} {g : List (Int × Write)} {i : Int}

/-- It stays so while the table and the two variables stay the same. -/
lemma Pass.same (k : Pass s at_ g) (same : SameTable s t) (focus : t.focusFd = s.focusFd)
    (ready : t.readyFd = s.readyFd) : Pass t at_ g := by
  have others := same.others focus
  have missed (m : s.Missed) : t.Missed := by
    obtain ⟨ne, beyond, gone⟩ := m
    exact ⟨by rwa [focus, ready], beyond, by rwa [same.isset, ready]⟩
  cases k with
  | top => exact .top
  | asked ne => exact .asked (by rwa [focus, ready])
  | granting ne found pos begun =>
    rw [← ready]
    exact .granting (by rwa [focus, ready]) (by rwa [same.isset, ready]) pos begun
  | granted ne found grant =>
    rw [← ready]
    exact .granted (by rwa [focus, ready]) (by rwa [same.isset, ready]) grant
  | absent m => exact .absent (missed m)
  | searching m users low => exact .searching (missed m) (by rwa [same.userCount]) (by rwa [others])
  | present m users there low =>
    exact .present (missed m) (by rwa [same.userCount]) (by rwa [same.isSome]) (by rwa [others])
  | watched m users there low =>
    exact .watched (missed m) (by rwa [same.userCount]) (by rwa [same.isSome]) (by rwa [others])
  | offering m users first pos begun =>
    exact .offering (missed m) (by rwa [same.userCount]) (by rwa [others]) pos begun
  | offered m users first grant =>
    exact .offered (missed m) (by rwa [same.userCount]) (by rwa [others]) grant
  | taken => exact .taken

/-- A slot that is passed over is not that of another client. -/
lemma low_succ (low : ∀ j ∈ s.others, i ≤ j) (not : i ∉ s.others) : ∀ j ∈ s.others, i + 1 ≤ j := by
  intro j mem
  have le := low j mem
  have ne : i ≠ j := by
    rintro rfl
    exact not mem
  omega

/-- The end of an iteration that grants the focus. -/
lemma observe_of_elected {beyond : Int → Bool} {ws : List Write} (sound : s.Sound)
    (elected : s.elected beyond = some fd) (grant : IsGrant ws) :
    ∃ results o, s.step tj (.observe beyond results) =
        some ({ s with focusFd := fd, readyFd := fd }, o) ∧ served o = [] ∧ granted o = [fd] := by
  obtain ⟨results, hw⟩ := grant
  have ends : (s.observe beyond results).isSome := by
    unfold observe
    split
    · rfl
    · split
      · simp [hw]
      · split
        · rfl
        · split
          · rfl
          · simp [hw]
  obtain ⟨⟨t, o⟩, st⟩ := Option.isSome_iff_exists.mp ends
  have st : s.step tj (.observe beyond results) = some (t, o) := st
  have spec := observe_spec sound (effect_of_step st)
  rw [elected] at spec
  obtain ⟨rfl, tests, rfl, tested⟩ := spec
  refine ⟨results, _, st, ?_, ?_⟩
  · rw [served, List.filter_eq_nil_iff]
    intro o mem
    rcases List.mem_append.mp mem with mem | mem
    · obtain ⟨i, rfl⟩ := tested o mem
      simp
    · rw [List.mem_singleton.mp mem]
      simp
  · have quiet : granted tests = [] := granted_eq_nil fun i mem => by
      obtain ⟨_, e⟩ := tested _ mem
      cases e
    rw [targets_append, quiet]
    rfl

/-- The server as it is when the observer has stored into both variables what it has stored into the
first. -/
def settle (s : Server) : ObserverAt → Server
  | .taken => { s with readyFd := s.focusFd }
  | _ => s

/-- A `write` settles nothing. -/
lemma settle_afterWrite {n written : Int} {again : Int → ObserverAt} {done : ObserverAt}
    (loop : ∀ m, s.settle (again m) = s) (ended : s.settle done = s) :
    s.settle (afterWrite n written again done) = s := by
  unfold afterWrite
  split
  · exact loop _
  · exact ended

/-- One more call of `write`, to the same descriptor. -/
lemma calls_wrote (fd : Int) (ws : List Write) (w : Write) :
    ws.map (Prod.mk fd) ++ calls [.wrote fd w] = (ws ++ [w]).map (Prod.mk fd) := by
  rw [List.map_append]
  rfl

/-- A step of the observer takes it further in its iteration, or it is the one that moves the focus to the
elected descriptor, which has been sent a whole grant. -/
lemma Observes.pass {po : List ProgramOutput} (e : s.Observes at_ t at' po) (sound : s.Sound)
    (inTable : ∀ i, (s.client i).isSome → i ∈ slots) (k : Pass s at_ g) :
    (t.settle at' = s.settle at_ ∧ Pass t at' (g ++ calls po)) ∨
    ∃ fd ws beyond, g = ws.map (Prod.mk fd) ∧ IsGrant ws ∧ s.elected beyond = some fd ∧
      s.settle at_ = s ∧ t.settle at' = { s with focusFd := fd, readyFd := fd } ∧ calls po = [] ∧
      Pass t at' [] := by
  cases e with
  | settled =>
    cases k
    exact .inl ⟨rfl, .top⟩
  | changed ne =>
    cases k
    exact .inl ⟨rfl, .asked ne⟩
  | found isset =>
    cases k with
    | asked ne => exact .inl ⟨rfl, .granting ne isset (by decide) .nil⟩
  | missing gone =>
    cases k with
    | asked ne => exact .inl ⟨rfl, .absent ⟨ne, _, gone⟩⟩
  | @grant n written =>
    cases k with
    | @granting beyond n ws ne isset pos begun =>
      refine .inl ⟨settle_afterWrite (fun _ => rfl) rfl, ?_⟩
      have further : Begun (n - written) _ := begun.write pos
      rw [calls_wrote]
      unfold afterWrite
      split
      · exact .granting ne isset ‹_› further
      · exact .granted ne isset (further.isGrant ‹_›)
  | commit =>
    cases k with
    | @granted beyond ws ne isset grant =>
      refine .inr ⟨s.readyFd, ws, beyond, rfl, grant, ?_, rfl, rfl, rfl, .top⟩
      rw [elected, if_neg ne, if_pos isset]
  | alone =>
    cases k
    exact .inl ⟨rfl, .top⟩
  | search users =>
    cases k with
    | absent missed =>
      exact .inl ⟨rfl, .searching missed users fun j mem => (mem_slots.mp (mem_others.mp mem).1).1⟩
  | use _ there =>
    cases k with
    | searching missed users low => exact .inl ⟨rfl, .present missed users there low⟩
  | skip _ empty =>
    cases k with
    | searching missed users low =>
      refine .inl ⟨rfl, .searching missed users (low_succ low fun mem => ?_)⟩
      have there := (mem_others.mp mem).2.1
      rw [empty] at there
      cases there
  | nobody =>
    cases k
    exact .inl ⟨rfl, .top⟩
  | @member i c beyond hc isset =>
    cases k with
    | present missed users there low => exact .inl ⟨rfl, .watched missed users there low⟩
  | @stranger i c beyond hc gone =>
    cases k with
    | present missed users there low =>
      -- The descriptor of a client in the table is in the set.
      have isset : s.isset beyond i = true := isset_of_isSome sound.toTable (inTable i there) there
      rw [sound.slot i c hc, isset] at gone
      cases gone
  | @holder i c hc own =>
    cases k with
    | watched missed users there low =>
      refine .inl ⟨rfl, .searching missed users (low_succ low fun mem => ?_)⟩
      exact (mem_others.mp mem).2.2 ((sound.slot i c hc).symm.trans own)
  | @other i c hc other =>
    cases k with
    | watched missed users there low =>
      have first : s.others.head? = some i :=
        head?_others.mpr ⟨mem_others.mpr ⟨inTable i there, there, by rwa [← sound.slot i c hc]⟩, low⟩
      exact .inl ⟨rfl, .offering missed users first (by decide) .nil⟩
  | @offer i n c written hc =>
    cases k with
    | @offering i n ws missed users first pos begun =>
      refine .inl ⟨settle_afterWrite (fun _ => rfl) rfl, ?_⟩
      have further : Begun (n - written) _ := begun.write pos
      rw [sound.slot i c hc, calls_wrote]
      unfold afterWrite
      split
      · exact .offering missed users first ‹_› further
      · exact .offered missed users first (further.isGrant ‹_›)
  | @take i c hc =>
    cases k with
    | @offered i ws missed users first grant =>
      obtain ⟨ne, beyond, gone⟩ := missed
      refine .inr ⟨i, ws, beyond, rfl, grant, ?_, rfl, ?_, rfl, .taken⟩
      · rw [elected, if_neg ne, if_neg (by simp [gone]), first]
      · rw [sound.slot i c hc]
        rfl
  | settle =>
    cases k
    exact .inl ⟨rfl, .top⟩

/-- What holds of the server while the observer is on its way holds of the settled one. -/
lemma sameTable_settle (s : Server) (at_ : ObserverAt) : SameTable s (s.settle at_) := by
  cases at_ with
  | taken => exact sameTable_focus _ _
  | _ => exact .refl s

/-- A round of `main` on the settled server. -/
lemma Round.settle (e : Round tj s fd a r t o) (h : s.serve tj fd a r = some (t, o))
    (quiet : at_ ≠ .top → Uneventful o) :
    (s.settle at_).serve tj fd a r = some (t.settle at_, o) := by
  cases at_ with
  | taken =>
    have uneventful := quiet (by simp)
    have focus := (e.sameTable uneventful).2.1
    have after : t.settle .taken = { t with readyFd := s.focusFd } := by rw [settle, focus]
    rw [after]
    exact e.ready uneventful s.focusFd
  | _ => exact h

end Server

/-- The calls of `write` of these grants. -/
def sent (passes : List (Int × List Server.Write)) : List (Int × Server.Write) :=
  passes.flatMap fun g => g.2.map (Prod.mk g.1)

namespace Program

variable {tj : TurboJpeg} {p : Program} {s : Server} {h : List ProgramOutput} {h' : List Output}
  {serverSocket : Int} {screen : Screen} {fbp chunk : Mem}

/-- The program and the server that it has been so far. -/
structure Reduced (p : Program) (h : List ProgramOutput) (s : Server) (h' : List Output) : Prop where
  inv : p.loop.Inv
  state : s = p.loop.server.settle p.observer
  main : mainOutputs h = served h'
  calls : ∃ (passes : List (Int × List Server.Write)) (current : List (Int × Server.Write)),
    calls h = sent passes ++ current ∧ granted h' = passes.map Prod.fst ∧
    (∀ g ∈ passes, Server.IsGrant g.2) ∧ Server.Pass p.loop.server p.observer current

namespace Reduced

variable {q : Program} {o : List ProgramOutput} {o' : List Output} {t : Server}

/-- A step that moves nothing on. -/
lemma idle (red : p.Reduced h s h') (inv : q.loop.Inv) (server : q.loop.server = p.loop.server)
    (observer : q.observer = p.observer) (main : mainOutputs o = []) (none : Projector.calls o = []) :
    q.Reduced (h ++ o) s (h' ++ []) where
  inv := inv
  state := by rw [server, observer, red.state]
  main := by rw [mainOutputs_append, main, List.append_nil, List.append_nil, red.main]
  calls := by
    obtain ⟨passes, current, line, grants, whole, known⟩ := red.calls
    refine ⟨passes, current, ?_, by rw [List.append_nil, grants], whole, by rwa [server, observer]⟩
    rw [calls_append, none, List.append_nil, line]

/-- A round of `main`. -/
lemma round {l : MainLoop} {a : Accepted} {r : ReadResult} (red : p.Reduced h s h') (inv : l.Inv)
    (promised : p.loop.Promised (.next a r))
    (bounded : ∀ bytes heap, r = .data bytes heap → bytes.length ≤ maxBuf)
    (quiet : p.observer ≠ .top → Uneventful o') (reported : p.loop.tmpFds p.loop.fd = true)
    (serve : p.loop.server.serve tj p.loop.fd a r = some (l.server, o')) :
    ∃ t o, Run (Server.step tj) Server.Small s o t ∧
      ({ p with loop := l } : Program).Reduced (h ++ o'.map .main) t (h' ++ o) := by
  have same := Server.sameTable_settle p.loop.server p.observer
  have e := Server.round_of_serve serve
  have settled := e.settle serve quiet
  rw [← red.state] at same settled
  have accepts : p.loop.fd = s.serverSocket → 0 ≤ a.fd ∧ s.readFds a.fd = false := by
    rw [same.serverSocket, same.readFds]
    intro listening
    exact ⟨(promised reported listening).1, (promised reported listening).2.2⟩
  have st := Server.step_of_serve
    (by rw [same.readFds]; exact red.inv.ahead p.loop.fd le_rfl reported) accepts bounded settled
  have small : s.Small (.ofServe s.serverSocket p.loop.fd a r) := by
    cases hi : Input.ofServe s.serverSocket p.loop.fd a r with
    | accept b =>
      obtain ⟨listening, rfl⟩ := Input.ofServe_accept hi
      exact (promised reported (listening.trans same.serverSocket)).2.1
    | _ => trivial
  refine ⟨_, _, .single _ small st, inv, rfl, ?_, ?_⟩
  · rw [mainOutputs_append, mainOutputs_map_main, served_append, e.served_eq, red.main]
  · obtain ⟨passes, current, line, grants, whole, known⟩ := red.calls
    refine ⟨passes, current, ?_, ?_, whole, ?_⟩
    · rw [calls_append, calls_map_main, List.append_nil, line]
    · rw [targets_append, granted_of_served e.served_eq, List.append_nil, grants]
    · by_cases top : p.observer = .top
      · rw [top] at known ⊢
        cases known
        exact .top
      · obtain ⟨same, focus, ready⟩ := e.sameTable (quiet top)
        exact known.same same focus ready

/-- The step with which the observer moves the focus. -/
lemma commit {t : Server} {at' : ObserverAt} {fd : Int} {ws : List Server.Write} {beyond : Int → Bool}
    {passes : List (Int × List Server.Write)} (red : p.Reduced h s h')
    (inv : ({ p.loop with server := t } : MainLoop).Inv)
    (line : Projector.calls h = sent passes ++ ws.map (Prod.mk fd))
    (grants : granted h' = passes.map Prod.fst) (whole : ∀ g ∈ passes, Server.IsGrant g.2)
    (grant : Server.IsGrant ws) (elected : p.loop.server.elected beyond = some fd)
    (before : p.loop.server.settle p.observer = p.loop.server)
    (after : t.settle at' = { p.loop.server with focusFd := fd, readyFd := fd })
    (main : mainOutputs o = []) (none : Projector.calls o = []) (known : Server.Pass t at' []) :
    ∃ u o', Run (Server.step tj) Server.Small s o' u ∧
      ({ p with loop := { p.loop with server := t }, observer := at' } : Program).Reduced (h ++ o) u
        (h' ++ o') := by
  have state : s = p.loop.server := red.state.trans before
  obtain ⟨results, o', st, quiet, target⟩ : ∃ results o', p.loop.server.step tj (.observe beyond results) =
      some ({ p.loop.server with focusFd := fd, readyFd := fd }, o') ∧ served o' = [] ∧
      granted o' = [fd] := Server.observe_of_elected red.inv.sound elected grant
  rw [← state] at st
  refine ⟨_, o', .single (.observe beyond results) trivial st, inv, ?_, ?_, passes ++ [(fd, ws)], [], ?_,
    ?_, ?_, known⟩
  · rw [state]
    exact after.symm
  · rw [mainOutputs_append, main, served_append, quiet, red.main]
  · rw [calls_append, none, line]
    simp [sent]
  · rw [targets_append, grants, target, List.map_append]
    rfl
  · intro g mem
    rcases List.mem_append.mp mem with mem | mem
    · exact whole g mem
    · rw [List.mem_singleton.mp mem]
      exact grant

end Reduced

/-- The simulation. -/
lemma simulation_server :
    Simulation (step tj) (InTurn tj) (Server.step tj) Server.Small Reduced := by
  rintro p h s h' i q o red ⟨promised, bounded, calm⟩ st
  have inv := red.inv
  have inv' := inv_step inv promised st
  cases effect_of_step st with
  | @main i j l o toMain moved =>
    rcases MainLoop.served_of_step moved (ProgramInput.toMain_ne_thread toMain) with
      ⟨same, rfl⟩ | ⟨a, r, rfl, reported, serve⟩
    · exact ⟨s, [], .nil, red.idle inv' same rfl rfl rfl⟩
    · have chunk : ∀ bytes heap, r = .data bytes heap → bytes.length ≤ maxBuf := by
        rintro bytes heap rfl
        cases i with
        | next a' r' =>
          cases toMain
          exact bounded
        | _ => cases toMain
      have quiet : p.observer ≠ .top → Uneventful o := fun busy => by
        have calm' := calm busy _ _ st
        rwa [mainOutputs_map_main] at calm'
      exact red.round inv' (promised _ toMain) chunk quiet reported serve
  | @observer beyond written t at' o e =>
    obtain ⟨passes, current, line, grants, whole, known⟩ := red.calls
    rcases e.pass inv.sound inv.inTable known with ⟨same, known'⟩ |
      ⟨fd, ws, beyond', rfl, grant, elected, before, after, none, known'⟩
    · refine ⟨s, [], .nil, inv', by rw [red.state, ← same], ?_, passes, current ++ calls o, ?_, ?_,
        whole, known'⟩
      · rw [mainOutputs_append, e.frame.2, List.append_nil, List.append_nil, red.main]
      · rw [calls_append, line, List.append_assoc]
      · rw [List.append_nil, grants]
    · exact red.commit inv' line grants whole grant elected before after e.frame.2 none known'
  | lister lists =>
    exact ⟨s, [], .nil, red.idle inv' rfl rfl (mainOutputs_lists lists) (calls_lists lists)⟩

/-- The server when a user has come and the observer has not looked yet. -/
def withFour : Server := Server.blank.acceptClient ⟨4, 10, .blank⟩

end Program

end Projector
