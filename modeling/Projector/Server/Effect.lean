import Projector.Server.Frame
import Projector.Server.Main

/-!
# What a step of the server does

One inversion lemma for `Server.step`: `Effect s i s' o` lists the ways the server can go from `s` on the
input `i`, and `effect_of_step` says that there are no others. A read is one of two effects on the object
and the globals, both within the frame of `receive`: the connection stays, or it is closed after a header
that is not valid. The invariants of the server are case analyses of `Effect`.
-/

namespace Projector

namespace Server

section fields

variable (s : Server) (a : Accepted) (fd : Int) (r : Recv) (bytes : List UInt8)

/-- A newcomer joins. -/
@[simp] lemma acceptClient_toGlobals : (s.acceptClient a).toGlobals = s.join a.fd := rfl

/-- An accept leaves the listening socket alone. -/
@[simp] lemma acceptClient_serverSocket : (s.acceptClient a).serverSocket = s.serverSocket := rfl

/-- The descriptor of a newcomer is watched. -/
@[simp] lemma acceptClient_readFds :
    (s.acceptClient a).readFds = Function.update s.readFds a.fd true := rfl

/-- The slot of a newcomer gets a new object. -/
@[simp] lemma acceptClient_client : (s.acceptClient a).client =
    Function.update s.client a.fd (some (Client.new s.screen a.raw a.fd a.lastip)) := rfl

/-- A departure leaves the listening socket alone. -/
@[simp] lemma dropClient_serverSocket : (s.dropClient fd).serverSocket = s.serverSocket := rfl

/-- The descriptor of a connection that ended is not watched any more. -/
@[simp] lemma dropClient_readFds :
    (s.dropClient fd).readFds = Function.update s.readFds fd false := rfl

/-- Its slot becomes empty. -/
@[simp] lemma dropClient_client :
    (s.dropClient fd).client = Function.update s.client fd none := rfl

/-- Its user leaves. -/
lemma dropClient_toGlobals {c : Client} (h : s.client fd = some c) :
    (s.dropClient fd).toGlobals = s.leave c.fd := by
  simp [dropClient, h]

/-- A call of `receive` leaves its globals in the server. -/
@[simp] lemma received_toGlobals : (s.received fd r).toGlobals = r.globals := rfl

/-- It leaves the listening socket alone. -/
@[simp] lemma received_serverSocket : (s.received fd r).serverSocket = s.serverSocket := rfl

/-- It leaves the watched set alone. -/
@[simp] lemma received_readFds : (s.received fd r).readFds = s.readFds := rfl

/-- It leaves its object in the slot. -/
@[simp] lemma received_client :
    (s.received fd r).client = Function.update s.client fd (some r.client) := rfl

/-- `bzero` leaves the globals alone. -/
@[simp] lemma wipe_toGlobals : (s.wipe bytes).toGlobals = s.toGlobals := rfl

/-- `bzero` leaves the listening socket alone. -/
@[simp] lemma wipe_serverSocket : (s.wipe bytes).serverSocket = s.serverSocket := rfl

/-- `bzero` leaves the watched set alone. -/
@[simp] lemma wipe_readFds : (s.wipe bytes).readFds = s.readFds := rfl

/-- `bzero` leaves the table alone. -/
@[simp] lemma wipe_client : (s.wipe bytes).client = s.client := rfl

end fields

section table

variable {s : Server} {a : Accepted} {fd i : Int} {r : Recv} {c : Client}

/-- Who is at a slot of the table after one of them was stored into. -/
lemma update_eq_some {table : Int → Option Client} {x : Option Client} :
    Function.update table fd x i = some c ↔ (i = fd ∧ x = some c) ∨ (i ≠ fd ∧ table i = some c) := by
  by_cases same : i = fd
  · simp [same]
  · simp [same]

/-- Who is in the table behind an accept. -/
lemma acceptClient_eq_some : (s.acceptClient a).client i = some c ↔
    (i = a.fd ∧ Client.new s.screen a.raw a.fd a.lastip = c) ∨ (i ≠ a.fd ∧ s.client i = some c) := by
  rw [acceptClient_client, update_eq_some, Option.some.injEq]

/-- Who is in the table behind a call of `receive`. -/
lemma received_eq_some : (s.received fd r).client i = some c ↔
    (i = fd ∧ r.client = c) ∨ (i ≠ fd ∧ s.client i = some c) := by
  rw [received_client, update_eq_some, Option.some.injEq]

/-- Who is in the table behind a departure. -/
lemma dropClient_eq_some :
    (s.dropClient fd).client i = some c ↔ i ≠ fd ∧ s.client i = some c := by
  simp [update_eq_some]

/-- Somebody is at a slot after an accept. -/
lemma isSome_acceptClient :
    ((s.acceptClient a).client i).isSome ↔ i = a.fd ∨ (s.client i).isSome := by
  by_cases same : i = a.fd
  · simp [same]
  · simp [same]

/-- Somebody is at a slot after a close. -/
lemma isSome_dropClient :
    ((s.dropClient fd).client i).isSome ↔ i ≠ fd ∧ (s.client i).isSome := by
  by_cases same : i = fd
  · simp [same]
  · simp [same]

end table

/-! ## Outputs -/

/-- The ids requested according to a history. -/
def requested (h : List Output) : List Int :=
  h.filterMap fun o => match o with
    | .request id => some id
    | _ => none

/-- The requests of two histories. -/
@[simp] lemma requested_append (h h' : List Output) :
    requested (h ++ h') = requested h ++ requested h' := by
  simp [requested]

/-- What others see of a call of `receive` is what it draws and requests. -/
lemma mem_outputs {fd : Int} {log : List Event} {o : Output} (h : o ∈ outputs fd log) :
    (∃ jpeg ∈ draws log, o = .draw fd jpeg) ∨ ∃ id ∈ requests log, o = .request id := by
  simp only [outputs, List.mem_filterMap] at h
  obtain ⟨e, mem, he⟩ := h
  cases e with
  | draw jpeg =>
    simp only [Option.some.injEq] at he
    exact .inl ⟨jpeg, List.mem_filterMap.mpr ⟨_, mem, rfl⟩, he.symm⟩
  | done type data =>
    by_cases foc : type = changeFocusStatus
    · simp only [if_pos foc, Option.some.injEq] at he
      exact .inr ⟨_, List.mem_filterMap.mpr ⟨_, mem, if_pos foc⟩, he.symm⟩
    · simp [foc] at he
  | bufRead off n len => simp at he
  | new site size => simp at he
  | write site size off n => simp at he
  | read site size n => simp at he

/-- It contains no grant and no new connection. -/
lemma grant_notMem_outputs {fd i : Int} {log : List Event} : .grant i ∉ outputs fd log := by
  intro h
  rcases mem_outputs h with ⟨_, _, e⟩ | ⟨_, _, e⟩ <;> cases e

/-- A call of `receive` accepts nobody. -/
lemma accepted_notMem_outputs {fd i : Int} {log : List Event} : .accepted i ∉ outputs fd log := by
  intro h
  rcases mem_outputs h with ⟨_, _, e⟩ | ⟨_, _, e⟩ <;> cases e

/-- What others see of a call requests what its log requests. -/
lemma requested_outputs (fd : Int) (log : List Event) :
    requested (outputs fd log) = requests log := by
  simp only [requested, outputs, requests, List.filterMap_filterMap]
  congr 1
  funext e
  cases e with
  | done type data => by_cases foc : type = changeFocusStatus <;> simp [foc]
  | _ => rfl

/-! ## The steps -/

/-- The ways a step can go. -/
inductive Effect (tj : TurboJpeg) (s : Server) : Input → Server → List Output → Prop where
  | accept {a} :
    0 ≤ a.fd →
    s.readFds a.fd = false →
    Effect tj s (.accept a) (s.acceptClient a) [.accepted a.fd]
  | read {fd bytes heap c r} :
    s.readFds fd = true →
    fd ≠ s.serverSocket →
    s.client fd = some c →
    c.receive tj heap s.toGlobals (s.chunk.overlay bytes) bytes.length = .ok r →
    Frame ⟨[], 0, c, s.toGlobals⟩ r →
    Effect tj s (.read fd bytes heap) ((s.received fd r).wipe bytes)
      (outputs fd r.log ++ [.received fd 0])
  | refuse {fd bytes heap c r} :
    s.readFds fd = true →
    fd ≠ s.serverSocket →
    s.client fd = some c →
    c.receive tj heap s.toGlobals (s.chunk.overlay bytes) bytes.length =
      .error ⟨.invalidHeader, r⟩ →
    Frame ⟨[], 0, c, s.toGlobals⟩ r →
    Effect tj s (.read fd bytes heap) (((s.received fd r).dropClient fd).wipe bytes)
      (outputs fd r.log ++ [.received fd (-1), .closed fd])
  | close {fd} :
    s.readFds fd = true →
    fd ≠ s.serverSocket →
    Effect tj s (.close fd) (s.dropClient fd) [.closed fd]
  | settled {beyond ws} :
    s.focusFd = s.readyFd →
    Effect tj s (.observe beyond ws) s []
  | found {beyond ws} :
    s.focusFd ≠ s.readyFd →
    s.isset beyond s.readyFd = true →
    Effect tj s (.observe beyond ws) s.commit [.isset s.readyFd, .grant s.readyFd]
  | alone {beyond ws} :
    s.focusFd ≠ s.readyFd →
    s.isset beyond s.readyFd = false →
    s.userCount = 0 →
    Effect tj s (.observe beyond ws) s [.isset s.readyFd]
  | nobody {beyond ws tests} :
    s.focusFd ≠ s.readyFd →
    s.isset beyond s.readyFd = false →
    s.userCount ≠ 0 →
    s.search beyond slots = (tests, none) →
    Effect tj s (.observe beyond ws) s (.isset s.readyFd :: tests)
  | other {beyond ws tests fd} :
    s.focusFd ≠ s.readyFd →
    s.isset beyond s.readyFd = false →
    s.userCount ≠ 0 →
    s.search beyond slots = (tests, some fd) →
    Effect tj s (.observe beyond ws) { s with focusFd := fd, readyFd := fd }
      (.isset s.readyFd :: tests ++ [.grant fd])
  | list {beyond fresh} :
    Effect tj s (.list beyond fresh) s (s.sendList beyond fresh)

variable {tj : TurboJpeg} {s s' : Server} {o : List Output}

/-- A read that does not end the server. -/
lemma effect_of_readData {fd : Int} {bytes : List UInt8} {heap : Heap}
    (watched : s.readFds fd = true) (ne : fd ≠ s.serverSocket)
    (h : s.readData tj fd bytes heap = some (s', o)) : Effect tj s (.read fd bytes heap) s' o := by
  unfold readData at h
  cases hc : s.client fd with
  | none => simp [hc] at h
  | some c =>
    simp only [hc] at h
    have framed := receive_frame tj heap c s.toGlobals (s.chunk.overlay bytes) bytes.length
    cases hr : c.receive tj heap s.toGlobals (s.chunk.overlay bytes) bytes.length with
    | ok r =>
      simp only [hr, Option.some.injEq, Prod.mk.injEq] at h
      obtain ⟨rfl, rfl⟩ := h
      exact .read watched ne hc hr (framed.of_ok hr).1
    | error stop =>
      obtain ⟨exit, r⟩ := stop
      cases exit with
      | invalidHeader =>
        simp only [hr, Option.some.injEq, Prod.mk.injEq] at h
        obtain ⟨rfl, rfl⟩ := h
        exact .refuse watched ne hc hr (framed.of_error hr)
      -- Nobody catches the exception: the server ends.
      | badAlloc => simp [hr] at h

/-- An iteration of `focusObserver` whose writes end. -/
lemma effect_of_observe (tj : TurboJpeg) {beyond : Int → Bool} {ws : List Int}
    (h : s.observe beyond ws = some (s', o)) : Effect tj s (.observe beyond ws) s' o := by
  unfold observe at h
  by_cases same : s.focusFd = s.readyFd
  · simp only [if_pos same, Option.some.injEq, Prod.mk.injEq] at h
    obtain ⟨rfl, rfl⟩ := h
    exact .settled same
  · simp only [if_neg same] at h
    cases hi : s.isset beyond s.readyFd with
    | true =>
      simp only [hi, ↓reduceIte, Option.bind_eq_bind, Option.bind_eq_some_iff, Option.some.injEq,
        Prod.mk.injEq] at h
      obtain ⟨_, _, rfl, rfl⟩ := h
      exact .found same hi
    | false =>
      simp only [hi, Bool.false_eq_true, ↓reduceIte] at h
      by_cases zero : s.userCount = 0
      · simp only [if_pos zero, Option.some.injEq, Prod.mk.injEq] at h
        obtain ⟨rfl, rfl⟩ := h
        exact .alone same hi zero
      · simp only [if_neg zero] at h
        cases hs : s.search beyond slots with
        | mk tests hit =>
          cases hit with
          | none =>
            simp only [hs, Option.some.injEq, Prod.mk.injEq] at h
            obtain ⟨rfl, rfl⟩ := h
            exact .nobody same hi zero hs
          | some fd =>
            simp only [hs, Option.bind_eq_bind, Option.bind_eq_some_iff, Option.some.injEq,
              Prod.mk.injEq] at h
            obtain ⟨_, _, rfl, rfl⟩ := h
            exact .other same hi zero hs

/-- The ways listed are all. -/
theorem effect_of_step {i : Input} (h : s.step tj i = some (s', o)) : Effect tj s i s' o := by
  cases i with
  | accept a =>
    simp only [step, Option.ite_none_right_eq_some, Option.some.injEq, Prod.mk.injEq] at h
    obtain ⟨⟨nonneg, fresh⟩, rfl, rfl⟩ := h
    exact .accept nonneg fresh
  | read fd bytes heap =>
    simp only [step, Option.ite_none_right_eq_some] at h
    obtain ⟨⟨watched, ne, _, _⟩, h⟩ := h
    exact effect_of_readData watched ne h
  | close fd =>
    simp only [step, Option.ite_none_right_eq_some, Option.some.injEq, Prod.mk.injEq] at h
    obtain ⟨⟨watched, ne⟩, rfl, rfl⟩ := h
    exact .close watched ne
  | observe beyond ws => exact effect_of_observe tj h
  | list beyond fresh =>
    simp only [step, Option.some.injEq, Prod.mk.injEq] at h
    obtain ⟨rfl, rfl⟩ := h
    exact .list

end Server

end Projector
