import Projector.Server.Loop

/-!
# How many connections fit

`accept` returns the lowest descriptor that is not open, or -1 on an error; `main` uses the result as an
index of `client[]` and adds it to the set that `select` is asked about, without looking at it. The
descriptors that are open besides the connections are a parameter, `base`. `capacity` is what holds of the
runs in which every `accept` succeeds with a descriptor below `MAX_CLIENT_NUM` left: every index is in the
table and every connection is below `nfds`. `inRange_iff` says that no other `accept` is within the table.
-/

namespace Projector

/-- The descriptor is open: held by the process all along, the listening socket or a connection. -/
def Server.Open (base : Int → Prop) (s : Server) (i : Int) : Prop := base i ∨ s.readFds i = true

/-- What `accept` returns according to its specification: -1, or the lowest descriptor that is not open. -/
def Server.AcceptReturns (base : Int → Prop) (s : Server) (fd : Int) : Prop :=
  fd = -1 ∨ (0 ≤ fd ∧ ¬ s.Open base fd ∧ ∀ i : Int, 0 ≤ i → ¬ s.Open base i → fd ≤ i)

/-- The `accept` succeeds and a descriptor below `MAX_CLIENT_NUM` is left. -/
def Server.HasRoom (base : Int → Prop) (s : Server) (fd : Int) : Prop :=
  fd ≠ -1 ∧ ∃ i : Int, 0 ≤ i ∧ i < maxClientNum ∧ ¬ s.Open base i

namespace Server

variable {base : Int → Prop} {s : Server} {fd : Int}

/-- An `accept` is within the table exactly when it succeeds and there is room. -/
lemma inRange_iff (h : s.AcceptReturns base fd) :
    0 ≤ fd ∧ fd < maxClientNum ↔ s.HasRoom base fd := by
  constructor
  · rintro ⟨nonneg, lt⟩
    refine ⟨by omega, fd, nonneg, lt, ?_⟩
    rcases h with rfl | ⟨_, fresh, _⟩
    · contradiction
    · exact fresh
  · rintro ⟨success, i, lo, hi, free⟩
    rcases h with failed | ⟨nonneg, _, lowest⟩
    · exact absurd failed success
    · exact ⟨nonneg, lt_of_le_of_lt (lowest i lo free) hi⟩

/-- A descriptor that `accept` returned is not watched. -/
lemma AcceptReturns.fresh (h : s.AcceptReturns base fd) (success : fd ≠ -1) :
    s.readFds fd = false := by
  rcases h with failed | ⟨_, free, _⟩
  · exact absurd failed success
  · simp only [Open, not_or, Bool.not_eq_true] at free
    exact free.2

end Server

namespace MainLoop

/-- The `accept` calls of a run: at the listening socket, when `select` reported it. -/
def Accepts (P : Server → Int → Prop) (l : MainLoop) : MainInput → Prop
  | .next a _ => l.tmpFds l.fd = true → l.fd = l.server.serverSocket → P l.server a.fd
  | _ => True

/-- `select` returns some of the watched descriptors. -/
def Selects (l : MainLoop) : MainInput → Prop
  | .select tmpFds => ∀ i, tmpFds i = true → l.server.readFds i = true
  | _ => True

variable {tj : TurboJpeg} {base : Int → Prop} {l l' : MainLoop} {i : MainInput} {h o : List Output}

/-- Where `select` and `accept` do as specified and every `accept` has room, `main` is promised what it
needs. -/
lemma promised_of_room (selects : l.Selects i) (returns : l.Accepts (Server.AcceptReturns base) i)
    (room : l.Accepts (Server.HasRoom base) i) : l.Promised i := by
  cases i with
  | select tmpFds => exact selects
  | next a r =>
    intro reported listening
    have ret := returns reported listening
    have free := room reported listening
    obtain ⟨nonneg, lt⟩ := (Server.inRange_iff ret).mpr free
    exact ⟨nonneg, lt, ret.fresh free.1⟩
  | thread focusFd readyFd => trivial

/-- A round accepts at the listening socket only. -/
lemma accepted_of_serve {s s' : Server} {fd j : Int} {a : Accepted} {r : ReadResult}
    (e : s.serve tj fd a r = some (s', o)) (mem : .accepted j ∈ o) :
    fd = s.serverSocket ∧ j = a.fd := by
  unfold Server.serve at e
  by_cases listening : fd = s.serverSocket
  · simp only [if_pos listening, Option.some.injEq, Prod.mk.injEq] at e
    obtain ⟨_, rfl⟩ := e
    exact ⟨listening, by simpa using mem⟩
  · simp only [if_neg listening] at e
    -- What a connection puts out are draws, requests, the return value and the end.
    have noAccept {tail log} (quiet : .accepted j ∉ (tail : List Output))
        (mem : .accepted j ∈ outputs fd log ++ tail) : False :=
      (List.mem_append.mp mem).elim Server.accepted_notMem_outputs quiet
    cases r with
    | error =>
      simp only [Option.some.injEq, Prod.mk.injEq] at e
      obtain ⟨_, rfl⟩ := e
      simp at mem
    | data bytes heap =>
      by_cases some_ : 0 < bytes.length
      · simp only [if_pos some_, Server.readData] at e
        split at e
        · contradiction
        · split at e
          · simp only [Option.some.injEq, Prod.mk.injEq] at e
            obtain ⟨_, rfl⟩ := e
            exact (noAccept (by simp) mem).elim
          · simp only [Option.some.injEq, Prod.mk.injEq] at e
            obtain ⟨_, rfl⟩ := e
            exact (noAccept (by simp) mem).elim
          · contradiction
      · simp only [if_neg some_, Option.some.injEq, Prod.mk.injEq] at e
        obtain ⟨_, rfl⟩ := e
        simp at mem

/-- An event of the loop that puts out an `accept` is the round of the listening socket. -/
lemma accepted_of_step {j : Int} (e : l.step tj i = some (l', o)) (mem : .accepted j ∈ o) :
    ∃ a r, i = .next a r ∧ l.tmpFds l.fd = true ∧ l.fd = l.server.serverSocket ∧ j = a.fd := by
  cases i with
  | select tmpFds =>
    simp only [step, Option.ite_none_right_eq_some, Option.some.injEq, Prod.mk.injEq] at e
    obtain ⟨_, _, rfl⟩ := e
    contradiction
  | next a r =>
    simp only [step, Option.ite_none_right_eq_some] at e
    obtain ⟨_, e⟩ := e
    by_cases reported : l.tmpFds l.fd = true
    · simp only [if_pos reported, Option.bind_eq_bind, Option.bind_eq_some_iff, Prod.exists,
        Option.some.injEq, Prod.mk.injEq] at e
      obtain ⟨s, o', served, _, rfl⟩ := e
      obtain ⟨listening, rfl⟩ := accepted_of_serve served mem
      exact ⟨a, r, rfl, reported, listening, rfl⟩
    · simp only [if_neg reported, Option.some.injEq, Prod.mk.injEq] at e
      obtain ⟨_, rfl⟩ := e
      contradiction
  | thread focusFd readyFd =>
    simp only [step, Option.some.injEq, Prod.mk.injEq] at e
    obtain ⟨_, rfl⟩ := e
    contradiction

/-- Every index that was used is in the table, and every connection is watched and below `nfds`. -/
structure Serviced (h : List Output) (l : MainLoop) : Prop where
  index : ∀ fd : Int, .accepted fd ∈ h → 0 ≤ fd ∧ fd < maxClientNum
  watched : ∀ (i : Int) c, l.server.client i = some c →
    0 ≤ i ∧ i < maxClientNum ∧ c.fd = i ∧ l.server.readFds i = true

/-- The inputs of `capacity`: `select` and `accept` do as specified, and every `accept` has room. -/
def Roomy (base : Int → Prop) (l : MainLoop) (i : MainInput) : Prop :=
  l.Selects i ∧ l.Accepts (Server.AcceptReturns base) i ∧ l.Accepts (Server.HasRoom base) i

/-- In every run in which each `accept` succeeds while a descriptor below `MAX_CLIENT_NUM` is left: every
index used is in the table, and every connection is watched and below `nfds`. -/
theorem capacity {serverSocket : Int} {screen : Screen} {fbp chunk : Mem}
    (r : Run (MainLoop.step tj) (Roomy base) (start serverSocket screen fbp chunk) h l) :
    Serviced h l := by
  have promised : Run (MainLoop.step tj) Promised (start serverSocket screen fbp chunk) h l :=
    r.mono fun _ _ ok => promised_of_room ok.1 ok.2.1 ok.2.2
  obtain ⟨watched, slot, _⟩ := table_of_run promised
  constructor
  · apply r.invariant (I := fun _ h => ∀ fd : Int, .accepted fd ∈ h → 0 ≤ fd ∧ fd < maxClientNum)
    · simp
    · intro l h i l' o inv ok st fd mem
      rcases List.mem_append.mp mem with old | new
      · exact inv fd old
      · obtain ⟨a, r, rfl, reported, listening, rfl⟩ := accepted_of_step st new
        exact (Server.inRange_iff (ok.2.1 reported listening)).mpr (ok.2.2 reported listening)
  · intro i c hc
    obtain ⟨lo, hi, fd⟩ := slot i c hc
    exact ⟨lo, hi, fd, (watched i).mpr (.inr (by rw [hc]; rfl))⟩

/-- The standard streams are open. -/
def streams (i : Int) : Prop := 0 ≤ i ∧ i < 3

/-- An `accept` returns the lowest descriptor that is free besides the standard streams, as far as the slots
of the table are concerned. -/
def Lowest (l : MainLoop) : MainInput → Prop
  | .next a _ => l.tmpFds l.fd = true → l.fd = l.server.serverSocket →
      a.fd ∈ slots ∧ 3 ≤ a.fd ∧ l.server.readFds a.fd = false ∧
        ∀ i ∈ slots, i < a.fd → i < 3 ∨ l.server.readFds i = true
  | _ => True

instance (l : MainLoop) : DecidablePred l.Lowest
  | .next a _ => inferInstanceAs (Decidable (l.tmpFds l.fd = true → l.fd = l.server.serverSocket →
      a.fd ∈ slots ∧ 3 ≤ a.fd ∧ l.server.readFds a.fd = false ∧
        ∀ i ∈ slots, i < a.fd → i < 3 ∨ l.server.readFds i = true))
  | .select _ => .isTrue trivial
  | .thread _ _ => .isTrue trivial

/-- Beyond the table nothing is lower. -/
lemma Lowest.free {a : Accepted} {r : ReadResult} (lowest : l.Lowest (.next a r))
    (reported : l.tmpFds l.fd = true) (listening : l.fd = l.server.serverSocket) :
    0 ≤ a.fd ∧ a.fd < maxClientNum ∧ ¬ l.server.Open streams a.fd ∧
      ∀ i, 0 ≤ i → ¬ l.server.Open streams i → a.fd ≤ i := by
  obtain ⟨mem, behind, unused, least⟩ := lowest reported listening
  obtain ⟨nonneg, lt⟩ := mem_slots.mp mem
  refine ⟨nonneg, lt, ?_, fun i lo free => ?_⟩
  · rintro (⟨_, stream⟩ | watched)
    · omega
    · rw [unused] at watched
      cases watched
  · by_contra less
    rcases least i (mem_slots.mpr ⟨lo, by omega⟩) (by omega) with stream | watched
    · exact free (.inl ⟨lo, stream⟩)
    · exact free (.inr watched)

/-- That is a run of `capacity`. -/
lemma roomy_of_lowest (inTable : InTable i) (keeps : l.Keeps i) (lowest : l.Lowest i) :
    l.Roomy streams i := by
  cases i with
  | select tmpFds => exact ⟨promised_of_keeps inTable keeps, trivial, trivial⟩
  | next a r =>
    refine ⟨trivial, fun reported listening => ?_, fun reported listening => ?_⟩
    · obtain ⟨nonneg, _, free, least⟩ := Lowest.free lowest reported listening
      exact .inr ⟨nonneg, free, least⟩
    · obtain ⟨nonneg, lt, free, _⟩ := Lowest.free lowest reported listening
      exact ⟨by omega, a.fd, nonneg, lt, free⟩
  | thread focusFd readyFd => exact ⟨trivial, trivial, trivial⟩

/-- `capacity` for users who come and go. -/
theorem capacity_comeAndGo : ∃ l h,
    exec (MainLoop.step .none) (start 3 ⟨1, 1, 3⟩ (fun _ => 0) (fun _ => 0)) comeAndGo =
      some (l, h) ∧ h = [.accepted 4, .accepted 5, .received 5 0, .closed 4] ∧ Serviced h l := by
  have adm : Admitted (MainLoop.step .none) (fun l i => l.Keeps i ∧ l.Lowest i)
      (start 3 ⟨1, 1, 3⟩ (fun _ => 0) (fun _ => 0)) comeAndGo := by decide +kernel
  have run : (exec (MainLoop.step .none) (start 3 ⟨1, 1, 3⟩ (fun _ => 0) (fun _ => 0)) comeAndGo).map
      Prod.snd = some [.accepted 4, .accepted 5, .received 5 0, .closed 4] := by decide +kernel
  obtain ⟨⟨l, h⟩, e, history⟩ := Option.map_eq_some_iff.mp run
  have roomy := adm.mono fun _ i mem ok => roomy_of_lowest (inTable_comeAndGo i mem) ok.1 ok.2
  exact ⟨l, h, e, history, capacity (run_of_exec roomy e)⟩

/-- A pass in which `accept` fails. -/
def acceptFails : List MainInput :=
  [.select (fun i => i = 3), .next ⟨-1, 9, .blank⟩ .error, .next ⟨-1, 9, .blank⟩ .error,
    .next ⟨-1, 9, .blank⟩ .error, .next ⟨-1, 9, .blank⟩ .error]

/-- The index of a failed `accept` is in front of the table, and there is an object there. -/
theorem index_of_failed_accept : ∃ l h,
    exec (MainLoop.step .none) (start 3 ⟨1, 1, 3⟩ (fun _ => 0) (fun _ => 0)) acceptFails =
      some (l, h) ∧
    Admitted (MainLoop.step .none)
      (fun l i => l.Selects i ∧ l.Accepts (Server.AcceptReturns streams) i)
      (start 3 ⟨1, 1, 3⟩ (fun _ => 0) (fun _ => 0)) acceptFails ∧
    .accepted (-1) ∈ h ∧ (l.server.client (-1)).isSome ∧ ¬ Serviced h l := by
  have adm : Admitted (MainLoop.step .none)
      (fun l i => l.Selects i ∧ l.Accepts (Server.AcceptReturns streams) i)
      (start 3 ⟨1, 1, 3⟩ (fun _ => 0) (fun _ => 0)) acceptFails :=
    ⟨⟨fun i h => h, trivial⟩, ⟨trivial, fun _ e => absurd e (by decide)⟩,
      ⟨trivial, fun _ e => absurd e (by decide)⟩, ⟨trivial, fun _ e => absurd e (by decide)⟩,
      ⟨trivial, fun _ _ => .inl rfl⟩, trivial⟩
  refine ⟨_, _, rfl, adm, List.mem_singleton.mpr rfl, rfl, fun serviced => ?_⟩
  exact absurd (serviced.index (-1) (List.mem_singleton.mpr rfl)).1 (by decide)

end MainLoop

end Projector
