import Mathlib.Order.Bounds.Basic
import Projector.Server.Handover

/-!
# When the holder of the focus leaves

A departure takes three places to become a handover: `~Client` stores 0 into `ready_fd` and leaves
`focus_fd` as it is, `main` takes the descriptor out of the set and the object out of the table, and the
observer, which finds nobody at descriptor 0, searches the table for a client that does not have the number
in `focus_fd`. `handover_on_departure` is the whole way, and that the departure of anybody else leaves both
variables alone.
-/

namespace Projector

/-- The descriptors that a history grants the focus to. -/
def granted (h : List Output) : List Int :=
  h.filterMap fun o => match o with
    | .grant fd => some fd
    | _ => none

/-- The grants of two histories. -/
@[simp] lemma targets_append (h h' : List Output) : granted (h ++ h') = granted h ++ granted h' := by
  simp [granted]

/-- Without a grant nobody is granted the focus. -/
lemma granted_eq_nil {h : List Output} (quiet : ∀ i, .grant i ∉ h) : granted h = [] := by
  rw [granted, List.filterMap_eq_nil_iff]
  intro o mem
  cases o with
  | grant i => exact absurd mem (quiet i)
  | _ => rfl

namespace Server

/-- The connected clients: the slots of the table that are in use. -/
def connected (s : Server) : List Int := slots.filter fun i => (s.client i).isSome

/-- The server when `main` comes to tear down the connection `fd`: after an end of file or a read error,
or after a call of `receive` that returned -1. -/
inductive Leaving (tj : TurboJpeg) (s : Server) (fd : Int) : Server → Prop where
  | ended :
    Leaving tj s fd s
  | refused {heap bytes c r} :
    s.client fd = some c →
    c.receive tj heap s.toGlobals (s.chunk.overlay bytes) bytes.length = .error ⟨.invalidHeader, r⟩ →
    Leaving tj s fd (s.received fd r)

variable {tj : TurboJpeg} {ok : Server → Input → Prop} {beyond : Int → Bool} {ws : List Int}
  {s t x : Server} {h o : List Output} {i : Input} {fd j : Int}

/-- `receive` keeps the table and the holder. -/
lemma Leaving.same (l : Leaving tj s fd x) : SameTable s x ∧ x.focusFd = s.focusFd := by
  cases l with
  | ended => exact ⟨.refl s, rfl⟩
  | @refused heap bytes c r hc hr =>
    have f := (receive_frame tj heap c s.toGlobals (s.chunk.overlay bytes) bytes.length).of_error hr
    exact ⟨sameTable_received hc f.fd f.userCount, f.focusFd⟩

/-- A step that closes a connection is a teardown, and it grants nothing. -/
lemma Effect.leaving (e : Effect tj s i t o) (inv : s.Sound) (closed : .closed fd ∈ o) :
    ∃ x, Leaving tj s fd x ∧ s.readFds fd = true ∧ fd ≠ s.serverSocket ∧
      SameTable (x.dropClient fd) t ∧ t.toGlobals = (x.dropClient fd).toGlobals ∧ granted o = [] := by
  cases i with
  | accept a =>
    cases e
    simp at closed
  | read fd' bytes heap =>
    cases e with
    | read =>
      rcases List.mem_append.mp closed with mem | mem
      · exact absurd mem closed_notMem_outputs
      · simp at mem
    | @refuse _ _ _ c r watched ne hc hr =>
      have same : fd = fd' := by
        rcases List.mem_append.mp closed with mem | mem
        · exact absurd mem closed_notMem_outputs
        · simpa using mem
      subst same
      have quiet : granted (outputs fd r.log) = [] := granted_eq_nil fun _ => grant_notMem_outputs
      refine ⟨_, .refused hc hr, watched, ne, sameTable_wipe, rfl, ?_⟩
      rw [targets_append, quiet]
      rfl
  | close fd' =>
    cases e with
    | close watched ne =>
      have same : fd = fd' := by simpa using closed
      subst same
      exact ⟨s, .ended, watched, ne, .refl _, rfl, rfl⟩
  | observe beyond ws =>
    -- The observer closes nothing.
    have spec := observe_spec inv e
    cases he : s.elected beyond with
    | none =>
      rw [he] at spec
      obtain ⟨_, e⟩ := spec.2 _ closed
      cases e
    | some fd' =>
      rw [he] at spec
      obtain ⟨_, tests, rfl, tested⟩ := spec
      rcases List.mem_append.mp closed with mem | mem
      · obtain ⟨_, e⟩ := tested _ mem
        cases e
      · simp at mem
  | list beyond fresh =>
    cases e
    unfold sendList at closed
    split at closed
    · simp at closed
    · simp at closed

/-- The teardown of a connection that does not hold the focus leaves both variables alone. -/
lemma dropClient_of_ne (inv : s.Table) (ne : fd ≠ s.focusFd) :
    (s.dropClient fd).focusFd = s.focusFd ∧ (s.dropClient fd).readyFd = s.readyFd := by
  cases hc : s.client fd with
  | none => simp [dropClient, hc]
  | some c =>
    have other : c.fd ≠ s.focusFd := by rwa [inv.slot fd c hc]
    rw [dropClient_toGlobals s fd hc, leave_focusFd, leave_readyFd, if_neg other,
      if_neg (not_and_of_not_left _ other)]
    exact ⟨rfl, rfl⟩

/-- The teardown of the holder, when somebody else stays: `ready_fd` becomes 0 and `focus_fd` is stale. -/
lemma dropClient_of_holder (inv : s.Table) (holder : (s.client s.focusFd).isSome)
    (stay : s.userCount ≠ 1) :
    (s.dropClient s.focusFd).focusFd = s.focusFd ∧ (s.dropClient s.focusFd).readyFd = 0 := by
  obtain ⟨c, hc⟩ := Option.isSome_iff_exists.mp holder
  have self : c.fd = s.focusFd := inv.slot _ c hc
  rw [dropClient_toGlobals s _ hc, leave_focusFd, leave_readyFd, if_pos self, if_neg stay,
    if_neg (not_and_of_not_right _ stay)]
  exact ⟨rfl, rfl⟩

/-! ## Who stays -/

/-- Of two clients one does not hold the focus. -/
lemma others_ne_nil (two : 2 ≤ s.connected.length) : s.others ≠ [] := by
  intro nobody
  have only : ∀ j ∈ s.connected, j = s.focusFd := by
    intro j mem
    obtain ⟨slot, connected⟩ := List.mem_filter.mp mem
    by_contra ne
    have other : j ∈ s.others := mem_others.mpr ⟨slot, connected, ne⟩
    rw [nobody] at other
    contradiction
  have nodup : s.connected.Nodup := nodup_slots.filter _
  have sub : s.connected.length ≤ [s.focusFd].length :=
    (List.subperm_of_subset nodup fun j mem => List.mem_singleton.mpr (only j mem)).length_le
  simp only [List.length_singleton] at sub
  omega

/-- The counter counts them. -/
lemma connected_le_userCount (inv : s.Counted) : (s.connected.length : Int) ≤ s.userCount := by
  obtain ⟨ids, mem, count⟩ := inv
  have nodup : s.connected.Nodup := nodup_slots.filter _
  have sub : s.connected.toFinset ⊆ ids := by
    intro j hj
    rw [List.mem_toFinset] at hj
    exact (mem j).mpr (List.mem_filter.mp hj).2
  have card := Finset.card_le_card sub
  rw [List.toFinset_card_of_nodup nodup] at card
  omega

/-- The others are the same after the holder has left. -/
lemma others_dropClient (focus : (s.dropClient s.focusFd).focusFd = s.focusFd) :
    (s.dropClient s.focusFd).others = s.others := by
  unfold others
  rw [focus]
  apply List.filter_congr
  intro j _
  by_cases holder : j = s.focusFd
  · simp [holder]
  · rw [dropClient_client, Function.update_of_ne holder]

/-- The first of the others is the lowest client that does not hold the focus, in the table or not. -/
lemma isLeast_of_head? (inv : s.Table) (first : s.others.head? = some j) :
    IsLeast {i | (s.client i).isSome ∧ i ≠ s.focusFd} j := by
  obtain ⟨mem, low⟩ := head?_others.mp first
  obtain ⟨slot, connected, other⟩ := mem_others.mp mem
  refine ⟨⟨connected, other⟩, ?_⟩
  rintro i ⟨hi, ne⟩
  by_cases here : i ∈ slots
  · exact low i (mem_others.mpr ⟨here, hi, ne⟩)
  · have nonneg := inv.nonneg i hi
    rw [mem_slots] at here slot
    omega

/-! ## The handover -/

/-- The iteration after the holder has left. -/
lemma observe_of_stale (beyond : Int → Bool) (inv : t.Sound) (stale : t.focusFd ≠ 0) (asked : t.readyFd = 0)
    (unwatched : t.readFds 0 = false) (first : t.others.head? = some j) (writes : Accepting 12 ws) :
    ∃ u o, t.observe beyond ws = some (u, o) ∧ granted o = [j] ∧ u.focusFd = j ∧ u.readyFd = j := by
  have ends : (t.observe beyond ws).isSome := observe_isSome writes
  obtain ⟨⟨u, o⟩, e⟩ := Option.isSome_iff_exists.mp ends
  have absent : t.isset beyond 0 = false := by
    rw [Server.isset, if_pos (by decide), unwatched]
  have chosen : t.elected beyond = some j := by
    rw [elected, asked, if_neg stale, absent, if_neg (by decide), first]
  have spec := observe_spec inv (effect_of_observe .none e)
  rw [chosen] at spec
  obtain ⟨rfl, tests, rfl, tested⟩ := spec
  have quiet : granted tests = [] := granted_eq_nil fun i mem => by
    obtain ⟨_, e⟩ := tested _ mem
    cases e
  refine ⟨_, _, e, ?_, rfl, rfl⟩
  rw [targets_append, quiet]
  rfl

/-- When the holder of the focus disconnects and others stay, the next iteration of the observer sends one
grant, to the lowest of them, and settles on it. When anybody else is torn down both variables stay. -/
theorem handover_on_departure (r : Reached tj ok h s) :
    ((s.client s.focusFd).isSome → 2 ≤ s.connected.length → (∀ i < 3, s.readFds i = false) →
      ∀ i t o, s.step tj i = some (t, o) → .closed s.focusFd ∈ o →
      ∀ beyond ws, Accepting 12 ws → ∃ u o' j, t.observe beyond ws = some (u, o') ∧
        IsLeast {i | (s.client i).isSome ∧ i ≠ s.focusFd} j ∧
        granted (o ++ o') = [j] ∧ u.focusFd = j ∧ u.readyFd = j) ∧
    ∀ fd x, Leaving tj s fd x → fd ≠ s.focusFd →
      (x.dropClient fd).focusFd = x.focusFd ∧ (x.dropClient fd).readyFd = x.readyFd := by
  have inv := r.sound
  constructor
  · intro holder two streams i t o st closed beyond ws writes
    have effect := effect_of_step st
    obtain ⟨x, left, watched, _, torn, globals, quiet⟩ := effect.leaving inv closed
    obtain ⟨same, focus⟩ := left.same
    have stay : x.userCount ≠ 1 := by
      have count := connected_le_userCount inv.counted
      rw [same.userCount]
      omega
    have others := same.others focus
    rw [← focus, ← same.isSome] at holder
    rw [← focus] at torn globals
    obtain ⟨stale, asked⟩ := dropClient_of_holder (same.table inv.toTable) holder stay
    have focus' : t.focusFd = (x.dropClient x.focusFd).focusFd := by rw [globals]
    -- Nobody is at descriptor 0, neither the holder nor, after it has left, anybody else.
    have zero : s.focusFd ≠ 0 := by
      intro e
      rw [e, streams 0 (by decide)] at watched
      contradiction
    have unwatched : t.readFds 0 = false := by
      rw [torn.readFds, dropClient_readFds, Function.update_of_ne (by rw [focus]; exact zero.symm),
        same.readFds, streams 0 (by decide)]
    obtain ⟨j, rest, e⟩ := List.exists_cons_of_ne_nil (others_ne_nil two)
    have least : s.others.head? = some j := by rw [e, List.head?_cons]
    have first : t.others.head? = some j := by
      rw [torn.others focus', others_dropClient stale, others, least]
    obtain ⟨u, o', observed, grant, focused, ready⟩ := observe_of_stale beyond
      (inv.effect effect) (by rw [focus', stale, focus]; exact zero) (by rw [globals, asked]) unwatched
      first writes
    exact ⟨u, o', j, observed, isLeast_of_head? inv.toTable least,
      by rw [targets_append, quiet, grant, List.nil_append], focused, ready⟩
  · intro fd x left ne
    obtain ⟨same, focus⟩ := left.same
    exact dropClient_of_ne (same.table inv.toTable) (by rwa [focus])

/-- `handover_on_departure` for the three users: the first leaves, or the second. -/
theorem handover_on_departure_three :
    (∃ u o j, (three.dropClient 4).observe (fun _ => false) [12] = some (u, o) ∧
      IsLeast {i | (three.client i).isSome ∧ i ≠ three.focusFd} j ∧
      granted ([.closed 4] ++ o) = [j] ∧ u.focusFd = j ∧ u.readyFd = j) ∧
    (three.dropClient 5).focusFd = three.focusFd ∧ (three.dropClient 5).readyFd = three.readyFd := by
  have streams : ∀ i < 3, three.readFds i = false := by
    intro i lt
    have ne : i ≠ 3 ∧ i ≠ 4 ∧ i ≠ 5 ∧ i ≠ 6 := by omega
    simp [three, blank, start, commit, ne]
  have focus : three.focusFd = 4 := rfl
  obtain ⟨holder, others⟩ := handover_on_departure three_reached
  constructor
  · exact holder rfl (by decide) streams (.close 4) _ _ rfl (by simp [focus]) _ _ (by decide)
  · exact others 5 _ .ended (by decide)

end Server

end Projector
