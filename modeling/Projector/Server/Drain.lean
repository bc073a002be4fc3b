import Projector.Server.Observer

/-!
# A session after the last user left

However the users left, and whatever they had requested, the counter is zero once nobody is connected
(`Counted.eq_zero`). The next user then starts afresh: `init` resets the focus, and the observer sends one
grant, to that user.
-/

namespace Projector

namespace Server

variable {tj : TurboJpeg} {ok : Server → Input → Prop} {h : List Output} {s : Server} {a : Accepted}
  {ws : List Int}

/-- Nobody is connected: the counter is zero. -/
lemma Counted.eq_zero (inv : s.Counted) (drained : ∀ i, s.client i = none) : s.userCount = 0 := by
  obtain ⟨ids, mem, count⟩ := inv
  have empty : ids = ∅ := by
    rw [Finset.eq_empty_iff_forall_notMem]
    intro i hi
    have connected := (mem i).mp hi
    rw [drained i] at connected
    contradiction
  rw [count, empty]
  rfl

/-- The first user is the one to be given the focus. -/
lemma acceptClient_first (zero : s.userCount = 0) :
    (s.acceptClient a).focusFd = -1 ∧ (s.acceptClient a).readyFd = a.fd ∧
      (s.acceptClient a).userCount = 1 := by
  have focus : (s.acceptClient a).focusFd = if s.userCount = 0 then -1 else s.focusFd :=
    join_focusFd ..
  have ready : (s.acceptClient a).readyFd = if s.userCount = 0 then a.fd else s.readyFd :=
    join_readyFd ..
  have count : (s.acceptClient a).userCount = s.userCount + 1 := join_userCount ..
  rw [if_pos zero] at focus ready
  rw [zero] at count
  exact ⟨focus, ready, count⟩

/-- The observer grants a request of a descriptor in the set, when its writes go through. -/
lemma observe_found {beyond : Int → Bool} (ne : s.focusFd ≠ s.readyFd)
    (isset : s.isset beyond s.readyFd = true) (writes : Accepting 12 ws) :
    s.observe beyond ws = some (s.commit, [.isset s.readyFd, .grant s.readyFd]) := by
  obtain ⟨calls, hw⟩ := Option.isSome_iff_exists.mp (grantLoop_isSome writes)
  simp [observe, ne, isset, hw]

/-- In every reached state without connections: the next user, at any free descriptor of the table, is sent
the one grant of the next iteration of the observer, and has the focus. -/
theorem fresh_session (r : Reached tj ok h s) (drained : ∀ i, s.client i = none) (lo : 3 ≤ a.fd)
    (hi : a.fd < maxClientNum) (free : s.readFds a.fd = false) (beyond : Int → Bool)
    (writes : Accepting 12 ws) :
    ∃ t u, s.step tj (.accept a) = some (t, [.accepted a.fd]) ∧
      t.step tj (.observe beyond ws) = some (u, [.isset a.fd, .grant a.fd]) ∧
      u.focusFd = a.fd ∧ u.readyFd = a.fd ∧ u.userCount = 1 ∧
      ∀ i, (u.client i).isSome ↔ i = a.fd := by
  have zero : s.userCount = 0 := r.sound.counted.eq_zero drained
  have nonneg : 0 ≤ a.fd := by omega
  obtain ⟨focus, ready, count⟩ := acceptClient_first (a := a) zero
  have accepted : (s.acceptClient a).Sound := r.sound.accept nonneg free
  have isset : (s.acceptClient a).isset beyond (s.acceptClient a).readyFd = true := by
    rw [ready]
    apply isset_of_isSome accepted.toTable (mem_slots.mpr ⟨nonneg, hi⟩)
    simp
  have ne : (s.acceptClient a).focusFd ≠ (s.acceptClient a).readyFd := by
    rw [focus, ready]
    omega
  refine ⟨s.acceptClient a, (s.acceptClient a).commit, ?_, ?_, ready, ready, count, fun i => ?_⟩
  · rw [step, if_pos ⟨nonneg, free⟩]
  · have grant := observe_found ne isset writes
    rw [ready] at grant
    exact grant
  · show ((s.acceptClient a).client i).isSome ↔ i = a.fd
    rw [acceptClient_client]
    by_cases e : i = a.fd
    · simp [e]
    · simp [e, drained i]

/-- Two users leave before the observer has run for the second time: the holder of the focus first, and
then the other one, who has requested the focus for nobody. -/
def everybodyLeaves : List Input :=
  [.accept ⟨4, 10, .blank⟩, .observe (fun _ => false) [12], .accept ⟨5, 11, .blank⟩,
    .read 5 [4, 0, 0, 0, 4, 0, 0, 0, 77, 0, 0, 0] .cleared, .close 4, .close 5]

/-- `fresh_session` after `everybodyLeaves`. -/
theorem fresh_session_everybodyLeaves : ∃ s h,
    exec (Server.step .none) .blank everybodyLeaves = some (s, h) ∧
    s.focusFd = 4 ∧ s.readyFd = 0 ∧
    ∃ t u, s.step .none (.accept ⟨5, 12, .blank⟩) = some (t, [.accepted 5]) ∧
      t.step .none (.observe (fun _ => false) [7, 5]) = some (u, [.isset 5, .grant 5]) ∧
      u.focusFd = 5 ∧ u.readyFd = 5 ∧ u.userCount = 1 ∧ ∀ i, (u.client i).isSome ↔ i = 5 := by
  have run : (exec (Server.step .none) .blank everybodyLeaves).map
      (fun r => (r.1.focusFd, r.1.readyFd, r.1.userCount, r.1.readFds 5)) =
        some (4, 0, 0, false) := by decide +kernel
  obtain ⟨s, h, e, r, state⟩ := Reached.of_exec run
  simp only [Prod.mk.injEq] at state
  obtain ⟨focus, ready, count, free⟩ := state
  have drained (i : Int) : s.client i = none := by
    cases hc : s.client i with
    | none => rfl
    | some c =>
      have there : (s.client i).isSome := by rw [hc]; rfl
      have pos := r.sound.counted.pos there
      omega
  exact ⟨s, h, e, focus, ready, fresh_session r drained (a := ⟨5, 12, .blank⟩) (by decide) (by decide)
    free (fun _ => false) (by decide)⟩

end Server

end Projector
