import Projector.Server.UserList

/-!
# The count of the user list

`userListThread` sends `userCount - 1` as the number of records, and its guard takes a positive `focus_fd`
for a holder who is there. `Orderly` rules out the steps that leave the focus with nobody while two or more
users are connected; `countMatches_of_orderly` shows that in the other runs the guard means what it should.
-/

namespace Projector

namespace Server

/-- When a list is sent, somebody connected has the focus and the count is the number of the records. -/
def CountMatches (s : Server) : Prop :=
  s.listGuard → (s.client s.focusFd).isSome ∧
    ∀ beyond, s.userCount - 1 = (s.listedClients beyond).length

/-- The steps after which the focus is with a client, or at most one user is left. -/
def Orderly (tj : TurboJpeg) (s : Server) : Input → Prop
  | .accept a => a.fd < maxClientNum ∧
      (s.userCount = 1 → 0 < s.focusFd → (s.client s.focusFd).isSome ∨ a.fd = s.focusFd)
  | .read fd bytes heap => ∀ t o, s.step tj (.read fd bytes heap) = some (t, o) → .closed fd ∈ o →
      0 < s.focusFd → fd = s.focusFd → s.userCount ≤ 2
  | .close fd => 0 < s.focusFd → fd = s.focusFd → s.userCount ≤ 2
  | .observe beyond _ => 1 < s.userCount → 0 < s.readyFd → s.found beyond = true →
      (s.client s.readyFd).isSome
  | .list _ _ => True

/-- Whenever the guard holds, the holder is connected. -/
def GuardHeld (s : Server) : Prop := s.listGuard → (s.client s.focusFd).isSome

variable {tj : TurboJpeg} {s t : Server} {h o : List Output} {i : Input} {fd : Int} {c : Client}

/-- An orderly step accepts within the table. -/
lemma Orderly.small (ok : Orderly tj s i) : s.Small i := by
  cases i with
  | accept a => exact ok.1
  | _ => trivial

/-- The guard says the same of two servers with the same table and holder. -/
lemma SameTable.guardHeld (same : SameTable s t) (focus : t.focusFd = s.focusFd) (g : s.GuardHeld) :
    t.GuardHeld := by
  rintro ⟨pos, many⟩
  rw [focus] at pos ⊢
  rw [same.userCount] at many
  rw [same.isSome]
  exact g ⟨pos, many⟩

/-- A connection that is closed was not the holder's, or left at most one user. -/
lemma GuardHeld.drop (g : s.GuardHeld) (hc : s.client fd = some c)
    (ok : 0 < s.focusFd → fd = s.focusFd → s.userCount ≤ 2) : (s.dropClient fd).GuardHeld := by
  rintro ⟨pos, many⟩
  rw [dropClient_toGlobals s fd hc] at pos many ⊢
  rw [leave_userCount] at many
  have focus : (s.leave c.fd).focusFd = s.focusFd := by
    rw [leave_focusFd, if_neg]
    rintro ⟨_, one⟩
    omega
  rw [focus] at pos ⊢
  have other : s.focusFd ≠ fd := fun e => by
    have few := ok pos e.symm
    omega
  rw [dropClient_client, Function.update_of_ne other]
  exact g ⟨pos, by omega⟩

/-- One orderly step. -/
lemma Effect.guardHeld (e : Effect tj s i t o) (inv : s.Sound)
    (st : s.step tj i = some (t, o)) (ok : Orderly tj s i) (g : s.GuardHeld) : t.GuardHeld := by
  cases e with
  | @accept a nonneg fresh =>
    rintro ⟨pos, many⟩
    rw [acceptClient_toGlobals] at pos many ⊢
    rw [join_userCount] at many
    have focus : (s.join a.fd).focusFd = s.focusFd := by
      rw [join_focusFd, if_neg (by omega)]
    rw [focus] at pos ⊢
    rw [acceptClient_client]
    by_cases same : s.focusFd = a.fd
    · rw [same, Function.update_self]
      rfl
    · rw [Function.update_of_ne same]
      by_cases one : s.userCount = 1
      · exact (ok.2 one pos).resolve_right (Ne.symm same)
      · exact g ⟨pos, by omega⟩
  | @read fd bytes heap c r _ _ hc _ f =>
    exact ((sameTable_received hc f.fd f.userCount).trans sameTable_wipe).guardHeld f.focusFd g
  | @refuse fd bytes heap c r _ _ hc _ f =>
    have same := sameTable_received hc f.fd f.userCount
    have self : (s.received fd r).client fd = some r.client := by simp
    have kept := same.guardHeld f.focusFd g
    apply sameTable_wipe.guardHeld rfl
    apply kept.drop self
    rw [received_toGlobals, f.focusFd, f.userCount]
    exact ok _ _ st (by simp)
  | @close fd watched ne =>
    obtain ⟨c, hc⟩ := Option.isSome_iff_exists.mp (inv.isSome watched ne)
    exact g.drop hc ok
  | settled => exact g
  | found ne isset =>
    -- The request is in the set, which may also be the listening socket.
    rintro ⟨pos, many⟩
    exact ok many pos (by simp [Server.found, ne, isset])
  | alone => exact g
  | nobody => exact g
  | @other beyond _ tests fd _ _ _ hs =>
    have search := searched inv.toTable hs
    exact fun _ => (mem_others.mp (head?_others.mp search.hit.symm).1).2.1
  | list => exact g

/-- The guard of a reached state, when all steps were orderly. -/
lemma guardHeld_of_orderly (r : Reached tj (Orderly tj) h s) : s.GuardHeld :=
  (r.invariant (I := fun s _ => s.GuardHeld)
    (fun _ _ _ _ guard => absurd guard.1 (by simp [Projector.start]))
    (fun _ _ _ _ _ sound g ok st => (effect_of_step st).guardHeld sound st ok g)).2

/-- In every run of orderly steps, whenever a list is sent its count is the number of its records. -/
theorem countMatches_of_orderly (r : Reached tj (Orderly tj) h s) : s.CountMatches := by
  intro guard
  have inTable (i : Int) (hc : (s.client i).isSome) : i ∈ slots :=
    r.inTable (fun _ _ ok => ok.small) hc
  have holder := guardHeld_of_orderly r guard
  refine ⟨holder, fun beyond => ?_⟩
  have count := r.sound.counted.eq_countP inTable
  have sum := length_others (s := s)
  rw [if_pos ⟨holder, inTable _ holder⟩] at sum
  rw [listedClients_eq (fun i hc => r.sound.readFds hc) r.sound.slot, length_filterMap_others]
  omega

/-- `countMatches_of_orderly` for three users. -/
theorem countMatches_of_orderly_three : three.CountMatches :=
  have orderly : Admitted (Server.step .none) (Orderly .none) blank threeUsers :=
    ⟨⟨by decide, fun one => absurd one (by decide)⟩, fun many => absurd many (by decide),
      ⟨by decide, fun _ _ => .inl rfl⟩, ⟨by decide, fun one => absurd one (by decide)⟩, trivial⟩
  have reached : Reached .none (Orderly .none)
      [.accepted 4, .isset 4, .grant 4, .accepted 5, .accepted 6] three :=
    ⟨3, ⟨1, 1, 3⟩, fun _ => 0, fun _ => 0, run_of_exec orderly rfl⟩
  countMatches_of_orderly reached

/-- When the first of the three leaves, before the observer runs: the guard holds, the holder is gone, and
one record is announced where two follow. -/
theorem count_departed :
    Reached .none Small
      [.accepted 4, .isset 4, .grant 4, .accepted 5, .accepted 6, .closed 4] (three.dropClient 4) ∧
    (three.dropClient 4).listGuard ∧
    (three.dropClient 4).client (three.dropClient 4).focusFd = none ∧
    (three.dropClient 4).userCount - 1 = 1 ∧
    ((three.dropClient 4).listedClients fun _ => false).length = 2 ∧
    ¬ (three.dropClient 4).CountMatches := by
  have reached : Reached .none Small
      [.accepted 4, .isset 4, .grant 4, .accepted 5, .accepted 6, .closed 4] (three.dropClient 4) :=
    three_reached.snoc (i := .close 4) trivial rfl
  have guard : (three.dropClient 4).listGuard := ⟨by decide, by decide⟩
  refine ⟨reached, guard, rfl, rfl, by decide, fun matches_ => ?_⟩
  have holder := (matches_ guard).1
  contradiction

end Server

end Projector
