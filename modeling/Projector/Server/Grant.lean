import Projector.Server.Observer

/-!
# Who draws was granted the focus

`focus_fd` is a number that outlives its connection: when the holder leaves while others stay, it keeps the
number until the observer runs, and `accept` may give the number to a newcomer. `drawn_by_granted` is what
holds of the runs in which that does not happen: every `draw()` is of the connection that the last grant
went to. `drawn_without_grant` is a run in which it does happen.
-/

namespace Projector

/-- The last grant went to this descriptor, and no connection was accepted at it since. -/
def GrantedTo (h : List Output) (fd : Int) : Prop :=
  ∃ h₁ h₂, h = h₁ ++ .grant fd :: h₂ ∧ (∀ i, .grant i ∉ h₂) ∧ .accepted fd ∉ h₂

/-- Whenever `draw()` is called for a connection, the last grant went to this very connection. -/
def OnlyGrantedDraws (h : List Output) : Prop :=
  ∀ h₁ fd jpeg h₂, h = h₁ ++ .draw fd jpeg :: h₂ → GrantedTo h₁ fd

/-- No newcomer gets the number that is left in `focus_fd`; it is overwritten when nobody else is there. -/
def Server.Unclaimed (s : Server) : Input → Prop
  | .accept a => s.userCount = 0 ∨ a.fd ≠ s.focusFd
  | _ => True

variable {tj : TurboJpeg} {h o : List Output} {fd : Int} {s t : Server} {i : Input}

namespace GrantedTo

/-- A grant is the last one. -/
lemma grant (h : List Output) (fd : Int) : GrantedTo (h ++ [.grant fd]) fd :=
  ⟨h, [], rfl, by simp, by simp⟩

/-- A grant lasts until the next one, or the next connection at its descriptor. -/
lemma append (g : GrantedTo h fd) (noGrant : ∀ i, .grant i ∉ o) (noAccept : .accepted fd ∉ o) :
    GrantedTo (h ++ o) fd := by
  obtain ⟨h₁, h₂, rfl, last, same⟩ := g
  refine ⟨h₁, h₂ ++ o, by simp, fun i mem => ?_, fun mem => ?_⟩
  · rcases List.mem_append.mp mem with mem | mem
    · exact last i mem
    · exact noGrant i mem
  · rcases List.mem_append.mp mem with mem | mem
    · exact same mem
    · exact noAccept mem

/-- A new connection has not been granted anything. -/
lemma not_accepted : ¬ GrantedTo (h ++ [.accepted fd]) fd := by
  rintro ⟨h₁, h₂, e, _, same⟩
  rcases List.append_eq_append_iff.mp e with ⟨o, rfl, e'⟩ | ⟨h₃, rfl, e'⟩
  · cases o with
    | nil => simp at e'
    | cons x o => simp at e'
  · cases h₃ with
    | nil => simp at e'
    | cons x h₃ =>
      rw [List.cons_append, List.cons.injEq] at e'
      exact same (by simp [e'.2])

end GrantedTo

/-- More outputs, whose draws are by the one who was granted the focus last. -/
lemma OnlyGrantedDraws.append (g : OnlyGrantedDraws h)
    (new : ∀ o₁ fd jpeg o₂, o = o₁ ++ .draw fd jpeg :: o₂ → GrantedTo (h ++ o₁) fd) :
    OnlyGrantedDraws (h ++ o) := by
  intro h₁ fd jpeg h₂ e
  rcases List.append_eq_append_iff.mp e with ⟨o₁, rfl, e'⟩ | ⟨h₃, rfl, e'⟩
  · exact new o₁ fd jpeg h₂ e'
  · cases h₃ with
    | nil =>
      have here := new [] fd jpeg h₂ (by simpa using e'.symm)
      simpa using here
    | cons x h₃ =>
      rw [List.cons_append, List.cons.injEq] at e'
      obtain ⟨rfl, _⟩ := e'
      exact g h₁ fd jpeg h₃ rfl

/-- Outputs without `draw()` add nothing to show. -/
lemma OnlyGrantedDraws.quiet (g : OnlyGrantedDraws h) (noDraw : ∀ fd jpeg, .draw fd jpeg ∉ o) :
    OnlyGrantedDraws (h ++ o) := by
  apply g.append
  rintro o₁ fd jpeg o₂ rfl
  exact absurd (by simp) (noDraw fd jpeg)

namespace Server

/-- What a call of `receive` for the connection `fd` puts out, when its object has the focus only if it was
granted. -/
lemma onlyGrantedDraws_outputs {c : Client} {r : Recv} {tail : List Output}
    (g : OnlyGrantedDraws h) (f : Frame ⟨[], 0, c, s.toGlobals⟩ r)
    (granted : s.focusFd = c.fd → GrantedTo h fd) (noDraw : ∀ fd jpeg, .draw fd jpeg ∉ tail) :
    OnlyGrantedDraws (h ++ (outputs fd r.log ++ tail)) := by
  rw [← List.append_assoc]
  refine OnlyGrantedDraws.quiet ?_ noDraw
  apply g.append
  intro o₁ fd' jpeg o₂ e
  have drawn : .draw fd' jpeg ∈ outputs fd r.log := by simp [e]
  rcases mem_outputs drawn with ⟨_, mem, same⟩ | ⟨_, _, same⟩
  · obtain ⟨rfl, _⟩ := Output.draw.inj same
    have focus : s.focusFd = c.fd := by
      by_contra ne
      obtain ⟨es, log, _, noDraws⟩ := f.log
      rw [log, List.nil_append, noDraws ne] at mem
      contradiction
    -- Within the call neither a grant nor an accept comes before the draw.
    refine (granted focus).append (fun i mem => ?_) (fun mem => ?_)
    · exact grant_notMem_outputs (e ▸ List.mem_append_left _ mem)
    · exact accepted_notMem_outputs (e ▸ List.mem_append_left _ mem)
  · cases same

/-- The holder keeps the grant as long as it stays the holder and no other grant is sent. -/
lemma granted_append (holder : (s.client s.focusFd).isSome → GrantedTo h s.focusFd)
    (stays : (t.client t.focusFd).isSome → t.focusFd = s.focusFd ∧ (s.client s.focusFd).isSome)
    (noGrant : ∀ i, .grant i ∉ o) (noAccept : .accepted s.focusFd ∉ o) :
    (t.client t.focusFd).isSome → GrantedTo (h ++ o) t.focusFd := by
  intro hc
  obtain ⟨e, old⟩ := stays hc
  rw [e]
  exact (holder old).append noGrant noAccept

/-- A step of a connection. -/
lemma onlyGrantedDraws_read {c : Client} {r : Recv} {tail : List Output} (sound : s.Sound)
    (hc : s.client fd = some c) (f : Frame ⟨[], 0, c, s.toGlobals⟩ r)
    (g : OnlyGrantedDraws h) (holder : (s.client s.focusFd).isSome → GrantedTo h s.focusFd)
    (stays : (t.client t.focusFd).isSome → t.focusFd = s.focusFd ∧ (s.client s.focusFd).isSome)
    (noDraw : ∀ fd jpeg, .draw fd jpeg ∉ tail) (noGrant : ∀ i, .grant i ∉ tail)
    (noAccept : ∀ i, .accepted i ∉ tail) :
    OnlyGrantedDraws (h ++ (outputs fd r.log ++ tail)) ∧
      ((t.client t.focusFd).isSome → GrantedTo (h ++ (outputs fd r.log ++ tail)) t.focusFd) := by
  refine ⟨onlyGrantedDraws_outputs g f (fun e => ?_) noDraw, granted_append holder stays ?_ ?_⟩
  · have focus : s.focusFd = fd := e.trans (sound.slot fd c hc)
    rw [← focus]
    exact holder (by rw [focus, hc]; rfl)
  · intro i mem
    exact (List.mem_append.mp mem).elim grant_notMem_outputs (noGrant i)
  · intro mem
    exact (List.mem_append.mp mem).elim accepted_notMem_outputs (noAccept _)

/-- One step: a grant to the holder of the focus, if there is one, is what carries the induction. -/
lemma Effect.onlyGrantedDraws (e : Effect tj s i t o) (sound : s.Sound) (ok : s.Unclaimed i)
    (g : OnlyGrantedDraws h) (holder : (s.client s.focusFd).isSome → GrantedTo h s.focusFd) :
    OnlyGrantedDraws (h ++ o) ∧
      ((t.client t.focusFd).isSome → GrantedTo (h ++ o) t.focusFd) := by
  cases i with
  | accept a =>
    cases e with
    | accept nonneg fresh =>
      refine ⟨g.quiet (by simp), fun hc => ?_⟩
      have focus : (s.acceptClient a).focusFd = if s.userCount = 0 then -1 else s.focusFd :=
        join_focusFd ..
      rw [focus] at hc ⊢
      by_cases zero : s.userCount = 0
      -- The first user: `focus_fd` becomes -1, which nobody has.
      · rw [if_pos zero] at hc
        have nonneg := (sound.toTable.accept nonneg fresh).nonneg _ hc
        contradiction
      · rw [if_neg zero] at hc ⊢
        -- Otherwise `focus_fd` may be stale, and the newcomer must not have its number.
        have ne : a.fd ≠ s.focusFd := ok.resolve_left zero
        rw [acceptClient_client, Function.update_of_ne ne.symm] at hc
        exact (holder hc).append (by simp) (by simpa using ne.symm)
  | read fd bytes heap =>
    cases e with
    | @read _ _ _ c r _ _ hc _ f =>
      refine onlyGrantedDraws_read sound hc f g holder (fun h' => ?_) (by simp) (by simp) (by simp)
      have focus : ((s.received fd r).wipe bytes).focusFd = s.focusFd := f.focusFd
      rw [focus, wipe_client, (sameTable_received hc f.fd f.userCount).isSome] at h'
      exact ⟨focus, h'⟩
    | @refuse _ _ _ c r _ _ hc _ f =>
      refine onlyGrantedDraws_read sound hc f g holder (fun h' => ?_) (by simp) (by simp) (by simp)
      have same := sameTable_received hc f.fd f.userCount
      have focus : (s.received fd r).focusFd = s.focusFd := f.focusFd
      have self : (s.received fd r).client fd = some r.client := by simp
      have before := dropClient_holder (same.sound sound).toTable self h'
      rwa [focus, same.isSome] at before
  | close fd =>
    cases e with
    | close watched ne =>
      obtain ⟨c, hc⟩ := Option.isSome_iff_exists.mp (sound.isSome watched ne)
      exact ⟨g.quiet (by simp),
        granted_append holder (dropClient_holder sound.toTable hc) (by simp) (by simp)⟩
  | observe beyond ws =>
    have spec := observe_spec sound e
    cases he : s.elected beyond with
    | none =>
      rw [he] at spec
      obtain ⟨rfl, tests⟩ := spec
      have quiet (x : Output) (ne : ∀ i, x ≠ .isset i) : x ∉ o := fun mem => by
        obtain ⟨i, e⟩ := tests x mem
        exact ne i e
      exact ⟨g.quiet fun fd jpeg => quiet _ (by simp),
        granted_append holder (fun hc => ⟨rfl, hc⟩) (fun i => quiet _ (by simp)) (quiet _ (by simp))⟩
    | some fd =>
      rw [he] at spec
      obtain ⟨rfl, tests, rfl, tested⟩ := spec
      refine ⟨g.quiet fun fd jpeg mem => ?_, fun _ => ?_⟩
      · rcases List.mem_append.mp mem with mem | mem
        · obtain ⟨i, e⟩ := tested _ mem
          cases e
        · simp at mem
      · rw [← List.append_assoc]
        exact .grant _ fd
  | list beyond fresh =>
    cases e
    have quiet (x : Output) (ne : ∀ fd frame, x ≠ .list fd frame) : x ∉ s.sendList beyond fresh := by
      unfold sendList
      split <;> simp [ne]
    exact ⟨g.quiet fun fd jpeg => quiet _ (by simp),
      granted_append holder (fun hc => ⟨rfl, hc⟩) (fun i => quiet _ (by simp)) (quiet _ (by simp))⟩

end Server

/-- In every run in which no newcomer gets the number left in `focus_fd`, only the connection that the
last grant went to draws. -/
theorem drawn_by_granted (r : Reached tj Server.Unclaimed h s) : OnlyGrantedDraws h :=
  (r.invariant
    (I := fun s h => OnlyGrantedDraws h ∧
      ((s.client s.focusFd).isSome → GrantedTo h s.focusFd))
    (fun _ _ _ _ => ⟨by simp [OnlyGrantedDraws], fun hc => by simp [start] at hc⟩)
    (fun _ _ _ _ _ sound inv ok st =>
      (Server.effect_of_step st).onlyGrantedDraws sound ok inv.1 inv.2)).2.1

/-- Two users are there and the first, who has the focus, leaves; before the observer runs, a newcomer
gets its descriptor and sends an image. -/
def newcomerDraws : List Input :=
  [.accept ⟨4, 10, .blank⟩, .observe (fun _ => false) [12], .accept ⟨5, 11, .blank⟩, .close 4,
    .accept ⟨4, 12, .blank⟩, .read 4 [5, 0, 0, 0, 1, 0, 0, 0, 255] .cleared]

/-- The holder of the focus draws and leaves, and a newcomer gets another descriptor than its. The image
of the newcomer is not drawn, and that of the other user once the observer has run. -/
def holderLeaves : List Input :=
  [.accept ⟨4, 10, .blank⟩, .observe (fun _ => false) [12],
    .read 4 [5, 0, 0, 0, 1, 0, 0, 0, 255] .cleared, .accept ⟨5, 11, .blank⟩, .close 4,
    .accept ⟨6, 12, .blank⟩, .read 6 [5, 0, 0, 0, 1, 0, 0, 0, 254] .cleared,
    .observe (fun _ => false) [12], .read 5 [5, 0, 0, 0, 1, 0, 0, 0, 253] .cleared]

instance (s : Server) : DecidablePred s.Unclaimed := fun i => by
  unfold Server.Unclaimed
  split <;> infer_instance

/-- `drawn_by_granted` on such a run: two connections draw, each behind its grant. -/
theorem drawn_by_granted_departure : ∃ s h,
    exec (Server.step .none) .blank holderLeaves = some (s, h) ∧
    h = [.accepted 4, .isset 4, .grant 4, .draw 4 [255], .received 4 0, .accepted 5, .closed 4,
      .accepted 6, .received 6 0, .isset 0, .isset 5, .grant 5, .draw 5 [253], .received 5 0] ∧
    OnlyGrantedDraws h := by
  have adm : Admitted (Server.step .none) Server.Unclaimed .blank holderLeaves := by decide +kernel
  have run : (exec (Server.step .none) .blank holderLeaves).map Prod.snd =
      some [.accepted 4, .isset 4, .grant 4, .draw 4 [255], .received 4 0, .accepted 5, .closed 4,
        .accepted 6, .received 6 0, .isset 0, .isset 5, .grant 5, .draw 5 [253], .received 5 0] := by
    decide +kernel
  obtain ⟨⟨s, h⟩, e, history⟩ := Option.map_eq_some_iff.mp run
  exact ⟨s, h, e, history, drawn_by_granted ⟨_, _, _, _, run_of_exec adm e⟩⟩

/-- The newcomer draws without having been granted the focus. -/
theorem drawn_without_grant : ∃ s h,
    exec (Server.step .none) .blank newcomerDraws = some (s, h) ∧
    Reached .none (fun _ _ => True) h s ∧ ¬ OnlyGrantedDraws h := by
  have run : (exec (Server.step .none) .blank newcomerDraws).map Prod.snd =
      some [.accepted 4, .isset 4, .grant 4, .accepted 5, .closed 4, .accepted 4, .draw 4 [255],
        .received 4 0] := by decide +kernel
  obtain ⟨s, h, e, r, history⟩ := Reached.of_exec run
  refine ⟨s, h, e, r, fun only => ?_⟩
  exact GrantedTo.not_accepted (h := [.accepted 4, .isset 4, .grant 4, .accepted 5, .closed 4])
    (only _ 4 [255] [.received 4 0] history)

end Projector
