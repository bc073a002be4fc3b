import Projector.Server.Observer
import Projector.Server.Request

/-!
# Where the focus goes

Two questions about one iteration of `focusObserver`. Does it settle the focus on a connected client?
`settled_iff` answers for every reached state. Does it stay away from descriptors that are no client's,
whatever a client requests? `targets_iff` answers for every sound state, and `request_targets_iff` for a
client that puts any four bytes into a request.
-/

namespace Projector

namespace Server

/-- The focus has been handed over, to a connected client. -/
def Settled (s : Server) : Prop := s.focusFd = s.readyFd ∧ (s.client s.focusFd).isSome

/-- An iteration of the observer from `s` to `t` tests descriptors of the set only, grants the focus to
clients only and gives it to clients only. -/
structure TargetsClients (s t : Server) (o : List Output) : Prop where
  isset : ∀ i, .isset i ∈ o → 0 ≤ i ∧ i < fdSetSize
  grant : ∀ i, .grant i ∈ o → (s.client i).isSome
  focus : t.focusFd = s.focusFd ∨ (s.client t.focusFd).isSome

variable {tj : TurboJpeg} {beyond : Int → Bool} {ws : List Int} {s t : Server} {h o : List Output}

/-- What the elected descriptor decides about settling. -/
lemma settled_of_effect (inv : s.Sound) (table : ∀ i, (s.client i).isSome → i ∈ slots)
    (e : Effect tj s (.observe beyond ws) t o) :
    t.Settled ↔ (s.client s.readyFd).isSome ∨
      (s.readyFd ≠ s.focusFd ∧ s.isset beyond s.readyFd = false ∧ s.others ≠ []) := by
  have spec := observe_spec inv e
  have found (hc : (s.client s.readyFd).isSome) : s.isset beyond s.readyFd = true :=
    isset_of_isSome inv.toTable (table _ hc) hc
  unfold elected at spec
  by_cases same : s.focusFd = s.readyFd
  · rw [if_pos same] at spec
    rw [spec.1, Settled, same]
    simp
  · have other : s.readyFd ≠ s.focusFd := Ne.symm same
    rw [if_neg same] at spec
    cases hi : s.isset beyond s.readyFd with
    | true =>
      rw [hi, if_pos rfl] at spec
      rw [spec.1, Settled]
      simp
    | false =>
      -- A client's descriptor would have been found in the set.
      have absent : (s.client s.readyFd).isSome = false := by
        rw [Bool.eq_false_iff]
        intro hc
        rw [found hc] at hi
        contradiction
      rw [hi, if_neg (by decide)] at spec
      cases ho : s.others with
      | nil =>
        rw [ho] at spec
        -- Nobody else is there, so both variables stay as they are.
        rw [spec.1, Settled]
        simp [same, absent]
      | cons fd rest =>
        rw [ho] at spec
        have first : fd ∈ s.others := by simp [ho]
        rw [spec.1, Settled]
        simpa [other] using (mem_others.mp first).2.1

/-- After an iteration whose writes go through, the focus is settled if and only if the requested
descriptor is a client's, or it is not in the set and there is a client other than the holder. -/
theorem settled_iff (r : Reached tj Small h s) (writes : Accepting 12 ws) :
    ∃ t o, s.observe beyond ws = some (t, o) ∧
      (t.Settled ↔ (s.client s.readyFd).isSome ∨
        (s.readyFd ≠ s.focusFd ∧ s.isset beyond s.readyFd = false ∧ s.others ≠ [])) := by
  have ends : (s.observe beyond ws).isSome := observe_isSome writes
  obtain ⟨⟨t, o⟩, e⟩ := Option.isSome_iff_exists.mp ends
  exact ⟨t, o, e, settled_of_effect r.sound (fun i hc => r.inTable (fun _ _ ok => ok) hc)
    (effect_of_observe tj e)⟩

/-- `settled_iff` for the first user, who has just come in. -/
theorem settled_iff_first :
    ∃ t o, (blank.acceptClient ⟨4, 9, .blank⟩).observe (fun _ => false) [12] = some (t, o) ∧
      (t.Settled ↔ ((blank.acceptClient ⟨4, 9, .blank⟩).client 4).isSome ∨
        ((4 : Int) ≠ -1 ∧ (blank.acceptClient ⟨4, 9, .blank⟩).isset (fun _ => false) 4 = false ∧
          (blank.acceptClient ⟨4, 9, .blank⟩).others ≠ [])) :=
  have reached : Reached .none Small [.accepted 4] (blank.acceptClient ⟨4, 9, .blank⟩) :=
    ⟨3, _, _, _, Run.single (.accept ⟨4, 9, .blank⟩) (by decide : (4 : Int) < 30) rfl⟩
  settled_iff reached (by decide)

/-- The only user has the focus and asks for an id that is not there. -/
def requestAbsent : List Input :=
  [.accept ⟨4, 9, .blank⟩, .observe (fun _ => false) [12],
    .read 4 [4, 0, 0, 0, 4, 0, 0, 0, 7, 0, 0, 0] .cleared]

/-- After that the two variables of the focus stay different. -/
theorem not_settled : ∃ s h,
    exec (Server.step .none) .blank requestAbsent = some (s, h) ∧
    Reached .none (fun _ _ => True) h s ∧ (s.client 4).isSome ∧ Accepting 12 [12] ∧
    ∃ t o, s.observe (fun _ => false) [12] = some (t, o) ∧ ¬ t.Settled := by
  have run : (exec (Server.step .none) .blank requestAbsent).map (fun x =>
      ((x.1.client 4).isSome,
        (x.1.observe (fun _ => false) [12]).map fun y => (y.1.focusFd, y.1.readyFd))) =
      some (true, some (4, 7)) := by decide +kernel
  obtain ⟨s, h, e, r, f⟩ := Reached.of_exec run
  rw [Prod.mk.injEq, Option.map_eq_some_iff] at f
  obtain ⟨connected, ⟨t, o⟩, observed, focus⟩ := f
  rw [Prod.mk.injEq] at focus
  refine ⟨s, h, e, r, connected, by decide, t, o, observed, fun settled => ?_⟩
  have same := settled.1
  rw [focus.1, focus.2] at same
  contradiction

/-! ## Targets -/

/-- In the set, a descriptor other than the listening socket is a client's. -/
lemma isSome_of_isset (inv : s.Table) {i : Int} (range : 0 ≤ i ∧ i < fdSetSize)
    (isset : s.isset beyond i = true) (ne : i ≠ s.serverSocket) : (s.client i).isSome := by
  rw [Server.isset, if_pos range] at isset
  exact inv.isSome isset ne

/-- A descriptor that is not in the set is not the listening socket. -/
lemma ne_listening_of_not_isset (inv : s.Table) {i : Int} (range : 0 ≤ i ∧ i < fdSetSize)
    (isset : s.isset beyond i = false) : i ≠ s.serverSocket := by
  rintro rfl
  rw [Server.isset, if_pos range, (inv.watched _).mpr (.inl rfl)] at isset
  contradiction

/-- The iterations that do not find the request in the set. Their tests and grants are as they should be,
so what counts is the request itself. -/
lemma targets_of_absent (inv : s.Sound) (ne : s.focusFd ≠ s.readyFd)
    (absent : s.isset beyond s.readyFd = false) (first : .isset s.readyFd ∈ o)
    (later : ∀ i, .isset i ∈ o → i = s.readyFd ∨ (0 ≤ i ∧ i < fdSetSize))
    (grant : ∀ i, .grant i ∈ o → (s.client i).isSome)
    (focus : t.focusFd = s.focusFd ∨ (s.client t.focusFd).isSome) :
    TargetsClients s t o ↔ s.readyFd = s.focusFd ∨
      (0 ≤ s.readyFd ∧ s.readyFd < fdSetSize ∧ s.readyFd ≠ s.serverSocket) := by
  constructor
  · intro h
    obtain ⟨lo, hi⟩ := h.isset s.readyFd first
    exact .inr ⟨lo, hi, ne_listening_of_not_isset inv.toTable ⟨lo, hi⟩ absent⟩
  · rintro (same | ⟨lo, hi, _⟩)
    · exact absurd same.symm ne
    · refine ⟨fun i mem => ?_, grant, focus⟩
      rcases later i mem with rfl | range
      · exact ⟨lo, hi⟩
      · exact range

/-- The observer turns to clients only, if and only if the request is the holder itself or a number of the
set other than the listening socket. -/
lemma targets_iff (inv : s.Sound) (e : Effect tj s (.observe beyond ws) t o) :
    TargetsClients s t o ↔ s.readyFd = s.focusFd ∨
      (0 ≤ s.readyFd ∧ s.readyFd < fdSetSize ∧ s.readyFd ≠ s.serverSocket) := by
  cases e with
  | settled same =>
    exact ⟨fun _ => .inl same.symm, fun _ => ⟨by simp, by simp, .inl rfl⟩⟩
  | found ne isset =>
    constructor
    · intro h
      obtain ⟨lo, hi⟩ := h.isset s.readyFd (by simp)
      exact .inr ⟨lo, hi, inv.ne_listening (h.grant s.readyFd (by simp))⟩
    · rintro (same | ⟨lo, hi, other⟩)
      · exact absurd same.symm ne
      · have connected := isSome_of_isset inv.toTable ⟨lo, hi⟩ isset other
        refine ⟨fun i mem => ?_, fun i mem => ?_, .inr connected⟩
        · obtain rfl : i = s.readyFd := by simpa using mem
          exact ⟨lo, hi⟩
        · obtain rfl : i = s.readyFd := by simpa using mem
          exact connected
  | alone ne isset zero =>
    exact targets_of_absent inv ne isset (by simp) (by simp) (by simp) (.inl rfl)
  | nobody ne isset _ hs =>
    have search := searched inv.toTable hs
    apply targets_of_absent inv ne isset List.mem_cons_self _ _ (.inl rfl)
    · intro i mem
      rcases List.mem_cons.mp mem with e | mem
      · exact .inl (Output.isset.inj e)
      · exact .inr (search.range mem)
    · intro i mem
      simp [search.noGrant] at mem
  | @other _ _ tests fd ne isset _ hs =>
    have search := searched inv.toTable hs
    have connected : (s.client fd).isSome :=
      (mem_others.mp (head?_others.mp search.hit.symm).1).2.1
    apply targets_of_absent inv ne isset (by simp) _ _ (.inr connected)
    · intro i mem
      simp only [List.cons_append, List.mem_cons, List.mem_append, List.not_mem_nil, or_false,
        reduceCtorEq] at mem
      rcases mem with e | mem
      · exact .inl (Output.isset.inj e)
      · exact .inr (search.range mem)
    · intro i mem
      obtain rfl : i = fd := by simpa [search.noGrant] using mem
      exact connected

/-- A client of a reached server that puts any four bytes into a request: the next iteration of the
observer turns to clients only, if and only if the bytes are the number of the holder, or a number of the
set other than the listening socket. -/
theorem request_targets_iff {ok : Server → Input → Prop} {fd : Int} {c : Client} {m : Msg}
    {heap : Heap} (r : Reached tj ok h s) (hc : s.client fd = some c) (boundary : c.remainBytes ≤ 0)
    (hm : m.Request) (total : heap.Total) :
    ∃ s', s.step tj (.read fd (wire.encode m) heap) =
        some (s', [.request (intOfBytes m.payload), .received fd 0]) ∧
      (∀ beyond ws, Accepting 12 ws → (s'.observe beyond ws).isSome) ∧
      ∀ beyond ws t o, s'.observe beyond ws = some (t, o) →
        (TargetsClients s' t o ↔ intOfBytes m.payload = s.focusFd ∨
          (0 ≤ intOfBytes m.payload ∧ intOfBytes m.payload < fdSetSize ∧
            intOfBytes m.payload ≠ s.serverSocket)) := by
  have connected : (s.client fd).isSome := by
    rw [hc]
    rfl
  obtain ⟨r', st, done⟩ := step_request tj hm (r.sound.readFds connected)
    (r.sound.ne_listening connected) hc boundary total
  refine ⟨_, st, fun _ _ => observe_isSome, fun beyond ws t o e => ?_⟩
  have iff := targets_iff (r.sound.effect (effect_of_step st)) (effect_of_observe tj e)
  simpa only [wipe_toGlobals, received_toGlobals, wipe_serverSocket, received_serverSocket,
    done.globals] using iff

/-- `request_targets_iff` for the first user, who asks for its own id. -/
theorem request_targets_iff_first :
    ∃ s', (blank.acceptClient ⟨4, 9, .blank⟩).step .none (.read 4 (wire.encode (.request 4)) .cleared) =
        some (s', [.request (intOfBytes (Msg.request 4).payload), .received 4 0]) ∧
      (∀ beyond ws, Accepting 12 ws → (s'.observe beyond ws).isSome) ∧
      ∀ beyond ws t o, s'.observe beyond ws = some (t, o) →
        (TargetsClients s' t o ↔ intOfBytes (Msg.request 4).payload = -1 ∨
          (0 ≤ intOfBytes (Msg.request 4).payload ∧
            intOfBytes (Msg.request 4).payload < fdSetSize ∧
            intOfBytes (Msg.request 4).payload ≠ 3)) :=
  have reached : Reached .none (fun _ _ => True) [.accepted 4] (blank.acceptClient ⟨4, 9, .blank⟩) :=
    ⟨3, _, _, _, Run.single (.accept ⟨4, 9, .blank⟩) trivial rfl⟩
  request_targets_iff reached rfl (by decide) (Msg.request_request 4) (fun _ _ => rfl)

/-- The holder asks for the focus to go to descriptor 3, where the server listens. -/
def requestListening : List Input :=
  [.accept ⟨4, 9, .blank⟩, .observe (fun _ => false) [12],
    .read 4 (wire.encode (.request 3)) .cleared]

/-- The observer grants the focus to the listening socket. -/
theorem targets_listening : ∃ s h,
    exec (Server.step .none) .blank requestListening = some (s, h) ∧
    Reached .none (fun _ _ => True) h s ∧
    ∃ t o, s.observe (fun _ => false) [12] = some (t, o) ∧
      .grant 3 ∈ o ∧ t.focusFd = s.serverSocket ∧ s.client 3 = none ∧ ¬ TargetsClients s t o := by
  have run : (exec (Server.step .none) .blank requestListening).map (fun x => (x.1.serverSocket,
      (x.1.observe (fun _ => false) [12]).map fun y => (y.1.focusFd, y.2))) =
      some (3, some (3, [.isset 3, .grant 3])) := by decide +kernel
  obtain ⟨s, h, e, r, f⟩ := Reached.of_exec run
  rw [Prod.mk.injEq, Option.map_eq_some_iff] at f
  obtain ⟨listening, ⟨t, o⟩, observed, f⟩ := f
  obtain ⟨focus, rfl⟩ := Prod.mk.inj f
  have absent : s.client 3 = none := by
    rw [← listening]
    exact r.sound.listening
  refine ⟨s, h, e, r, t, _, observed, by simp, by rw [focus, listening], absent, fun targets => ?_⟩
  have connected := targets.grant 3 (by simp)
  rw [absent] at connected
  contradiction

end Server

end Projector
