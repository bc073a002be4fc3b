import Projector.Server.Observer
import Projector.Server.Request

/-!
# The ids of the user list

`userListThread` shows each client under its `userID`, the last number of its address; `focusObserver`
takes the id of a focus request for a descriptor. `reply_grants_iff` is what the two amount to together:
when the holder of the focus asks for the id that a client is shown under, that client gets the focus only
if the number happens to be its descriptor, or if it is nobody's and the client is the lowest of the others.
-/

namespace Projector

namespace Server

/-- A frame is sent to a connected holder of the focus, and it shows the client in slot `i` under the id
`u`. -/
structure Shows (beyond : Int → Bool) (s : Server) (i : Int) (u : Int32) : Prop where
  guard : s.listGuard
  holder : (s.client s.focusFd).isSome
  slot : i ∈ slots
  listed : (s.listed beyond i).map Client.userID = some u

/-- The client in slot `i` has the id `u`. -/
def HasId (s : Server) (i : Int) (u : Int32) : Prop := (s.client i).map Client.userID = some u

variable {tj : TurboJpeg} {beyond : Int → Bool} {ws : List Int} {s s' t : Server}
  {h h' o : List Output} {i fd : Int} {u : Int32} {x : Input}

/-- Who is shown is connected. -/
lemma Shows.hasId (h : Shows beyond s i u) : s.HasId i u := by
  obtain ⟨c, listed, id⟩ := Option.map_eq_some_iff.mp h.listed
  rw [HasId, (listed_eq_some.mp listed).1, Option.map_some, id]

/-- A slot with an id is in use. -/
lemma HasId.isSome (h : s.HasId i u) : (s.client i).isSome := by
  cases hc : s.client i with
  | none => simp [HasId, hc] at h
  | some c => rfl

/-- As long as it is not closed a connection keeps its id. -/
lemma Effect.hasId (e : Effect tj s x t o) (sound : s.Sound) (stays : .closed i ∉ o)
    (h : s.HasId i u) : t.HasId i u := by
  cases e with
  | @accept a nonneg fresh =>
    -- The descriptor of a newcomer was not open, so it is not the client's.
    have other : i ≠ a.fd := by
      rintro rfl
      have used := h.isSome
      rw [sound.eq_none fresh] at used
      contradiction
    rwa [HasId, acceptClient_client, Function.update_of_ne other]
  | @read fd bytes heap c r _ _ hc _ f =>
    by_cases same : i = fd
    · rw [HasId, same, hc] at h
      rw [HasId, same, wipe_client, received_client, Function.update_self, ← h, Option.map_some,
        Option.map_some, f.userID]
    · rwa [HasId, wipe_client, received_client, Function.update_of_ne same]
  | @refuse fd bytes heap c r _ _ hc _ f =>
    have other : i ≠ fd := by
      rintro rfl
      exact stays (by simp)
    rwa [HasId, wipe_client, dropClient_client, Function.update_of_ne other, received_client,
      Function.update_of_ne other]
  | @close fd =>
    have other : i ≠ fd := by
      rintro rfl
      exact stays (by simp)
    rwa [HasId, dropClient_client, Function.update_of_ne other]
  | _ => exact h

/-- Through a whole run. -/
lemma hasId_of_run {ok : Server → Input → Prop} (sound : s.Sound) (hs : s.HasId i u)
    (run : Run (Server.step tj) ok s h t) (stays : .closed i ∉ h) : t.Sound ∧ t.HasId i u := by
  have inv := run.invariant (I := fun t h => t.Sound ∧ (.closed i ∉ h → t.HasId i u))
    ⟨sound, fun _ => hs⟩ fun t h x v o inv _ st => by
      have e := effect_of_step st
      refine ⟨inv.1.effect e, fun stays => ?_⟩
      rw [List.mem_append, not_or] at stays
      exact e.hasId inv.1 stays.2 (inv.2 stays.1)
  exact ⟨inv.1, inv.2 stays⟩

/-- An iteration of the observer grants the focus to `i` and makes it the holder exactly when it elects
it. -/
lemma grants_iff_elected (inv : s.Sound) (e : Effect tj s (.observe beyond ws) t o) :
    (.grant i ∈ o ∧ t.focusFd = i) ↔ s.elected beyond = some i := by
  have spec := observe_spec inv e
  cases he : s.elected beyond with
  | none =>
    rw [he] at spec
    simp only [reduceCtorEq, iff_false, not_and]
    intro mem
    obtain ⟨_, e⟩ := spec.2 _ mem
    cases e
  | some fd =>
    rw [he] at spec
    obtain ⟨rfl, tests, rfl, tested⟩ := spec
    rw [Option.some.injEq]
    constructor
    · exact fun h => h.2
    · rintro rfl
      exact ⟨by simp, rfl⟩

/-- Who is elected after a request for `u`, seen from a client `i` in the table. -/
lemma elected_iff (inv : s.Table) (slot : i ∈ slots) (connected : (s.client i).isSome) :
    s.elected beyond = some i ↔ s.readyFd ≠ s.focusFd ∧
      (s.readyFd = i ∨ (s.isset beyond s.readyFd = false ∧ s.others.head? = some i)) := by
  have here : s.isset beyond i = true := isset_of_isSome inv slot connected
  unfold elected
  by_cases same : s.focusFd = s.readyFd
  · simp [same]
  · rw [if_neg same]
    cases hi : s.isset beyond s.readyFd with
    | true => simp [Ne.symm same]
    | false =>
      have other : s.readyFd ≠ i := by
        rintro e
        rw [e, here] at hi
        contradiction
      simp [Ne.symm same, other]

/-- A frame shows the client in slot `i` under `u`; later, with that connection still open, the holder of
the focus sends a request for `u`. The next iteration of the observer grants the focus to the client and
makes it the holder, if and only if `u` is not the holder's descriptor and is the client's descriptor, or
is in no set and the client is the lowest of the others. -/
theorem reply_grants_iff {ok ok' : Server → Input → Prop} {heap : Heap} {c : Client}
    {beyond₀ : Int → Bool} (r : Reached tj ok h s) (shown : Shows beyond₀ s i u)
    (run : Run (Server.step tj) ok' s h' t) (stays : .closed i ∉ h')
    (holder : t.client t.focusFd = some c) (boundary : c.remainBytes ≤ 0) (total : heap.Total) :
    ∃ t', t.step tj (.read t.focusFd (wire.encode (.request u.toInt)) heap) =
        some (t', [.request u.toInt, .received t.focusFd 0]) ∧
      (∀ beyond ws, Accepting 12 ws → (t'.observe beyond ws).isSome) ∧
      ∀ beyond ws v o, t'.observe beyond ws = some (v, o) →
        ((.grant i ∈ o ∧ v.focusFd = i) ↔ u.toInt ≠ t.focusFd ∧
          (u.toInt = i ∨ (t.isset beyond u.toInt = false ∧ t.others.head? = some i))) := by
  obtain ⟨sound, id⟩ := hasId_of_run r.sound shown.hasId run stays
  have connected : (t.client t.focusFd).isSome := by
    rw [holder]
    rfl
  have inInt : InInt u.toInt := ⟨u.le_toInt, u.toInt_lt⟩
  have decoded : intOfBytes (Msg.request u.toInt).payload = u.toInt :=
    intOfBytes_intBytes_of_inInt inInt
  obtain ⟨r', st, done⟩ := step_request tj (Msg.request_request u.toInt)
    (sound.readFds connected) (sound.ne_listening connected) holder boundary total
  rw [decoded] at st
  have globals := done.globals
  rw [decoded] at globals
  refine ⟨_, st, fun _ _ => observe_isSome, fun beyond ws v o e => ?_⟩
  have sound' := sound.effect (effect_of_step st)
  have same : SameTable t ((t.received t.focusFd r').wipe (wire.encode (.request u.toInt))) :=
    (sameTable_received holder done.fd (by rw [globals])).trans sameTable_wipe
  have here := (same.isSome i).trans id.isSome
  rw [grants_iff_elected sound' (effect_of_observe tj e),
    elected_iff sound'.toTable shown.slot here, same.isset, same.others (by
      rw [wipe_toGlobals, received_toGlobals, globals])]
  simp only [wipe_toGlobals, received_toGlobals, globals]

/-- The list for three users shows the third one. -/
lemma three_shows : Shows (fun _ => false) three 6 12 :=
  ⟨⟨by decide, by decide⟩, rfl, by decide, rfl⟩

/-- `reply_grants_iff` for the three users when the first asks for the last of the list. -/
theorem reply_grants_iff_three :
    ∃ t', three.step .none (.read 4 (wire.encode (.request 12)) .cleared) =
        some (t', [.request 12, .received 4 0]) ∧
      (∀ beyond ws, Accepting 12 ws → (t'.observe beyond ws).isSome) ∧
      ∀ beyond ws v o, t'.observe beyond ws = some (v, o) →
        ((.grant 6 ∈ o ∧ v.focusFd = 6) ↔ (12 : Int) ≠ 4 ∧
          ((12 : Int) = 6 ∨ (three.isset beyond 12 = false ∧ three.others.head? = some 6))) := by
  have holder : three.client three.focusFd =
      some (Client.new ⟨1, 1, 3⟩ .blank 4 10) := rfl
  have total : Heap.cleared.Total := fun _ _ => rfl
  have start : Run (Server.step .none) (fun _ _ => True) three [] three := .nil
  have reply := reply_grants_iff three_reached three_shows start (by simp) holder (by decide) total
  have id : (12 : Int32).toInt = 12 := by decide
  have focus : three.focusFd = 4 := rfl
  rw [id, focus] at reply
  exact reply

/-- The focus goes to the second user. -/
theorem reply_grants_other : ∃ t' v o,
    Reached .none Small [.accepted 4, .isset 4, .grant 4, .accepted 5, .accepted 6] three ∧
    Shows (fun _ => false) three 6 12 ∧
    three.step .none (.read 4 (wire.encode (.request 12)) .cleared) =
      some (t', [.request 12, .received 4 0]) ∧
    t'.observe (fun _ => false) [12] = some (v, o) ∧ (t'.client 6).isSome ∧
    v.focusFd = 5 ∧ .grant 6 ∉ o := by
  have run : (three.step .none (.read 4 (wire.encode (.request 12)) .cleared)).map
      (fun x => (x.2, (x.1.client 6).isSome, (x.1.observe (fun _ => false) [12]).map fun y =>
        (y.1.focusFd, y.2))) =
      some ([.request 12, .received 4 0], true,
        some (5, [.isset 12, .isset 4, .isset 5, .grant 5])) := by decide +kernel
  obtain ⟨⟨t', o'⟩, replied, f⟩ := Option.map_eq_some_iff.mp run
  simp only [Prod.mk.injEq, Option.map_eq_some_iff] at f
  obtain ⟨rfl, connected, ⟨v, o⟩, observed, focus, rfl⟩ := f
  exact ⟨t', v, _, three_reached, three_shows, replied, observed, connected, focus, by simp⟩

end Server

end Projector
