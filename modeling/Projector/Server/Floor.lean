import Projector.Base.Protocol
import Projector.Server.Departure
import Projector.Server.Grant

/-!
# The floor

What the program is for: many people may come, and one at a time has the floor. `floor` says it as a
protocol over what others see of the server. Its state is who is connected, who has the focus and who is to
have it, and it allows an image to be drawn, a list to be sent or the focus to be granted only where that is
in order. `floor_control` says that the server keeps this protocol as long as a round of `main` and an
iteration of either thread are single steps, and that its variables are what the history says. An iteration
that is interrupted does not keep it: while the observer is writing a grant, the image of the connection that
has had the focus so far is still drawn.

From the protocol alone it follows that whoever draws has the descriptor of the last grant
(`drawn_by_last_grant`), and that the focus does not move more often than there is a reason to
(`grants_demanded`).
-/

namespace Projector

/-- Who is connected, who has the focus and who is to have it, and whose last chunk was refused. -/
structure Floor where
  focus : Int
  ready : Int
  users : Finset Int
  refused : Option Int

/-- The floor before anybody comes. -/
def Floor.empty : Floor := ⟨0, 0, ∅, none⟩

namespace Floor

/-- A connection is gone. -/
def leave (f : Floor) (fd : Int) : Floor :=
  let users := f.users.erase fd
  if fd = f.focus then
    if users = ∅ then ⟨-1, -1, users, none⟩ else ⟨f.focus, 0, users, none⟩
  else ⟨f.focus, f.ready, users, none⟩

/-- A connection is new: the first one is to have the focus. -/
def join (f : Floor) (fd : Int) : Floor :=
  if f.users = ∅ then { f with focus := -1, ready := fd, users := {fd} }
  else { f with users := insert fd f.users }

end Floor

/-- The rules. -/
def floor : Protocol Floor Output where
  legal f x := (∀ fd ∈ f.refused, x = .closed fd) ∧
    match x with
    | .accepted fd => 0 ≤ fd ∧ fd < maxClientNum ∧ fd ∉ f.users
    | .closed fd => fd ∈ f.users
    | .received fd ret => fd ∈ f.users ∧ (ret = 0 ∨ ret = -1)
    | .request _ => f.users.Nonempty
    | .draw fd _ => fd ∈ f.users ∧ fd = f.focus
    | .isset _ => True
    | .grant fd => f.focus ≠ f.ready ∧
        (fd = f.ready ∨ f.ready ∉ f.users ∧ IsLeast {i | i ∈ f.users ∧ i ≠ f.focus} fd)
    | .list fd _ => fd = f.focus ∧ 0 < fd ∧ 1 < f.users.card
  next f x :=
    match x with
    | .accepted fd => f.join fd
    | .closed fd => f.leave fd
    | .received fd ret => if ret = -1 then { f with refused := some fd } else f
    | .request id => { f with ready := id }
    | .grant fd => { f with focus := fd, ready := fd }
    | _ => f

namespace Server

/-- The variables of the server are what the floor says. -/
structure Mirrors (s : Server) (f : Floor) : Prop where
  sound : s.Sound
  inTable : ∀ i, (s.client i).isSome → i ∈ slots
  focus : s.focusFd = f.focus
  ready : s.readyFd = f.ready
  users : ∀ i, i ∈ f.users ↔ (s.client i).isSome
  refused : f.refused = none

variable {tj : TurboJpeg} {s t : Server} {f : Floor} {i : Input} {o h : List Output} {fd : Int}

namespace Mirrors

/-- The counter counts the users. -/
lemma userCount (w : s.Mirrors f) : s.userCount = f.users.card := by
  obtain ⟨ids, mem, count⟩ := w.sound.counted
  have same : ids = f.users := by
    ext i
    rw [mem, w.users]
  rw [count, same]

/-- Nobody is counted exactly when nobody is there. -/
lemma userCount_eq_zero (w : s.Mirrors f) : s.userCount = 0 ↔ f.users = ∅ := by
  rw [w.userCount, Int.natCast_eq_zero, Finset.card_eq_zero]

end Mirrors

/-- What a call of `receive` puts out is in order, and only its requests matter. -/
lemma follows_outputs {log : List Event} (refused : f.refused = none) (user : fd ∈ f.users)
    (drawn : fd ≠ f.focus → draws log = []) :
    floor.Follows f (outputs fd log) ∧
      floor.after f (outputs fd log) = { f with ready := (requests log).getLastD f.ready } := by
  induction log generalizing f with
  | nil => exact ⟨trivial, rfl⟩
  | cons e log ih =>
    have later : fd ≠ f.focus → draws log = [] := fun ne => by
      have none := drawn ne
      rw [← List.singleton_append, draws_append, List.append_eq_nil_iff] at none
      exact none.2
    cases e with
    | draw jpeg =>
      have focus : fd = f.focus := by
        by_contra ne
        exact absurd (drawn ne) (by simp [draws])
      obtain ⟨follows, after⟩ := ih refused user later
      have legal : floor.legal f (.draw fd jpeg) := ⟨by simp [refused], user, focus⟩
      exact ⟨⟨legal, follows⟩, after⟩
    | done type data =>
      by_cases request : type = changeFocusStatus
      · have asked : ({ f with ready := intOfBytes data } : Floor).refused = none := refused
        obtain ⟨follows, after⟩ := ih asked user later
        have shown : outputs fd (.done type data :: log) =
            .request (intOfBytes data) :: outputs fd log := by
          simp [outputs, request]
        have ids : requests (.done type data :: log) = intOfBytes data :: requests log := by
          simp [requests, request]
        have legal : floor.legal f (.request (intOfBytes data)) := ⟨by simp [refused], ⟨fd, user⟩⟩
        rw [shown, ids, List.getLastD_cons]
        exact ⟨⟨legal, follows⟩, after⟩
      · have shown : outputs fd (.done type data :: log) = outputs fd log := by
          simp [outputs, request]
        have ids : requests (.done type data :: log) = requests log := by
          simp [requests, request]
        rw [shown, ids]
        exact ih refused user later
    | _ => exact ih refused user later

namespace Mirrors

/-- A new connection. -/
lemma accept {a : Accepted} (w : s.Mirrors f) (nonneg : 0 ≤ a.fd) (small : a.fd < maxClientNum)
    (fresh : s.readFds a.fd = false) :
    floor.legal f (.accepted a.fd) ∧ (s.acceptClient a).Mirrors (f.join a.fd) := by
  have new : a.fd ∉ f.users := by
    rw [w.users, w.sound.eq_none fresh]
    exact Bool.false_ne_true
  refine ⟨⟨by simp [w.refused], nonneg, small, new⟩, w.sound.accept nonneg fresh, fun i hi => ?_, ?_, ?_,
    fun i => ?_, ?_⟩
  · rcases isSome_acceptClient.mp hi with rfl | old
    · exact mem_slots.mpr ⟨nonneg, small⟩
    · exact w.inTable i old
  · rw [acceptClient_toGlobals, join_focusFd, Floor.join]
    simp only [w.userCount_eq_zero]
    split
    · rfl
    · exact w.focus
  · rw [acceptClient_toGlobals, join_readyFd, Floor.join]
    simp only [w.userCount_eq_zero]
    split
    · rfl
    · exact w.ready
  · rw [isSome_acceptClient, ← w.users, Floor.join]
    split
    · rename_i nobody
      simp [nobody]
    · simp
  · rw [Floor.join]
    split
    · exact w.refused
    · exact w.refused

/-- A call of `receive` leaves all but `ready_fd` as it is. -/
lemma received {c : Client} {r : Recv} (w : s.Mirrors f)
    (hc : s.client fd = some c) (frame : Frame ⟨[], 0, c, s.toGlobals⟩ r) :
    floor.Follows f (outputs fd r.log) ∧
      (s.received fd r).Mirrors (floor.after f (outputs fd r.log)) ∧
      fd ∈ (floor.after f (outputs fd r.log)).users := by
  have user : fd ∈ f.users := (w.users fd).mpr (by rw [hc]; rfl)
  obtain ⟨es, log, ready, noDraw⟩ := frame.log
  rw [List.nil_append] at log
  subst log
  have drawn : fd ≠ f.focus → draws r.log = [] := fun ne => by
    apply noDraw
    intro focus
    have own : s.focusFd = c.fd := focus
    rw [w.focus, w.sound.slot fd c hc] at own
    exact ne own.symm
  obtain ⟨follows, after⟩ := follows_outputs w.refused user drawn
  have same := sameTable_received hc frame.fd frame.userCount
  rw [after]
  refine ⟨follows, ⟨same.sound w.sound, fun i hi => ?_, frame.focusFd.trans w.focus, ?_, fun i => ?_,
    w.refused⟩, user⟩
  · rw [same.isSome] at hi
    exact w.inTable i hi
  · rw [← w.ready]
    exact ready
  · rw [same.isSome, ← w.users]

/-- A departure. -/
lemma leave {c : Client} (w : s.Mirrors f) (hc : s.client fd = some c) :
    (s.dropClient fd).Mirrors (f.leave fd) := by
  have there : (s.client fd).isSome := by rw [hc]; rfl
  have watched := w.sound.readFds there
  have ne := w.sound.ne_listening there
  have slot := w.sound.slot fd c hc
  have user : fd ∈ f.users := (w.users fd).mpr there
  have last : s.userCount = 1 ↔ f.users.erase fd = ∅ := by
    rw [w.userCount, ← Finset.card_eq_zero, Finset.card_erase_of_mem user]
    have pos := Finset.card_pos.mpr ⟨fd, user⟩
    omega
  have globals := dropClient_toGlobals s fd hc
  have sound := w.sound.drop watched ne
  have inTable : ∀ i, ((s.dropClient fd).client i).isSome → i ∈ slots :=
    fun i hi => w.inTable i (isSome_dropClient.mp hi).2
  have users : ∀ i, i ∈ f.users.erase fd ↔ ((s.dropClient fd).client i).isSome := by
    intro i
    rw [Finset.mem_erase, w.users, isSome_dropClient]
  have focus : (s.dropClient fd).focusFd =
      if fd = f.focus ∧ f.users.erase fd = ∅ then -1 else f.focus := by
    rw [globals, leave_focusFd, slot, w.focus]
    simp only [last]
  have ready : (s.dropClient fd).readyFd =
      if fd = f.focus then if f.users.erase fd = ∅ then -1 else 0 else f.ready := by
    rw [globals, leave_readyFd, slot, w.focus, w.ready]
    simp only [last]
  rw [Floor.leave]
  by_cases holder : fd = f.focus
  · by_cases empty : f.users.erase fd = ∅
    · rw [if_pos ⟨holder, empty⟩] at focus
      rw [if_pos holder, if_pos empty] at ready
      simp only [if_pos holder, if_pos empty]
      exact ⟨sound, inTable, focus, ready, users, rfl⟩
    · rw [if_neg (not_and_of_not_right _ empty)] at focus
      rw [if_pos holder, if_neg empty] at ready
      simp only [if_pos holder, if_neg empty]
      exact ⟨sound, inTable, focus, ready, users, rfl⟩
  · rw [if_neg (not_and_of_not_left _ holder)] at focus
    rw [if_neg holder] at ready
    simp only [if_neg holder]
    exact ⟨sound, inTable, focus, ready, users, rfl⟩

/-- Clearing the buffer. -/
lemma wipe {bytes : List UInt8} (w : s.Mirrors f) : (s.wipe bytes).Mirrors f :=
  ⟨sameTable_wipe.sound w.sound, w.inTable, w.focus, w.ready, w.users, w.refused⟩

/-- The connections that do not hold the focus. -/
lemma mem_others (w : s.Mirrors f) {i : Int} : i ∈ s.others ↔ i ∈ f.users ∧ i ≠ f.focus := by
  rw [Server.mem_others, w.users, w.focus]
  exact ⟨fun h => h.2, fun h => ⟨w.inTable i h.1, h⟩⟩

/-- The observer grants the focus to whom it is due. -/
lemma elected {beyond : Int → Bool} (w : s.Mirrors f) (e : s.elected beyond = some fd) :
    floor.legal f (.grant fd) := by
  refine ⟨by simp [w.refused], ?_⟩
  unfold Server.elected at e
  rw [w.focus, w.ready] at e
  by_cases same : f.focus = f.ready
  · rw [if_pos same] at e
    cases e
  · rw [if_neg same] at e
    refine ⟨same, ?_⟩
    by_cases isset : s.isset beyond f.ready = true
    · rw [if_pos isset] at e
      exact .inl (Option.some.inj e).symm
    · rw [if_neg isset] at e
      obtain ⟨mem, low⟩ := head?_others.mp e
      refine .inr ⟨fun user => isset ?_, w.mem_others.mp mem, fun i hi => low i (w.mem_others.mpr hi)⟩
      have there := (w.users _).mp user
      exact isset_of_isSome w.sound.toTable (w.inTable _ there) there

/-- Tests are nothing to the floor. -/
lemma follows_tests {tests : List Output} (refused : f.refused = none)
    (tested : ∀ x ∈ tests, ∃ i, x = .isset i) :
    floor.Follows f tests ∧ floor.after f tests = f := by
  induction tests with
  | nil => exact ⟨trivial, rfl⟩
  | cons x tests ih =>
    obtain ⟨i, rfl⟩ := tested x List.mem_cons_self
    obtain ⟨follows, after⟩ := ih fun y mem => tested y (List.mem_cons_of_mem _ mem)
    have legal : floor.legal f (.isset i) := ⟨by simp [refused], trivial⟩
    exact ⟨⟨legal, follows⟩, after⟩

/-- One step of the server. -/
lemma effect (w : s.Mirrors f) (small : s.Small i) (e : Effect tj s i t o) :
    floor.Follows f o ∧ t.Mirrors (floor.after f o) := by
  cases i with
  | accept a =>
    cases e with
    | accept nonneg fresh =>
      obtain ⟨legal, joined⟩ := w.accept nonneg small fresh
      exact ⟨⟨legal, trivial⟩, joined⟩
  | read fd bytes heap =>
    cases e with
    | @read _ _ _ c r _ _ hc _ frame =>
      obtain ⟨follows, shown, user⟩ := w.received hc frame
      have legal : floor.legal (floor.after f (outputs fd r.log)) (.received fd 0) :=
        ⟨by simp [shown.refused], user, .inl rfl⟩
      rw [Protocol.follows_append, Protocol.after_append]
      exact ⟨⟨follows, legal, trivial⟩, shown.wipe⟩
    | @refuse _ _ _ c r _ _ hc _ frame =>
      obtain ⟨follows, shown, user⟩ := w.received hc frame
      have legal : floor.legal (floor.after f (outputs fd r.log)) (.received fd (-1)) :=
        ⟨by simp [shown.refused], user, .inr rfl⟩
      have self : (s.received fd r).client fd = some r.client := by simp
      have closed : floor.legal { floor.after f (outputs fd r.log) with refused := some fd }
        (.closed fd) := ⟨fun _ e => by cases e; rfl, user⟩
      rw [Protocol.follows_append, Protocol.after_append]
      exact ⟨⟨follows, legal, closed, trivial⟩, (shown.leave self).wipe⟩
  | close fd =>
    cases e with
    | close watched ne =>
      have there := w.sound.isSome watched ne
      obtain ⟨c, hc⟩ := Option.isSome_iff_exists.mp there
      have legal : floor.legal f (.closed fd) := ⟨by simp [w.refused], (w.users fd).mpr there⟩
      exact ⟨⟨legal, trivial⟩, w.leave hc⟩
  | observe beyond ws =>
    have spec := observe_spec w.sound e
    cases he : s.elected beyond with
    | none =>
      rw [he] at spec
      obtain ⟨rfl, tested⟩ := spec
      obtain ⟨follows, after⟩ := follows_tests w.refused tested
      rw [after]
      exact ⟨follows, w⟩
    | some fd =>
      rw [he] at spec
      obtain ⟨rfl, tests, rfl, tested⟩ := spec
      obtain ⟨follows, after⟩ := follows_tests w.refused tested
      rw [Protocol.follows_append, Protocol.after_append, after]
      exact ⟨⟨follows, w.elected he, trivial⟩, (sameTable_focus _ _).sound w.sound, w.inTable, rfl, rfl,
        w.users, w.refused⟩
  | list beyond fresh =>
    cases e
    unfold sendList
    split
    · rename_i guard
      obtain ⟨pos, two⟩ := guard
      rw [w.userCount] at two
      have legal : floor.legal f (.list s.focusFd (s.frame beyond fresh)) :=
        ⟨by simp [w.refused], w.focus, pos, by exact_mod_cast two⟩
      exact ⟨⟨legal, trivial⟩, w⟩
    · exact ⟨trivial, w⟩

end Mirrors

section run

variable {serverSocket : Int} {screen : Screen} {fbp chunk : Mem}

/-- The server keeps the rules, and shows the floor that its history says. -/
lemma mirrors_of_run (r : Run (Server.step tj) Small (start serverSocket screen fbp chunk) h s) :
    floor.Follows .empty h ∧ s.Mirrors (floor.after .empty h) := by
  apply Protocol.follows_of_run (R := Mirrors) _ _ r
  · exact fun s i t o f w small st => w.effect small (effect_of_step st)
  · exact ⟨.start .., fun i hi => by simp [start] at hi, rfl, rfl, fun i => by simp [start, Floor.empty],
      rfl⟩

/-- Every history of the server in which the iterations of the threads are single steps is a word of the
floor, and the variables of the server are what the floor is after it. -/
theorem floor_control (r : Run (Server.step tj) Small (start serverSocket screen fbp chunk) h s) :
    floor.Follows .empty h ∧ s.focusFd = (floor.after .empty h).focus ∧
      s.readyFd = (floor.after .empty h).ready ∧ s.userCount = (floor.after .empty h).users.card ∧
      ∀ i, i ∈ (floor.after .empty h).users ↔ (s.client i).isSome := by
  obtain ⟨follows, shown⟩ := mirrors_of_run r
  exact ⟨follows, shown.focus, shown.ready, shown.userCount, shown.users⟩

end run

/-- What comes of `newcomerDraws`. -/
def newcomerOutputs : List Output :=
  [.accepted 4, .isset 4, .grant 4, .accepted 5, .closed 4, .accepted 4, .draw 4 [255], .received 4 0]

/-- The run of the newcomer is a run of the floor. -/
lemma run_newcomerDraws : ∃ s, Run (Server.step .none) Small (start 3 ⟨1, 1, 3⟩ (fun _ => 0) fun _ => 0)
    newcomerOutputs s := by
  have run : (exec (Server.step .none) .blank newcomerDraws).map Prod.snd = some newcomerOutputs := by
    decide +kernel
  obtain ⟨⟨s, h⟩, e, rfl⟩ := Option.map_eq_some_iff.mp run
  have adm : Admitted (Server.step .none) Small .blank newcomerDraws :=
    ⟨(by decide : (4 : Int) < 30), trivial, (by decide : (5 : Int) < 30), trivial,
      (by decide : (4 : Int) < 30), trivial, trivial⟩
  exact ⟨s, run_of_exec adm e⟩

/-- `floor_control` for it. -/
theorem floor_control_newcomer : ∃ s : Server, floor.Follows .empty newcomerOutputs ∧ s.focusFd = 4 ∧
    s.readyFd = (floor.after .empty newcomerOutputs).ready ∧
    s.userCount = (floor.after .empty newcomerOutputs).users.card ∧
    ∀ i, i ∈ (floor.after .empty newcomerOutputs).users ↔ (s.client i).isSome := by
  obtain ⟨s, run⟩ := run_newcomerDraws
  obtain ⟨follows, focus, ready, users, there⟩ := floor_control run
  exact ⟨s, follows, focus, ready, users, there⟩

end Server

/-! ## What the rules come to -/

namespace Floor

variable {f : Floor} {h h₁ h₂ : List Output} {x : Output} {fd : Int}

/-- Other outputs grant nothing. -/
lemma granted_append_quiet (quiet : ∀ i, x ≠ .grant i) : granted (h ++ [x]) = granted h := by
  rw [targets_append, granted_eq_nil (h := [x]) fun i mem => quiet i (List.mem_singleton.mp mem).symm,
    List.append_nil]

/-- Descriptors are not negative. -/
def Nonneg (f : Floor) : Prop := ∀ i ∈ f.users, 0 ≤ i

/-- A newcomer has a descriptor that is not negative. -/
lemma Nonneg.next (g : f.Nonneg) (legal : floor.legal f x) : (floor.next f x).Nonneg := by
  cases x with
  | accepted fd =>
    obtain ⟨_, nonneg, _, _⟩ := legal
    simp only [floor, join]
    split
    · intro i mem
      rwa [Finset.mem_singleton.mp mem]
    · intro i mem
      rcases Finset.mem_insert.mp mem with rfl | old
      · exact nonneg
      · exact g i old
  | closed fd =>
    have left : ∀ i ∈ f.users.erase fd, 0 ≤ i := fun i mem => g i (Finset.mem_of_mem_erase mem)
    simp only [floor, leave]
    split
    · split
      · exact left
      · exact left
    · exact left
  | received fd ret =>
    simp only [floor]
    split
    · exact g
    · exact g
  | _ => exact g

/-- If there is anybody, the focus is nobody's or was last granted to its holder. -/
def Granted (f : Floor) (h : List Output) : Prop :=
  f.focus = -1 ∨ f.users = ∅ ∨ (granted h).getLast? = some f.focus

/-- Every event keeps the holder the last one granted. -/
lemma Granted.next (g : f.Granted h) : (floor.next f x).Granted (h ++ [x]) := by
  cases x with
  | accepted fd =>
    rw [Granted, granted_append_quiet (by simp)]
    simp only [floor, join]
    by_cases nobody : f.users = ∅
    · rw [if_pos nobody]
      exact .inl rfl
    · rw [if_neg nobody]
      rcases g with none | empty | last
      · exact .inl none
      · exact absurd empty nobody
      · exact .inr (.inr last)
  | closed fd =>
    rw [Granted, granted_append_quiet (by simp)]
    have left : f.focus = -1 ∨ f.users.erase fd = ∅ ∨ (granted h).getLast? = some f.focus := by
      rcases g with none | empty | last
      · exact .inl none
      · exact .inr (.inl (by rw [empty]; rfl))
      · exact .inr (.inr last)
    simp only [floor, leave]
    split
    · split
      · exact .inl rfl
      · exact left
    · exact left
  | received fd ret =>
    rw [Granted, granted_append_quiet (by simp)]
    simp only [floor]
    split
    · exact g
    · exact g
  | grant fd =>
    have last : granted (h ++ [.grant fd]) = granted h ++ [fd] := targets_append ..
    exact .inr (.inr (by rw [last, List.getLast?_concat]; rfl))
  | request | draw | isset | list =>
    rw [Granted, granted_append_quiet (by simp)]
    exact g

/-- An image or a list on the screen of the holder. -/
lemma last_grant (f : floor.Follows .empty (h₁ ++ x :: h₂))
    (shown : (∃ jpeg, x = .draw fd jpeg) ∨ ∃ frame, x = .list fd frame) :
    (granted h₁).getLast? = some fd := by
  have inv : (floor.after .empty h₁).Nonneg ∧ (floor.after .empty h₁).Granted h₁ := by
    apply (Protocol.follows_append.mp f).1.invariant (I := fun f h => f.Nonneg ∧ f.Granted h)
    · exact ⟨by simp [Nonneg, Floor.empty], .inr (.inl rfl)⟩
    · rintro f h x ⟨nonneg, last⟩ legal
      exact ⟨nonneg.next legal, last.next⟩
  obtain ⟨nonneg, last⟩ := inv
  rcases shown with ⟨jpeg, rfl⟩ | ⟨frame, rfl⟩
  · obtain ⟨_, user, focus⟩ := f.legal_at
    have pos := nonneg fd user
    rcases last with none | empty | last
    · omega
    · rw [empty] at user
      cases user
    · rwa [focus]
  · obtain ⟨_, focus, pos, two⟩ := f.legal_at
    rcases last with none | empty | last
    · omega
    · rw [empty] at two
      cases two
    · rwa [focus]

/-- Why the focus may have to move: somebody came, left or asked for it. -/
def reasons (h : List Output) : Nat :=
  h.countP fun o => match o with
    | .accepted _ => true
    | .closed _ => true
    | .request _ => true
    | _ => false

/-- Whether the focus is still to move. -/
def pending (f : Floor) : Nat := if f.focus = f.ready then 0 else 1

/-- At most one grant is outstanding. -/
lemma pending_le_one (f : Floor) : f.pending ≤ 1 := by
  unfold pending
  split <;> decide

/-- So far the focus has moved for a reason each time. -/
lemma grants_next (g : (granted h).length + f.pending ≤ reasons h) (legal : floor.legal f x) :
    (granted (h ++ [x])).length + (floor.next f x).pending ≤ reasons (h ++ [x]) := by
  have counted : reasons (h ++ [x]) = reasons h + reasons [x] := List.countP_append
  rw [counted]
  cases x with
  | accepted fd =>
    have bound := pending_le_one (floor.next f (.accepted fd))
    have one : reasons [.accepted fd] = 1 := rfl
    rw [granted_append_quiet (by simp), one]
    omega
  | closed fd =>
    have bound := pending_le_one (floor.next f (.closed fd))
    have one : reasons [.closed fd] = 1 := rfl
    rw [granted_append_quiet (by simp), one]
    omega
  | request id =>
    have bound := pending_le_one (floor.next f (.request id))
    have one : reasons [.request id] = 1 := rfl
    rw [granted_append_quiet (by simp), one]
    omega
  | grant fd =>
    have last : granted (h ++ [.grant fd]) = granted h ++ [fd] := targets_append ..
    have settled : (floor.next f (.grant fd)).pending = 0 := if_pos rfl
    have due : f.pending = 1 := if_neg legal.2.1
    have none : reasons [.grant fd] = 0 := rfl
    rw [last, settled, none, List.length_append, List.length_singleton]
    omega
  | received fd ret =>
    have same : (floor.next f (.received fd ret)).pending = f.pending := by
      simp only [floor]
      split <;> rfl
    rw [granted_append_quiet (by simp), same]
    exact g
  | draw | isset | list =>
    rw [granted_append_quiet (by simp)]
    exact g

end Floor

namespace Server

variable {tj : TurboJpeg} {s : Server} {h h₁ h₂ : List Output} {x : Output} {fd : Int}
  {serverSocket : Int} {screen : Screen} {fbp chunk : Mem}

/-- As long as the iterations of the threads are single steps, whoever draws, or is sent the list, has the
descriptor that the focus was last granted to. -/
theorem drawn_by_last_grant
    (r : Run (Server.step tj) Small (start serverSocket screen fbp chunk) (h₁ ++ x :: h₂) s)
    (shown : (∃ jpeg, x = .draw fd jpeg) ∨ ∃ frame, x = .list fd frame) :
    (granted h₁).getLast? = some fd := Floor.last_grant (mirrors_of_run r).1 shown

/-- `drawn_by_last_grant` where the descriptor has been given to a newcomer. -/
theorem drawn_by_last_grant_newcomer : (granted (newcomerOutputs.take 6)).getLast? = some 4 := by
  obtain ⟨s, run⟩ := run_newcomerDraws
  have split : newcomerOutputs = newcomerOutputs.take 6 ++ .draw 4 [255] :: [.received 4 0] := rfl
  rw [split] at run
  exact drawn_by_last_grant run (.inl ⟨[255], rfl⟩)

/-- The focus is not granted more often than somebody comes, leaves or asks for it, in whatever order the
iterations of the threads and the rounds of `main` follow each other. -/
theorem grants_demanded (r : Run (Server.step tj) Small (start serverSocket screen fbp chunk) h s) :
    (granted h).length ≤ Floor.reasons h := by
  have bound : (granted h).length + (floor.after .empty h).pending ≤ Floor.reasons h := by
    apply (mirrors_of_run r).1.invariant
      (I := fun f h => (granted h).length + f.pending ≤ Floor.reasons h)
    · exact le_rfl
    · exact fun f h x g legal => Floor.grants_next g legal
  omega

/-- `grants_demanded` for the same run. -/
theorem grants_demanded_newcomer : (granted newcomerOutputs).length ≤ Floor.reasons newcomerOutputs := by
  obtain ⟨s, run⟩ := run_newcomerDraws
  exact grants_demanded run

end Server

end Projector
