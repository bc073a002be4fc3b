import Projector.Server.Interleaving
import Projector.Server.Sending

/-!
# What a connection receives

`focusObserver` and `userListThread` write to the same descriptors, and `main` takes connections off them
and puts new ones there. `received` are the bytes that come out at the other end of a connection, as many of
each `write` as it returned. As long as nobody interferes with a grant of which some bytes are written, nor
with a list that is being built, and a list is written whole or not at all (`Undivided`), these are whole
messages and the beginning of a grant (`streams_framed`).
-/

namespace Projector

/-- A message of the server: a grant or a user list. -/
def Msg.FromServer (m : Msg) : Prop := m = .request 1 ∨ m.type = sendUserList

/-- What the socket takes of a grant in a call of `write`. -/
def Server.Write.bytes (w : Server.Write) : List UInt8 :=
  (Server.grantBytes.drop w.off.toNat).take w.result.toNat

/-- What an output adds to something that is kept for the connection of a descriptor and starts anew with
each connection. -/
def ProgramOutput.add {α : Type} (fd : Int) (grant : Server.Write → List α)
    (list : List UInt8 → Int → List α) (xs : List α) : ProgramOutput → List α
  | .main (.accepted d) => if d = fd then [] else xs
  | .wrote d w => if d = fd then xs ++ grant w else xs
  | .list d frame nwrite => if d = fd then xs ++ list frame nwrite else xs
  | _ => xs

/-- What the socket takes of a list in its only `write`. -/
def listBytes (frame : List UInt8) (nwrite : Int) : List UInt8 := frame.take nwrite.toNat

/-- The bytes that the connection of a descriptor has received. -/
def received (fd : Int) (h : List ProgramOutput) : List UInt8 :=
  h.foldl (ProgramOutput.add fd Server.Write.bytes listBytes) []

/-- The messages that were written to it completely, in order: a grant with its last `write`, a list if its
only `write` took all of it. -/
def frames (fd : Int) (h : List ProgramOutput) : List (List UInt8) :=
  h.foldl (ProgramOutput.add fd (fun w => if w.result = w.count then [Server.grantBytes] else [])
    fun frame nwrite => if nwrite = frame.length then [frame] else []) []

/-- `main` is accepting at this descriptor, or some bytes of a list go there. -/
def ProgramOutput.Enters (fd : Int) : ProgramOutput → Prop
  | .main (.accepted d) => d = fd
  | .list d _ nwrite => d = fd ∧ 0 < nwrite
  | _ => False

instance (fd : Int) : DecidablePred (ProgramOutput.Enters fd) := fun o => by
  unfold ProgramOutput.Enters
  split <;> infer_instance

/-- `userListThread` is in one of its two passes. -/
def ListerAt.Passing : ListerAt → Prop
  | .measuring _ _ _ => True
  | .copying _ _ _ => True
  | _ => False

instance : DecidablePred ListerAt.Passing := fun l => by
  unfold ListerAt.Passing
  split <;> infer_instance

/-- The bytes of the list that `userListThread` is about to write. -/
def ListerAt.writing : ListerAt → Option Nat
  | .copying _ f [] => some f.sendOffset
  | _ => none

namespace Server

variable {s : Server}

/-- The size of a record, for a slot of the table. -/
def slotSize (s : Server) (i : Int) : Nat := s.recordSize (fun _ => false) i

/-- Within the table the size of a record does not depend on what `FD_ISSET` finds beyond the set. -/
lemma recordSize_eq_slotSize (sound : s.Sound) {beyond : Int → Bool} {i : Int} (mem : i ∈ slots) :
    s.recordSize beyond i = s.slotSize i := by
  have same : s.listed beyond i = s.listed (fun _ => false) i := by
    unfold listed
    cases hc : s.client i with
    | none => rfl
    | some c =>
      simp only [sound.slot i c hc, isset_of_mem_slots mem]
  rw [slotSize, recordSize, recordSize, same]

end Server

namespace Program

/-- The grant of which some bytes are written, but not all: its descriptor and how many bytes remain. -/
def partly (p : Program) : Option (Int × Int) :=
  match p.observer with
  | .granting n => if n < 12 then some (p.loop.server.readyFd, n) else none
  | .offering i n => if n < 12 then some (i, n) else none
  | _ => none

/-- What a descriptor has got of it. -/
def unfinished (p : Program) (fd : Int) : List UInt8 :=
  match p.partly with
  | some (d, n) => if d = fd then Server.grantBytes.take (12 - n).toNat else []
  | none => []

/-- `write` takes some of the bytes of a grant. -/
def Takes (p : Program) : ProgramInput → Prop
  | .observer _ written => ∀ n ∈ p.observer.remaining, 1 ≤ written ∧ written ≤ n
  | _ => True

/-- `write` takes all of a list or nothing. -/
def TakesLists (p : Program) : ProgramInput → Prop
  | .lister _ _ nwrite => ∀ n ∈ p.lister.writing, nwrite ≤ 0 ∨ nwrite = n
  | _ => True

/-- A step that divides neither a grant nor a list. -/
structure Undivided (tj : TurboJpeg) (p : Program) (i : ProgramInput) : Prop where
  takes : p.Takes i
  lists : p.TakesLists i
  /-- `main` does not direct the rest of a grant to another descriptor. -/
  directs : i.toMain.isSome → ∀ r ∈ p.step tj i, r.1.partly = p.partly
  /-- Nothing gets in between the parts of a grant. -/
  apart : ∀ x ∈ p.partly, ∀ r ∈ p.step tj i, ∀ o ∈ r.2, ¬ o.Enters x.1
  /-- During the two passes of `userListThread` no record changes its size. -/
  still : p.lister.Passing → ∀ r ∈ p.step tj i, ∀ j ∈ slots,
    r.1.loop.server.slotSize j = p.loop.server.slotSize j
  /-- Their sum is an `int`. -/
  small : p.lister.Passing → 4 + (slots.map p.loop.server.slotSize).sum < 2 ^ 31

instance (p : Program) : DecidablePred p.Takes
  | .observer _ written =>
    inferInstanceAs (Decidable (∀ n ∈ p.observer.remaining, 1 ≤ written ∧ written ≤ n))
  | .select _ => .isTrue trivial
  | .next _ _ => .isTrue trivial
  | .lister _ _ _ => .isTrue trivial

instance (p : Program) : DecidablePred p.TakesLists
  | .lister _ _ nwrite =>
    inferInstanceAs (Decidable (∀ n ∈ p.lister.writing, nwrite ≤ 0 ∨ nwrite = n))
  | .select _ => .isTrue trivial
  | .next _ _ => .isTrue trivial
  | .observer _ _ => .isTrue trivial

instance (tj : TurboJpeg) (p : Program) : DecidablePred (p.Undivided tj) := fun i =>
  decidable_of_iff (p.Takes i ∧ p.TakesLists i ∧
      (i.toMain.isSome → ∀ r ∈ p.step tj i, r.1.partly = p.partly) ∧
    (∀ x ∈ p.partly, ∀ r ∈ p.step tj i, ∀ o ∈ r.2, ¬ o.Enters x.1) ∧
    (p.lister.Passing → ∀ r ∈ p.step tj i, ∀ j ∈ slots,
      r.1.loop.server.slotSize j = p.loop.server.slotSize j) ∧
    (p.lister.Passing → 4 + (slots.map p.loop.server.slotSize).sum < 2 ^ 31))
    ⟨fun ⟨t, l, d, a, s, m⟩ => ⟨t, l, d, a, s, m⟩, fun ⟨t, l, d, a, s, m⟩ => ⟨t, l, d, a, s, m⟩⟩

end Program

/-! ## What is kept for a connection -/

section add

variable {α : Type} {fd : Int} {grant : Server.Write → List α} {list : List UInt8 → Int → List α}
  {xs : List α}

/-- What a connection receives, of two histories. -/
lemma received_append (h o : List ProgramOutput) :
    received fd (h ++ o) = o.foldl (ProgramOutput.add fd Server.Write.bytes listBytes) (received fd h) :=
  List.foldl_append

/-- What is written to it completely, of two histories. -/
lemma frames_append (h o : List ProgramOutput) : frames fd (h ++ o) =
    o.foldl (ProgramOutput.add fd (fun w => if w.result = w.count then [Server.grantBytes] else [])
      fun frame nwrite => if nwrite = frame.length then [frame] else []) (frames fd h) :=
  List.foldl_append

/-- `main` only makes it start anew. -/
lemma add_main (o : List Output) : (o.map .main).foldl (ProgramOutput.add fd grant list) xs =
    if .accepted fd ∈ o then [] else xs := by
  induction o generalizing xs with
  | nil => rfl
  | cons x o ih =>
    rw [List.map_cons, List.foldl_cons, ih]
    by_cases later : .accepted fd ∈ o
    · rw [if_pos later, if_pos (List.mem_cons_of_mem _ later)]
    · rw [if_neg later]
      by_cases here : x = .accepted fd
      · subst here
        simp [ProgramOutput.add]
      · have neither : .accepted fd ∉ x :: o := by
          rintro (_ | ⟨_, mem⟩)
          · exact here rfl
          · exact later mem
        rw [if_neg neither]
        cases x with
        | accepted d => 
          rw [ProgramOutput.add, if_neg]
          rintro rfl
          exact here rfl
        | _ => rfl

end add

/-! ## The grants -/

/-- What descriptor `fd` has got of a grant to `d` of which so many bytes remain. -/
def begun (d writeRemain fd : Int) : List UInt8 :=
  if d = fd then Server.grantBytes.take (12 - writeRemain).toNat else []

/-- Of a grant that is still to be written nothing is received. -/
lemma begun_whole (d fd : Int) : begun d 12 fd = [] := by
  unfold begun
  split <;> rfl

/-- The next `write` of a grant. -/
lemma received_wrote {h : List ProgramOutput} {d fd n written : Int} (le : n ≤ 12)
    (takes : 1 ≤ written ∧ written ≤ n) (bytes : received fd h = (frames fd h).flatten ++ begun d n fd) :
    received fd (h ++ [.wrote d ⟨12 - n, n, written⟩]) =
      (frames fd (h ++ [.wrote d ⟨12 - n, n, written⟩])).flatten ++
        if n - written > 0 then begun d (n - written) fd else [] := by
  rw [received_append, frames_append]
  by_cases own : d = fd
  · subst own
    simp only [List.foldl_cons, List.foldl_nil, ProgramOutput.add, ↓reduceIte, bytes, begun,
      Server.Write.bytes, List.append_assoc]
    have parts : Server.grantBytes.take (12 - n).toNat ++
        (Server.grantBytes.drop (12 - n).toNat).take written.toNat =
        Server.grantBytes.take (12 - (n - written)).toNat := by
      rw [← List.take_add]
      congr 1
      omega
    rw [parts]
    by_cases last : written = n
    · subst last
      have whole : Server.grantBytes.take (12 - (written - written)).toNat = Server.grantBytes := by
        rw [Int.sub_self]
        rfl
      rw [whole, if_pos rfl, if_neg (by omega), List.flatten_append, List.flatten_singleton,
        List.append_nil]
    · have more : n - written > 0 := by omega
      rw [if_neg last, if_pos more, List.append_nil]
  · simp only [List.foldl_cons, List.foldl_nil, ProgramOutput.add, if_neg own, bytes, begun, ite_self]

/-- It is a message of the server. -/
lemma frames_wrote {h : List ProgramOutput} {d fd : Int} {w : Server.Write}
    (whole : ∀ f ∈ frames fd h, ∃ m : Msg, m.FromServer ∧ f = wire.encode m) :
    ∀ f ∈ frames fd (h ++ [.wrote d w]), ∃ m : Msg, m.FromServer ∧ f = wire.encode m := by
  intro f mem
  rw [frames_append, List.foldl_cons, List.foldl_nil, ProgramOutput.add] at mem
  by_cases own : d = fd
  · rw [if_pos own] at mem
    rcases List.mem_append.mp mem with old | new
    · exact whole f old
    · by_cases last : w.result = w.count
      · rw [if_pos last, List.mem_singleton] at new
        exact ⟨.request 1, .inl rfl, new⟩
      · rw [if_neg last] at new
        contradiction
  · rw [if_neg own] at mem
    exact whole f mem

namespace Program

variable {tj : TurboJpeg} {p q : Program} {i : ProgramInput} {h o : List ProgramOutput} {fd d : Int}

/-- The grant to the requested descriptor. -/
lemma unfinished_granting {n : Int} (at_ : p.observer = .granting n) (le : n ≤ 12) :
    p.unfinished fd = begun p.loop.server.readyFd n fd := by
  unfold unfinished partly
  rw [at_]
  by_cases some_ : n < 12
  · simp only [if_pos some_]
    rfl
  · obtain rfl : n = 12 := by omega
    rw [begun_whole]
    rfl

/-- The grant to a user that was searched for. -/
lemma unfinished_offering {i n : Int} (at_ : p.observer = .offering i n) (le : n ≤ 12) :
    p.unfinished fd = begun i n fd := by
  unfold unfinished partly
  rw [at_]
  by_cases some_ : n < 12
  · simp only [if_pos some_]
    rfl
  · obtain rfl : n = 12 := by omega
    rw [begun_whole]
    rfl

/-- At the start of the loop and outside of it nothing is written. -/
lemma unfinished_idle (idle : ∀ n ∈ p.observer.remaining, n = 12) : p.unfinished fd = [] := by
  unfold unfinished partly
  cases at_ : p.observer with
  | granting n =>
    obtain rfl := idle n (by rw [at_]; rfl)
    rfl
  | offering i n =>
    obtain rfl := idle n (by rw [at_]; rfl)
    rfl
  | _ => rfl

/-- Where `userListThread` is: the records that it has still to look at make up for the rest of what it
announces. -/
def ListFits (s : Server) : ListerAt → Prop
  | .measuring _ n is => (∀ i ∈ is, i ∈ slots) ∧ 0 ≤ n ∧
      n + (is.map s.slotSize).sum = 4 + (slots.map s.slotSize).sum
  | .copying n f is => (∀ i ∈ is, i ∈ slots) ∧ n < 2 ^ 31 ∧
      ∃ bs, f.Holds (intBytes sendUserList ++ intBytes n ++ bs) ∧
        bs.length + (is.map s.slotSize).sum = n
  | _ => True

/-- Every connection has received whole messages and the beginning of a grant. -/
structure Streams (p : Program) (h : List ProgramOutput) : Prop where
  loop : p.loop.Inv
  remaining : ∀ n ∈ p.observer.remaining, 0 < n ∧ n ≤ 12
  list : ListFits p.loop.server p.lister
  bytes : ∀ fd, received fd h = (frames fd h).flatten ++ p.unfinished fd
  whole : ∀ fd, ∀ f ∈ frames fd h, ∃ m : Msg, m.FromServer ∧ f = wire.encode m

/-- It stays so while the sizes stay the same. -/
lemma ListFits.congr {s t : Server} {l : ListerAt} (fits : ListFits s l)
    (still : l.Passing → ∀ j ∈ slots, t.slotSize j = s.slotSize j) : ListFits t l := by
  cases l with
  | measuring k n is =>
    obtain ⟨mem, nonneg, sum⟩ := fits
    refine ⟨mem, nonneg, ?_⟩
    rw [List.map_congr_left fun i hi => still trivial i (mem i hi), List.map_congr_left (still trivial)]
    exact sum
  | copying n f is =>
    obtain ⟨mem, small, bs, holds, sum⟩ := fits
    refine ⟨mem, small, bs, holds, ?_⟩
    rw [List.map_congr_left fun i hi => still trivial i (mem i hi)]
    exact sum
  | _ => trivial

/-- A grant that goes to others. -/
lemma unfinished_others (others : ∀ x ∈ p.partly, x.1 ≠ fd) : p.unfinished fd = [] := by
  unfold unfinished
  cases grant : p.partly with
  | none => rfl
  | some x => exact if_neg (others x grant)

/-- A step of `main`. -/
lemma Streams.main {l : MainLoop} {os : List Output} (inv : Streams p h) (loop : l.Inv)
    (directs : { p with loop := l }.partly = p.partly)
    (apart : ∀ x ∈ p.partly, .accepted x.1 ∉ os)
    (still : p.lister.Passing → ∀ j ∈ slots, l.server.slotSize j = p.loop.server.slotSize j) :
    Streams { p with loop := l } (h ++ os.map .main) := by
  refine ⟨loop, inv.remaining, inv.list.congr still, fun fd => ?_, fun fd f mem => ?_⟩
  · have same : unfinished { p with loop := l } fd = p.unfinished fd := by
      rw [unfinished, directs, unfinished]
    rw [received_append, frames_append, add_main, add_main, same]
    by_cases anew : .accepted fd ∈ os
    · rw [if_pos anew, if_pos anew, unfinished_others]
      · rfl
      · rintro x hx rfl
        exact apart x hx anew
    · rw [if_neg anew, if_neg anew, inv.bytes]
  · rw [frames_append, add_main] at mem
    by_cases anew : .accepted fd ∈ os
    · rw [if_pos anew] at mem
      contradiction
    · rw [if_neg anew] at mem
      exact inv.whole fd f mem

/-- A step of the observer that writes nothing. -/
lemma Streams.quiet {s : Server} {at' : ObserverAt} (inv : Streams p h)
    (loop : { p.loop with server := s }.Inv) (idle : ∀ n ∈ p.observer.remaining, n = 12)
    (idle' : ∀ n ∈ at'.remaining, n = 12) (still : p.lister.Passing → ∀ j ∈ slots,
      s.slotSize j = p.loop.server.slotSize j)
    (silent : o = [] ∨ ∃ i, o = [.isset i]) :
    Streams { p with loop := { p.loop with server := s }, observer := at' } (h ++ o) := by
  have same (fd : Int) : received fd (h ++ o) = received fd h ∧ frames fd (h ++ o) = frames fd h := by
    rw [received_append, frames_append]
    rcases silent with rfl | ⟨i, rfl⟩
    · exact ⟨rfl, rfl⟩
    · exact ⟨rfl, rfl⟩
  refine ⟨loop, fun n hn => ?_, inv.list.congr still, fun fd => ?_, fun fd => ?_⟩
  · rw [idle' n hn]
    decide
  · rw [(same fd).1, (same fd).2, inv.bytes, unfinished_idle idle, unfinished_idle idle']
  · rw [(same fd).2]
    exact inv.whole fd

/-- A `write` of a grant. -/
lemma Streams.write {n written : Int} {again : Int → ObserverAt} {done : ObserverAt} (inv : Streams p h)
    (left : p.observer.remaining = some n) (takes : 1 ≤ written ∧ written ≤ n)
    (target : ∀ fd, p.unfinished fd = begun d n fd)
    (loops : ∀ n ≤ 12, ∀ fd, unfinished { p with observer := again n } fd = begun d n fd)
    (remains : ∀ n, (again n).remaining = some n) (ended : done.remaining = none) :
    Streams { p with observer := Server.afterWrite n written again done }
      (h ++ [.wrote d ⟨12 - n, n, written⟩]) := by
  obtain ⟨pos, le⟩ := inv.remaining n left
  refine ⟨inv.loop, fun m hm => ?_, inv.list, fun fd => ?_, fun fd => frames_wrote (inv.whole fd)⟩
  · change (Server.afterWrite n written again done).remaining = some m at hm
    rw [remaining_afterWrite remains ended] at hm
    by_cases more : n - written > 0
    · rw [if_pos more, Option.some.injEq] at hm
      omega
    · rw [if_neg more] at hm
      contradiction
  · rw [received_wrote le takes (by rw [inv.bytes, target])]
    congr 1
    unfold Server.afterWrite
    by_cases more : n - written > 0
    · rw [if_pos more, if_pos more, loops _ (by omega)]
    · rw [if_neg more, if_neg more, unfinished_idle]
      intro m hm
      rw [ended] at hm
      contradiction

/-- Outside of its loops the observer writes nothing. -/
lemma silent {s t : Server} {at_ at' : ObserverAt} (e : s.Observes at_ t at' o)
    (idle : at_.remaining = none) :
    (∀ n ∈ at'.remaining, n = 12) ∧ (o = [] ∨ ∃ i, o = [.isset i]) := by
  cases e with
  | found | missing | member | stranger => exact ⟨by rintro _ ⟨⟩ <;> rfl, .inr ⟨_, rfl⟩⟩
  | grant | offer => cases idle
  | _ => exact ⟨by rintro _ ⟨⟩ <;> rfl, .inl rfl⟩

/-- A step of the observer. -/
lemma Streams.observer {beyond : Int → Bool} {written : Int} (inv : Streams p h)
    (undivided : p.Undivided tj (.observer beyond written)) (loop : q.loop.Inv)
    (st : p.step tj (.observer beyond written) = some (q, o)) : Streams q (h ++ o) := by
  have still := fun passing => undivided.still passing _ st
  simp only [step, Option.map_eq_some_iff, Prod.mk.injEq, Prod.exists] at st
  obtain ⟨s, at', o, st, rfl, rfl⟩ := st
  cases at_ : p.observer with
  | granting n =>
    have left : p.observer.remaining = some n := by rw [at_]; rfl
    rw [at_] at st
    cases st
    exact inv.write left (undivided.takes n left)
      (fun fd => unfinished_granting at_ (inv.remaining n left).2)
      (fun _ le fd => unfinished_granting rfl le) (fun _ => rfl) rfl
  | offering i n =>
    have left : p.observer.remaining = some n := by rw [at_]; rfl
    rw [at_] at st
    obtain ⟨c, hc, e⟩ := Option.map_eq_some_iff.mp st
    cases e
    rw [inv.loop.sound.slot i c hc]
    exact inv.write left (undivided.takes n left)
      (fun fd => unfinished_offering at_ (inv.remaining n left).2)
      (fun _ le fd => unfinished_offering rfl le) (fun _ => rfl) rfl
  | _ =>
    have idle : p.observer.remaining = none := by rw [at_]; rfl
    obtain ⟨idle', quiet⟩ := silent (Server.observes_of_step st) idle
    exact inv.quiet loop (by simp [idle]) idle' still quiet

/-- A step of `userListThread` that writes nothing. -/
lemma Streams.builds {at' : ListerAt} (inv : Streams p h) (fits : ListFits p.loop.server at') :
    Streams { p with lister := at' } (h ++ []) := by
  rw [List.append_nil]
  exact ⟨inv.loop, inv.remaining, fits, inv.bytes, inv.whole⟩

/-- The `write` of a list, which takes all of it or nothing. -/
lemma Streams.sends {frame : List UInt8} {m : Msg} {nwrite : Int} (inv : Streams p h)
    (apart : 0 < nwrite → ∀ x ∈ p.partly, x.1 ≠ d) (takes : nwrite ≤ 0 ∨ nwrite = frame.length)
    (list : m.FromServer) (bytes : frame = wire.encode m) :
    Streams { p with lister := .asleep } (h ++ [.list d frame nwrite]) := by
  have nonempty : 0 < frame.length := by
    have pos := wire.size_pos
    rw [bytes, wire.length_encode]
    omega
  refine ⟨inv.loop, inv.remaining, trivial, fun fd => ?_, fun fd f mem => ?_⟩
  · rw [received_append, frames_append]
    simp only [List.foldl_cons, List.foldl_nil, ProgramOutput.add, inv.bytes]
    have rest : unfinished { p with lister := .asleep } fd = p.unfinished fd := rfl
    rw [rest]
    by_cases own : d = fd
    · subst own
      rw [if_pos rfl, if_pos rfl, listBytes]
      rcases takes with failed | all
      · have less : nwrite ≠ frame.length := by omega
        rw [if_neg less, Int.toNat_of_nonpos failed, List.take_zero, List.append_nil, List.append_nil]
      · have none : p.unfinished d = [] := unfinished_others (apart (by omega))
        rw [if_pos all, all, Int.toNat_natCast, List.take_length, none, List.flatten_append,
          List.flatten_singleton, List.append_nil, List.append_nil]
    · rw [if_neg own, if_neg own]
  · rw [frames_append, List.foldl_cons, List.foldl_nil, ProgramOutput.add] at mem
    by_cases own : d = fd
    · rw [if_pos own] at mem
      rcases List.mem_append.mp mem with old | new
      · exact inv.whole fd f old
      · rw [List.mem_ite_nil_right] at new
        rw [List.mem_singleton.mp new.2]
        exact ⟨m, list, bytes⟩
    · rw [if_neg own] at mem
      exact inv.whole fd f mem

/-- A list that is complete is a message. -/
lemma ListFits.message {s : Server} {n : Int} {f : Server.Fill} (fits : ListFits s (.copying n f [])) :
    ∃ m : Msg, m.type = sendUserList ∧ f.sendBuf.read 0 f.sendOffset = wire.encode m := by
  obtain ⟨_, small, bs, holds, sum⟩ := fits
  obtain rfl : n = bs.length := by simpa using sum.symm
  exact ⟨⟨sendUserList, bs, by decide, by omega⟩, rfl, holds.bytes⟩

/-- A step of `userListThread`. -/
lemma Streams.lister {beyond : Int → Bool} {fresh : Mem} {nwrite : Int} (inv : Streams p h)
    (undivided : p.Undivided tj (.lister beyond fresh nwrite))
    (st : p.step tj (.lister beyond fresh nwrite) = some (q, o)) : Streams q (h ++ o) := by
  have apart := fun x hx => undivided.apart x hx _ st
  have takes : ∀ n ∈ p.lister.writing, nwrite ≤ 0 ∨ nwrite = n := undivided.lists
  simp only [step, Option.map_eq_some_iff, Prod.mk.injEq, Prod.exists] at st
  obtain ⟨at', o, st, rfl, rfl⟩ := st
  have fits := inv.list
  have small := undivided.small
  cases at_ : p.lister with
  | asleep =>
    rw [at_] at st
    cases st
    apply inv.builds
    by_cases guard : p.loop.server.listGuard
    · rw [if_pos guard]
      trivial
    · rw [if_neg guard]
      trivial
  | counting =>
    rw [at_] at st
    cases st
    exact inv.builds ⟨fun _ mem => mem, by decide, rfl⟩
  | measuring k n is =>
    rw [at_] at st fits small
    obtain ⟨mem, nonneg, sum⟩ := fits
    have small := small trivial
    cases is with
    | nil =>
      simp only [Server.listerStep, Option.ite_none_left_eq_some, Option.some.injEq,
        Prod.mk.injEq] at st
      obtain ⟨_, rfl, rfl⟩ := st
      simp only [List.map_nil, List.sum_nil] at sum
      refine inv.builds ⟨fun _ mem => mem, by omega, intBytes k, Listing.holds_start fresh n k, ?_⟩
      rw [length_intBytes]
      omega
    | cons i is =>
      cases st
      rw [Server.recordSize_eq_slotSize inv.loop.sound (mem i List.mem_cons_self)]
      rw [List.map_cons, List.sum_cons] at sum
      have fits : InInt (n + p.loop.server.slotSize i) := ⟨by omega, by omega⟩
      rw [wrap32_of_inInt fits]
      exact inv.builds ⟨fun j hj => mem j (List.mem_cons_of_mem i hj), by omega, by omega⟩
  | copying n f is =>
    rw [at_] at st fits
    cases is with
    | nil =>
      cases st
      obtain ⟨m, list, bytes⟩ := ListFits.message fits
      have all : nwrite ≤ 0 ∨ nwrite = (f.sendBuf.read 0 f.sendOffset).length := by
        rw [Mem.length_read]
        exact takes f.sendOffset (by rw [at_]; rfl)
      apply inv.sends _ all (.inr list) bytes
      intro some_ x hx e
      exact apart x hx _ (List.mem_singleton_self _) ⟨e.symm, some_⟩
    | cons i is =>
      obtain ⟨mem, small, bs, holds, sum⟩ := fits
      rw [List.map_cons, List.sum_cons] at sum
      have size : p.loop.server.recordSize beyond i = p.loop.server.slotSize i :=
        Server.recordSize_eq_slotSize inv.loop.sound (mem i List.mem_cons_self)
      have mem (j : Int) (hj : j ∈ is) : j ∈ slots := mem j (List.mem_cons_of_mem i hj)
      simp only [Server.listerStep] at st
      cases hc : p.loop.server.listed beyond i with
      | none =>
        rw [hc] at st
        cases st
        rw [Server.recordSize_of_not_listed hc] at size
        exact inv.builds ⟨mem, small, bs, holds, by omega⟩
      | some c =>
        rw [hc] at st
        cases st
        rw [Server.recordSize_of_listed hc] at size
        refine inv.builds ⟨mem, small, bs ++ encodeRecord c, ?_, ?_⟩
        · rw [← List.append_assoc]
          exact holds.putClient c
        · rw [List.length_append]
          omega

/-- Any step. -/
lemma Streams.step (inv : Streams p h) (ok : p.Promised i ∧ p.Undivided tj i)
    (st : p.step tj i = some (q, o)) : Streams q (h ++ o) := by
  obtain ⟨promised, undivided⟩ := ok
  have loop := inv_step inv.loop promised st
  have main (toMain : i.toMain.isSome) : Streams q (h ++ o) := by
    have directs := undivided.directs toMain _ st
    have apart := fun x hx => undivided.apart x hx _ st
    have still := fun passing => undivided.still passing _ st
    cases effect_of_step st with
    | main _ _ =>
      exact inv.main loop directs (fun x hx mem => apart x hx _ (List.mem_map_of_mem mem) rfl) still
    | observer => cases toMain
    | lister => cases toMain
  cases i with
  | select => exact main rfl
  | next => exact main rfl
  | observer => exact inv.observer undivided loop st
  | lister => exact inv.lister undivided st

section run

variable {serverSocket : Int} {screen : Screen} {fbp chunk : Mem}

/-- Any run. -/
lemma streams_of_run (r : Run (step tj) (fun p i => p.Promised i ∧ p.Undivided tj i)
    (start serverSocket screen fbp chunk) h p) : Streams p h := by
  apply r.invariant (I := Streams)
  · exact ⟨.start .., by rintro _ ⟨⟩, trivial, fun _ => rfl, fun _ _ mem => by cases mem⟩
  · intro p h i q o inv ok st
    exact inv.step ok st

end run

/-! ## A concrete run -/

/-- The first of two users gets the focus, and `userListThread` has everything ready for its list. -/
def untilList : List ProgramInput :=
  pass 3 ⟨4, 10, .blank⟩ .error ++
  [.observer (fun _ => false) 0, .observer (fun _ => false) 0, .observer (fun _ => false) 7,
    .observer (fun _ => false) 5, .observer (fun _ => false) 0] ++
  pass 3 ⟨5, 11, .blank⟩ .error ++ List.replicate 63 (.lister (fun _ => false) (fun _ => 0) 0)

/-- All descriptors of this run have a slot. -/
lemma inTable_untilList : ∀ i ∈ untilList, InTable i := by
  intro i mem
  simp only [untilList, List.mem_append] at mem
  rcases mem with ((mem | mem) | mem) | mem
  · exact inTable_pass (by decide) i mem
  · apply inTable_thread
    simp only [List.mem_cons, List.not_mem_nil, or_false] at mem
    rcases mem with rfl | rfl | rfl | rfl | rfl <;> rfl
  · exact inTable_pass (by decide) i mem
  · rw [List.eq_of_mem_replicate mem]
    exact inTable_thread rfl

end Program

end Projector
