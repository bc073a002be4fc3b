import Projector.Server.UserList

/-!
# The user list while the table changes

`userListThread` walks over the table twice: once to add up `dataLength` and once to copy the records, and
`main` may change the table in between. `Listing` is the server together with the place of the thread; its
steps are the length pass, the allocation, the copy of one slot, the `write`, and whatever else the server
does. `Balanced` is the invariant of a pass: the bytes put so far and the records still to be copied add
up to what the length pass found and what the table has grown by since (`Listing.growth`).
`passes_agree_iff` is the result for one pass and `lists_agree` that for a run.
-/

namespace Projector

/-- An iteration of `userListThread` in one step. -/
def Input.lists : Input → Bool
  | .list _ _ => true
  | _ => false

/-- Where `userListThread` is: it sleeps, it has added up the lengths, or it has still to copy the records
of some slots. -/
inductive ListThread where
  | asleep
  | measured (dataLength userListCount : Int)
  | copying (dataLength : Int) (fill : Server.Fill) (slots : List Int)

/-- The server and its `userListThread`. -/
structure Listing where
  server : Server
  thread : ListThread

/-- The steps of the thread, and those of the rest of the server. -/
inductive ListInput where
  /-- The guard holds: the count and the length pass. -/
  | measure
  /-- `new char[HEADER_SIZE + dataLength]`, the header and the count. -/
  | allocate (fresh : Mem)
  /-- The next slot of the second pass. -/
  | copy
  /-- The `write` of the frame. -/
  | send
  /-- A step of `main` or of `focusObserver`. -/
  | server (i : Input)

namespace Server

/-- The header and the count, for a `dataLength` that is an `int`. -/
def Fill.start (fresh : Mem) (dataLength userListCount : Int) : Fill :=
  Fill.mk fresh 0 []
    |>.putInt sendUserList
    |>.putInt dataLength
    |>.putInt userListCount

/-- What the length pass adds for a slot. -/
def recordSize (beyond : Int → Bool) (s : Server) (i : Int) : Nat :=
  match s.listed beyond i with
  | some c => 4 + (4 + c.userNameLength) + (4 + c.jpegOffset)
  | none => 0

/-- What it adds for some slots. -/
def recordSizes (beyond : Int → Bool) (s : Server) (is : List Int) : Nat :=
  (is.map (s.recordSize beyond)).sum

end Server

namespace Listing

/-- One step. -/
def step (tj : TurboJpeg) (beyond : Int → Bool) (l : Listing) :
    ListInput → Option (Listing × List Output)
  | .measure =>
    match l.thread with
    | .asleep =>
      let n := wrap32 (l.server.dataLength beyond)
      let k := l.server.userCount - 1
      if l.server.listGuard then some ({ l with thread := .measured n k }, []) else none
    | _ => none
  | .allocate fresh =>
    match l.thread with
    | .measured n k =>
      -- `new` throws for a negative size.
      if wrap32 (headerSize + n) < 0 then none
      else some ({ l with thread := .copying n (.start fresh n k) slots }, [])
    | _ => none
  | .copy =>
    match l.thread with
    | .copying n f (i :: is) =>
      match l.server.listed beyond i with
      | some c => some ({ l with thread := .copying n (f.putClient c) is }, [])
      | none => some ({ l with thread := .copying n f is }, [])
    | _ => none
  | .send =>
    match l.thread with
    | .copying _ f [] =>
      some ({ l with thread := .asleep },
        [.list l.server.focusFd (f.sendBuf.read 0 f.sendOffset)])
    | _ => none
  | .server i =>
    -- Lists are built by this thread alone.
    if i.lists then none
    else (l.server.step tj i).map fun r => ({ l with server := r.1 }, r.2)

/-- The bytes of the records that are still to be copied, as the table is now. -/
def uncopied (beyond : Int → Bool) (l : Listing) : Nat :=
  match l.thread with
  | .asleep => 0
  | .measured _ _ => l.server.recordSizes beyond slots
  | .copying _ _ is => l.server.recordSizes beyond is

/-- What a step of the rest of the server adds to them. -/
def change (beyond : Int → Bool) (l : Listing) (i : ListInput) (m : Listing) : Int :=
  match i with
  | .server _ => (m.uncopied beyond : Int) - l.uncopied beyond
  | _ => 0

/-- What all of these add to them on the given inputs. -/
def growth (tj : TurboJpeg) (beyond : Int → Bool) : Listing → List ListInput → Int
  | _, [] => 0
  | l, i :: is =>
    match l.step tj beyond i with
    | some (m, _) => l.change beyond i m + growth tj beyond m is
    | none => 0

/-- `sendOffset` is not beyond the block of `HEADER_SIZE + dataLength` bytes. -/
def Inside (l : Listing) : Prop :=
  match l.thread with
  | .copying n f _ => (f.sendOffset : Int) ≤ headerSize + n
  | _ => True

end Listing

/-- The length field of a frame is the number of bytes behind its header. -/
def Framed (frame : List UInt8) : Prop :=
  intOfBytes ((frame.drop 4).take 4) = (frame.length : Int) - headerSize

instance : DecidablePred Framed := fun _ => inferInstanceAs (Decidable (_ = _))

/-! ## The steps -/

namespace Server

variable {beyond : Int → Bool} {s : Server}

/-- The record of a client that is listed. -/
lemma recordSize_of_listed {i : Int} {c : Client} (h : s.listed beyond i = some c) :
    s.recordSize beyond i = (encodeRecord c).length := by
  simp only [recordSize, h, length_encodeRecord]
  omega

/-- A slot without a record has no size. -/
lemma recordSize_of_not_listed {i : Int} (h : s.listed beyond i = none) :
    s.recordSize beyond i = 0 := by
  simp only [recordSize, h]

/-- No slots, no bytes. -/
@[simp] lemma recordSizes_nil : s.recordSizes beyond [] = 0 := rfl

/-- The size of the first record and that of the others. -/
@[simp] lemma recordSizes_cons (i : Int) (is : List Int) :
    s.recordSizes beyond (i :: is) = s.recordSize beyond i + s.recordSizes beyond is := by
  simp [recordSizes]

/-- The length pass finds the records and the count. -/
lemma dataLength_eq_recordSizes : s.dataLength beyond = 4 + s.recordSizes beyond slots := by
  apply foldl_rule fun is n => n = 4 + s.recordSizes beyond is
  case start => rfl
  case keeps =>
    intro is i n sum
    have concat : s.recordSizes beyond (is ++ [i]) = s.recordSizes beyond is + s.recordSize beyond i := by
      simp [recordSizes]
    rw [concat, sum]
    cases hc : s.listed beyond i with
    | none =>
      rw [recordSize_of_not_listed hc]
      rfl
    | some c =>
      rw [recordSize_of_listed hc, length_encodeRecord]
      show _ + 4 + (4 + c.userNameLength) + (4 + c.jpegOffset) = _
      omega

/-- The search only tests. -/
lemma list_notMem_search {is : List Int} {fd : Int} {frame : List UInt8} :
    .list fd frame ∉ (s.search beyond is).1 := by
  induction is with
  | nil => simp [search]
  | cons i is ih =>
    unfold search
    cases s.client i with
    | none => exact ih
    | some c =>
      dsimp only
      split
      · simp
      · simpa using ih

/-- Only `userListThread` sends lists. -/
lemma list_notMem_of_step {tj : TurboJpeg} {i : Input} {t : Server} {o : List Output} {fd : Int}
    {frame : List UInt8} (h : s.step tj i = some (t, o)) (others : i.lists = false) :
    .list fd frame ∉ o := by
  have notReceived (d : Int) (log : List Event) : .list fd frame ∉ outputs d log := by
    intro mem
    rcases mem_outputs mem with ⟨_, _, e⟩ | ⟨_, _, e⟩ <;> cases e
  cases effect_of_step h with
  | accept => simp
  | read => simp [notReceived]
  | refuse => simp [notReceived]
  | close => simp
  | settled => simp
  | found => simp
  | alone => simp
  | @nobody beyond _ tests _ _ _ hs =>
    have searched : .list fd frame ∉ (s.search beyond slots).1 := list_notMem_search
    rw [hs] at searched
    simpa using searched
  | @other beyond _ tests _ _ _ _ hs =>
    have searched : .list fd frame ∉ (s.search beyond slots).1 := list_notMem_search
    rw [hs] at searched
    simpa using searched
  | list => cases others

end Server

namespace Listing

/-- The ways a step can go. -/
inductive Effect (tj : TurboJpeg) (beyond : Int → Bool) :
    Listing → ListInput → Listing → List Output → Prop where
  | measure {s} :
    s.listGuard →
    Effect tj beyond ⟨s, .asleep⟩ .measure
      ⟨s, .measured (wrap32 (s.dataLength beyond)) (s.userCount - 1)⟩ []
  | allocate {s n k fresh} :
    0 ≤ wrap32 (headerSize + n) →
    Effect tj beyond ⟨s, .measured n k⟩ (.allocate fresh) ⟨s, .copying n (.start fresh n k) slots⟩ []
  | record {s n f i is c} :
    s.listed beyond i = some c →
    Effect tj beyond ⟨s, .copying n f (i :: is)⟩ .copy ⟨s, .copying n (f.putClient c) is⟩ []
  | skip {s n f i is} :
    s.listed beyond i = none →
    Effect tj beyond ⟨s, .copying n f (i :: is)⟩ .copy ⟨s, .copying n f is⟩ []
  | send {s n f} :
    Effect tj beyond ⟨s, .copying n f []⟩ .send ⟨s, .asleep⟩
      [.list s.focusFd (f.sendBuf.read 0 f.sendOffset)]
  | server {s t thread i o} :
    i.lists = false →
    s.step tj i = some (t, o) →
    Effect tj beyond ⟨s, thread⟩ (.server i) ⟨t, thread⟩ o

variable {tj : TurboJpeg} {beyond : Int → Bool} {l m : Listing} {i : ListInput} {o h : List Output}

/-- The ways listed are all. -/
lemma effect_of_step (st : l.step tj beyond i = some (m, o)) : Effect tj beyond l i m o := by
  obtain ⟨s, thread⟩ := l
  cases i with
  | measure =>
    cases thread with
    | asleep =>
      simp only [step, Option.ite_none_right_eq_some, Option.some.injEq, Prod.mk.injEq] at st
      obtain ⟨guard, rfl, rfl⟩ := st
      exact .measure guard
    | measured => cases st
    | copying => cases st
  | allocate fresh =>
    cases thread with
    | asleep => cases st
    | measured n k =>
      simp only [step, Option.ite_none_left_eq_some, Option.some.injEq, Prod.mk.injEq] at st
      obtain ⟨room, rfl, rfl⟩ := st
      exact .allocate (Int.not_lt.mp room)
    | copying => cases st
  | copy =>
    cases thread with
    | asleep => cases st
    | measured => cases st
    | copying n f is =>
      cases is with
      | nil => cases st
      | cons i is =>
        cases hc : s.listed beyond i with
        | none =>
          simp only [step, hc, Option.some.injEq, Prod.mk.injEq] at st
          obtain ⟨rfl, rfl⟩ := st
          exact .skip hc
        | some c =>
          simp only [step, hc, Option.some.injEq, Prod.mk.injEq] at st
          obtain ⟨rfl, rfl⟩ := st
          exact .record hc
  | send =>
    cases thread with
    | asleep => cases st
    | measured => cases st
    | copying n f is =>
      cases is with
      | nil =>
        simp only [step, Option.some.injEq, Prod.mk.injEq] at st
        obtain ⟨rfl, rfl⟩ := st
        exact .send
      | cons i is => cases st
  | server i =>
    cases others : i.lists with
    | true => simp [step, others] at st
    | false =>
      simp only [step, others, Bool.false_eq_true, ↓reduceIte, Option.map_eq_some_iff,
        Prod.mk.injEq, Prod.exists] at st
      obtain ⟨t, o', st, rfl, rfl⟩ := st
      exact .server others st

/-- The header and the count. -/
lemma holds_start (fresh : Mem) (d k : Int) : (Server.Fill.start fresh d k).Holds
    (intBytes sendUserList ++ intBytes d ++ intBytes k) :=
  (((Server.Fill.holds_nil fresh).putInt sendUserList).putInt d).putInt k

variable (tj beyond) in
/-- The second pass on a table that does not change. -/
lemma exec_copies (s : Server) (d : Int) {is : List Int} {f : Server.Fill} {bs : List UInt8}
    (holds : f.Holds bs) : ∃ f', exec (step tj beyond) ⟨s, .copying d f is⟩
      (List.replicate is.length .copy) = some (⟨s, .copying d f' []⟩, []) ∧
      f'.Holds (bs ++ (is.filterMap (s.listed beyond)).flatMap encodeRecord) := by
  induction is generalizing f bs with
  | nil => exact ⟨f, rfl, by simpa using holds⟩
  | cons i is ih =>
    cases hc : s.listed beyond i with
    | none =>
      obtain ⟨f', e, holds'⟩ := ih holds
      refine ⟨f', exec_cons_eq_some.mpr ⟨_, [], [], ?_, e, rfl⟩, ?_⟩
      · simp only [step, hc]
      · rwa [List.filterMap_cons_none hc]
    | some c =>
      obtain ⟨f', e, holds'⟩ := ih (holds.putClient c)
      refine ⟨f', exec_cons_eq_some.mpr ⟨_, [], [], ?_, e, rfl⟩, ?_⟩
      · simp only [step, hc]
      · rwa [List.filterMap_cons_some hc, List.flatMap_cons, ← List.append_assoc]

/-- With no step of the rest of the server in between, the steps of the thread are one iteration of it. -/
theorem exec_sendList {s : Server} (guard : s.listGuard) (small : 8 + s.dataLength beyond < 2 ^ 31)
    (fresh : Mem) :
    exec (step tj beyond) ⟨s, .asleep⟩
      (.measure :: .allocate fresh :: List.replicate slots.length .copy ++ [.send]) =
        some (⟨s, .asleep⟩, s.sendList beyond fresh) := by
  have fits : wrap32 (s.dataLength beyond) = s.dataLength beyond :=
    wrap32_of_inInt ⟨by omega, by omega⟩
  have room : ¬ wrap32 (headerSize + s.dataLength beyond) < 0 := by
    rw [headerSize, wrap32_of_inInt ⟨by omega, by omega⟩]
    omega
  obtain ⟨f, e, holds⟩ := exec_copies tj beyond s (s.dataLength beyond)
    (holds_start fresh (s.dataLength beyond) (s.userCount - 1))
  have measured : step tj beyond ⟨s, .asleep⟩ .measure =
      some (⟨s, .measured (s.dataLength beyond) (s.userCount - 1)⟩, []) := by
    simp only [step, if_pos guard, fits]
  have allocated : step tj beyond ⟨s, .measured (s.dataLength beyond) (s.userCount - 1)⟩
      (.allocate fresh) = some (⟨s, .copying (s.dataLength beyond)
        (.start fresh (s.dataLength beyond) (s.userCount - 1)) slots⟩, []) := by
    simp only [step, if_neg room]
  have pass : exec (step tj beyond) ⟨s, .asleep⟩
      (.measure :: .allocate fresh :: List.replicate slots.length .copy) =
        some (⟨s, .copying (s.dataLength beyond) f []⟩, []) :=
    exec_cons_eq_some.mpr ⟨_, _, _, measured, exec_cons_eq_some.mpr ⟨_, _, _, allocated, e, rfl⟩, rfl⟩
  have bytes : f.sendBuf.read 0 f.sendOffset = s.frame beyond fresh := by
    rw [holds.bytes, Server.frame, Server.fill_holds.bytes, List.append_assoc]
    rfl
  refine exec_append_eq_some.mpr ⟨_, _, _, pass, exec_cons_eq_some.mpr ⟨_, _, [], rfl, rfl, rfl⟩, ?_⟩
  rw [Server.sendList, if_pos guard, bytes]
  rfl

/-! ## One pass -/

/-- A pass whose length pass found `d`: the bytes put so far and those still to be copied are `n`. -/
inductive Balanced (beyond : Int → Bool) (d n : Int) : Listing → Prop where
  | measured {s k} :
    12 + (s.recordSizes beyond slots : Int) = n →
    Balanced beyond d n ⟨s, .measured d k⟩
  | copying {s f is} (bs : List UInt8) :
    f.Holds (intBytes sendUserList ++ intBytes d ++ bs) →
    8 + (bs.length : Int) + s.recordSizes beyond is = n →
    Balanced beyond d n ⟨s, .copying d f is⟩

variable {d n : Int}

/-- Behind the length pass. -/
lemma balanced_measured {s : Server} {k : Int} :
    Balanced beyond (wrap32 (4 + s.recordSizes beyond slots)) (12 + s.recordSizes beyond slots)
      ⟨s, .measured (wrap32 (s.dataLength beyond)) k⟩ := by
  rw [Server.dataLength_eq_recordSizes]
  exact .measured rfl

/-- A step of a pass: what the table grows by is added, and nothing else changes. -/
lemma balanced_of_step (b : Balanced beyond d n l) (st : l.step tj beyond i = some (m, o))
    (quiet : i ≠ .send) : Balanced beyond d (n + l.change beyond i m) m := by
  cases effect_of_step st with
  | measure => cases b
  | @allocate s _ k fresh =>
    cases b with
    | measured sum =>
      refine .copying (intBytes k) (holds_start fresh d k) ?_
      simp only [change, length_intBytes]
      omega
  | @record s _ f i is c hc =>
    cases b with
    | copying bs holds sum =>
      refine .copying (bs ++ encodeRecord c) ?_ ?_
      · rw [← List.append_assoc]
        exact holds.putClient c
      · rw [Server.recordSizes_cons, Server.recordSize_of_listed hc] at sum
        rw [List.length_append]
        simp only [change]
        omega
  | skip hc =>
    cases b with
    | copying bs holds sum =>
      rw [Server.recordSizes_cons, Server.recordSize_of_not_listed hc] at sum
      refine .copying bs holds ?_
      simp only [change]
      omega
  | send => exact absurd rfl quiet
  | server others st =>
    cases b with
    | measured sum =>
      refine .measured ?_
      simp only [change, uncopied]
      omega
    | copying bs holds sum =>
      refine .copying bs holds ?_
      simp only [change, uncopied]
      omega

/-- Any number of steps of a pass. -/
lemma balanced_of_exec {is : List ListInput} (b : Balanced beyond d n l)
    (e : exec (step tj beyond) l is = some (m, h)) (quiet : .send ∉ is) :
    Balanced beyond d (n + growth tj beyond l is) m := by
  induction is generalizing l n h with
  | nil =>
    cases e
    simpa [growth] using b
  | cons i is ih =>
    obtain ⟨u, o, h', st, rest, rfl⟩ := exec_cons_eq_some.mp e
    rw [List.mem_cons, not_or] at quiet
    have whole := ih (balanced_of_step b st (Ne.symm quiet.1)) rest quiet.2
    rwa [Int.add_assoc, show l.change beyond i u + growth tj beyond u is =
      growth tj beyond l (i :: is) by simp only [growth, st]] at whole

/-- `sendOffset`, once there is one. -/
def sendOffset (l : Listing) : Nat :=
  match l.thread with
  | .copying _ f _ => f.sendOffset
  | _ => 0

/-- No step but the `write` takes `sendOffset` back. -/
lemma le_sendOffset_of_step (st : l.step tj beyond i = some (m, o)) (quiet : i ≠ .send) :
    l.sendOffset ≤ m.sendOffset := by
  cases effect_of_step st with
  | measure => exact Nat.zero_le _
  | allocate => exact Nat.zero_le _
  | @record s n f i is c =>
    show f.sendOffset ≤ f.sendOffset + 4 + 4 + c.userNameLength + 4 + c.jpegOffset
    omega
  | skip => exact Nat.le_refl _
  | send => exact absurd rfl quiet
  | server => exact Nat.le_refl _

/-- `sendOffset` only grows during a pass. -/
lemma le_sendOffset_of_exec {is : List ListInput} (e : exec (step tj beyond) l is = some (m, h))
    (quiet : .send ∉ is) : l.sendOffset ≤ m.sendOffset := by
  induction is generalizing l h with
  | nil =>
    cases e
    exact Nat.le_refl _
  | cons i is ih =>
    obtain ⟨u, o, h', st, rest, rfl⟩ := exec_cons_eq_some.mp e
    rw [List.mem_cons, not_or] at quiet
    exact Nat.le_trans (le_sendOffset_of_step st (Ne.symm quiet.1)) (ih rest quiet.2)

/-- No list is sent before the end of the pass. -/
lemma list_notMem_of_step {fd : Int} {frame : List UInt8} (st : l.step tj beyond i = some (m, o))
    (quiet : i ≠ .send) : .list fd frame ∉ o := by
  cases effect_of_step st with
  | send => exact absurd rfl quiet
  | server others st => exact Server.list_notMem_of_step st others
  | _ => simp

/-- Nor is one sent by any steps in front of it. -/
lemma list_notMem_of_exec {is : List ListInput} {fd : Int} {frame : List UInt8}
    (e : exec (step tj beyond) l is = some (m, h)) (quiet : .send ∉ is) : .list fd frame ∉ h := by
  induction is generalizing l h with
  | nil =>
    cases e
    simp
  | cons i is ih =>
    obtain ⟨u, o, h', st, rest, rfl⟩ := exec_cons_eq_some.mp e
    rw [List.mem_cons, not_or] at quiet
    rw [List.mem_append, not_or]
    exact ⟨list_notMem_of_step st (Ne.symm quiet.1), ih rest quiet.2⟩

/-- Within the block the copies are inside it. -/
lemma Balanced.inside (b : Balanced beyond d n l) (le : (l.sendOffset : Int) ≤ 8 + d) : l.Inside := by
  cases b with
  | measured => trivial
  | copying => exact le

/-- What has been put is part of that. -/
lemma Balanced.sendOffset_le (b : Balanced beyond d n l) : (l.sendOffset : Int) ≤ n := by
  cases b with
  | @measured s k sum =>
    show ((0 : Nat) : Int) ≤ n
    omega
  | @copying s f is bs holds sum =>
    have length := holds.offset
    rw [List.length_append, List.length_append, length_intBytes, length_intBytes] at length
    show (f.sendOffset : Int) ≤ n
    omega

/-- At the end of the pass everything has been put. -/
lemma Balanced.sent (b : Balanced beyond d n l) (st : l.step tj beyond .send = some (m, o)) :
    n = l.sendOffset ∧ ∃ frame, o = [.list l.server.focusFd frame] ∧ (frame.length : Int) = n ∧
      (frame.drop 4).take 4 = intBytes d := by
  cases effect_of_step st with
  | @send s _ f =>
    cases b with
    | copying bs holds sum =>
      have length := holds.offset
      rw [List.length_append, List.length_append, length_intBytes, length_intBytes] at length
      rw [Server.recordSizes_nil] at sum
      refine ⟨?_, _, rfl, ?_, ?_⟩
      · show n = (f.sendOffset : Int)
        omega
      · rw [Mem.length_read]
        omega
      · rw [holds.bytes, List.append_assoc, List.drop_left' (length_intBytes _),
          List.take_left' (length_intBytes _)]

/-- The frame of a pass says its own length exactly when everything that was put is what the length pass
found. -/
lemma framed_iff {frame : List UInt8} (hd : InInt d) (length : (frame.length : Int) = n)
    (field : (frame.drop 4).take 4 = intBytes d) : Framed frame ↔ n = 8 + d := by
  rw [Framed, field, intOfBytes_intBytes_of_inInt hd, length, headerSize]
  omega

/-- A pass as far as it has come, from the length pass on. -/
lemma balanced_of_pass {s : Server} {js : List ListInput}
    (e : exec (step tj beyond) ⟨s, .asleep⟩ (.measure :: js) = some (m, h)) (quiet : .send ∉ js) :
    Balanced beyond (wrap32 (4 + s.recordSizes beyond slots))
      (12 + s.recordSizes beyond slots + growth tj beyond ⟨s, .asleep⟩ (.measure :: js)) m := by
  obtain ⟨u, o, h', st, rest, rfl⟩ := exec_cons_eq_some.mp e
  have measured : growth tj beyond ⟨s, .asleep⟩ (.measure :: js) = growth tj beyond u js := by
    simp only [growth, st, change, Int.zero_add]
  rw [measured]
  apply balanced_of_exec _ rest quiet
  cases effect_of_step st with
  | measure => exact balanced_measured

/-- One list, from the length pass to the `write`, with any steps of the rest of the server in between: the
copies stay inside the block and the length field is the number of bytes behind the header, exactly when
the records that are still to be copied grow by nothing on the whole. When their sum is not an `int`, they
have to grow by what `dataLength` has lost by wrapping. -/
theorem passes_agree_iff {s : Server} {is : List ListInput}
    (e : exec (step tj beyond) ⟨s, .asleep⟩ (.measure :: is ++ [.send]) = some (l, h))
    (quiet : .send ∉ is) :
    ((∀ js m o, js <+: is → exec (step tj beyond) ⟨s, .asleep⟩ (.measure :: js) = some (m, o) →
        m.Inside) ∧ ∀ fd frame, .list fd frame ∈ h → Framed frame) ↔
      growth tj beyond ⟨s, .asleep⟩ (.measure :: is) =
        wrap32 (4 + s.recordSizes beyond slots) - (4 + s.recordSizes beyond slots) := by
  obtain ⟨m, o, h', pass, write, rfl⟩ := exec_append_eq_some.mp e
  obtain ⟨l', o', h'', sent, done, rfl⟩ := exec_cons_eq_some.mp write
  cases done
  have quiet' : .send ∉ .measure :: is := by simpa using quiet
  obtain ⟨whole, frame, rfl, length, field⟩ := (balanced_of_pass pass quiet).sent sent
  have framed := framed_iff (wrap32_inInt _) length field
  constructor
  · rintro ⟨_, all⟩
    have own := framed.mp (all m.server.focusFd frame (by simp))
    omega
  · intro grown
    refine ⟨fun js u o' pre prefixed => ?_, fun fd frame' mem => ?_⟩
    · -- What follows only moves `sendOffset` on, up to its place at the end of the pass.
      obtain ⟨ks, rfl⟩ := pre
      obtain ⟨v, o'', h'', here, rest, rfl⟩ := exec_append_eq_some.mp
        (show exec (step tj beyond) ⟨s, .asleep⟩ (.measure :: js ++ ks) = some (m, o) from pass)
      rw [prefixed, Option.some.injEq, Prod.mk.injEq] at here
      obtain ⟨rfl, rfl⟩ := here
      rw [List.mem_append, not_or] at quiet
      have later := le_sendOffset_of_exec rest quiet.2
      apply (balanced_of_pass prefixed quiet.1).inside
      omega
    · rw [List.append_nil, List.mem_append] at mem
      rcases mem with mem | mem
      · exact absurd mem (list_notMem_of_exec pass quiet')
      · rw [List.mem_singleton] at mem
        cases mem
        exact framed.mpr (by omega)

/-- The rest of a pass in which the second of three users sends these bytes before the copying. -/
def passWith (bytes : List UInt8) : List ListInput :=
  .allocate (fun _ => 0) :: .server (.read 5 bytes .cleared) :: List.replicate slots.length .copy

/-- `passes_agree_iff` for three users and a focus request. -/
theorem passes_agree_iff_request : ∃ l h,
    exec (step .none fun _ => false) ⟨Server.three, .asleep⟩
      (.measure :: passWith (wire.stream [.request 6]) ++ [.send]) = some (l, h) ∧
    (((∀ js m o, js <+: passWith (wire.stream [.request 6]) →
        exec (step .none fun _ => false) ⟨Server.three, .asleep⟩ (.measure :: js) = some (m, o) →
        m.Inside) ∧ ∀ fd frame, .list fd frame ∈ h → Framed frame) ↔
      growth .none (fun _ => false) ⟨Server.three, .asleep⟩
        (.measure :: passWith (wire.stream [.request 6])) =
        wrap32 (4 + Server.three.recordSizes (fun _ => false) slots) -
          (4 + Server.three.recordSizes (fun _ => false) slots)) := by
  have ends : (exec (step .none fun _ => false) ⟨Server.three, .asleep⟩
      (.measure :: passWith (wire.stream [.request 6]) ++ [.send])).isSome := by decide +kernel
  obtain ⟨⟨l, h⟩, e⟩ := Option.isSome_iff_exists.mp ends
  exact ⟨l, h, e, passes_agree_iff e (by simp [passWith])⟩

/-- An image of three bytes. -/
def threeBytes : List UInt8 := [5, 0, 0, 0, 3, 0, 0, 0, 1, 2, 3]

/-- The image arrives between the two passes: the header announces 28 bytes and 31 follow. -/
theorem passes_disagree : (∃ h, Reached .none Server.Small h Server.three) ∧ ∃ l h frame,
    exec (step .none fun _ => false) ⟨Server.three, .asleep⟩
      (.measure :: passWith threeBytes ++ [.send]) = some (l, h) ∧ h = [.received 5 0, .list 4 frame] ∧
    (frame.drop 4).take 4 = intBytes 28 ∧ frame.length = headerSize + 31 ∧
    ¬ ((∀ js m o, js <+: passWith threeBytes →
        exec (step .none fun _ => false) ⟨Server.three, .asleep⟩ (.measure :: js) = some (m, o) →
        m.Inside) ∧ ∀ fd frame', .list fd frame' ∈ h → Framed frame') := by
  have sent : (exec (step .none fun _ => false) ⟨Server.three, .asleep⟩
      (.measure :: passWith threeBytes ++ [.send])).map Prod.snd =
      some [.received 5 0, .list 4 ([3, 0, 0, 0, 28, 0, 0, 0, 2, 0, 0, 0] ++
        [11, 0, 0, 0, 0, 0, 0, 0, 3, 0, 0, 0, 1, 2, 3] ++ [12, 0, 0, 0, 0, 0, 0, 0, 0, 0, 0, 0])] := by
    decide +kernel
  obtain ⟨⟨l, h⟩, e, rfl⟩ := Option.map_eq_some_iff.mp sent
  refine ⟨⟨_, Server.three_reached⟩, l, _, _, e, rfl, by decide, by decide, fun ⟨_, framed⟩ => ?_⟩
  exact absurd (framed 4 _ (List.mem_cons_of_mem _ (List.mem_singleton.mpr rfl))) (by decide)

/-! ## Runs -/

/-- A step that changes the size of no record that is still to be copied; a length pass whose sum is an
`int`. -/
def Calm (tj : TurboJpeg) (beyond : Int → Bool) (l : Listing) (i : ListInput) : Prop :=
  (i = .measure → 4 + l.server.recordSizes beyond slots < 2 ^ 31) ∧
    ∀ m o, l.step tj beyond i = some (m, o) → l.change beyond i m = 0

/-- The thread sleeps, or its pass will put what it has found. -/
def Settled (beyond : Int → Bool) (l : Listing) : Prop :=
  l.thread = .asleep ∨ ∃ d, InInt d ∧ Balanced beyond d (8 + d) l

/-- One calm step, and the list it may send. -/
lemma settled_of_step (settled : l.Settled beyond) (calm : Calm tj beyond l i)
    (st : l.step tj beyond i = some (m, o)) :
    m.Settled beyond ∧ ∀ fd frame, .list fd frame ∈ o → Framed frame := by
  obtain ⟨small, still⟩ := calm
  by_cases sends : i = .send
  · subst sends
    rcases settled with asleep | ⟨d, hd, b⟩
    · cases effect_of_step st
      cases asleep
    · obtain ⟨_, frame, rfl, length, field⟩ := b.sent st
      refine ⟨?_, fun fd frame' mem => ?_⟩
      · cases effect_of_step st
        exact .inl rfl
      · rw [List.mem_singleton] at mem
        cases mem
        exact (framed_iff hd length field).mpr rfl
  · refine ⟨?_, fun fd frame mem => absurd mem (list_notMem_of_step st sends)⟩
    rcases settled with asleep | ⟨d, hd, b⟩
    · cases effect_of_step st with
      | @measure s =>
        have less : 4 + s.recordSizes beyond slots < 2 ^ 31 := small rfl
        have found : 12 + (s.recordSizes beyond slots : Int) =
            8 + wrap32 (4 + s.recordSizes beyond slots) := by
          have fits : InInt (4 + s.recordSizes beyond slots) := ⟨by omega, by omega⟩
          rw [wrap32_of_inInt fits]
          omega
        have b : Balanced beyond _ _ ⟨s, .measured (wrap32 (s.dataLength beyond)) (s.userCount - 1)⟩ :=
          balanced_measured
        rw [found] at b
        exact .inr ⟨_, wrap32_inInt _, b⟩
      | server others st => exact .inl asleep
      | _ => cases asleep
    · have b' := balanced_of_step b st sends
      rw [still m o st, Int.add_zero] at b'
      exact .inr ⟨d, hd, b'⟩

/-- Every run of calm steps: the copies stay inside their blocks, and every list says its own length. -/
theorem lists_agree {s : Server} (r : Run (step tj beyond) (Calm tj beyond) ⟨s, .asleep⟩ h l) :
    l.Inside ∧ ∀ fd frame, .list fd frame ∈ h → Framed frame := by
  have kept : l.Settled beyond ∧ ∀ fd frame, .list fd frame ∈ h → Framed frame := by
    apply r.invariant (I := fun l h => l.Settled beyond ∧ ∀ fd frame, .list fd frame ∈ h → Framed frame)
    · exact ⟨.inl rfl, by simp⟩
    · rintro l h i m o ⟨settled, framed⟩ calm st
      obtain ⟨settled', framed'⟩ := settled_of_step settled calm st
      refine ⟨settled', fun fd frame mem => ?_⟩
      exact (List.mem_append.mp mem).elim (framed fd frame) (framed' fd frame)
  refine ⟨?_, kept.2⟩
  rcases kept.1 with asleep | ⟨d, _, b⟩
  · obtain ⟨s, thread⟩ := l
    subst asleep
    trivial
  · exact b.inside b.sendOffset_le

end Listing

end Projector
