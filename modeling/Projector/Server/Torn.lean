import Projector.Server.Outgoing

/-!
# A list in a grant

`focusObserver` may have written a part of a grant when `userListThread` writes a list to the same
connection. The list begins with its type, which is no part of a grant, so as soon as `write` has taken a
byte of it nothing that follows can make the stream of the connection good again: `list_tears_iff`.
-/

namespace Projector

/-- The header of a message says how long its payload is. -/
lemma wire_delimited : wire.Delimited := by
  intro m m' e
  obtain ⟨_, length⟩ := List.append_inj e (by rw [length_intBytes, length_intBytes])
  have same := congrArg intOfBytes length
  rw [intOfBytes_intBytes_of_inInt m.length_inInt, intOfBytes_intBytes_of_inInt m'.length_inInt] at same
  exact Int.ofNat.inj same

/-- Whole messages are a stream. -/
lemma exists_stream {fs : List (List UInt8)}
    (whole : ∀ f ∈ fs, ∃ m : Msg, m.FromServer ∧ f = wire.encode m) :
    ∃ ms : List Msg, (∀ m ∈ ms, m.FromServer) ∧ fs.flatten = wire.stream ms := by
  induction fs with
  | nil => exact ⟨[], by simp, rfl⟩
  | cons f fs ih =>
    obtain ⟨m, server, rfl⟩ := whole f List.mem_cons_self
    obtain ⟨ms, servers, rest⟩ := ih fun f mem => whole f (List.mem_cons_of_mem _ mem)
    refine ⟨m :: ms, ?_, by rw [List.flatten_cons, rest, wire.stream_cons]⟩
    rintro n (_ | ⟨_, mem⟩)
    · exact server
    · exact servers n mem

/-- How a list begins. -/
lemma encode_list {m : Msg} (list : m.type = sendUserList) : ∃ rest, wire.encode m = 3 :: rest := by
  have bytes : wire.encode m = intBytes m.type ++ intBytes m.payload.length ++ m.payload := rfl
  rw [bytes, list, List.append_assoc]
  exact ⟨_, rfl⟩

/-- The first byte of a list cannot follow a part of a grant. -/
lemma not_prefix_of_torn {k : Nat} {rest : List UInt8} {ms : List Msg} (pos : 0 < k) (lt : k < 12)
    (servers : ∀ m ∈ ms, m.FromServer) :
    ¬ Server.grantBytes.take k ++ 3 :: rest <+: wire.stream ms := by
  rintro ⟨more, e⟩
  have length : (Server.grantBytes.take k).length = k := by
    rw [List.length_take]
    exact Nat.min_eq_left (Nat.le_of_lt lt)
  rw [List.append_assoc] at e
  cases ms with
  | nil => simp at e
  | cons m ms =>
    rw [wire.stream_cons] at e
    rcases servers m List.mem_cons_self with rfl | list
    · -- The grant would have to go on with this byte.
      have byte := congrArg (fun l => l[k]?) e
      have grant : (wire.encode (.request 1) ++ wire.stream ms)[k]? = Server.grantBytes[k]? :=
        List.getElem?_append_left lt
      rw [List.getElem?_append_right (by rw [length]), length, Nat.sub_self, grant] at byte
      have three : (3 : UInt8) ∈ Server.grantBytes := List.mem_of_getElem? byte.symm
      exact absurd three (by decide)
    · -- A list does not begin like a grant.
      have byte := congrArg (fun l => l[0]?) e
      obtain ⟨cs, list⟩ := encode_list list
      rw [List.getElem?_append_left (by rw [length]; exact pos), List.getElem?_take_of_lt pos, list] at byte
      have first : Server.grantBytes[0]? = some 3 := byte
      exact absurd first (by decide)

/-- What follows at the same connection is received behind what was received before. -/
lemma received_extends {fd : Int} {h o : List ProgramOutput} (stays : .main (.accepted fd) ∉ o) :
    received fd h <+: received fd (h ++ o) := by
  induction o generalizing h with
  | nil => rw [List.append_nil]
  | cons x o ih =>
    rw [List.mem_cons, not_or] at stays
    have first : received fd h <+: received fd (h ++ [x]) := by
      rw [received_append, List.foldl_cons, List.foldl_nil]
      unfold ProgramOutput.add
      split
      · rename_i d
        rw [if_neg]
        rintro rfl
        exact stays.1 rfl
      · split
        · exact List.prefix_append ..
        · exact List.prefix_rfl
      · split
        · exact List.prefix_append ..
        · exact List.prefix_rfl
      · exact List.prefix_rfl
    have rest := ih (h := h ++ [x]) stays.2
    rw [List.append_assoc] at rest
    exact first.trans rest

namespace Program

variable {tj : TurboJpeg} {p q : Program} {h : List ProgramOutput} {fd : Int} {serverSocket : Int}
  {screen : Screen} {fbp chunk : Mem}

/-- Where a list is written. -/
lemma copied_of_list {s : Server} {beyond : Int → Bool} {fresh : Mem} {nwrite : Int}
    {at_ at' : ListerAt} {frame : List UInt8}
    (st : s.listerStep beyond fresh nwrite at_ = some (at', [.list fd frame nwrite])) :
    ∃ n f, at_ = .copying n f [] ∧ at' = .asleep ∧ frame = f.sendBuf.read 0 f.sendOffset := by
  cases at_ with
  | asleep => cases st
  | counting => cases st
  | measuring k n is =>
    cases is with
    | nil =>
      simp only [Server.listerStep, Option.ite_none_left_eq_some, Option.some.injEq, Prod.mk.injEq,
        reduceCtorEq, and_false] at st
    | cons i is => cases st
  | copying n f is =>
    cases is with
    | nil =>
      cases st
      exact ⟨n, f, rfl, rfl, rfl⟩
    | cons i is =>
      simp only [Server.listerStep] at st
      cases hc : s.listed beyond i with
      | none =>
        rw [hc] at st
        cases st
      | some c =>
        rw [hc] at st
        cases st

/-- Of a grant that is partly written some bytes remain, and some are written. -/
lemma Streams.partly (inv : Streams p h) {n : Int} (grant : p.partly = some (fd, n)) : 0 < n ∧ n < 12 := by
  unfold Program.partly at grant
  cases at_ : p.observer with
  | granting m =>
    have left := inv.remaining m (by rw [at_]; rfl)
    rw [at_] at grant
    simp only [Option.ite_none_right_eq_some, Option.some.injEq, Prod.mk.injEq] at grant
    omega
  | offering i m =>
    have left := inv.remaining m (by rw [at_]; rfl)
    rw [at_] at grant
    simp only [Option.ite_none_right_eq_some, Option.some.injEq, Prod.mk.injEq] at grant
    omega
  | _ =>
    rw [at_] at grant
    cases grant

/-- What a connection has got of a grant can be completed. -/
lemma unfinished_prefix (fd : Int) : p.unfinished fd <+: Server.grantBytes := by
  unfold unfinished
  cases p.partly with
  | none => exact List.nil_prefix
  | some x =>
    obtain ⟨d, n⟩ := x
    simp only
    split
    · exact List.take_prefix ..
    · exact List.nil_prefix

/-- The other user is to get the focus, but before the grant is written it gives way to the holder. The
grant goes to the holder then, and the list behind its first bytes. -/
def listInGrant : List ProgramInput :=
  untilList ++
  .select (fun i => i = 4 ∨ i = 5) :: List.replicate 4 (.next ⟨0, 0, .blank⟩ .error) ++
  [.next ⟨0, 0, .blank⟩ (.data (wire.stream [.request 5]) .cleared),
    .observer (fun _ => false) 0, .observer (fun _ => false) 0,
    .next ⟨0, 0, .blank⟩ (.data (wire.stream [.request 4]) .cleared),
    .observer (fun _ => false) 7]

/-- All descriptors of this run have a slot. -/
lemma inTable_listInGrant : ∀ i ∈ listInGrant, InTable i := by
  intro i mem
  simp only [listInGrant, List.mem_append, List.mem_cons, List.not_mem_nil, or_false] at mem
  rcases mem with (mem | rfl | mem) | rfl | rfl | rfl | rfl | rfl
  · exact inTable_untilList i mem
  · rintro _ ⟨⟩ i hi
    simp only [decide_eq_true_eq] at hi
    rcases hi with rfl | rfl <;> decide
  · rw [List.eq_of_mem_replicate mem]
    rintro _ ⟨⟩
    trivial
  · rintro _ ⟨⟩
    trivial
  · exact inTable_thread rfl
  · exact inTable_thread rfl
  · rintro _ ⟨⟩
    trivial
  · exact inTable_thread rfl

end Program

end Projector
