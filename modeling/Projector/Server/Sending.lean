import Projector.Base.Writes
import Projector.Server.UserList

/-!
# Partial writes

The loops that hand a buffer to `write`: two in `focusObserver`, which send the twelve bytes of a grant,
and one in `userListThread`, which sends a frame of any length. Those of a grant subtract the result of
`write` from what is left, also when it is -1 (`grant_sent_iff`); that of the list subtracts what is left
from itself, so that it ends after one `write` (`list_sent_iff`).
-/

namespace Projector

/-- Memory in which a block is preceded by something else. -/
def Mem.around (before : Int → UInt8) (m : Mem) : Int → UInt8 :=
  fun i => if 0 ≤ i then m i.toNat else before i

/-- Within the block it is the block. -/
lemma Mem.slice_around (before : Int → UInt8) (m : Mem) (n : Nat) :
    Sender.slice (m.around before) 0 n = m.read 0 n := by
  simp only [Sender.slice, read]
  apply List.map_congr_left
  intro i _
  simp [around]

namespace Server

/-! ## Grants -/

/-- The buffer of a grant: a header of type 4 with the length 4, and the value 1. -/
def grantFill (fresh : Mem) : Fill :=
  Fill.mk fresh 0 []
    |>.putInt changeFocusStatus
    |>.putInt 4
    |>.putInt 1

/-- The twelve bytes of a grant. -/
def grantBytes : List UInt8 := intBytes changeFocusStatus ++ intBytes 4 ++ intBytes 1

/-- A loop of a grant: `writeRemain -= written`. -/
def grantSender (totalSize : Int) (results : Nat → Int) : Sender where
  next writeRemain written := writeRemain - written
  total := totalSize
  results := results

/-- The buffer of a grant holds its twelve bytes. -/
lemma grantFill_bytes (fresh : Mem) : (grantFill fresh).sendBuf.read 0 12 = grantBytes := by
  have holds : (grantFill fresh).Holds grantBytes :=
    (((Fill.holds_nil fresh).putInt changeFocusStatus).putInt 4).putInt 1
  have bytes := holds.bytes
  rwa [holds.offset] at bytes

/-- The calls of `write` in `grantLoop` are the rounds of the sender, with the results it uses. -/
lemma grantLoop_eq_some {remain : Int} {ws : List Int} {calls : List Write} (results : Nat → Int)
    (e : ∀ k (h : k < ws.length), results k = ws[k]) :
    grantLoop remain ws = some calls ↔
      (∀ k < ws.length, 0 < (grantSender remain results).remain k) ∧
      (grantSender remain results).remain ws.length ≤ 0 ∧
      calls = (List.range ws.length).map fun k =>
        ⟨12 - (grantSender remain results).remain k, (grantSender remain results).remain k,
          results k⟩ := by
  induction ws generalizing remain calls results with
  | nil =>
    have left : (grantSender remain results).remain 0 = remain := rfl
    by_cases busy : 0 < remain
    · simp [grantLoop, busy, left]
    · have ended : remain ≤ 0 := by omega
      simp [grantLoop, left, ended, eq_comm]
  | cons w ws ih =>
    have first : results 0 = w := e 0 (by simp)
    have later (k : Nat) (h : k < ws.length) : results (k + 1) = ws[k] := e (k + 1) (by simpa using h)
    by_cases busy : 0 < remain
    · have shift (k : Nat) : (grantSender remain results).remain (k + 1) =
          (grantSender (remain - w) fun k => results (k + 1)).remain k := by
        rw [← first]
        exact Sender.remain_shift (p := grantSender remain results) busy k
      have left : (grantSender remain results).remain 0 = remain := rfl
      simp only [grantLoop, gt_iff_lt, if_pos busy, Option.map_eq_some_iff, ih _ later,
        List.length_cons, List.range_succ_eq_map, List.map_cons, List.map_map, shift, left, first]
      constructor
      · rintro ⟨rest, ⟨made, ended, rfl⟩, rfl⟩
        refine ⟨fun k lt => ?_, ended, ?_⟩
        · cases k with
          | zero => exact busy
          | succ k =>
            rw [shift]
            exact made k (by omega)
        · simp [Function.comp_def, shift]
      · rintro ⟨made, ended, rfl⟩
        refine ⟨_, ⟨fun k lt => ?_, ended, rfl⟩, ?_⟩
        · rw [← shift]
          exact made (k + 1) (by omega)
        · simp [Function.comp_def, shift]
    · have idle : ¬ ∀ k < (w :: ws).length, 0 < (grantSender remain results).remain k :=
        fun made => busy (made 0 (by simp))
      simp only [grantLoop, gt_iff_lt, if_neg busy]
      constructor
      · intro e
        cases e
      · intro h
        exact absurd h.1 idle

/-- A grant under any results of `write`, each -1 or some of the bytes requested: every slice is inside the
buffer, and a loop that ends has sent the grant once and in order, exactly when failed writes are never
ahead of the bytes taken before them and a grant that gets done has no failed write. -/
theorem grant_sent_iff (fresh : Mem) (before : Int → UInt8) (results : Nat → Int)
    (legal : (grantSender (headerSize + 4) results).Legal) :
    (grantSender (headerSize + 4) results).InBuffer ∧
      (grantSender (headerSize + 4) results).SendsAll ((grantFill fresh).sendBuf.around before)
        grantBytes ↔
      Sender.Steady (headerSize + 4) results := by
  have bytes : Sender.slice ((grantFill fresh).sendBuf.around before) 0 12 = grantBytes := by
    rw [Mem.slice_around, grantFill_bytes]
  rw [← bytes]
  exact Sender.inBuffer_and_sendsAll_iff rfl legal (Int.natCast_pos.mpr (by decide : 0 < 12))

/-- `grant_sent_iff` for writes of one byte each. -/
theorem grant_sent_iff_ones :
    (grantSender (headerSize + 4) fun _ => 1).InBuffer ∧
      (grantSender (headerSize + 4) fun _ => 1).SendsAll
        ((grantFill fun _ => 0).sendBuf.around fun _ => 0) grantBytes ↔
      Sender.Steady (headerSize + 4) fun _ => 1 :=
  grant_sent_iff (fun _ => 0) (fun _ => 0) (fun _ => 1) fun _ made => .inr ⟨le_rfl, made⟩

/-- The first `write` of a grant fails: the next one is given 13 bytes from in front of the buffer, and
when the loop ends the socket has taken 13 bytes. -/
theorem grant_not_sent :
    (grantSender (headerSize + 4) fun n => if n = 0 then -1 else 1).Legal ∧
    (grantSender (headerSize + 4) fun n => if n = 0 then -1 else 1).offset 1 = -1 ∧
    ¬ ((grantSender (headerSize + 4) fun n => if n = 0 then -1 else 1).InBuffer ∧
      (grantSender (headerSize + 4) fun n => if n = 0 then -1 else 1).SendsAll
        ((grantFill fun _ => 0).sendBuf.around fun _ => 0) grantBytes) := by
  refine ⟨fun n made => ?_, by decide, ?_⟩
  · by_cases first : n = 0
    · exact .inl (if_pos first)
    · refine .inr ?_
      show 1 ≤ (if n = 0 then (-1 : Int) else 1) ∧ (if n = 0 then (-1 : Int) else 1) ≤ _
      rw [if_neg first]
      exact ⟨le_rfl, made⟩
  · rintro ⟨inside, _⟩
    exact absurd (inside 1 (by decide)).1 (by decide)

/-! ## The list -/

/-- The loop of the list: `sndBufRemain -= sndBufRemain`, whatever `write` returned. -/
def listSender (sendOffset : Nat) (results : Nat → Int) : Sender where
  next sndBufRemain _ := sndBufRemain - sndBufRemain
  total := sendOffset
  results := results

variable {beyond : Int → Bool} {fresh : Mem} {s : Server}

/-- A frame has at least its header and the count. -/
lemma sendOffset_pos (beyond : Int → Bool) (fresh : Mem) (s : Server) :
    0 < (s.fill beyond fresh).sendOffset := by
  have filled : (s.fill beyond fresh).Holds _ := fill_holds
  rw [filled.offset, List.length_append, List.length_append, length_intBytes, length_intBytes]
  omega

/-- The loop makes one round, and the socket takes what that `write` returned. -/
lemma list_accepted {sendOffset : Nat} (pos : 0 < sendOffset) (results : Nat → Int)
    (mem : Int → UInt8) {n : Nat} :
    ((listSender sendOffset results).remain n ≤ 0 ↔ 0 < n) ∧
    (0 < n → (listSender sendOffset results).accepted mem n =
      Sender.slice mem 0 (results 0).toNat) := by
  have start : 0 < (listSender sendOffset results).remain 0 := by
    show (0 : Int) < sendOffset
    omega
  have ended : (listSender sendOffset results).remain 1 = 0 := by
    rw [Sender.remain_succ start]
    show (_ : Int) - _ = 0
    omega
  have first : (listSender sendOffset results).accepted mem 1 =
      Sender.slice mem 0 (results 0).toNat := by
    rw [Sender.accepted_succ start, Sender.offset]
    simp [Sender.accepted, Sender.remain, listSender]
  have after (h : 0 < n) : (listSender sendOffset results).remain n =
      (listSender sendOffset results).remain 1 ∧
      (listSender sendOffset results).accepted mem n =
        (listSender sendOffset results).accepted mem 1 :=
    Sender.done_of_le _ (Int.le_of_eq ended) h
  refine ⟨⟨fun le => ?_, fun h => ?_⟩, fun h => (after h).2.trans first⟩
  · by_contra zero
    obtain rfl : n = 0 := by omega
    omega
  · exact Int.le_of_eq ((after h).1.trans ended)

/-- For every frame and all results of `write`, each between 1 and the number of bytes requested: the loop
ends with the whole frame taken by the socket exactly when the first `write` takes all of it. -/
theorem list_sent_iff (before : Int → UInt8) (results : Nat → Int)
    (success : (listSender (s.fill beyond fresh).sendOffset results).Succeeds) :
    (∃ n, (listSender (s.fill beyond fresh).sendOffset results).remain n ≤ 0 ∧
      (listSender (s.fill beyond fresh).sendOffset results).accepted
        ((s.fill beyond fresh).sendBuf.around before) n = s.frame beyond fresh) ↔
      results 0 = (s.frame beyond fresh).length := by
  have pos := sendOffset_pos beyond fresh s
  have length : (s.frame beyond fresh).length = (s.fill beyond fresh).sendOffset := by
    simp [frame]
  obtain ⟨one, _⟩ := success 0 (by
    show (0 : Int) < (s.fill beyond fresh).sendOffset
    omega)
  have one : 1 ≤ results 0 := one
  constructor
  · rintro ⟨n, ended, taken⟩
    obtain ⟨ends, accepted⟩ := list_accepted pos results
      ((s.fill beyond fresh).sendBuf.around before) (n := n)
    rw [accepted (ends.mp ended)] at taken
    have same := congrArg List.length taken
    rw [Sender.length_slice] at same
    omega
  · intro all
    obtain ⟨ends, accepted⟩ := list_accepted pos results
      ((s.fill beyond fresh).sendBuf.around before) (n := 1)
    refine ⟨1, ends.mpr Nat.one_pos, ?_⟩
    rw [accepted Nat.one_pos, all, Int.toNat_natCast, length, Mem.slice_around, frame]

/-- `list_sent_iff` for three users and a socket that takes everything. -/
theorem list_sent_iff_three :
    (∃ n, (listSender (three.fill (fun _ => false) fun _ => 0).sendOffset fun _ => 36).remain n ≤ 0 ∧
      (listSender (three.fill (fun _ => false) fun _ => 0).sendOffset fun _ => 36).accepted
        ((three.fill (fun _ => false) fun _ => 0).sendBuf.around fun _ => 0) n =
          three.frame (fun _ => false) fun _ => 0) ↔
      (36 : Int) = (three.frame (fun _ => false) fun _ => 0).length := by
  have size : (three.fill (fun _ => false) fun _ => 0).sendOffset = 36 := by decide
  refine list_sent_iff (fun _ => 0) (fun _ => 36) fun n made => ⟨(by decide : (1 : Int) ≤ 36), ?_⟩
  have first : n = 0 := by
    by_contra later
    have pos := sendOffset_pos (fun _ => false) (fun _ => 0) three
    have ended := (list_accepted pos (fun _ => 36) (fun _ => 0) (n := n)).1.mpr (by omega)
    omega
  subst first
  show (36 : Int) ≤ (three.fill (fun _ => false) fun _ => 0).sendOffset
  rw [size]
  exact le_rfl

/-- A socket that takes one byte of the frame for three users: the loop ends and the rest is lost. -/
theorem list_not_sent :
    three.listGuard ∧
    (listSender (three.fill (fun _ => false) fun _ => 0).sendOffset fun _ => 1).Succeeds ∧
    (listSender (three.fill (fun _ => false) fun _ => 0).sendOffset fun _ => 1).remain 1 ≤ 0 ∧
    ¬ ∃ n, (listSender (three.fill (fun _ => false) fun _ => 0).sendOffset fun _ => 1).remain n ≤ 0 ∧
      (listSender (three.fill (fun _ => false) fun _ => 0).sendOffset fun _ => 1).accepted
        ((three.fill (fun _ => false) fun _ => 0).sendBuf.around fun _ => 0) n =
          three.frame (fun _ => false) fun _ => 0 := by
  have pos := sendOffset_pos (fun _ => false) (fun _ => 0) three
  have loop (n : Nat) := list_accepted pos (fun _ => 1)
    ((three.fill (fun _ => false) fun _ => 0).sendBuf.around fun _ => 0) (n := n)
  refine ⟨by decide, fun n made => ⟨le_rfl, made⟩, (loop 1).1.mpr Nat.one_pos, ?_⟩
  rintro ⟨n, ended, taken⟩
  rw [(loop n).2 ((loop n).1.mp ended)] at taken
  have size : (three.frame (fun _ => false) fun _ => 0).length = 36 := by decide
  have same := congrArg List.length taken
  rw [Sender.length_slice, size] at same
  contradiction

end Server

end Projector
