import Mathlib.Algebra.BigOperators.Group.Finset.Basic
import Mathlib.Order.Monotone.Basic
import Mathlib.Tactic.Lemma
import Mathlib.Tactic.TypeStar

/-!
# Loops that send a buffer with `write`

A loop that hands the rest of a buffer to `write` as long as it takes some bytes to be left:
`while (remain > 0) { written = write(fd, buf + total - remain, remain); remain = next(remain, written); }`.
The results of `write` are an infinite sequence, of which the loop uses the first ones. `Sender.remain` is
the number of bytes that the loop takes to be left before each round, `Sender.accepted` what the socket
has taken. The memory around the buffer is a function on all integers, since a loop that counts wrongly
hands over bytes from outside.

`Sender.accepted_eq` is the case of a loop that subtracts what was written, as long as no `write` fails;
`Sender.lt_length_accepted` says that behind a failure such a loop sends too much.
-/

namespace Projector

/-- A sending loop with the results that its calls of `write` have. -/
structure Sender where
  next : Int → Int → Int
  total : Int
  results : Nat → Int

namespace Sender

/-- What the loop takes to be left after `n` rounds. -/
def remain (p : Sender) : Nat → Int
  | 0 => p.total
  | n + 1 => if 0 < p.remain n then p.next (p.remain n) (p.results n) else p.remain n

/-- Where the bytes start that round `n` hands over. -/
def offset (p : Sender) (n : Nat) : Int := p.total - p.remain n

/-- A `write` fails or takes at least one of the bytes it is given. -/
def Legal (p : Sender) : Prop :=
  ∀ n, 0 < p.remain n → p.results n = -1 ∨ (1 ≤ p.results n ∧ p.results n ≤ p.remain n)

/-- No `write` fails. -/
def Succeeds (p : Sender) : Prop :=
  ∀ n, 0 < p.remain n → 1 ≤ p.results n ∧ p.results n ≤ p.remain n

variable {β : Type*}

/-- `n` bytes of memory. -/
def slice (mem : Int → β) (off : Int) (n : Nat) : List β := (List.range n).map fun i : Nat => mem (off + i)

/-- What the socket took in `n` rounds. -/
def accepted (p : Sender) (mem : Int → β) : Nat → List β
  | 0 => []
  | n + 1 => p.accepted mem n ++
      if 0 < p.remain n then slice mem (p.offset n) (p.results n).toNat else []

/-- Every slice handed to `write` is inside the buffer. -/
def InBuffer (p : Sender) : Prop :=
  ∀ n, 0 < p.remain n → 0 ≤ p.offset n ∧ p.offset n + p.remain n ≤ p.total

/-- When the loop ends the socket has taken these bytes, each once and in order. -/
def SendsAll (p : Sender) (mem : Int → β) (bs : List β) : Prop :=
  ∀ n, p.remain n ≤ 0 → p.accepted mem n = bs

variable {p : Sender} {mem : Int → β} {n m : Nat}

/-- A slice has the length asked for. -/
@[simp] lemma length_slice (mem : Int → β) (off : Int) (n : Nat) : (slice mem off n).length = n := by
  simp [slice]

/-- One slice behind another. -/
lemma slice_append (mem : Int → β) (off : Int) (n m : Nat) :
    slice mem off (n + m) = slice mem off n ++ slice mem (off + n) m := by
  simp [slice, List.range_add, Int.add_assoc]

/-- A round of the loop takes off what its rule says. -/
lemma remain_succ (h : 0 < p.remain n) : p.remain (n + 1) = p.next (p.remain n) (p.results n) := by
  rw [remain, if_pos h]

/-- Behind the loop nothing changes. -/
lemma remain_done (h : p.remain n ≤ 0) : p.remain (n + 1) = p.remain n := by
  rw [remain, if_neg (by omega)]

/-- In a round the socket takes what `write` returned, from the offset on. -/
lemma accepted_succ (h : 0 < p.remain n) :
    p.accepted mem (n + 1) = p.accepted mem n ++ slice mem (p.offset n) (p.results n).toNat := by
  rw [accepted, if_pos h]

/-- Behind the loop the socket takes nothing more. -/
lemma accepted_done (h : p.remain n ≤ 0) : p.accepted mem (n + 1) = p.accepted mem n := by
  rw [accepted, if_neg (by omega), List.append_nil]

variable (mem) in
/-- A loop that has ended stays so. -/
lemma done_of_le (h : p.remain n ≤ 0) (le : n ≤ m) :
    p.remain m = p.remain n ∧ p.accepted mem m = p.accepted mem n := by
  induction m, le using Nat.le_induction with
  | base => exact ⟨rfl, rfl⟩
  | succ m _ ih =>
    obtain ⟨same, taken⟩ := ih
    have ended : p.remain m ≤ 0 := by omega
    exact ⟨(remain_done ended).trans same, (accepted_done ended).trans taken⟩

/-- Before a round that is made all rounds are. -/
lemma pos_of_le (h : 0 < p.remain n) (le : m ≤ n) : 0 < p.remain m := by
  by_contra ended
  have same := (done_of_le (p := p) (fun _ => ()) (by omega : p.remain m ≤ 0) le).1
  omega

variable (mem) in
/-- A loop that has ended did so after some round. -/
lemma exists_end (start : 0 < p.total) (h : p.remain n ≤ 0) :
    ∃ m, m < n ∧ 0 < p.remain m ∧ p.remain (m + 1) ≤ 0 ∧ p.accepted mem n = p.accepted mem (m + 1) := by
  induction n with
  | zero =>
    have none : p.total ≤ 0 := h
    omega
  | succ n ih =>
    by_cases ended : p.remain n ≤ 0
    · obtain ⟨m, lt, made, last, taken⟩ := ih ended
      exact ⟨m, by omega, made, last, (accepted_done ended).trans taken⟩
    · exact ⟨n, by omega, by omega, h, rfl⟩

/-- The rounds behind the first one are those of a loop that starts with what is left. -/
lemma remain_shift (start : 0 < p.total) (n : Nat) :
    p.remain (n + 1) = Sender.remain ⟨p.next, p.next p.total (p.results 0),
      fun k => p.results (k + 1)⟩ n := by
  induction n with
  | zero => exact remain_succ (n := 0) start
  | succ n ih =>
    show (if 0 < p.remain (n + 1) then p.next (p.remain (n + 1)) (p.results (n + 1))
      else p.remain (n + 1)) = _
    rw [ih]
    rfl

section subtract

/-- The loop subtracts the result of `write` from what is left. -/
def Subtracts (p : Sender) : Prop := p.next = fun remain written => remain - written

/-- A loop that subtracts the result has that much less left. -/
lemma remain_sub (h : p.Subtracts) (made : 0 < p.remain n) :
    p.remain (n + 1) = p.remain n - p.results n := by
  rw [remain_succ made, h]

/-- So its offset moves on by the result. -/
lemma offset_add (h : p.Subtracts) (made : 0 < p.remain n) :
    p.offset (n + 1) = p.offset n + p.results n := by
  rw [offset, remain_sub h made, offset]
  omega

/-- As long as the loop goes on, the results have been subtracted. -/
lemma remain_eq (h : p.Subtracts) (made : ∀ k < n, 0 < p.remain k) :
    p.remain n = p.total - ∑ k ∈ Finset.range n, p.results k := by
  induction n with
  | zero => simp [remain]
  | succ n ih =>
    have before := ih fun k lt => made k (by omega)
    rw [remain_sub h (made n (by omega)), before, Finset.sum_range_succ]
    omega

/-- A round is made when the results before it have not come to the total. -/
lemma pos_iff (h : p.Subtracts) :
    0 < p.remain n ↔ ∀ k ≤ n, ∑ j ∈ Finset.range k, p.results j < p.total := by
  constructor
  · intro pos k le
    have sum := remain_eq (n := k) h fun j lt => pos_of_le pos (by omega)
    have made := pos_of_le pos le
    omega
  · intro below
    induction n with
    | zero =>
      have start := below 0 (Nat.le_refl 0)
      simpa [remain] using start
    | succ n ih =>
      have before := ih fun k le => below k (by omega)
      have sum := remain_eq (n := n + 1) h fun j lt => pos_of_le before (by omega)
      have last := below (n + 1) (Nat.le_refl _)
      omega

/-- What is left is never negative. -/
lemma remain_nonneg (h : p.Subtracts) (legal : p.Legal) (start : 0 ≤ p.total) (n : Nat) :
    0 ≤ p.remain n := by
  induction n with
  | zero => exact start
  | succ n ih =>
    by_cases ended : p.remain n ≤ 0
    · rwa [remain_done ended]
    · have made : 0 < p.remain n := by omega
      rw [remain_sub h made]
      rcases legal n made with failed | ⟨_, le⟩ <;> omega

/-- As long as no `write` has failed, the socket has taken a first part of the buffer. -/
lemma accepted_eq (h : p.Subtracts) (legal : p.Legal)
    (success : ∀ k < n, 0 < p.remain k → p.results k ≠ -1) :
    p.accepted mem n = slice mem 0 (p.offset n).toNat ∧ 0 ≤ p.offset n := by
  induction n with
  | zero => simp [accepted, offset, remain, slice]
  | succ n ih =>
    obtain ⟨taken, nonneg⟩ := ih fun k lt => success k (by omega)
    by_cases ended : p.remain n ≤ 0
    · rw [accepted_done ended, offset, remain_done ended]
      exact ⟨taken, nonneg⟩
    · have made : 0 < p.remain n := by omega
      obtain ⟨one, _⟩ := (legal n made).resolve_left (success n (by omega) made)
      have further : p.offset (n + 1) = p.offset n + p.results n := offset_add h made
      have split : (p.offset (n + 1)).toNat = (p.offset n).toNat + (p.results n).toNat := by omega
      refine ⟨?_, by omega⟩
      rw [accepted_succ made, taken, split, slice_append, Int.zero_add, Int.toNat_of_nonneg nonneg]

/-- How many bytes more the socket has taken than the loop has subtracted. -/
def excess (p : Sender) (mem : Int → β) (n : Nat) : Int := (p.accepted mem n).length - p.offset n

/-- A failed `write` is counted as one byte less. -/
lemma excess_succ_of_failed (h : p.Subtracts) (made : 0 < p.remain n) (failed : p.results n = -1) :
    p.excess mem (n + 1) = p.excess mem n + 1 := by
  rw [excess, accepted_succ made, offset_add h made, List.length_append, length_slice, excess, failed]
  omega

/-- Every other round counts right. -/
lemma excess_le_succ (h : p.Subtracts) (legal : p.Legal) (n : Nat) :
    p.excess mem n ≤ p.excess mem (n + 1) := by
  by_cases ended : p.remain n ≤ 0
  · rw [excess, excess, accepted_done ended, offset, offset, remain_done ended]
  · have made : 0 < p.remain n := by omega
    rcases legal n made with failed | ⟨one, _⟩
    · rw [excess_succ_of_failed h made failed]
      omega
    · rw [excess, excess, accepted_succ made, offset_add h made, List.length_append, length_slice]
      omega

variable (mem) in
/-- Behind a failed `write` the socket has taken too many bytes. -/
lemma lt_length_accepted (h : p.Subtracts) (legal : p.Legal) {k : Nat} (lt : k < n)
    (made : 0 < p.remain k) (failed : p.results k = -1) :
    p.offset n < (p.accepted mem n).length := by
  have grows : Monotone (p.excess mem) := monotone_nat_of_le_succ (excess_le_succ h legal)
  have start : p.excess mem 0 = 0 := by simp [excess, accepted, offset, remain]
  have before := grows (Nat.zero_le k)
  have after := grows (Nat.succ_le_of_lt lt)
  rw [Nat.succ_eq_add_one, excess_succ_of_failed h made failed] at after
  have count : p.excess mem n = (p.accepted mem n).length - p.offset n := rfl
  omega

/-- No failed `write` is ahead of the bytes taken before it, and a loop that gets done has none. -/
structure Steady (total : Int) (results : Nat → Int) : Prop where
  ahead : ∀ n, (∀ k ≤ n, ∑ j ∈ Finset.range k, results j < total) →
    0 ≤ ∑ j ∈ Finset.range n, results j
  done : ∀ n, (∀ k < n, ∑ j ∈ Finset.range k, results j < total) →
    ∑ j ∈ Finset.range n, results j = total → ∀ k < n, results k ≠ -1

/-- A loop that subtracts the results stays in its buffer and sends it exactly when the results are
steady. -/
theorem inBuffer_and_sendsAll_iff (h : p.Subtracts) (legal : p.Legal) (start : 0 < p.total) :
    p.InBuffer ∧ p.SendsAll mem (slice mem 0 p.total.toNat) ↔ Steady p.total p.results := by
  have sum (n : Nat) (made : ∀ k < n, 0 < p.remain k) := remain_eq (n := n) h made
  constructor
  · rintro ⟨inside, sends⟩
    constructor
    case ahead =>
      intro n below
      have made : 0 < p.remain n := (pos_iff h).mpr below
      have left := sum n fun k lt => pos_of_le made (by omega)
      have first := (inside n made).1
      rw [offset] at first
      omega
    case done =>
      intro n below total k lt failed
      have made (k : Nat) (lt : k < n) : 0 < p.remain k :=
        (pos_iff h).mpr fun j le => below j (by omega)
      have ended := sum n made
      -- The socket has taken more bytes than there are.
      have more := lt_length_accepted mem h legal lt (made k lt) failed
      rw [sends n (by omega), length_slice, offset] at more
      omega
  · intro steady
    constructor
    · intro n made
      have left := sum n fun k lt => pos_of_le made (by omega)
      have nonneg := steady.ahead n ((pos_iff h).mp made)
      rw [offset]
      omega
    · intro n ended
      obtain ⟨m, _, made, last, taken⟩ := exists_end mem start ended
      have zero : p.remain (m + 1) = 0 := by
        have nonneg := remain_nonneg h legal (by omega) (m + 1)
        omega
      have before (k : Nat) (lt : k < m + 1) : 0 < p.remain k := pos_of_le made (by omega)
      have total := sum (m + 1) before
      have success := steady.done (m + 1)
        (fun k lt => (pos_iff h).mp (before k lt) k (Nat.le_refl k)) (by omega)
      have first : p.accepted mem (m + 1) = slice mem 0 (p.offset (m + 1)).toNat :=
        (accepted_eq h legal fun k lt _ => success k lt).1
      rw [taken, first, offset, zero, Int.sub_zero]

end subtract

end Sender

end Projector
