import Mathlib.Tactic.Lemma

/-!
# Readers

A decoder that takes one field after the other off the front of its input. `Reads p bs a` says that `p`
reads exactly the bytes `bs`, as the value `a`, whatever follows. It composes like the decoder does: the
rules `reads_pure`, `Reads.bind`, `reads_take` and `reads_many` turn the round trip of a format into the
round trips of its fields.
-/

namespace Projector

universe u v

variable {α β γ : Type u}

/-- Takes a value off the front of the input, or fails. -/
abbrev Reader (β α : Type u) := StateT (List β) Option α

/-- `p` reads exactly `bs`, as `a`. -/
def Reads (p : Reader β α) (bs : List β) (a : α) : Prop :=
  ∀ rest, p.run (bs ++ rest) = some (a, rest)

namespace Reader

/-- The next `n` elements. -/
def take (n : Nat) : Reader β (List β) := fun bs =>
  if n ≤ bs.length then some (bs.take n, bs.drop n) else none

/-- The same reader `n` times. -/
def many (p : Reader β α) : Nat → Reader β (List α)
  | 0 => pure []
  | n + 1 => do
    let a ← p
    List.cons a <$> many p n

end Reader

open Reader

/-- Nothing but the input is read. -/
lemma Reads.run_eq {p : Reader β α} {bs : List β} {a : α} (h : Reads p bs a) :
    p.run bs = some (a, []) := by
  have whole := h []
  rwa [List.append_nil] at whole

/-- A reader that reads nothing. -/
lemma reads_pure (a : α) : Reads (pure a : Reader β α) [] a := fun _ => rfl

/-- One field after the other. -/
lemma Reads.bind {p : Reader β α} {f : α → Reader β γ} {bs cs : List β} {a : α} {c : γ}
    (hp : Reads p bs a) (hf : Reads (f a) cs c) : Reads (p >>= f) (bs ++ cs) c := by
  intro rest
  rw [List.append_assoc, StateT.run_bind, hp]
  exact hf rest

/-- A computed value. -/
lemma Reads.map {p : Reader β α} {f : α → γ} {bs : List β} {a : α} (hp : Reads p bs a) :
    Reads (f <$> p) bs (f a) := by
  intro rest
  rw [StateT.run_map, hp]
  rfl

/-- Some bytes are read as they are. -/
lemma reads_take (bs : List β) : Reads (take bs.length) bs bs := by
  intro rest
  show take bs.length (bs ++ rest) = _
  unfold take
  rw [if_pos (by simp), List.take_left, List.drop_left]

/-- Records one after the other, each written for some `x` and read as `value x`. -/
lemma reads_many {ι : Type v} {p : Reader β α} {encode : ι → List β} {value : ι → α} {xs : List ι}
    (h : ∀ x ∈ xs, Reads p (encode x) (value x)) :
    Reads (many p xs.length) (xs.flatMap encode) (xs.map value) := by
  induction xs with
  | nil => exact reads_pure []
  | cons x xs ih =>
    rw [List.flatMap_cons]
    have tail : Reads (List.cons (value x) <$> many p xs.length) (xs.flatMap encode)
        (value x :: xs.map value) := (ih fun y mem => h y (List.mem_cons_of_mem x mem)).map
    exact (h x List.mem_cons_self).bind tail

end Projector
