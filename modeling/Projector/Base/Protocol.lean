import Mathlib.Data.List.Induction
import Projector.Base.Run

/-!
# Protocols

A protocol says which outputs are allowed one after the other: `legal` in a state, which `next` follows up.
`Follows P s h` says that the history `h` is a word of the protocol from `s` on. A system keeps a protocol
when each of its steps puts out a word from a state that stands for its own (`Protocol.follows_of_run`);
what holds of all words (`Follows.invariant`) then holds of all its histories.
-/

namespace Projector

variable {σ τ ι ω : Type*}

/-- The outputs that are allowed in a state, and the state after one. -/
structure Protocol (σ ω : Type*) where
  legal : σ → ω → Prop
  next : σ → ω → σ

namespace Protocol

variable {P : Protocol σ ω}

/-- The state after some outputs. -/
def after (P : Protocol σ ω) (s : σ) (h : List ω) : σ := h.foldl P.next s

/-- Nothing happened. -/
@[simp] lemma after_nil (s : σ) : P.after s [] = s := rfl

/-- The first event comes first. -/
@[simp] lemma after_cons (s : σ) (x : ω) (h : List ω) : P.after s (x :: h) = P.after (P.next s x) h := rfl

/-- The state after two histories, one behind the other. -/
@[simp] lemma after_append (s : σ) (h h' : List ω) : P.after s (h ++ h') = P.after (P.after s h) h' :=
  List.foldl_append

/-- Each output is allowed where it comes. -/
def Follows (P : Protocol σ ω) : σ → List ω → Prop
  | _, [] => True
  | s, x :: h => P.legal s x ∧ Follows P (P.next s x) h

/-- The empty history follows any rules. -/
@[simp] lemma follows_nil (s : σ) : P.Follows s [] := trivial

/-- A history follows the rules if its first event does and the rest does from there on. -/
@[simp] lemma follows_cons (s : σ) (x : ω) (h : List ω) :
    P.Follows s (x :: h) ↔ P.legal s x ∧ P.Follows (P.next s x) h := Iff.rfl

/-- Words compose. -/
lemma follows_append {s : σ} {h h' : List ω} :
    P.Follows s (h ++ h') ↔ P.Follows s h ∧ P.Follows (P.after s h) h' := by
  induction h generalizing s with
  | nil => simp
  | cons x h ih => simp [ih, and_assoc]

/-- An output in the middle of a word. -/
lemma Follows.legal_at {s : σ} {h h' : List ω} {x : ω} (f : P.Follows s (h ++ x :: h')) :
    P.legal (P.after s h) x := (follows_append.mp f).2.1

/-- What one output keeps, a word keeps. -/
lemma Follows.invariant {I : σ → List ω → Prop} {s : σ} {h : List ω} (f : P.Follows s h) (init : I s [])
    (keeps : ∀ t h x, I t h → P.legal t x → I (P.next t x) (h ++ [x])) : I (P.after s h) h := by
  induction h using List.reverseRecOn with
  | nil => exact init
  | append_singleton h x ih =>
    obtain ⟨before, last, _⟩ := follows_append.mp f
    rw [after_append]
    exact keeps _ h x (ih before) last

/-- A protocol that allows more, over states that say less. -/
lemma Follows.forget {Q : Protocol τ ω} (π : σ → τ) (legal : ∀ s x, P.legal s x → Q.legal (π s) x)
    (next : ∀ s x, π (P.next s x) = Q.next (π s) x) {s : σ} {h : List ω}
    (f : P.Follows s h) : Q.Follows (π s) h ∧ Q.after (π s) h = π (P.after s h) := by
  induction h generalizing s with
  | nil => exact ⟨trivial, rfl⟩
  | cons x h ih =>
    obtain ⟨here, f⟩ := f
    obtain ⟨follows, after⟩ := ih f
    rw [next s x] at follows after
    exact ⟨⟨legal s x here, follows⟩, after⟩

/-- A system whose steps put out words of a protocol has words of it for histories. -/
theorem follows_of_run {step : τ → ι → Option (τ × List ω)} {ok : τ → ι → Prop} {R : τ → σ → Prop}
    (keeps : ∀ t i u o f, R t f → ok t i → step t i = some (u, o) → P.Follows f o ∧ R u (P.after f o))
    {t u : τ} {f : σ} {h : List ω} (start : R t f) (r : Run step ok t h u) :
    P.Follows f h ∧ R u (P.after f h) := by
  induction r with
  | nil => exact ⟨trivial, start⟩
  | snoc i _ hok st ih =>
    obtain ⟨before, related⟩ := ih
    obtain ⟨last, related'⟩ := keeps _ i _ _ _ related hok st
    rw [follows_append, after_append]
    exact ⟨⟨before, last⟩, related'⟩

end Protocol

end Projector
