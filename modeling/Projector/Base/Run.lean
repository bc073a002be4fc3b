import Mathlib.Tactic.Lemma
import Mathlib.Tactic.TypeStar

/-!
# Runs of a system with inputs and outputs

A system is a partial step function: in a state, an input is either not possible (`none`) or leads to
the next state and a list of outputs. `Run step ok s h t` says that some sequence of inputs, each of
which meets `ok` in the state it is taken in, leads from `s` to `t` and puts out `h`. The history `h` is
what temporal properties speak about. `Run.invariant` is the one induction over runs.
-/

namespace Projector

variable {σ ι ο : Type*}

/-- The runs of `step` whose inputs all meet `ok`, with what they put out. -/
inductive Run (step : σ → ι → Option (σ × List ο)) (ok : σ → ι → Prop) :
    σ → List ο → σ → Prop where
  | nil {s} :
    Run step ok s [] s
  | snoc {s t u h o} (i : ι) :
    Run step ok s h t →
    ok t i →
    step t i = some (u, o) →
    Run step ok s (h ++ o) u

variable {step : σ → ι → Option (σ × List ο)} {ok ok' : σ → ι → Prop}

namespace Run

/-- A property of state and history that holds at the start and is kept by every step. -/
lemma invariant {I : σ → List ο → Prop} {s t : σ} {h : List ο} (init : I s [])
    (keeps : ∀ t h i u o, I t h → ok t i → step t i = some (u, o) → I u (h ++ o))
    (r : Run step ok s h t) : I t h := by
  induction r with
  | nil => exact init
  | snoc i _ hok st ih => exact keeps _ _ i _ _ ih hok st

/-- A property of the state alone. -/
lemma invariant_state {I : σ → Prop} {s t : σ} {h : List ο} (init : I s)
    (keeps : ∀ t i u o, I t → ok t i → step t i = some (u, o) → I u)
    (r : Run step ok s h t) : I t :=
  r.invariant (I := fun t _ => I t) init (fun t _ i u o => keeps t i u o)

/-- A weaker condition on the inputs admits more runs. -/
lemma mono (w : ∀ t i, ok t i → ok' t i) {s t : σ} {h : List ο} (r : Run step ok s h t) :
    Run step ok' s h t := by
  induction r with
  | nil => exact .nil
  | snoc i _ hok st ih => exact .snoc i ih (w _ _ hok) st

/-- Runs compose. -/
lemma trans {s t u : σ} {h h' : List ο} (r : Run step ok s h t) (r' : Run step ok t h' u) :
    Run step ok s (h ++ h') u := by
  induction r' with
  | nil => simpa using r
  | snoc i _ hok st ih =>
    rw [← List.append_assoc]
    exact .snoc i ih hok st

/-- One step as a run. -/
lemma single {s u : σ} {o : List ο} (i : ι) (hok : ok s i) (st : step s i = some (u, o)) :
    Run step ok s o u := by
  simpa using Run.snoc i .nil hok st

end Run

/-- Run the system on a given sequence of inputs. -/
def exec (step : σ → ι → Option (σ × List ο)) : σ → List ι → Option (σ × List ο)
  | s, [] => some (s, [])
  | s, i :: is => do
    let (t, o) ← step s i
    let (u, h) ← exec step t is
    return (u, o ++ h)

/-- One input and then the others. -/
lemma exec_cons_eq_some {s u : σ} {i : ι} {is : List ι} {h : List ο} :
    exec step s (i :: is) = some (u, h) ↔
      ∃ t o h', step s i = some (t, o) ∧ exec step t is = some (u, h') ∧ h = o ++ h' := by
  simp only [exec, Option.bind_eq_bind, Option.bind_eq_some_iff, Option.pure_def, Option.some.injEq,
    Prod.mk.injEq, Prod.exists]
  constructor
  · rintro ⟨t, o, st, _, h', rest, rfl, rfl⟩
    exact ⟨t, o, h', st, rest, rfl⟩
  · rintro ⟨t, o, h', st, rest, rfl⟩
    exact ⟨t, o, st, u, h', rest, rfl, rfl⟩

/-- Some inputs and then others. -/
lemma exec_append_eq_some {s u : σ} {is js : List ι} {h : List ο} :
    exec step s (is ++ js) = some (u, h) ↔
      ∃ t o h', exec step s is = some (t, o) ∧ exec step t js = some (u, h') ∧ h = o ++ h' := by
  induction is generalizing s h with
  | nil =>
    constructor
    · intro e
      exact ⟨s, [], h, rfl, e, rfl⟩
    · rintro ⟨t, o, h', ⟨⟩, e, rfl⟩
      exact e
  | cons i is ih =>
    rw [List.cons_append, exec_cons_eq_some]
    simp only [exec_cons_eq_some, ih]
    constructor
    · rintro ⟨t, o, _, st, ⟨v, o', h', front, back, rfl⟩, rfl⟩
      exact ⟨v, o ++ o', h', ⟨t, o, o', st, front, rfl⟩, back, (List.append_assoc o o' h').symm⟩
    · rintro ⟨v, _, h', ⟨t, o, o', st, front, rfl⟩, back, rfl⟩
      exact ⟨t, o, o' ++ h', st, ⟨v, o', h', front, back, rfl⟩, List.append_assoc o o' h'⟩

/-- Every input of the sequence meets `ok` where it is taken. -/
def Admitted (step : σ → ι → Option (σ × List ο)) (ok : σ → ι → Prop) : σ → List ι → Prop
  | _, [] => True
  | s, i :: is => ok s i ∧
    match step s i with
    | some (t, _) => Admitted step ok t is
    | none => True

instance decidableAdmitted [∀ s i, Decidable (ok s i)] (s : σ) (is : List ι) :
    Decidable (Admitted step ok s is) :=
  match is with
  | [] => .isTrue trivial
  | i :: is =>
    have : Decidable (match step s i with
        | some (t, _) => Admitted step ok t is
        | none => True) :=
      match step s i with
      | some (t, _) => decidableAdmitted t is
      | none => .isTrue trivial
    inferInstanceAs (Decidable (_ ∧ _))

/-- Without a condition every sequence is admitted. -/
lemma admitted_true (s : σ) (is : List ι) : Admitted step (fun _ _ => True) s is := by
  induction is generalizing s with
  | nil => trivial
  | cons i is ih =>
    refine ⟨trivial, ?_⟩
    cases step s i with
    | none => trivial
    | some t => exact ih t.1

/-- A weaker condition admits more sequences. -/
lemma Admitted.mono {s : σ} {is : List ι} (w : ∀ s, ∀ i ∈ is, ok s i → ok' s i)
    (adm : Admitted step ok s is) : Admitted step ok' s is := by
  induction is generalizing s with
  | nil => trivial
  | cons i is ih =>
    obtain ⟨first, rest⟩ := adm
    refine ⟨w s i List.mem_cons_self first, ?_⟩
    cases st : step s i with
    | none => trivial
    | some t =>
      rw [st] at rest
      exact ih (fun s j mem => w s j (List.mem_cons_of_mem i mem)) rest

/-- What `exec` computes is a run. -/
lemma run_of_exec {s t : σ} {is : List ι} {h : List ο} (adm : Admitted step ok s is)
    (e : exec step s is = some (t, h)) : Run step ok s h t := by
  induction is generalizing s h with
  | nil =>
    cases e
    exact .nil
  | cons i is ih =>
    obtain ⟨u, o, h', st, rest, rfl⟩ := exec_cons_eq_some.mp e
    obtain ⟨hok, adm⟩ := adm
    rw [st] at adm
    exact (Run.single i hok st).trans (ih adm rest)

end Projector
