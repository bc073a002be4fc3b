import Projector.Base.Run
import Mathlib.Tactic.Common

/-!
# Bounded response

The rule behind "it happens soon": some of the inputs of a system count as turns, and a rank bounds the
turns that are left. If a turn either brings the goal or lowers the rank, and no other input raises it,
then the goal is reached within as many turns as the rank says, whatever other inputs come in between.
-/

namespace Projector

variable {σ ι ο : Type*} {step : σ → ι → Option (σ × List ο)} {ok : σ → ι → Prop}

/-- The rule of bounded response: `I` holds until the goal `E` is reached. -/
lemma exec_reaches {I E : σ → List ο → Prop} {turn : ι → Bool} (rank : σ → Nat)
    (pos : ∀ s h, I s h → 0 < rank s)
    (progress : ∀ s h i t o, I s h → ok s i → step s i = some (t, o) →
      (turn i = true ∧ E t (h ++ o)) ∨ (I t (h ++ o) ∧ rank t + (if turn i then 1 else 0) ≤ rank s))
    {s u : σ} {is : List ι} {h h' : List ο} (init : I s h) (adm : Admitted step ok s is)
    (e : exec step s is = some (u, h')) (many : rank s ≤ is.countP turn) :
    ∃ js ks t o, is = js ++ ks ∧ exec step s js = some (t, o) ∧ E t (h ++ o) ∧
      0 < js.countP turn ∧ js.countP turn ≤ rank s := by
  induction is generalizing s h h' with
  | nil =>
    have left := pos s h init
    rw [List.countP_nil] at many
    omega
  | cons i is ih =>
    obtain ⟨t, o, _, st, rest, rfl⟩ := exec_cons_eq_some.mp e
    obtain ⟨hok, adm⟩ := adm
    rw [st] at adm
    rw [List.countP_cons] at many
    rcases progress s h i t o init hok st with ⟨mine, goal⟩ | ⟨kept, less⟩
    · have left := pos s h init
      have one : [i].countP turn = 1 := by simp [mine]
      refine ⟨[i], is, t, o, rfl, ?_, goal, by omega, by omega⟩
      exact exec_cons_eq_some.mpr ⟨t, o, [], st, rfl, (List.append_nil o).symm⟩
    · obtain ⟨js, ks, v, o', rfl, front, goal, some_, few⟩ := ih kept adm rest (by omega)
      refine ⟨i :: js, ks, v, o ++ o', rfl, ?_, ?_, ?_, ?_⟩
      · exact exec_cons_eq_some.mpr ⟨t, o, o', st, front, rfl⟩
      · rwa [← List.append_assoc]
      · rw [List.countP_cons]
        omega
      · rw [List.countP_cons]
        omega

end Projector
