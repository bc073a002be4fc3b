import Mathlib.Data.List.Induction
import Mathlib.Tactic.Lemma

/-!
# Loops that may stop early

The `while` loop of a C function whose body may leave the function: the body returns `Except.ok` to go
round again and `Except.error` to stop. `iterate` runs it with a bound on the number of rounds, and
`iterate_rule` is its proof rule: an invariant that the body keeps and a measure that the body lowers
give the invariant and the negated condition at the exit, whenever the bound covers the measure. A `for`
loop over a list is a fold; the invariant of `foldl_rule` speaks about the part of the list that is done,
and that of `nested_range_rule` about the number of rounds that two nested loops have done.
-/

namespace Projector

universe u v

variable {σ : Type u} {ε : Type v}

/-- What holds of a result: `P` of a normal end, `E` of an early stop. -/
def Post (P : σ → Prop) (E : ε → Prop) : Except ε σ → Prop
  | .ok s => P s
  | .error e => E e

/-- A computation that returned meets the postcondition of returning. -/
@[simp] lemma post_ok {P : σ → Prop} {E : ε → Prop} {s : σ} :
    Post P E (.ok s : Except ε σ) ↔ P s := Iff.rfl

/-- A computation that failed meets the postcondition of failing. -/
@[simp] lemma post_error {P : σ → Prop} {E : ε → Prop} {e : ε} :
    Post P E (.error e : Except ε σ) ↔ E e := Iff.rfl

/-- Nothing need be known of a result. -/
lemma Post.trivial {x : Except ε σ} : Post (fun _ => True) (fun _ => True) x := by
  cases x with
  | ok s => exact True.intro
  | error e => exact True.intro

/-- Weakening of both ends. -/
lemma Post.mono {P P' : σ → Prop} {E E' : ε → Prop} {x : Except ε σ}
    (h : Post P E x) (hp : ∀ s, P s → P' s) (he : ∀ e, E e → E' e) : Post P' E' x := by
  cases x with
  | ok s => exact hp s h
  | error e => exact he e h

/-- What holds of a normal end. -/
lemma Post.of_ok {P : σ → Prop} {E : ε → Prop} {x : Except ε σ} {s : σ} (h : Post P E x)
    (hx : x = .ok s) : P s := by
  rwa [hx] at h

/-- What holds of an early stop. -/
lemma Post.of_error {P : σ → Prop} {E : ε → Prop} {x : Except ε σ} {e : ε} (h : Post P E x)
    (hx : x = .error e) : E e := by
  rwa [hx] at h

/-- Two results about one computation. -/
lemma Post.and {P Q : σ → Prop} {E : ε → Prop} {x : Except ε σ} (h : Post P E x)
    (h' : Post Q (fun _ => True) x) : Post (fun s => P s ∧ Q s) E x := by
  cases x with
  | ok s => exact ⟨h, h'⟩
  | error e => exact h

/-- Sequencing. -/
lemma Post.bind {τ : Type u} {P : σ → Prop} {Q : τ → Prop} {E : ε → Prop} {x : Except ε σ}
    {f : σ → Except ε τ} (h : Post P E x) (hf : ∀ s, P s → Post Q E (f s)) :
    Post Q E (x >>= f) := by
  cases x with
  | ok s => exact hf s h
  | error e => exact h

/-- A sequence that ends normally did so in both parts. -/
lemma bind_eq_ok {τ : Type u} {x : Except ε σ} {f : σ → Except ε τ} {t : τ} :
    (x >>= f) = .ok t ↔ ∃ s, x = .ok s ∧ f s = .ok t := by
  cases x with
  | ok s => exact ⟨fun h => ⟨s, rfl, h⟩, fun ⟨_, e, h⟩ => by cases e; exact h⟩
  | error e => exact ⟨fun h => (nomatch h), fun ⟨_, e, _⟩ => (nomatch e)⟩

/-- Two results that agree: both normal, or both an early stop. -/
def Agree {τ : Type u} {ε' : Type v} (R : σ → τ → Prop) (E : ε → ε' → Prop) :
    Except ε σ → Except ε' τ → Prop
  | .ok s, .ok t => R s t
  | .error e, .error e' => E e e'
  | _, _ => False

/-- Sequencing of results that agree. -/
lemma Agree.bind {τ σ' τ' : Type u} {ε' : Type v} {R : σ → τ → Prop} {R' : σ' → τ' → Prop}
    {E : ε → ε' → Prop} {x : Except ε σ} {y : Except ε' τ} {f : σ → Except ε σ'}
    {f' : τ → Except ε' τ'} (h : Agree R E x y) (hf : ∀ s t, R s t → Agree R' E (f s) (f' t)) :
    Agree R' E (x >>= f) (y >>= f') := by
  cases x with
  | ok s =>
    cases y with
    | ok t => exact hf s t h
    | error e => exact h.elim
  | error e =>
    cases y with
    | ok t => exact h.elim
    | error e' => exact h

/-- What agrees with a third result. -/
lemma Agree.trans {τ υ : Type u} {ε' ε'' : Type v} {R : σ → τ → Prop} {R' : τ → υ → Prop}
    {R'' : σ → υ → Prop} {E : ε → ε' → Prop} {E' : ε' → ε'' → Prop} {E'' : ε → ε'' → Prop}
    {x : Except ε σ} {y : Except ε' τ} {z : Except ε'' υ} (h : Agree R E x y) (h' : Agree R' E' y z)
    (ok : ∀ s t u, R s t → R' t u → R'' s u) (error : ∀ e e' e'', E e e' → E' e' e'' → E'' e e'') :
    Agree R'' E'' x z := by
  cases x with
  | ok s =>
    cases y with
    | ok t =>
      cases z with
      | ok u => exact ok s t u h h'
      | error e => exact h'.elim
    | error e => exact h.elim
  | error e =>
    cases y with
    | ok t => exact h.elim
    | error e' =>
      cases z with
      | ok u => exact h'.elim
      | error e'' => exact error e e' e'' h h'

/-- The other way round. -/
lemma Agree.symm {τ : Type u} {ε' : Type v} {R : σ → τ → Prop} {E : ε → ε' → Prop}
    {x : Except ε σ} {y : Except ε' τ} (h : Agree R E x y) :
    Agree (fun t s => R s t) (fun e' e => E e e') y x := by
  cases x with
  | ok s =>
    cases y with
    | ok t => exact h
    | error e => exact h.elim
  | error e =>
    cases y with
    | ok t => exact h.elim
    | error e' => exact h

/-- What agrees with a normal end is one. -/
lemma Agree.of_ok {τ : Type u} {ε' : Type v} {R : σ → τ → Prop} {E : ε → ε' → Prop} {s : σ}
    {x : Except ε σ} {y : Except ε' τ} (h : Agree R E x y) (hx : x = .ok s) :
    ∃ t, y = .ok t ∧ R s t := by
  subst hx
  cases y with
  | ok t => exact ⟨t, rfl, h⟩
  | error e => exact h.elim

/-- What agrees with an early stop is one. -/
lemma Agree.of_error {τ : Type u} {ε' : Type v} {R : σ → τ → Prop} {E : ε → ε' → Prop} {e : ε}
    {x : Except ε σ} {y : Except ε' τ} (h : Agree R E x y) (hx : x = .error e) :
    ∃ e', y = .error e' ∧ E e e' := by
  subst hx
  cases y with
  | ok t => exact h.elim
  | error e' => exact ⟨e', rfl, h⟩

/-- `while (cond) body`, for at most the given number of rounds. -/
def iterate (cond : σ → Bool) (body : σ → Except ε σ) : Nat → σ → Except ε σ
  | 0, s => .ok s
  | n + 1, s => if cond s then body s >>= iterate cond body n else .ok s

variable {cond : σ → Bool} {body : σ → Except ε σ}

/-- A loop whose condition fails does nothing. -/
lemma iterate_of_false {n : Nat} {s : σ} (h : cond s = false) :
    iterate cond body n s = .ok s := by
  cases n with
  | zero => rfl
  | succ n => simp [iterate, h]

/-- One round of a loop whose condition holds. -/
lemma iterate_of_true {n : Nat} {s : σ} (h : cond s = true) :
    iterate cond body (n + 1) s = body s >>= iterate cond body n := by
  simp [iterate, h]

/-- The `while` rule: an invariant kept by the body under a measure lowered by it. -/
lemma iterate_rule (I : σ → Prop) (E : ε → Prop) (measure : σ → Nat)
    (busy : ∀ s, I s → cond s = true → 0 < measure s)
    (keeps : ∀ s, I s → cond s = true → Post (fun t => I t ∧ measure t < measure s) E (body s))
    {n : Nat} {s : σ} (h : I s) (enough : measure s ≤ n) :
    Post (fun t => I t ∧ cond t = false) E (iterate cond body n s) := by
  induction n generalizing s with
  | zero =>
    cases hc : cond s with
    | false => exact ⟨h, hc⟩
    | true =>
      have lower := busy s h hc
      omega
  | succ n ih =>
    cases hc : cond s with
    | false =>
      rw [iterate_of_false hc]
      exact ⟨h, hc⟩
    | true =>
      rw [iterate_of_true hc]
      apply Post.bind (keeps s h hc)
      intro t ht
      exact ih ht.1 (by omega)

/-- An invariant of the body is one of the loop, however many rounds it is given. -/
lemma iterate_keeps {I : σ → Prop} {E : ε → Prop}
    (keeps : ∀ s, I s → cond s = true → Post I E (body s)) {n : Nat} {s : σ} (h : I s) :
    Post I E (iterate cond body n s) := by
  induction n generalizing s with
  | zero => exact h
  | succ n ih =>
    cases hc : cond s with
    | false =>
      rw [iterate_of_false hc]
      exact h
    | true =>
      rw [iterate_of_true hc]
      exact Post.bind (keeps s h hc) fun t ht => ih ht

/-- Two loops whose rounds agree, over states that agree, and that go on together. -/
lemma iterate_agrees {τ : Type u} {ε' : Type v} {cond' : τ → Bool} {body' : τ → Except ε' τ}
    {R : σ → τ → Prop} {E : ε → ε' → Prop} (together : ∀ s t, R s t → cond' t = cond s)
    (rounds : ∀ s t, R s t → cond s = true → Agree R E (body s) (body' t)) {n : Nat} {s : σ} {t : τ}
    (h : R s t) : Agree R E (iterate cond body n s) (iterate cond' body' n t) := by
  induction n generalizing s t with
  | zero => exact h
  | succ n ih =>
    have same := together s t h
    cases hc : cond s with
    | false =>
      rw [iterate_of_false hc, iterate_of_false (same.trans hc)]
      exact h
    | true =>
      rw [iterate_of_true hc, iterate_of_true (same.trans hc)]
      apply Agree.bind (rounds s t h hc)
      intro s' t' h'
      exact ih h'

/-- The states at the head of the loop, from the first one on. -/
inductive Visits (cond : σ → Bool) (body : σ → Except ε σ) (s : σ) : σ → Prop where
  | start :
    Visits cond body s s
  | round {t u} :
    Visits cond body s t →
    cond t = true →
    body t = .ok u →
    Visits cond body s u

namespace Visits

/-- An invariant that the body keeps holds wherever the loop comes. -/
lemma invariant {s t : σ} (I : σ → Prop) (v : Visits cond body s t) (init : I s)
    (keeps : ∀ t u, Visits cond body s t → I t → cond t = true → body t = .ok u → I u) : I t := by
  induction v with
  | start => exact init
  | round v hc hb ih => exact keeps _ _ v ih hc hb

/-- An invariant stated as a post-condition of the body. -/
lemma rule {s t : σ} {I : σ → Prop} {E : ε → Prop} (v : Visits cond body s t) (init : I s)
    (keeps : ∀ t, Visits cond body s t → I t → cond t = true → Post I E (body t)) : I t :=
  v.invariant I init fun t _ vt inv hc hb => (keeps t vt inv hc).of_ok hb

/-- Rounds compose. -/
lemma trans {s t u : σ} (v : Visits cond body s t) (w : Visits cond body t u) :
    Visits cond body s u := by
  induction w with
  | start => exact v
  | round _ hc hb ih => exact .round ih hc hb

/-- The first round, when there is one. -/
lemma cases_head {s t : σ} (v : Visits cond body s t) :
    t = s ∨ ∃ u, cond s = true ∧ body s = .ok u ∧ Visits cond body u t := by
  induction v with
  | start => exact .inl rfl
  | round v hc hb ih =>
    rcases ih with rfl | ⟨w, hc', hb', v'⟩
    · exact .inr ⟨_, hc, hb, .start⟩
    · exact .inr ⟨w, hc', hb', .round v' hc hb⟩

/-- A loop whose rounds agree with those of another one comes to the same points. -/
lemma simulates {τ : Type u} {ε' : Type v} {cond' : τ → Bool} {body' : τ → Except ε' τ} {s t : σ}
    {s' : τ} (R : σ → τ → Prop) (v : Visits cond body s t) (start : R s s')
    (step : ∀ t t' u, Visits cond body s t → R t t' → cond t = true → body t = .ok u →
      cond' t' = true ∧ ∃ u', body' t' = .ok u' ∧ R u u') :
    ∃ t', Visits cond' body' s' t' ∧ R t t' := by
  induction v with
  | start => exact ⟨s', .start, start⟩
  | round v hc hb ih =>
    obtain ⟨t', v', related⟩ := ih
    obtain ⟨hc', u', hb', related'⟩ := step _ t' _ v related hc hb
    exact ⟨u', .round v' hc' hb', related'⟩

end Visits

section measure

variable (measure : σ → Nat)

/-- How a loop ends: at a visited state where the condition fails, or in the body of one. -/
lemma iterate_visits {s : σ} (busy : ∀ t, cond t = true → 0 < measure t)
    (lowers : ∀ t u, cond t = true → body t = .ok u → measure u < measure t) {n : Nat}
    (enough : measure s ≤ n) :
    Post (fun t => Visits cond body s t ∧ cond t = false)
      (fun e => ∃ t, Visits cond body s t ∧ cond t = true ∧ body t = .error e)
      (iterate cond body n s) := by
  apply iterate_rule (Visits cond body s) _ measure (fun t _ => busy t) _ .start enough
  intro t v hc
  cases hb : body t with
  | ok u => exact ⟨.round v hc hb, lowers t u hc hb⟩
  | error e => exact ⟨t, v, hc, hb⟩

/-- Any two numbers of rounds that cover the measure give the same result. -/
lemma iterate_enough (busy : ∀ t, cond t = true → 0 < measure t)
    (lowers : ∀ t u, cond t = true → body t = .ok u → measure u < measure t) {n m : Nat} {s : σ}
    (hn : measure s ≤ n) (hm : measure s ≤ m) : iterate cond body n s = iterate cond body m s := by
  induction n generalizing m s with
  | zero =>
    cases hc : cond s with
    | false => rw [iterate_of_false hc, iterate_of_false hc]
    | true =>
      have pos := busy s hc
      omega
  | succ n ih =>
    cases hc : cond s with
    | false => rw [iterate_of_false hc, iterate_of_false hc]
    | true =>
      have pos := busy s hc
      obtain ⟨m, rfl⟩ := Nat.exists_eq_succ_of_ne_zero (by omega : m ≠ 0)
      rw [iterate_of_true hc, iterate_of_true hc]
      cases hb : body s with
      | error e => rfl
      | ok u =>
        have lower := lowers s u hc hb
        exact ih (by omega) (by omega)

/-- The rest of a loop from a state it visits. -/
lemma iterate_of_visits {s t : σ} (busy : ∀ t, cond t = true → 0 < measure t)
    (lowers : ∀ t u, cond t = true → body t = .ok u → measure u < measure t)
    (v : Visits cond body s t) {n m : Nat} (hn : measure s ≤ n) (hm : measure t ≤ m) :
    iterate cond body n s = iterate cond body m t := by
  induction v generalizing m with
  | start => exact iterate_enough measure busy lowers hn hm
  | @round t u v hc hb ih =>
    -- One round more than covers what is left gives the rest in one step.
    have more : measure t ≤ m + measure t + 1 := by omega
    have lower := lowers t u hc hb
    rw [ih more, iterate_of_true hc, hb]
    exact iterate_enough measure busy lowers (by omega) hm

/-- Of two visited states one comes after the other. -/
lemma Visits.linear {s t t' : σ} (v : Visits cond body s t) (v' : Visits cond body s t') :
    Visits cond body t t' ∨ Visits cond body t' t := by
  induction v with
  | start => exact .inl v'
  | round _ hc hb ih =>
    rcases ih with later | earlier
    · rcases later.cases_head with rfl | ⟨w, _, hb', rest⟩
      · exact .inr (.round .start hc hb)
      · rw [hb, Except.ok.injEq] at hb'
        exact .inl (hb' ▸ rest)
    · exact .inr (.round earlier hc hb)

/-- On the way the measure falls, unless nothing has been done. -/
lemma Visits.measure_lt {s t : σ}
    (lowers : ∀ t u, cond t = true → body t = .ok u → measure u < measure t)
    (v : Visits cond body s t) : t = s ∨ measure t < measure s := by
  induction v with
  | start => exact .inl rfl
  | round _ hc hb ih =>
    have lower := lowers _ _ hc hb
    rcases ih with rfl | less
    · exact .inr lower
    · exact .inr (Nat.lt_trans lower less)

/-- A loop comes to each value of its measure at most once. -/
lemma Visits.unique {s t t' : σ}
    (lowers : ∀ t u, cond t = true → body t = .ok u → measure u < measure t)
    (v : Visits cond body s t) (v' : Visits cond body s t') (same : measure t = measure t') :
    t = t' := by
  rcases v.linear v' with later | earlier
  · rcases later.measure_lt measure lowers with e | less
    · exact e.symm
    · omega
  · rcases earlier.measure_lt measure lowers with e | less
    · exact e
    · omega

end measure

/-- The `for` rule: an invariant of the elements done so far, kept by one more. -/
lemma foldl_rule {α β : Type*} (I : List α → β → Prop) {f : β → α → β} {b : β} (start : I [] b)
    (keeps : ∀ xs x b, I xs b → I (xs ++ [x]) (f b x)) (xs : List α) : I xs (xs.foldl f b) := by
  induction xs using List.reverseRecOn with
  | nil => exact start
  | append_singleton xs x ih =>
    rw [List.foldl_append]
    exact keeps xs x _ ih

/-- The `for` rule for a counter: an invariant of the number of rounds. -/
lemma foldl_range_rule {β : Type*} (I : Nat → β → Prop) {f : β → Nat → β} {b : β} {n : Nat}
    (start : I 0 b) (step : ∀ i < n, ∀ b, I i b → I (i + 1) (f b i)) :
    I n ((List.range n).foldl f b) := by
  induction n with
  | zero => exact start
  | succ n ih =>
    rw [List.range_succ, List.foldl_append]
    exact step n (Nat.lt_succ_self n) _ (ih fun i hi => step i (Nat.lt_succ_of_lt hi))

/-- Two nested loops, with the rounds of the inner one numbered through. -/
lemma nested_range_rule {β : Type*} (I : Nat → β → Prop) {f : Nat → β → Nat → β} {b : β} {h w : Nat}
    (start : I 0 b) (step : ∀ i < h, ∀ j < w, ∀ b, I (i * w + j) b → I (i * w + j + 1) (f i b j)) :
    I (h * w) ((List.range h).foldl (fun b i => (List.range w).foldl (f i) b) b) := by
  apply foldl_range_rule (fun i => I (i * w)) (by simpa using start)
  intro i hi b inv
  rw [Nat.succ_mul]
  exact foldl_range_rule (fun j => I (i * w + j)) inv fun j hj b => step i hi j hj b

end Projector
