import Projector.Server.Table

/-!
# What the observer decides

`Server.others` lists the connections that do not hold the focus, in ascending order. On a sound table the
search of `focusObserver` stops at the first of them (`search_hit`), it asks `FD_ISSET` about connections
only (`search_tests`), and one iteration sets both variables to the requested descriptor, to the first of
the others, or not at all (`observe_spec`).
-/

namespace Projector

namespace Server

/-- The connections in the table other than the holder of the focus. -/
def others (s : Server) : List Int :=
  slots.filter fun i => (s.client i).isSome ∧ i ≠ s.focusFd

variable {tj : TurboJpeg} {beyond : Int → Bool} {ws : List Int} {s t : Server} {o : List Output}
  {i fd : Int} {is : List Int}

/-- The others are connected and do not hold the focus. -/
lemma mem_others : i ∈ s.others ↔ i ∈ slots ∧ (s.client i).isSome ∧ i ≠ s.focusFd := by
  simp [others]

/-- The slots are in the order of their numbers. -/
lemma sorted_slots : slots.Pairwise (· < ·) := by decide

/-- So are the others. -/
lemma sorted_others : s.others.Pairwise (· < ·) := sorted_slots.filter _

/-- The first of the others is the lowest. -/
lemma head?_others : s.others.head? = some fd ↔ fd ∈ s.others ∧ ∀ i ∈ s.others, fd ≤ i := by
  constructor
  · intro h
    obtain ⟨rest, e⟩ := List.head?_eq_some_iff.mp h
    have sorted := sorted_others (s := s)
    rw [e, List.pairwise_cons] at sorted
    refine ⟨by simp [e], fun i mem => ?_⟩
    rw [e, List.mem_cons] at mem
    rcases mem with rfl | mem
    · exact le_rfl
    · exact (sorted.1 i mem).le
  · rintro ⟨mem, low⟩
    have sorted := sorted_others (s := s)
    cases e : s.others with
    | nil => simp [e] at mem
    | cons i rest =>
      rw [e, List.pairwise_cons] at sorted
      rw [e, List.mem_cons] at mem
      rcases mem with rfl | mem
      · rfl
      · have lt := sorted.1 fd mem
        have le := low i (by simp [e])
        omega

/-- The same connections and the same holder have the same others. -/
lemma SameTable.others (h : SameTable s t) (focus : t.focusFd = s.focusFd) : t.others = s.others := by
  unfold Server.others
  apply List.filter_congr
  intro i _
  rw [h.isSome, focus]

/-- `FD_ISSET` depends on the set only. -/
lemma SameTable.isset (h : SameTable s t) : t.isset beyond i = s.isset beyond i := by
  rw [Server.isset, Server.isset, h.readFds]

/-- Within the table `FD_ISSET` is membership in the watched set. -/
lemma isset_of_mem_slots (h : i ∈ slots) : s.isset beyond i = s.readFds i := by
  obtain ⟨lo, hi⟩ := mem_slots.mp h
  have range : 0 ≤ i ∧ i < fdSetSize := ⟨lo, by simp only [maxClientNum, fdSetSize] at *; omega⟩
  rw [isset, if_pos range]

/-- A connection in the table is found by its descriptor. -/
lemma isset_of_isSome (inv : s.Table) (mem : i ∈ slots) (hc : (s.client i).isSome) :
    s.isset beyond i = true := by
  rw [isset_of_mem_slots mem, inv.readFds hc]

/-- The clients that go into the list. -/
lemma listed_eq_some {c : Client} : s.listed beyond i = some c ↔
    s.client i = some c ∧ s.isset beyond c.fd = true ∧ c.fd ≠ s.focusFd := by
  unfold listed
  cases hc : s.client i with
  | none => simp
  | some d =>
    simp only []
    by_cases shown : s.isset beyond d.fd = true ∧ d.fd ≠ s.focusFd
    · rw [if_pos shown, Option.some.injEq]
      exact ⟨fun e => ⟨e, e ▸ shown⟩, fun h => h.1⟩
    · rw [if_neg shown, Option.some.injEq]
      exact ⟨fun e => (nomatch e), fun h => absurd (h.1 ▸ h.2) shown⟩

/-- The search stops at the first connection that does not hold the focus. -/
lemma search_hit (inv : s.Table) (sub : is ⊆ slots) :
    (s.search beyond is).2 =
      (is.filter fun i => (s.client i).isSome ∧ i ≠ s.focusFd).head? := by
  induction is with
  | nil => rfl
  | cons i is ih =>
    obtain ⟨mem, sub⟩ := List.cons_subset.mp sub
    cases hc : s.client i with
    | none => simpa [search, hc] using ih sub
    | some c =>
      have slot := inv.slot i c hc
      have isset : s.isset beyond i = true := isset_of_isSome inv mem (by rw [hc]; rfl)
      by_cases holder : i = s.focusFd
      · have skip : ¬ (s.isset beyond c.fd = true ∧ c.fd ≠ s.focusFd) :=
          fun h => h.2 (slot.trans holder)
        rw [List.filter_cons_of_neg (by simp [holder])]
        simp only [search, hc, if_neg skip]
        exact ih sub
      · simp [search, hc, slot, isset, holder]

/-- The search tests descriptors of connections only. -/
lemma search_tests (inv : s.Table) {x : Output} (mem : x ∈ (s.search beyond is).1) :
    ∃ i ∈ is, (s.client i).isSome ∧ x = .isset i := by
  induction is with
  | nil => simp [search] at mem
  | cons i is ih =>
    have later (mem : x ∈ (s.search beyond is).1) :
        ∃ j ∈ i :: is, (s.client j).isSome ∧ x = .isset j := by
      obtain ⟨j, hj, hc, e⟩ := ih mem
      exact ⟨j, List.mem_cons_of_mem i hj, hc, e⟩
    cases hc : s.client i with
    | none =>
      simp only [search, hc] at mem
      exact later mem
    | some c =>
      have here : ∃ j ∈ i :: is, (s.client j).isSome ∧ Output.isset c.fd = .isset j :=
        ⟨i, List.mem_cons_self, by rw [hc]; rfl, by rw [inv.slot i c hc]⟩
      simp only [search, hc] at mem
      split at mem
      · rw [List.mem_singleton] at mem
        rwa [mem]
      · rcases List.mem_cons.mp mem with rfl | mem
        · exact here
        · exact later mem

/-- What the search has done when it ends: the tests it made, and where it stopped. -/
structure Searched (s : Server) (tests : List Output) (hit : Option Int) : Prop where
  tested : ∀ x ∈ tests, ∃ i ∈ slots, (s.client i).isSome ∧ x = .isset i
  hit : hit = s.others.head?

/-- What the whole search does. -/
lemma searched (inv : s.Table) {tests : List Output} {hit : Option Int}
    (hs : s.search beyond slots = (tests, hit)) : Searched s tests hit where
  tested x mem := search_tests inv (show x ∈ (s.search beyond slots).1 by rwa [hs])
  hit := by
    have first : (s.search beyond slots).2 = s.others.head? :=
      search_hit inv (List.Subset.refl slots)
    rwa [hs] at first

namespace Searched

variable {tests : List Output} {hit : Option Int}

/-- The search does nothing but test. -/
lemma quiet (h : Searched s tests hit) {x : Output} (mem : x ∈ tests) : ∃ i, x = .isset i := by
  obtain ⟨i, _, _, e⟩ := h.tested x mem
  exact ⟨i, e⟩

/-- The tests of the search grant nothing. -/
lemma noGrant (h : Searched s tests hit) (i : Int) : .grant i ∉ tests := by
  intro mem
  obtain ⟨_, e⟩ := h.quiet mem
  cases e

/-- The tests of the search are in the set. -/
lemma range (h : Searched s tests hit) (mem : .isset i ∈ tests) : 0 ≤ i ∧ i < fdSetSize := by
  obtain ⟨j, slot, _, e⟩ := h.tested _ mem
  obtain ⟨lo, hi⟩ := mem_slots.mp slot
  rw [Output.isset.inj e]
  simp only [maxClientNum, fdSetSize] at *
  omega

end Searched

/-- When nobody is connected there are no others. -/
lemma others_eq_nil (inv : s.Sound) (zero : s.userCount = 0) : s.others = [] := by
  rw [List.eq_nil_iff_forall_not_mem]
  intro i mem
  have pos := inv.counted.pos (mem_others.mp mem).2.1
  omega

/-- The descriptor that the next iteration of the observer will turn to. -/
def elected (beyond : Int → Bool) (s : Server) : Option Int :=
  if s.focusFd = s.readyFd then none
  else if s.isset beyond s.readyFd then some s.readyFd
  else s.others.head?

/-- One iteration: the elected descriptor is granted and takes both variables, and nothing else changes.
Without one nothing changes at all. -/
theorem observe_spec (inv : s.Sound) (e : Effect tj s (.observe beyond ws) t o) :
    match s.elected beyond with
    | none => t = s ∧ ∀ x ∈ o, ∃ i, x = .isset i
    | some fd => t = { s with focusFd := fd, readyFd := fd } ∧
        ∃ tests, o = tests ++ [.grant fd] ∧ ∀ x ∈ tests, ∃ i, x = .isset i := by
  unfold elected
  cases e with
  | settled same =>
    rw [if_pos same]
    exact ⟨rfl, by simp⟩
  | found ne isset =>
    rw [if_neg ne, if_pos isset]
    exact ⟨rfl, [.isset s.readyFd], rfl, by simp⟩
  | alone ne isset zero =>
    rw [if_neg ne, if_neg (by simp [isset]), others_eq_nil inv zero]
    exact ⟨rfl, by simp⟩
  | nobody ne isset _ hs =>
    have search := searched inv.toTable hs
    rw [if_neg ne, if_neg (by simp [isset]), ← search.hit]
    refine ⟨rfl, fun x mem => ?_⟩
    rcases List.mem_cons.mp mem with rfl | mem
    · exact ⟨_, rfl⟩
    · exact search.quiet mem
  | @other _ _ tests fd ne isset _ hs =>
    have search := searched inv.toTable hs
    rw [if_neg ne, if_neg (by simp [isset]), ← search.hit]
    refine ⟨rfl, .isset s.readyFd :: tests, rfl, fun x mem => ?_⟩
    rcases List.mem_cons.mp mem with rfl | mem
    · exact ⟨_, rfl⟩
    · exact search.quiet mem

/-- Writes that go through end the loop of a grant. -/
lemma grantLoop_isSome {n : Int} (h : Accepting n ws) : (grantLoop n ws).isSome := by
  induction ws generalizing n with
  | nil =>
    have zero : n = 0 := h
    simp [grantLoop, zero]
  | cons w ws ih =>
    obtain ⟨one, le, rest⟩ := h
    have pos : n > 0 := by omega
    simp [grantLoop, pos, ih rest]

/-- When the writes go through, the iteration ends. -/
lemma observe_isSome (h : Accepting 12 ws) : (s.observe beyond ws).isSome := by
  obtain ⟨writes, hw⟩ := Option.isSome_iff_exists.mp (grantLoop_isSome h)
  unfold observe
  split
  · rfl
  · split
    · simp [hw]
    · split
      · rfl
      · split
        · rfl
        · simp [hw]

end Server

end Projector
