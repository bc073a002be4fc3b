import Mathlib.Data.List.GetD
import Mathlib.Data.List.Nodup
import Mathlib.Tactic.Lemma
import Mathlib.Tactic.Ring
import Mathlib.Tactic.TypeStar

/-!
# Rasters in memory

A raster is stored cell by cell: the cell in column `x` of row `y` lies at `x * size + y * stride`
(`Layout.offset`). As long as a row fits into the stride no two cells share a byte
(`Layout.offset_unique`) and `h` rows end within `h * stride` (`Layout.offset_add_le`).

A `Store` puts some bytes at a place. A list of stores that do not touch each other leaves each of them
in memory (`Store.runAll_of_mem`), and everything outside as it was (`Store.runAll_of_not_covers`).
`Layout.runAll_paint` is the two together for a loop over all the cells.
-/

namespace Projector

variable {β : Type*}

/-! ## Stores -/

/-- Some bytes and the place they are put at. -/
structure Store (β : Type*) where
  off : Nat
  bytes : List β
deriving DecidableEq

namespace Store

/-- The byte at `k` is one of those that are written. -/
def Covers (w : Store β) (k : Nat) : Prop := w.off ≤ k ∧ k < w.off + w.bytes.length

instance (w : Store β) (k : Nat) : Decidable (w.Covers k) := inferInstanceAs (Decidable (_ ∧ _))

/-- Two stores that have no byte in common. -/
def Apart (v w : Store β) : Prop := ∀ k, v.Covers k → ¬ w.Covers k

/-- The memory after a store. -/
def run (m : Nat → β) (w : Store β) : Nat → β := fun k =>
  if w.off ≤ k then w.bytes.getD (k - w.off) (m k) else m k

/-- The memory after some stores in order. -/
def runAll (m : Nat → β) (ws : List (Store β)) : Nat → β := ws.foldl run m

variable {m : Nat → β} {v w : Store β} {ws : List (Store β)} {k : Nat}

/-- Stores are apart in either order. -/
lemma Apart.symm (h : Apart v w) : Apart w v := fun k hw hv => h k hv hw

/-- A store leaves alone what it does not cover. -/
lemma run_of_not_covers (h : ¬ w.Covers k) : run m w k = m k := by
  by_cases lo : w.off ≤ k
  · have hi : w.bytes.length ≤ k - w.off := by
      by_contra lt
      exact h ⟨lo, by omega⟩
    rw [run, if_pos lo, List.getD_eq_default _ _ hi]
  · rw [run, if_neg lo]

/-- What a store leaves where it covers. -/
lemma run_add {i : Nat} (h : i < w.bytes.length) : run m w (w.off + i) = w.bytes[i] := by
  rw [run, if_pos (Nat.le_add_right _ _), Nat.add_sub_cancel_left, List.getD_eq_getElem _ _ h]

/-- What no store covers is left as it was. -/
lemma runAll_of_not_covers (h : ∀ w ∈ ws, ¬ w.Covers k) : runAll m ws k = m k := by
  induction ws generalizing m with
  | nil => rfl
  | cons w ws ih =>
    have later : runAll (run m w) ws k = run m w k := ih fun v mem => h v (List.mem_cons_of_mem w mem)
    exact later.trans (run_of_not_covers (h w List.mem_cons_self))

/-- A store that no other one touches stays in memory. -/
lemma runAll_of_mem (apart : ws.Pairwise Apart) (mem : w ∈ ws) {i : Nat} (h : i < w.bytes.length) :
    runAll m ws (w.off + i) = w.bytes[i] := by
  induction ws generalizing m with
  | nil => contradiction
  | cons v ws ih =>
    obtain ⟨first, rest⟩ := List.pairwise_cons.mp apart
    rcases List.mem_cons.mp mem with rfl | mem
    · have covered : w.Covers (w.off + i) := ⟨Nat.le_add_right _ _, by omega⟩
      have later : runAll (run m w) ws (w.off + i) = run m w (w.off + i) :=
        runAll_of_not_covers fun v mem hv => first v mem _ covered hv
      exact later.trans (run_add h)
    · exact ih rest mem

/-- A single byte. -/
lemma run_byte {a : Nat} {b : β} : run m ⟨a, [b]⟩ k = if k = a then b else m k := by
  by_cases here : k = a
  · rw [if_pos here, here]
    exact run_add (w := ⟨a, [b]⟩) (i := 0) Nat.one_pos
  · rw [if_neg here]
    apply run_of_not_covers
    rintro ⟨lo, hi⟩
    simp only [List.length_singleton] at lo hi
    omega

/-- Single bytes stored one behind the other. -/
lemma runAll_bytes (byte : Nat → β) (n : Nat) :
    runAll m ((List.range n).map fun i => ⟨i, [byte i]⟩) k = if k < n then byte k else m k := by
  induction n with
  | zero => rfl
  | succ n ih =>
    have last : runAll m ((List.range (n + 1)).map fun i => ⟨i, [byte i]⟩) k =
        run (runAll m ((List.range n).map fun i => ⟨i, [byte i]⟩)) ⟨n, [byte n]⟩ k := by
      rw [List.range_succ, List.map_append, runAll, List.foldl_append]
      rfl
    rw [last, run_byte, ih]
    by_cases here : k = n
    · rw [if_pos here, if_pos (by omega), here]
    · have same : k < n ↔ k < n + 1 := by omega
      simp only [if_neg here, same]

end Store

/-! ## Cells and their places -/

/-- The cells of a raster of `w` columns and `h` rows, row by row. -/
def cells (w h : Nat) : List (Nat × Nat) :=
  (List.range h).flatMap fun y => (List.range w).map fun x => (x, y)

/-- How cells are stored: `size` bytes each, the rows `stride` bytes apart. -/
structure Layout where
  size : Nat
  stride : Nat

/-- The place of a cell. -/
def Layout.offset (l : Layout) (x y : Nat) : Nat := x * l.size + y * l.stride

/-- The cells of a raster. -/
lemma mem_cells {w h : Nat} {c : Nat × Nat} : c ∈ cells w h ↔ c.1 < w ∧ c.2 < h := by
  obtain ⟨x, y⟩ := c
  simp only [cells, List.mem_flatMap, List.mem_range, List.mem_map, Prod.mk.injEq]
  constructor
  · rintro ⟨_, hy, _, hx, rfl, rfl⟩
    exact ⟨hx, hy⟩
  · rintro ⟨hx, hy⟩
    exact ⟨y, hy, x, hx, rfl, rfl⟩

/-- Each cell comes once. -/
lemma nodup_cells (w h : Nat) : (cells w h).Nodup := by
  rw [cells, List.nodup_flatMap]
  constructor
  · intro y _
    exact List.nodup_range.map fun x x' e => (Prod.mk.inj e).1
  · refine List.nodup_range.imp_of_mem ?_
    intro y y' _ _ ne c mem mem'
    obtain ⟨_, _, rfl⟩ := List.mem_map.mp mem
    obtain ⟨_, _, e⟩ := List.mem_map.mp mem'
    exact ne (Prod.mk.inj e).2.symm

namespace Layout

variable {l : Layout} {w h x y x' y' k k' : Nat}

/-- A cell lies within its row. -/
lemma offset_add_lt (fit : w * l.size ≤ l.stride) (hx : x < w) (hk : k < l.size) :
    x * l.size + k < l.stride := by
  have row : (x + 1) * l.size ≤ w * l.size := Nat.mul_le_mul_right _ hx
  rw [Nat.succ_mul] at row
  omega

/-- A byte belongs to one cell, at one place of it. -/
lemma offset_unique (fit : w * l.size ≤ l.stride) (hx : x < w) (hx' : x' < w) (hk : k < l.size)
    (hk' : k' < l.size) (e : l.offset x y + k = l.offset x' y' + k') : x = x' ∧ y = y' ∧ k = k' := by
  have inRow := offset_add_lt fit hx hk
  have inRow' := offset_add_lt fit hx' hk'
  unfold offset at e
  have rows : y * l.stride + (x * l.size + k) = y' * l.stride + (x' * l.size + k') := by omega
  have row : y = y' := by
    have div := congrArg (· / l.stride) rows
    simpa [Nat.mul_comm _ l.stride, Nat.mul_add_div (by omega : 0 < l.stride), Nat.div_eq_of_lt inRow,
      Nat.div_eq_of_lt inRow'] using div
  subst row
  have cols : x * l.size + k = x' * l.size + k' := by omega
  have col : x = x' := by
    have div := congrArg (· / l.size) cols
    simpa [Nat.mul_comm _ l.size, Nat.mul_add_div (by omega : 0 < l.size), Nat.div_eq_of_lt hk,
      Nat.div_eq_of_lt hk'] using div
  subst col
  exact ⟨rfl, rfl, by omega⟩

/-- The rows lie within `h` strides. -/
lemma offset_add_le (fit : w * l.size ≤ l.stride) (hx : x < w) (hy : y < h) :
    l.offset x y + l.size ≤ h * l.stride := by
  have col : (x + 1) * l.size ≤ w * l.size := Nat.mul_le_mul_right _ hx
  have row : (y + 1) * l.stride ≤ h * l.stride := Nat.mul_le_mul_right _ hy
  rw [Nat.succ_mul] at col row
  unfold offset
  omega

/-- The raster is within `h` times the visible width exactly when the lines are not padded, or there is
only one. -/
lemma offset_add_le_iff (fit : w * l.size ≤ l.stride) (hw : 1 ≤ w) (hh : 1 ≤ h) :
    (∀ x < w, ∀ y < h, l.offset x y + l.size ≤ h * (w * l.size)) ↔ l.stride = w * l.size ∨ h = 1 := by
  constructor
  · intro within
    by_contra padded
    rw [not_or] at padded
    -- The last pixel of the last line.
    have last := within (w - 1) (by omega) (h - 1) (by omega)
    have col : (w - 1) * l.size + l.size = w * l.size := by
      rw [← Nat.succ_mul, Nat.succ_eq_add_one, Nat.sub_add_cancel hw]
    have rows : (h - 1) * (w * l.size + 1) ≤ (h - 1) * l.stride := Nat.mul_le_mul_left _ (by omega)
    have all : (h - 1) * (w * l.size) + w * l.size = h * (w * l.size) := by
      rw [← Nat.succ_mul, Nat.succ_eq_add_one, Nat.sub_add_cancel hh]
    rw [Nat.mul_succ] at rows
    unfold offset at last
    omega
  · rintro (tight | rfl) x hx y hy
    · rw [← tight]
      exact offset_add_le fit hx hy
    · have col : (x + 1) * l.size ≤ w * l.size := Nat.mul_le_mul_right _ hx
      rw [Nat.succ_mul] at col
      obtain rfl : y = 0 := by omega
      simpa [offset] using col

/-- The stores of a loop over all cells, each with its bytes. -/
def paint (l : Layout) (w h : Nat) (bytes : Nat → Nat → List β) : List (Store β) :=
  (cells w h).map fun c => ⟨l.offset c.1 c.2, bytes c.1 c.2⟩

variable {m : Nat → β} {bytes : Nat → Nat → List β}

/-- The stores of a picture are those of its cells. -/
lemma mem_paint {v : Store β} :
    v ∈ l.paint w h bytes ↔ ∃ x < w, ∃ y < h, v = ⟨l.offset x y, bytes x y⟩ := by
  simp only [paint, List.mem_map, mem_cells, Prod.exists]
  constructor
  · rintro ⟨x, y, ⟨hx, hy⟩, rfl⟩
    exact ⟨x, hx, y, hy, rfl⟩
  · rintro ⟨x, hx, y, hy, rfl⟩
    exact ⟨x, y, ⟨hx, hy⟩, rfl⟩

/-- Two nested loops that make one store each round are such a loop. -/
lemma flatMap_eq_paint {body : Nat → Nat → List (Store β)}
    (one : ∀ x < w, ∀ y < h, body x y = [⟨l.offset x y, bytes x y⟩]) :
    ((List.range h).flatMap fun y => (List.range w).flatMap fun x => body x y) =
      l.paint w h bytes := by
  rw [paint, cells, List.map_flatMap]
  apply List.flatMap_congr
  intro y hy
  rw [List.map_map, List.map_eq_flatMap]
  apply List.flatMap_congr
  intro x hx
  exact one x (List.mem_range.mp hx) y (List.mem_range.mp hy)

/-- They do not touch each other. -/
lemma pairwise_paint (fit : w * l.size ≤ l.stride) (len : ∀ x y, (bytes x y).length = l.size) :
    (l.paint w h bytes).Pairwise Store.Apart := by
  rw [paint, List.pairwise_map]
  refine (nodup_cells w h).imp_of_mem ?_
  rintro ⟨x, y⟩ ⟨x', y'⟩ mem mem' ne k covers covers'
  have inCell : l.offset x y ≤ k ∧ k < l.offset x y + l.size := by simpa [Store.Covers, len] using covers
  have inCell' : l.offset x' y' ≤ k ∧ k < l.offset x' y' + l.size := by
    simpa [Store.Covers, len] using covers'
  have hx : x < w := (mem_cells.mp mem).1
  have hx' : x' < w := (mem_cells.mp mem').1
  have same : l.offset x y + (k - l.offset x y) = l.offset x' y' + (k - l.offset x' y') := by omega
  obtain ⟨rfl, rfl, _⟩ := offset_unique fit hx hx' (by omega) (by omega) same
  exact ne rfl

/-- After the loop every cell holds its bytes, and every other byte is as before. -/
lemma runAll_paint (fit : w * l.size ≤ l.stride) (len : ∀ x y, (bytes x y).length = l.size) :
    (∀ x < w, ∀ y < h, ∀ k (hk : k < (bytes x y).length),
      Store.runAll m (l.paint w h bytes) (l.offset x y + k) = (bytes x y)[k]) ∧
    ∀ i, (∀ x < w, ∀ y < h, ¬ (l.offset x y ≤ i ∧ i < l.offset x y + l.size)) →
      Store.runAll m (l.paint w h bytes) i = m i := by
  constructor
  · intro x hx y hy k hk
    exact Store.runAll_of_mem (pairwise_paint fit len) (mem_paint.mpr ⟨x, hx, y, hy, rfl⟩) hk
  · intro i outside
    apply Store.runAll_of_not_covers
    intro v mem covers
    obtain ⟨x, hx, y, hy, rfl⟩ := mem_paint.mp mem
    obtain ⟨lo, hi⟩ := covers
    simp only [len] at lo hi
    exact outside x hx y hy ⟨lo, hi⟩

/-! ### Cells cut out of rows -/

/-- The cell in column `x` of row `y`, when the rows are given byte by byte. -/
def cell (size : Nat) (row : Nat → Nat → β) (x y : Nat) : List β :=
  (List.range size).map fun k => row y (x * size + k)

/-- A cell has the bytes of a pixel. -/
@[simp] lemma length_cell (size : Nat) (row : Nat → Nat → β) (x y : Nat) :
    (cell size row x y).length = size := by
  simp [cell]

/-- After the loop the rows lie in memory byte by byte, `stride` bytes apart. -/
lemma runAll_paint_row (row : Nat → Nat → β) (fit : w * l.size ≤ l.stride) {j : Nat}
    (hj : j < w * l.size) (hy : y < h) :
    Store.runAll m (l.paint w h (cell l.size row)) (j + y * l.stride) = row y j := by
  have size_pos : 0 < l.size := Nat.pos_of_mul_pos_left (by omega : 0 < w * l.size)
  have hx : j / l.size < w := (Nat.div_lt_iff_lt_mul size_pos).mpr hj
  have hk : j % l.size < l.size := Nat.mod_lt _ size_pos
  have split : j / l.size * l.size + j % l.size = j := Nat.div_add_mod' j l.size
  have place : j + y * l.stride = l.offset (j / l.size) y + j % l.size := by
    rw [offset]
    omega
  rw [place, (runAll_paint (m := m) fit (length_cell l.size row)).1 _ hx _ hy _ (by simpa using hk)]
  simp [cell, split]

/-- Without padding the rows follow each other, and nothing behind them is written. -/
lemma runAll_paint_tight {row : Nat → Nat → β} {size o : Nat} (pos : 0 < w * size) :
    Store.runAll m ((⟨size, w * size⟩ : Layout).paint w h (cell size row)) o =
      if o < h * (w * size) then row (o / (w * size)) (o % (w * size)) else m o := by
  by_cases inside : o < h * (w * size)
  · have hy : o / (w * size) < h := (Nat.div_lt_iff_lt_mul pos).mpr inside
    have hj : o % (w * size) < w * size := Nat.mod_lt _ pos
    have split : o % (w * size) + o / (w * size) * (w * size) = o := Nat.mod_add_div' o (w * size)
    have row := runAll_paint_row (l := ⟨size, w * size⟩) (m := m) row le_rfl hj hy
    rw [if_pos inside, ← row, split]
  · rw [if_neg inside]
    apply (runAll_paint (l := ⟨size, w * size⟩) le_rfl (length_cell size row)).2
    rintro x hx y hy ⟨_, hi⟩
    exact inside (hi.trans_le (offset_add_le (l := ⟨size, w * size⟩) le_rfl hx hy))

end Layout

/-! ## Rows one after the other -/

/-- Groups of `n` elements each are all the elements. -/
lemma flatMap_range_groups (f : Nat → β) (w n : Nat) :
    ((List.range w).flatMap fun x => (List.range n).map fun k => f (x * n + k)) =
      (List.range (w * n)).map f := by
  induction w with
  | zero => simp
  | succ w ih =>
    rw [List.range_succ, List.flatMap_append, ih, List.flatMap_singleton, Nat.succ_mul, List.range_add,
      List.map_append, List.map_map]
    rfl

/-- A part of a list, element by element. -/
lemma take_drop_eq {l : List β} {a : Nat} (part : List β) (e : ∀ k < part.length, l[a + k]? = part[k]?) :
    (l.drop a).take part.length = part := by
  apply List.ext_getElem?
  intro k
  by_cases inside : k < part.length
  · rw [List.getElem?_take_of_lt inside, List.getElem?_drop, e k inside]
  · rw [List.getElem?_take_eq_none (Nat.le_of_not_lt inside),
      List.getElem?_eq_none (Nat.le_of_not_lt inside)]

section rows

variable {row : Nat → List β} {n : Nat}

/-- Rows of the same length. -/
lemma length_flatMap_range (len : ∀ y, (row y).length = n) (h : Nat) :
    ((List.range h).flatMap row).length = h * n := by
  induction h with
  | zero => simp
  | succ h ih => rw [List.range_succ, List.flatMap_append, List.length_append, ih]; simp [len, Nat.succ_mul]

/-- The element in column `j` of row `y`. -/
lemma getElem?_flatMap_range (len : ∀ y, (row y).length = n) {h y j : Nat} (hy : y < h) (hj : j < n) :
    ((List.range h).flatMap row)[y * n + j]? = (row y)[j]? := by
  induction h with
  | zero => omega
  | succ h ih =>
    have front := length_flatMap_range len h
    rw [List.range_succ, List.flatMap_append, List.flatMap_singleton]
    rcases Nat.lt_succ_iff_lt_or_eq.mp hy with lt | rfl
    · have inFront : y * n + j < ((List.range h).flatMap row).length := by
        have le : (y + 1) * n ≤ h * n := Nat.mul_le_mul_right _ lt
        rw [Nat.succ_mul] at le
        omega
      rw [List.getElem?_append_left inFront, ih lt]
    · rw [List.getElem?_append_right (by omega), front, Nat.add_sub_cancel_left]

end rows

end Projector
