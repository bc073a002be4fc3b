import Projector.Fb.Pixel

/-!
# Painting the screen

`draw()` of `fb/draw_bitmap.c` paints sixteen vertical bars, in one of three depths. `draw` is the list of
its stores in order, and `Store.runAll fbp draw` what it leaves in the frame buffer. On a screen whose
lines hold the pixels it is a loop over the cells of a raster (`draw_eq_paint`). `painted` says what every
pixel and every other byte is afterwards; `inMapping_iff` says when all stores are within what `main` has
mapped, which it computes from the visible width.
-/

namespace Projector

/-- The screen: `vinfo.xres`, `vinfo.yres`, `vinfo.bits_per_pixel` and `finfo.line_length`. -/
structure Display where
  xres : Nat
  yres : Nat
  bitsPerPixel : Nat
  lineLength : Nat

/-- `def_r` -/
def defR : List Nat := [0, 0, 0, 0, 172, 172, 172, 172, 84, 84, 84, 84, 255, 255, 255, 255]

/-- `def_g` -/
def defG : List Nat := [0, 0, 172, 172, 0, 0, 84, 172, 84, 84, 255, 255, 84, 84, 255, 255]

/-- `def_b` -/
def defB : List Nat := [0, 172, 0, 172, 0, 172, 0, 172, 84, 255, 84, 255, 84, 255, 84, 255]

/-- `def_r[c]` and the like. No index outside the table is used (`colour_eq`). -/
def entry (table : List Nat) (c : Int) : Nat := table.getD c.toNat 0

namespace Display

variable (d : Display)

/-- `int c = 16 * x / vinfo.xres`: a product of `int`, divided as `unsigned int`. -/
def colour (x : Nat) : Int := wrap32 (wrap32 (16 * x) % 4294967296 / d.xres)

/-- The body of the loops of `draw`. -/
def plot (x y : Nat) : List (Store UInt8) :=
  let c := d.colour x
  if d.bitsPerPixel = 8 then [putPixel d.lineLength x y c]
  else if d.bitsPerPixel = 16 then
    [putPixelRGB565 d.lineLength x y (entry defR c) (entry defG c) (entry defB c)]
  else if d.bitsPerPixel = 24 then
    [putPixelRGB24 d.lineLength x y (entry defR c) (entry defG c) (entry defB c)]
  else []

/-- `draw` -/
def draw : List (Store UInt8) :=
  (List.range d.yres).flatMap fun y => (List.range d.xres).flatMap fun x => d.plot x y

/-- `screensize` -/
def screensize : Nat := d.xres * d.yres * d.bitsPerPixel % 4294967296 / 8

/-- A screen with pixels, in one of the three depths, whose lines hold their pixels. -/
structure Valid : Prop where
  xres_pos : 1 ≤ d.xres
  yres_pos : 1 ≤ d.yres
  depth : d.bitsPerPixel = 8 ∨ d.bitsPerPixel = 16 ∨ d.bitsPerPixel = 24
  fits : d.xres * d.bitsPerPixel / 8 ≤ d.lineLength
  small : d.yres * d.lineLength < 2 ^ 31

/-- How its pixels lie in memory. -/
def layout : Layout := ⟨d.bitsPerPixel / 8, d.lineLength⟩

/-- The bar of a column. -/
def bar (x : Nat) : Nat := 16 * x / d.xres

/-- The bytes of a pixel of colour `c`. -/
def shade (c : Int) : List UInt8 :=
  if d.bitsPerPixel = 8 then [UInt8.ofInt c]
  else if d.bitsPerPixel = 16 then leBytes 2 (rgb565 (entry defR c) (entry defG c) (entry defB c))
  else [UInt8.ofNat (entry defR c), UInt8.ofNat (entry defG c), UInt8.ofNat (entry defB c)]

variable {d}

/-! ## Colours -/

/-- There are sixteen bars. -/
lemma bar_lt {x : Nat} (hx : x < d.xres) : d.bar x < 16 := by
  rw [bar, Nat.div_lt_iff_lt_mul (by omega)]
  omega

/-- The arithmetic of the colour does not wrap. -/
lemma colour_eq {x : Nat} (hx : x < d.xres) (lt : x < 2 ^ 27) : d.colour x = d.bar x := by
  have bar := bar_lt hx
  have prod : wrap32 (16 * x) = ((16 * x : Nat) : Int) :=
    (wrap32_of_inInt ⟨by omega, by omega⟩).trans (by push_cast; rfl)
  have quot : ((16 * x : Nat) : Int) / d.xres = (d.bar x : Nat) := (Int.natCast_ediv _ _).symm
  rw [colour, prod, Int.emod_eq_of_lt (by omega) (by omega), quot]
  exact wrap32_of_inInt ⟨by omega, by omega⟩

/-- A table of bytes has bytes as entries. -/
lemma entry_lt {table : List Nat} (bytes : ∀ v ∈ table, v < 256) (c : Int) : entry table c < 256 := by
  rw [entry]
  by_cases inside : c.toNat < table.length
  · rw [List.getD_eq_getElem _ _ inside]
    exact bytes _ (List.getElem_mem inside)
  · rw [List.getD_eq_default _ _ (Nat.le_of_not_lt inside)]
    decide

/-! ## The loop as a raster -/

/-- A pixel has `bits_per_pixel / 8` bytes. -/
lemma Valid.length_shade (v : d.Valid) (c : Int) : (d.shade c).length = d.layout.size := by
  rcases v.depth with h | h | h <;> simp [shade, layout, h]

/-- The pixels of a line are within the line. -/
lemma Valid.fit (v : d.Valid) : d.xres * d.layout.size ≤ d.layout.stride := by
  have fits := v.fits
  rcases v.depth with h | h | h <;> simp only [layout, h] at fits ⊢ <;> omega

/-- One round of the loops is one store, at the place of the pixel. -/
lemma Valid.plot_eq (v : d.Valid) {x y : Nat} (hx : x < d.xres) (hy : y < d.yres) :
    d.plot x y = [⟨d.layout.offset x y, d.shade (d.colour x)⟩] := by
  have place : pixOffset d.lineLength d.layout.size x y = d.layout.offset x y :=
    pixOffset_eq v.fit (by have small := v.small; simp only [layout] at small ⊢; omega) hx hy
  rcases v.depth with h | h | h
  · simp only [layout, h, Nat.reduceDiv] at place
    simp [plot, shade, putPixel, layout, h, place]
  · simp only [layout, h, Nat.reduceDiv] at place
    simp [plot, shade, putPixelRGB565, layout, h, place]
  · simp only [layout, h, Nat.reduceDiv] at place
    simp [plot, shade, putPixelRGB24, layout, h, place]

/-- `draw` goes through the cells of the screen. -/
lemma Valid.draw_eq_paint (v : d.Valid) :
    d.draw = d.layout.paint d.xres d.yres fun x _ => d.shade (d.colour x) :=
  Layout.flatMap_eq_paint fun _ hx _ hy => v.plot_eq hx hy

/-! ## Staying inside the mapping -/

/-- `screensize` is what the visible pixels take. -/
lemma Valid.screensize_eq (v : d.Valid) (whole : d.xres * d.yres * d.bitsPerPixel < 2 ^ 31) :
    d.screensize = d.yres * (d.xres * d.layout.size) := by
  have comm : d.yres * (d.xres * d.layout.size) = d.xres * d.yres * d.layout.size := by ring
  rw [screensize, Nat.mod_eq_of_lt (by omega), comm]
  rcases v.depth with h | h | h
  · simp only [layout, h] at whole ⊢
    omega
  · simp only [layout, h] at whole ⊢
    omega
  · simp only [layout, h] at whole ⊢
    omega

/-- All the bytes that `draw` writes are inside the mapping, if and only if the driver does not pad the
lines, or there is only one. -/
theorem inMapping_iff (v : d.Valid) (whole : d.xres * d.yres * d.bitsPerPixel < 2 ^ 31) :
    (∀ w ∈ d.draw, ∀ k, w.Covers k → k < d.screensize) ↔
      d.lineLength = d.xres * d.bitsPerPixel / 8 ∨ d.yres = 1 := by
  have size_pos : 0 < d.layout.size := by
    rcases v.depth with h | h | h <;> simp [layout, h]
  have line : d.xres * d.layout.size = d.xres * d.bitsPerPixel / 8 := by
    rcases v.depth with h | h | h <;> simp only [layout, h] <;> omega
  rw [v.screensize_eq whole, ← line]
  refine Iff.trans ?_ (Layout.offset_add_le_iff v.fit v.xres_pos v.yres_pos)
  rw [v.draw_eq_paint]
  constructor
  · intro inside x hx y hy
    have last := inside _ (Layout.mem_paint.mpr ⟨x, hx, y, hy, rfl⟩)
      (d.layout.offset x y + d.layout.size - 1) (by simp only [Store.Covers, v.length_shade]; omega)
    omega
  · rintro within w mem k ⟨_, hi⟩
    obtain ⟨x, hx, y, hy, rfl⟩ := Layout.mem_paint.mp mem
    have le := within x hx y hy
    simp only [v.length_shade] at hi
    omega

/-- `inMapping_iff` for a screen of the usual kind whose driver does not pad the lines. -/
theorem inMapping_iff_vga :
    (∀ w ∈ (⟨640, 480, 16, 1280⟩ : Display).draw, ∀ k, w.Covers k → k < 614400) ↔
      1280 = 640 * 16 / 8 ∨ 480 = 1 :=
  inMapping_iff (d := ⟨640, 480, 16, 1280⟩) ⟨by decide, by decide, by decide, by decide, by decide⟩
    (by decide)

/-- A screen of 1366 by 768 pixels whose driver rounds the lines up to 32 bytes. -/
def wide : Display := ⟨1366, 768, 8, 1376⟩

/-- There the last pixel of the last line is not in the mapping. -/
theorem not_inMapping : ∃ w ∈ wide.draw, ∃ k, w.Covers k ∧ ¬ k < wide.screensize := by
  refine ⟨putPixel 1376 1365 767 (wide.colour 1365), ?_, 1056757, by decide, by decide⟩
  simp only [draw, List.mem_flatMap, List.mem_range]
  exact ⟨767, by decide, 1365, by decide, by simp [plot, wide]⟩

/-! ## What is painted -/

/-- The pixel in column `x` of line `y` has the colour of its bar, in the depth of the screen. -/
structure Shows (d : Display) (m : Mem) (x y : Nat) : Prop where
  indexed : d.bitsPerPixel = 8 → (m (d.layout.offset x y)).toNat = d.bar x
  packed : d.bitsPerPixel = 16 →
    leNat (m.read (d.layout.offset x y) 2) / 2048 = entry defR (d.bar x) / 8 ∧
    leNat (m.read (d.layout.offset x y) 2) / 32 % 64 = entry defG (d.bar x) / 4 ∧
    leNat (m.read (d.layout.offset x y) 2) % 32 = entry defB (d.bar x) / 8
  direct : d.bitsPerPixel = 24 → (m.read (d.layout.offset x y) 3).map UInt8.toNat =
    [entry defR (d.bar x), entry defG (d.bar x), entry defB (d.bar x)]

/-- The bytes of a colour show it. -/
lemma shows_of_read {m : Mem} {x y : Nat} (hx : x < d.xres)
    (read : m.read (d.layout.offset x y) (d.shade (d.bar x)).length = d.shade (d.bar x)) :
    d.Shows m x y where
  indexed h := by
    have lt := bar_lt hx
    simp only [shade, h, ↓reduceIte, List.length_singleton] at read
    have byte : m (d.layout.offset x y) = UInt8.ofInt (d.bar x) := by simpa [Mem.read] using read
    rw [byte]
    show ((d.bar x : Int) % 2 ^ 8).toNat % 2 ^ 8 = d.bar x
    omega
  packed h := by
    have pack := rgb565_fields (entry_lt (by decide : ∀ v ∈ defR, v < 256) (d.bar x))
      (entry_lt (by decide : ∀ v ∈ defG, v < 256) (d.bar x))
      (entry_lt (by decide : ∀ v ∈ defB, v < 256) (d.bar x))
    have small : rgb565 (entry defR (d.bar x)) (entry defG (d.bar x)) (entry defB (d.bar x)) <
        256 ^ 2 := Nat.mod_lt _ (by decide)
    simp only [shade, h, Nat.reduceEqDiff, ↓reduceIte, length_leBytes] at read
    rwa [read, leNat_leBytes, Nat.mod_eq_of_lt small]
  direct h := by
    have byte (table : List Nat) (bytes : ∀ v ∈ table, v < 256) :
        (UInt8.ofNat (entry table (d.bar x))).toNat = entry table (d.bar x) := by
      rw [UInt8.toNat_ofNat', Nat.mod_eq_of_lt (entry_lt bytes _)]
    simp only [shade, h, Nat.reduceEqDiff, ↓reduceIte, List.length_cons, List.length_nil,
      Nat.reduceAdd] at read
    rw [read, List.map_cons, List.map_cons, List.map_cons, List.map_nil, byte _ (by decide),
      byte _ (by decide), byte _ (by decide)]

/-- After `draw` every pixel shows the colour of its bar, and every byte that is no pixel's is as before. -/
theorem painted (v : d.Valid) (narrow : d.xres ≤ 2 ^ 26) (fbp : Mem) :
    (∀ x < d.xres, d.colour x = d.bar x ∧ d.bar x < 16 ∧
      ∀ y < d.yres, d.Shows (Store.runAll fbp d.draw) x y) ∧
    (∀ x < d.xres, ∀ y < d.yres, d.layout.offset x y + d.layout.size ≤ d.yres * d.lineLength) ∧
    ∀ i, (∀ x < d.xres, ∀ y < d.yres,
        ¬ (d.layout.offset x y ≤ i ∧ i < d.layout.offset x y + d.layout.size)) →
      Store.runAll fbp d.draw i = fbp i := by
  obtain ⟨pixels, others⟩ := Layout.runAll_paint (h := d.yres) (m := fbp) v.fit
    fun x _ => v.length_shade (d.colour x)
  rw [← v.draw_eq_paint] at pixels others
  refine ⟨fun x hx => ⟨colour_eq hx (by omega), bar_lt hx, fun y hy => shows_of_read hx ?_⟩,
    fun x hx y hy => Layout.offset_add_le v.fit hx hy, others⟩
  have bytes := pixels x hx y hy
  rw [colour_eq hx (by omega)] at bytes
  apply List.ext_getElem
  · simp
  · intro k _ hk
    simpa using bytes k hk

/-- `painted` for the screen with padded lines. -/
theorem painted_wide :
    (∀ x < wide.xres, wide.colour x = wide.bar x ∧ wide.bar x < 16 ∧
      ∀ y < wide.yres, wide.Shows (Store.runAll (fun _ => 0) wide.draw) x y) ∧
    (∀ x < wide.xres, ∀ y < wide.yres,
      wide.layout.offset x y + wide.layout.size ≤ wide.yres * wide.lineLength) ∧
    ∀ i, (∀ x < wide.xres, ∀ y < wide.yres,
        ¬ (wide.layout.offset x y ≤ i ∧ i < wide.layout.offset x y + wide.layout.size)) →
      Store.runAll (fun _ => 0) wide.draw i = 0 :=
  painted (d := wide) ⟨by decide, by decide, by decide, by decide, by decide⟩ (by decide) _

end Display

end Projector
