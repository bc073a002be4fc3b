import Mathlib.Data.List.TakeDrop
import Projector.Base.Raster
import Projector.Bitmap.RoundTrip

/-!
# Loading and rewriting a bitmap

`fb/rw_bitmap.c` loads a bitmap into a matrix and writes it to `out.bmp`. Both loops move the file position
on by three bytes for each pixel and by nothing for the padding of a row. What is loaded is therefore right
in the rows up to the first padding (`loadImage_iff`), and what is written is the beginning of the file
(`writeBMP_iff`). A position fits into a `long` as long as it is in the file.
-/

namespace Projector

/-- The pixels in memory, three bytes each. -/
abbrev Matrix := Nat → Nat → List UInt8

/-- `loadImage` in progress: `pos`, `tmp` and the matrix. -/
structure Load where
  pos : Nat
  tmp : List UInt8
  matrix : Matrix

/-- The body of the loops of `loadImage`. -/
def Load.pixel (arq : List UInt8) (i : Nat) (s : Load) (j : Nat) : Load :=
  let pos := s.pos + 3
  let tmp := fread arq pos s.tmp
  { pos := pos
    tmp := tmp
    matrix := fun k l => if k = i ∧ l = j then tmp else s.matrix k l }

/-- `loadImage`, into a matrix with rows from `malloc`; `tmp` is what the variable holds at first. -/
def loadImage (height width : Int) (arq tmp : List UInt8) (matrix : Matrix) : Matrix :=
  ((List.range height.toNat).foldl
    (fun s i => (List.range width.toNat).foldl (Load.pixel arq i) s) ⟨51, tmp, matrix⟩).matrix

/-- `writeBMP` in progress: `pos` and the contents of `out.bmp`. -/
structure Save where
  pos : Nat
  out : List UInt8

/-- The body of the loops of `writeBMP`. -/
def Save.pixel (matrix : Matrix) (i : Nat) (s : Save) (j : Nat) : Save :=
  let pos := s.pos + 3
  { pos := pos
    out := fwrite 0 s.out pos (matrix i j) }

/-- `writeBMP`: `header` is what the array holds at first. -/
def writeBMP (height width : Int) (matrix : Matrix) (arq header : List UInt8) : List UInt8 :=
  ((List.range height.toNat).foldl
    (fun s i => (List.range width.toNat).foldl (Save.pixel matrix i) s)
    ⟨51, fwrite 0 [] 0 (fread arq 0 header)⟩).out

/-- The contents of the variables that the program does not set: `type` and `bpp` of `isBMP`, `info`, `tmp`,
`header` and the rows that `createMatrix` allocates. -/
structure Unset where
  type : List UInt8
  bpp : Nat
  info : InfoHeader
  tmp : List UInt8
  header : List UInt8
  matrix : Matrix
  type_length : type.length = 2
  tmp_length : tmp.length = 3
  header_length : header.length = 54

/-- Variables that hold zeros. -/
def unset : Unset where
  type := [0, 0]
  bpp := 0
  info := ⟨0, 0, 0, 0, 0, 0, 0⟩
  tmp := [0, 0, 0]
  header := List.replicate 54 0
  matrix := fun _ _ => [0, 0, 0]
  type_length := rfl
  tmp_length := rfl
  header_length := rfl

/-- `isBMP`, which ends the program when this is false. -/
def isBMP (u : Unset) (arq : List UInt8) : Bool :=
  fread arq 0 u.type = [66, 77] ∧ leNat (fread arq 28 (leBytes 2 u.bpp)) = 24

/-- `main`: the matrix after `loadImage` and the file `out.bmp` after `writeBMP`. -/
def rwBitmap (u : Unset) (arq : List UInt8) : Option (Matrix × List UInt8) :=
  if isBMP u arq then
    let info := readInfo u.info arq
    let matrix := loadImage info.height info.width arq u.tmp u.matrix
    some (matrix, writeBMP info.height info.width matrix arq u.header)
  else none

/-! ## Bitmaps -/

/-- The three bytes at a place of a file. -/
def pixelAt (arq : List UInt8) (pos : Nat) : List UInt8 := (arq.drop pos).take 3

/-- A bitmap of 24 bits per pixel, without compression, with its pixels from 54 on in rows padded to a
multiple of four bytes. -/
structure IsBitmap (arq : List UInt8) (width height : Nat) : Prop where
  magic : arq.take 2 = [66, 77]
  offset : (arq.drop 10).take 4 = leBytes 4 54
  width_field : (arq.drop 18).take 4 = intBytes width
  height_field : (arq.drop 22).take 4 = intBytes height
  bpp : (arq.drop 28).take 2 = leBytes 2 24
  compression : (arq.drop 30).take 4 = leBytes 4 0
  width_pos : 1 ≤ width
  height_pos : 1 ≤ height
  width_lt : width < 2 ^ 31
  height_lt : height < 2 ^ 31
  rows : 54 + height * stride width ≤ arq.length

variable {arq : List UInt8} {width height : Nat} {u : Unset}

/-- A bitmap is let through. -/
lemma IsBitmap.isBMP (h : IsBitmap arq width height) (u : Unset) : isBMP u arq = true := by
  have rows := h.rows
  have type : fread arq 0 u.type = [66, 77] := by
    rw [fread_eq (by rw [u.type_length]; omega), u.type_length, List.drop_zero, h.magic]
  have bpp : fread arq 28 (leBytes 2 u.bpp) = leBytes 2 24 := by
    rw [fread_eq (by simp; omega), length_leBytes, h.bpp]
  have bits : leNat (leBytes 2 24) = 24 := by decide
  simp only [Projector.isBMP, type, bpp, bits, and_self, decide_true]

/-- `readInfo` finds the size. -/
lemma IsBitmap.readInfo (h : IsBitmap arq width height) (raw : InfoHeader) :
    (readInfo raw arq).width = width ∧ (Projector.readInfo raw arq).height = height := by
  have rows := h.rows
  have width_lt := h.width_lt
  have height_lt := h.height_lt
  constructor
  · show intOfBytes (fread arq 18 (intBytes raw.width)) = width
    rw [fread_eq (by simp; omega), length_intBytes, h.width_field]
    exact intOfBytes_intBytes_of_inInt ⟨by omega, by omega⟩
  · show intOfBytes (fread arq 22 (intBytes raw.height)) = height
    rw [fread_eq (by simp; omega), length_intBytes, h.height_field]
    exact intOfBytes_intBytes_of_inInt ⟨by omega, by omega⟩

/-! ## The two loops -/

/-- The pixels loaded so far; the position has moved on by three bytes for each of them. -/
structure Loading (arq : List UInt8) (width height m : Nat) (s : Load) : Prop where
  pos : s.pos = 51 + m * 3
  tmp : s.tmp.length = 3
  matrix : ∀ i < height, ∀ j < width, i * width + j < m →
    s.matrix i j = pixelAt arq (54 + (i * width + j) * 3)

/-- A round comes before the end. -/
lemma round_lt {i j : Nat} (hi : i < height) (hj : j < width) : i * width + j + 1 ≤ height * width := by
  have rows : (i + 1) * width ≤ height * width := Nat.mul_le_mul_right _ hi
  rw [Nat.succ_mul] at rows
  omega

/-- One round of `loadImage`. -/
lemma Loading.pixel {i j : Nat} {s : Load} (long : 54 + height * width * 3 ≤ arq.length) (hi : i < height)
    (hj : j < width) (inv : Loading arq width height (i * width + j) s) :
    Loading arq width height (i * width + j + 1) (s.pixel arq i j) := by
  have before := round_lt hi hj
  have place : s.pos + 3 = 54 + (i * width + j) * 3 := by rw [inv.pos]; omega
  have read : fread arq (s.pos + 3) s.tmp = pixelAt arq (54 + (i * width + j) * 3) := by
    rw [place, fread_eq (by rw [inv.tmp]; omega), inv.tmp, pixelAt]
  refine ⟨?_, ?_, fun k hk l hl lt => ?_⟩
  · show s.pos + 3 = _
    omega
  · show (fread arq (s.pos + 3) s.tmp).length = 3
    rw [read, pixelAt, List.length_take, List.length_drop]
    omega
  · show (if k = i ∧ l = j then fread arq (s.pos + 3) s.tmp else s.matrix k l) = _
    by_cases here : k = i ∧ l = j
    · rw [if_pos here, read, here.1, here.2]
    · rw [if_neg here]
      apply inv.matrix k hk l hl
      by_contra last
      have same : (⟨1, width⟩ : Layout).offset l k + 0 = (⟨1, width⟩ : Layout).offset j i + 0 := by
        simp only [Layout.offset]
        omega
      obtain ⟨rfl, rfl, _⟩ := Layout.offset_unique (by simp) hl hj Nat.one_pos Nat.one_pos same
      exact here ⟨rfl, rfl⟩

/-- What `loadImage` leaves in the matrix. -/
lemma loadImage_eq (long : 54 + height * width * 3 ≤ arq.length) {tmp : List UInt8} (len : tmp.length = 3)
    (matrix : Matrix) {i j : Nat} (hi : i < height) (hj : j < width) :
    loadImage height width arq tmp matrix i j = pixelAt arq (54 + (i * width + j) * 3) := by
  have all := nested_range_rule (Loading arq width height) (f := Load.pixel arq) (b := ⟨51, tmp, matrix⟩)
    ⟨by simp, len, by simp⟩ fun i hi j hj s => Loading.pixel long hi hj
  exact all.matrix i hi j hj (round_lt hi hj)

/-- One round of `writeBMP` appends the next three bytes of the file. -/
lemma Save.pixel_eq {i j : Nat} {matrix : Matrix} (long : 54 + height * width * 3 ≤ arq.length)
    (hi : i < height) (hj : j < width) (same : matrix i j = pixelAt arq (54 + (i * width + j) * 3)) :
    Save.pixel matrix i ⟨51 + (i * width + j) * 3, arq.take (54 + (i * width + j) * 3)⟩ j =
      ⟨51 + (i * width + j + 1) * 3, arq.take (54 + (i * width + j + 1) * 3)⟩ := by
  have before := round_lt hi hj
  have place : 51 + (i * width + j) * 3 + 3 = (arq.take (54 + (i * width + j) * 3)).length := by
    rw [List.length_take]
    omega
  have next : 54 + (i * width + j + 1) * 3 = 54 + (i * width + j) * 3 + 3 := by omega
  have more : arq.take (54 + (i * width + j) * 3 + 3) =
      arq.take (54 + (i * width + j) * 3) ++ pixelAt arq (54 + (i * width + j) * 3) := by
    rw [List.take_add, pixelAt]
  rw [Save.pixel, same, place, fwrite_length, next, more, ← place]
  congr 1
  omega

/-- `writeBMP` writes the beginning of the file, when the matrix holds it. -/
lemma writeBMP_eq (long : 54 + height * width * 3 ≤ arq.length) {header : List UInt8}
    (len : header.length = 54) {matrix : Matrix}
    (same : ∀ i < height, ∀ j < width, matrix i j = pixelAt arq (54 + (i * width + j) * 3)) :
    writeBMP height width matrix arq header = arq.take (54 + height * width * 3) := by
  have head : fwrite 0 [] 0 (fread arq 0 header) = arq.take 54 := by
    rw [fread_eq (by omega), len, List.drop_zero]
    exact fwrite_length _
  have all := nested_range_rule (fun m s => s = (⟨51 + m * 3, arq.take (54 + m * 3)⟩ : Save))
    (f := Save.pixel matrix) (b := ⟨51, fwrite 0 [] 0 (fread arq 0 header)⟩) (h := height) (w := width)
    (by rw [head]) fun i hi j hj s e => by
      rw [e]
      exact Save.pixel_eq long hi hj (same i hi j hj)
  exact congrArg Save.out all

/-! ## The program -/

/-- The pixels without padding are in the file. -/
lemma IsBitmap.long (h : IsBitmap arq width height) : 54 + height * width * 3 ≤ arq.length := by
  have rows := h.rows
  have fits : height * (width * 3) ≤ height * stride width := Nat.mul_le_mul_left _ (le_stride width)
  rw [← Nat.mul_assoc] at fits
  omega

/-- What the program does with a bitmap: the pixels are taken as if there were no padding, and the file
is cut off behind as many bytes. -/
lemma IsBitmap.rwBitmap_eq (h : IsBitmap arq width height) (u : Unset) :
    ∃ matrix, rwBitmap u arq = some (matrix, arq.take (54 + height * width * 3)) ∧
      ∀ i < height, ∀ j < width, matrix i j = pixelAt arq (54 + (i * width + j) * 3) := by
  obtain ⟨w, e⟩ := h.readInfo u.info
  have matrix : ∀ i < height, ∀ j < width, loadImage height width arq u.tmp u.matrix i j =
      pixelAt arq (54 + (i * width + j) * 3) := by
    intro i hi j hj
    exact loadImage_eq h.long u.tmp_length u.matrix hi hj
  refine ⟨loadImage height width arq u.tmp u.matrix, ?_, matrix⟩
  simp only [rwBitmap, h.isBMP u, ↓reduceIte, w, e, writeBMP_eq h.long u.header_length matrix]

/-! ## What is loaded -/

/-- Every entry of the matrix holds the pixel in its column of its row of the file. -/
def Addresses (matrix : Matrix) (arq : List UInt8) (width height : Nat) : Prop :=
  ∀ i < height, ∀ j < width, matrix i j = pixelAt arq (54 + i * stride width + j * 3)

/-- The file has the same bytes where the rows are and where they would be without padding. -/
def Shifted (arq : List UInt8) (width height : Nat) : Prop :=
  ∀ i < height, ∀ j < width,
    pixelAt arq (54 + (i * width + j) * 3) = pixelAt arq (54 + i * stride width + j * 3)

/-- Without padding, or in the first row, nothing moves. -/
lemma shifted_of_tight (tight : 4 ∣ width ∨ height = 1) : Shifted arq width height := by
  intro i hi j hj
  rcases tight with whole | one
  · have place : 54 + (i * width + j) * 3 = 54 + i * stride width + j * 3 := by
      rw [stride_eq_iff.mpr whole]
      ring
    rw [place]
  · obtain rfl : i = 0 := by omega
    simp

/-- The headers of a bitmap. -/
def bitmapHead (width height : Nat) : BmpHead :=
  ⟨(54 + height * stride width : Nat), 54, 40, width, height, 1, 24, 0⟩

/-- A black bitmap of any size, but for a byte of the first pixel of the second row. -/
def whiteDot (width height : Nat) : List UInt8 :=
  (bitmapHead width height).parts.flatten ++
    (List.range (height * stride width)).map fun k => if k = stride width then 255 else 0

/-- The fields of the header have 54 bytes. -/
lemma length_parts (bh : BmpHead) : bh.parts.flatten.length = 54 := by
  simp [BmpHead.parts]

/-- The size of the example. -/
lemma length_whiteDot (width height : Nat) :
    (whiteDot width height).length = 54 + height * stride width := by
  rw [whiteDot, List.length_append, length_parts, List.length_map, List.length_range]

/-- A field of the headers. -/
lemma field_whiteDot (front : List (List UInt8)) {back : List (List UInt8)} {part : List UInt8} {pos n : Nat}
    (split : (bitmapHead width height).parts = front ++ part :: back) (place : front.flatten.length = pos)
    (len : part.length = n) : ((whiteDot width height).drop pos).take n = part := by
  rw [← len]
  exact take_drop_part front split place _

/-- The example is a bitmap of its size. -/
lemma isBitmap_whiteDot (width_pos : 1 ≤ width) (height_pos : 1 ≤ height) (width_lt : width < 2 ^ 31)
    (height_lt : height < 2 ^ 31) : IsBitmap (whiteDot width height) width height where
  magic := field_whiteDot [] rfl rfl rfl
  offset := field_whiteDot ((bitmapHead width height).parts.take 3) rfl (by simp [BmpHead.parts]) rfl
  width_field := field_whiteDot ((bitmapHead width height).parts.take 5) rfl (by simp [BmpHead.parts])
    (length_intBytes _)
  height_field := field_whiteDot ((bitmapHead width height).parts.take 6) rfl (by simp [BmpHead.parts])
    (length_intBytes _)
  bpp := field_whiteDot ((bitmapHead width height).parts.take 8) rfl (by simp [BmpHead.parts]) rfl
  compression := field_whiteDot ((bitmapHead width height).parts.take 9) rfl (by simp [BmpHead.parts]) rfl
  width_pos := width_pos
  height_pos := height_pos
  width_lt := width_lt
  height_lt := height_lt
  rows := (length_whiteDot width height).ge

/-- A byte of the rows. -/
lemma getElem?_whiteDot {k : Nat} (hk : k < height * stride width) :
    (whiteDot width height)[54 + k]? = some (if k = stride width then 255 else 0) := by
  rw [whiteDot, List.getElem?_append_right (by rw [length_parts]; omega), length_parts,
    Nat.add_sub_cancel_left, List.getElem?_map, List.getElem?_range hk, Option.map_some]

/-- The first byte at a place. -/
lemma getElem?_pixelAt (arq : List UInt8) (pos : Nat) : (pixelAt arq pos)[0]? = arq[pos]? := by
  rw [pixelAt, List.getElem?_take_of_lt (by decide), List.getElem?_drop, Nat.add_zero]

/-- With padding, the second row is loaded from another place than it is stored at. -/
lemma not_shifted_whiteDot (width_pos : 1 ≤ width) (padded : ¬ 4 ∣ width) (more : 2 ≤ height) :
    ¬ Shifted (whiteDot width height) width height := by
  intro shifted
  have fits := le_stride width
  have ne : width * 3 ≠ stride width := fun e => padded (stride_eq_iff.mp e.symm)
  have rows : 2 * stride width ≤ height * stride width := Nat.mul_le_mul_right _ more
  have first := congrArg (fun bs => bs[0]?) (shifted 1 (by omega) 0 (by omega))
  simp only [getElem?_pixelAt, Nat.one_mul, Nat.zero_mul, Nat.add_zero] at first
  rw [getElem?_whiteDot (by omega), getElem?_whiteDot (by omega), if_neg ne, if_pos rfl] at first
  exact absurd first (by decide)

/-- A bitmap is loaded pixel by pixel into its place exactly when its rows are not padded, or there is
only one, or it has the same bytes where the program looks; and for a size all bitmaps are exactly in the
first two cases. -/
theorem loadImage_iff (width_pos : 1 ≤ width) (height_pos : 1 ≤ height) (width_lt : width < 2 ^ 31)
    (height_lt : height < 2 ^ 31) :
    (∀ u arq, IsBitmap arq width height → ∃ matrix out, rwBitmap u arq = some (matrix, out) ∧
      (Addresses matrix arq width height ↔ 4 ∣ width ∨ height = 1 ∨ Shifted arq width height)) ∧
    ((∀ u arq, IsBitmap arq width height → ∃ matrix out, rwBitmap u arq = some (matrix, out) ∧
      Addresses matrix arq width height) ↔ 4 ∣ width ∨ height = 1) := by
  have each : ∀ u arq, IsBitmap arq width height → ∃ matrix out, rwBitmap u arq = some (matrix, out) ∧
      (Addresses matrix arq width height ↔ Shifted arq width height) := by
    intro u arq bitmap
    obtain ⟨matrix, run, loaded⟩ := bitmap.rwBitmap_eq u
    refine ⟨matrix, _, run, forall₂_congr fun i hi => forall₂_congr fun j hj => ?_⟩
    rw [loaded i hi j hj]
  constructor
  · intro u arq bitmap
    obtain ⟨matrix, out, run, iff⟩ := each u arq bitmap
    refine ⟨matrix, out, run, iff.trans ?_⟩
    rw [← or_assoc]
    exact (or_iff_right_of_imp shifted_of_tight).symm
  · constructor
    · intro all
      by_contra padded
      rw [not_or] at padded
      have bitmap := isBitmap_whiteDot width_pos height_pos width_lt height_lt
      obtain ⟨matrix, out, run, iff⟩ := each unset _ bitmap
      obtain ⟨matrix', out', run', addresses⟩ := all unset _ bitmap
      rw [run] at run'
      cases run'
      exact not_shifted_whiteDot width_pos padded.1 (by omega) (iff.mp addresses)
    · intro tight u arq bitmap
      obtain ⟨matrix, out, run, iff⟩ := each u arq bitmap
      exact ⟨matrix, out, run, iff.mpr (shifted_of_tight tight)⟩

/-- `loadImage_iff` for one column and two rows. -/
theorem loadImage_iff_column :
    (∀ u arq, IsBitmap arq 1 2 → ∃ matrix out, rwBitmap u arq = some (matrix, out) ∧
      (Addresses matrix arq 1 2 ↔ 4 ∣ 1 ∨ 2 = 1 ∨ Shifted arq 1 2)) ∧
    ((∀ u arq, IsBitmap arq 1 2 → ∃ matrix out, rwBitmap u arq = some (matrix, out) ∧
      Addresses matrix arq 1 2) ↔ 4 ∣ 1 ∨ 2 = 1) :=
  loadImage_iff (by decide) (by decide) (by decide) (by decide)

/-- The second row of such a bitmap, which begins with a white byte, is loaded with the padding of the
first row in front. -/
theorem not_addresses_column : ∃ matrix out, rwBitmap unset (whiteDot 1 2) = some (matrix, out) ∧
    pixelAt (whiteDot 1 2) (54 + 1 * stride 1 + 0 * 3) = [255, 0, 0] ∧ matrix 1 0 = [0, 255, 0] ∧
    ¬ Addresses matrix (whiteDot 1 2) 1 2 := by
  have run : (rwBitmap unset (whiteDot 1 2)).map (fun r => r.1 1 0) = some [0, 255, 0] := by
    decide +kernel
  have stored : pixelAt (whiteDot 1 2) (54 + 1 * stride 1 + 0 * 3) = [255, 0, 0] := by decide +kernel
  obtain ⟨⟨matrix, out⟩, e, (entry : matrix 1 0 = [0, 255, 0])⟩ :=
    Option.map_eq_some_iff.mp run
  refine ⟨matrix, out, e, stored, entry, fun addresses => ?_⟩
  have pixel := addresses 1 (by decide) 0 (by decide)
  rw [entry, stored] at pixel
  exact absurd pixel (by decide)

/-! ## What is written -/

/-- The headers and the rows are written back as they were exactly when the rows are not padded. -/
theorem writeBMP_iff (bitmap : IsBitmap arq width height) (exactly : arq.length = 54 + height * stride width)
    (u : Unset) : ∃ matrix out, rwBitmap u arq = some (matrix, out) ∧ (out = arq ↔ 4 ∣ width) := by
  obtain ⟨matrix, run, _⟩ := bitmap.rwBitmap_eq u
  have fits := bitmap.long
  have height_pos := bitmap.height_pos
  refine ⟨matrix, _, run, ?_⟩
  rw [List.take_eq_self_iff, exactly, ← stride_eq_iff]
  constructor
  · intro le
    have rows : height * stride width ≤ height * (width * 3) := by
      rw [← Nat.mul_assoc]
      omega
    exact (Nat.le_of_mul_le_mul_left rows height_pos).antisymm (le_stride width)
  · intro tight
    rw [tight, Nat.mul_assoc]

/-- `writeBMP_iff` for one column and two rows. -/
theorem writeBMP_iff_column : ∃ matrix out, rwBitmap unset (whiteDot 1 2) = some (matrix, out) ∧
    (out = whiteDot 1 2 ↔ 4 ∣ 1) :=
  writeBMP_iff (isBitmap_whiteDot (by decide) (by decide) (by decide) (by decide))
    (length_whiteDot 1 2) unset

/-- Of the 62 bytes of this file 60 are written. -/
theorem not_rewritten_column : ∃ matrix out, rwBitmap unset (whiteDot 1 2) = some (matrix, out) ∧
    (whiteDot 1 2).length = 62 ∧ out.length = 60 ∧ out ≠ whiteDot 1 2 := by
  have run : (rwBitmap unset (whiteDot 1 2)).map (fun r => r.2.length) = some 60 := by decide +kernel
  obtain ⟨⟨matrix, out⟩, e, (len : out.length = 60)⟩ := Option.map_eq_some_iff.mp run
  have long : (whiteDot 1 2).length = 62 := length_whiteDot 1 2
  refine ⟨matrix, out, e, long, len, fun same => ?_⟩
  have lengths := congrArg List.length same
  rw [len, long] at lengths
  exact absurd lengths (by decide)

end Projector
