import Projector.Bitmap.Lines

/-!
# Grey pictures do not

`write_bmp_file` steps through `raw_image` and `linebuf` by the number of components and copies three bytes
each time. With one component the bytes of neighbouring pixels overwrite each other, and the last pixels
take bytes from behind `raw_image`. `not_faithfulGray` says that this happens for every picture;
`Gray.runAll_pixels` says what a line ends as: the line of the picture, moved by two bytes, and then
nothing.
-/

namespace Projector

namespace Converter

variable {c : Converter}

/-- Everything read is in `raw_image`, and every pixel of the file has the grey value in all its
channels. -/
structure FaithfulGray (c : Converter) : Prop where
  inside : ∀ i ∈ c.reads, 0 ≤ i ∧ i < c.rawSize
  channels : ∀ line < c.height, ∀ x < c.width,
    (c.writeBmpFile.drop (54 + (c.height - 1 - line) * stride c.width + x * 3)).take 3 =
      List.replicate 3 (c.rawImage ((x + line * c.width : Nat) : Int))

/-- One component a pixel, and the sizes that the library takes. -/
structure Gray (c : Converter) : Prop where
  bytesPerPixel : c.bytesPerPixel = 1
  width_pos : 1 ≤ c.width
  height_pos : 1 ≤ c.height
  width_le : c.width ≤ 65500
  height_le : c.height ≤ 65500
  rawSize : c.rawSize = c.width * c.height

/-- Each pixel's bytes are among those read. -/
lemma readsPixel_subset {line x : Nat} (hl : line < c.height) (hx : x < c.width) :
    c.readsPixel line x ⊆ c.reads := by
  have all : ∀ lines : List Nat, line ∈ lines →
      c.readsPixel line x ⊆ (lines.foldl c.writeLine ⟨fun _ => 0, [], []⟩).reads := by
    intro lines
    induction lines using List.reverseRecOn with
    | nil => simp
    | append_singleton lines last ih =>
      intro mem i hi
      rw [List.foldl_append]
      show i ∈ _ ++ _
      rw [List.mem_append]
      rcases List.mem_append.mp mem with before | here
      · exact .inl (ih before hi)
      · rw [List.mem_singleton] at here
        exact .inr (List.mem_flatMap.mpr ⟨x, List.mem_range.mpr hx, here ▸ hi⟩)
  exact all _ (List.mem_reverse.mpr (List.mem_range.mpr hl))

/-- The last pixel takes a byte that is not in `raw_image`. -/
lemma Gray.not_faithful (gray : c.Gray) : ¬ c.FaithfulGray := by
  intro faithful
  obtain ⟨bytesPerPixel, width_pos, height_pos, width_le, height_le, rawSize⟩ := gray
  have lastLine : c.height - 1 < c.height := by omega
  have lastPixel : c.width - 1 < c.width := by omega
  obtain ⟨lo, hi⟩ := faithful.inside (c.index (c.height - 1) (c.width - 1) + 2)
    (readsPixel_subset lastLine lastPixel (by simp [readsPixel]))
  have last : c.width - 1 + (c.height - 1) * c.width + 1 = c.width * c.height := by
    have rows : (c.height - 1) * c.width + c.width = c.width * c.height := by
      rw [← Nat.succ_mul, Nat.succ_eq_add_one, Nat.sub_add_cancel height_pos, Nat.mul_comm]
    omega
  have bound : c.width * c.height ≤ 65500 * 65500 := Nat.mul_le_mul width_le height_le
  rw [index, bytesPerPixel, Nat.mul_one] at lo hi
  rw [rawSize] at hi
  -- Up to 2^31 pixels the index is behind the block, and from there on it is negative.
  by_cases small : c.width * c.height ≤ 2 ^ 31
  · rw [wrap32_of_inInt ⟨by omega, by omega⟩] at hi
    omega
  · rw [wrap32_eq_bmod, Int.bmod_def] at lo
    omega

/-! ## What a line ends as -/

/-- The index does not wrap up to `2 ^ 31` pixels. -/
lemma Gray.index_eq (gray : c.Gray) (small : c.width * c.height ≤ 2 ^ 31) {line x : Nat}
    (hl : line < c.height) (hx : x < c.width) : c.index line x = ((x + line * c.width : Nat) : Int) := by
  have rows : (line + 1) * c.width ≤ c.height * c.width := Nat.mul_le_mul_right _ hl
  rw [Nat.succ_mul, Nat.mul_comm c.height] at rows
  rw [index, gray.bytesPerPixel, Nat.mul_one]
  exact wrap32_of_inInt ⟨by omega, by omega⟩

/-- One pixel puts three bytes. -/
lemma Gray.runAll_pixel (gray : c.Gray) (linebuf : Mem) (line x k : Nat) :
    Store.runAll linebuf (c.copyPixel line x) k =
      if k = x + 2 then c.rawImage (c.index line x + 0)
      else if k = x + 1 then c.rawImage (c.index line x + 1)
      else if k = x then c.rawImage (c.index line x + 2)
      else linebuf k := by
  simp only [copyPixel, gray.bytesPerPixel, Nat.mul_one, Store.runAll, List.foldl_cons, List.foldl_nil,
    Store.run_byte]

/-- After some pixels of a line: the next pixel overwrites all but the first of the bytes of the last. -/
lemma Gray.runAll_pixels (gray : c.Gray) (small : c.width * c.height ≤ 2 ^ 31) {line : Nat}
    (hl : line < c.height) (linebuf : Mem) {n : Nat} (le : n + 1 ≤ c.width) (k : Nat) :
    Store.runAll linebuf ((List.range (n + 1)).flatMap (c.copyPixel line)) k =
      if k ≤ n then c.rawImage ((k + line * c.width : Nat) + 2)
      else if k = n + 1 then c.rawImage ((n + line * c.width : Nat) + 1)
      else if k = n + 2 then c.rawImage ((n + line * c.width : Nat) + 0)
      else linebuf k := by
  induction n generalizing k with
  | zero =>
    rw [List.range_one, List.flatMap_singleton, gray.runAll_pixel, gray.index_eq small hl (by omega)]
    grind
  | succ n ih =>
    have last : Store.runAll linebuf ((List.range (n + 1 + 1)).flatMap (c.copyPixel line)) k =
        Store.runAll (Store.runAll linebuf ((List.range (n + 1)).flatMap (c.copyPixel line)))
          (c.copyPixel line (n + 1)) k := by
      rw [List.range_succ, List.flatMap_append, List.flatMap_singleton, Store.runAll, List.foldl_append]
      rfl
    rw [last, gray.runAll_pixel, gray.index_eq small hl (by omega), ih (by omega)]
    grind

/-- The bytes of a line of the file. -/
def grayByte (c : Converter) (line k : Nat) : UInt8 :=
  if k < c.width then c.rawImage ((k + line * c.width : Nat) + 2)
  else if k = c.width then c.rawImage ((c.width - 1 + line * c.width : Nat) + 1)
  else c.rawImage ((c.width - 1 + line * c.width : Nat) + 0)

/-- A line takes two bytes more than it has pixels. -/
lemma Gray.fills (gray : c.Gray) (small : c.width * c.height ≤ 2 ^ 31) :
    c.Fills (c.width + 2) c.grayByte := by
  intro line hl linebuf k
  obtain ⟨n, e⟩ := Nat.exists_eq_add_of_le gray.width_pos
  have pixels := gray.runAll_pixels small hl linebuf (n := n) (by omega) k
  rw [Nat.add_comm n, ← e] at pixels
  rw [pixels, grayByte]
  grind

/-- Behind the first third of a line nothing is left of the picture: the pixels are black. -/
theorem Gray.black (gray : c.Gray) (small : c.width * c.height ≤ 2 ^ 31) {line x : Nat}
    (hl : line < c.height) (hx : x < c.width) (beyond : c.width + 2 ≤ x * 3) :
    (c.writeBmpFile.drop (54 + (c.height - 1 - line) * stride c.width + x * 3)).take 3 = [0, 0, 0] := by
  have fits := le_stride c.width
  apply take_drop_eq [0, 0, 0]
  intro k hk
  have hk : k < 3 := hk
  rw [Nat.add_assoc _ (x * 3), (gray.fills small).getElem?_writeBmpFile hl (by omega), filledLine,
    if_neg (by omega)]
  exact ((by decide : ∀ k < 3, ([0, 0, 0] : List UInt8)[k]? = some 0) k hk).symm

end Converter

/-- For no JPEG file with one component does the conversion stay in `raw_image` and keep the grey values. -/
theorem not_faithfulGray (j : Jpeg) (gray : j.numComponents = 1) (fresh : Int → UInt8) :
    ∃ c, j.readJpegFile fresh = some c ∧ ¬ c.FaithfulGray := by
  obtain ⟨c, read, width, height, bytesPerPixel, rawSize, _⟩ := j.readJpegFile_spec fresh
  refine ⟨c, read, Converter.Gray.not_faithful ⟨bytesPerPixel.trans gray, ?_, ?_, ?_, ?_, ?_⟩⟩
  · rw [width]
    exact j.width_pos
  · rw [height]
    exact j.height_pos
  · rw [width]
    exact j.width_le
  · rw [height]
    exact j.height_le
  · rw [rawSize, width, height, gray, Nat.mul_one]

/-- A picture of two pixels. -/
def Jpeg.twoGray : Jpeg where
  imageWidth := 2
  imageHeight := 1
  numComponents := 1
  scanline _ i := if i = 0 then 10 else 20
  width_pos := by decide
  height_pos := by decide
  width_le := by decide
  height_le := by decide

/-- `not_faithfulGray` for this picture. -/
theorem not_faithfulGray_two :
    ∃ c, Jpeg.twoGray.readJpegFile (fun _ => 0) = some c ∧ ¬ c.FaithfulGray :=
  not_faithfulGray .twoGray rfl _

/-- Its two bytes are stored at 0 and 1; the byte at 3 is read, and the first pixel of the file is black. -/
theorem gray_run : ∃ c, Jpeg.twoGray.readJpegFile (fun _ => 0) = some c ∧ c.rawSize = 2 ∧ 3 ∈ c.reads ∧
    (c.writeBmpFile.drop 54).take 3 = [0, 0, 0] ∧ c.rawImage 0 = 10 ∧ ¬ c.FaithfulGray := by
  have run : (Jpeg.twoGray.readJpegFile (fun _ => 0)).map (fun c =>
      (c.rawSize, c.reads.contains 3, (c.writeBmpFile.drop 54).take 3, c.rawImage 0)) =
      some (2, true, [0, 0, 0], 10) := by decide +kernel
  obtain ⟨c, read, e⟩ := Option.map_eq_some_iff.mp run
  simp only [Prod.mk.injEq, List.contains_iff_mem] at e
  obtain ⟨size, reads, pixel, first⟩ := e
  refine ⟨c, read, size, reads, pixel, first, fun faithful => ?_⟩
  have inside := (faithful.inside 3 reads).2
  rw [size] at inside
  omega

end Projector
