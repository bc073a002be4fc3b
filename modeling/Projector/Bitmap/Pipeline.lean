import Projector.Bitmap.Rewrite

/-!
# From JPEG to the screen's programs

The programs of the repository that handle pictures, put together. What `JPEGConverter` writes is a bitmap
that `rw_bitmap` takes: it loads the pixels of the JPEG file, last line first, and writes the same file
again, when no padding is needed (`jpeg_rewritten`). `decode_frame` decodes into memory of the caller line by
line where `read_jpeg_file` copies byte by byte into its own, and the two leave the same bytes
(`decodeFrame_eq`).
-/

namespace Projector

/-! ## The two file programs -/

/-- A pixel of a line, with its bytes in the order of a bitmap. -/
def Jpeg.bgr (j : Jpeg) (line x : Nat) : List UInt8 :=
  [j.scanline line (x * 3 + 2), j.scanline line (x * 3 + 1), j.scanline line (x * 3)]

/-- A field of the headers of a file. -/
lemma field_parts (bh : BmpHead) (out : List UInt8) (front : List (List UInt8)) {back : List (List UInt8)}
    {part : List UInt8} {pos n : Nat} (split : bh.parts = front ++ part :: back)
    (place : front.flatten.length = pos) (len : part.length = n) :
    ((bh.parts.flatten ++ out).drop pos).take n = part := by
  rw [← len]
  exact take_drop_part front split place out

namespace Jpeg

variable {j : Jpeg} {c : Converter}

/-- What `write_bmp_file` writes is a bitmap of that size, without anything behind the rows. -/
lemma Loaded.isBitmap (l : j.Loaded c) (col : c.Colour) :
    IsBitmap c.writeBmpFile j.imageWidth j.imageHeight := by
  have width_le := j.width_le
  have height_le := j.height_le
  have rows := col.fills.length_writeBmpFile
  have width : c.head.width = j.imageWidth := congrArg Int.ofNat l.width
  have depth : c.head.depth = j.imageHeight := congrArg Int.ofNat l.height
  rw [l.width, l.height] at rows
  have file : c.writeBmpFile = c.head.parts.flatten ++ c.writeLines.out := by
    rw [Converter.writeBmpFile, BmpHead.parts_flatten]
  have long := rows.ge
  rw [file] at long ⊢
  exact {
    magic := field_parts _ _ [] rfl rfl rfl
    offset := field_parts _ _ (c.head.parts.take 3) rfl (by simp [BmpHead.parts]) rfl
    width_field := by
      rw [← width]
      exact field_parts _ _ (c.head.parts.take 5) rfl (by simp [BmpHead.parts]) (length_intBytes _)
    height_field := by
      rw [← depth]
      exact field_parts _ _ (c.head.parts.take 6) rfl (by simp [BmpHead.parts]) (length_intBytes _)
    bpp := field_parts _ _ (c.head.parts.take 8) rfl (by simp [BmpHead.parts]) rfl
    compression := field_parts _ _ (c.head.parts.take 9) rfl (by simp [BmpHead.parts]) rfl
    width_pos := j.width_pos
    height_pos := j.height_pos
    width_lt := by omega
    height_lt := by omega
    rows := long }

/-- A pixel of the file is one of the picture. -/
lemma Loaded.pixelAt_eq (l : j.Loaded c) (colour : j.numComponents = 3) (col : c.Colour) {line x : Nat}
    (hl : line < j.imageHeight) (hx : x < j.imageWidth) :
    pixelAt c.writeBmpFile (54 + (j.imageHeight - 1 - line) * stride j.imageWidth + x * 3) =
      j.bgr line x := by
  have lineSize : j.lineSize = j.imageWidth * 3 := by rw [Jpeg.lineSize, colour]
  have pixel := col.decode (l.height ▸ hl) (l.width ▸ hx)
  rw [l.width, l.height] at pixel
  have place : (x + line * j.imageWidth) * 3 = line * j.lineSize + x * 3 := by
    rw [lineSize]
    ring
  have byte (k : Nat) (hk : k < 3) := l.lines line hl (x * 3 + k) (by omega)
  have first := byte 0 (by decide)
  have second := byte 1 (by decide)
  have third := byte 2 (by decide)
  simp only [Nat.add_zero, ← Nat.add_assoc] at first second third
  rw [place, first, second, third, List.reverse_eq_iff] at pixel
  exact pixel

end Jpeg

/-- The way of a colour picture through both programs: `rw_bitmap` takes the bitmap that the converter
writes, writes a beginning of it, and all of it exactly when the lines need no padding; and then, or when
there is one line only, the matrix holds the pixels of the picture, the last line first. -/
theorem jpeg_rewritten (j : Jpeg) (colour : j.numComponents = 3)
    (small : 54 + j.imageHeight * stride j.imageWidth < 2 ^ 31) (fresh : Int → UInt8) (u : Unset) :
    ∃ c matrix out, j.readJpegFile fresh = some c ∧ rwBitmap u c.writeBmpFile = some (matrix, out) ∧
      out <+: c.writeBmpFile ∧ (out = c.writeBmpFile ↔ 4 ∣ j.imageWidth) ∧
      (4 ∣ j.imageWidth ∨ j.imageHeight = 1 → ∀ line < j.imageHeight, ∀ x < j.imageWidth,
        matrix (j.imageHeight - 1 - line) x = j.bgr line x) := by
  obtain ⟨c, read, loaded⟩ := j.readJpegFile_spec fresh
  have col := loaded.colour colour small
  have bitmap := loaded.isBitmap col
  have length := col.fills.length_writeBmpFile
  rw [loaded.width, loaded.height] at length
  obtain ⟨matrix, run, entries⟩ := bitmap.rwBitmap_eq u
  refine ⟨c, matrix, _, read, run, List.take_prefix _ _, ?_, fun tight line hl x hx => ?_⟩
  · rw [List.take_eq_self_iff, length, ← stride_eq_iff]
    have fits := le_stride j.imageWidth
    have pos := j.height_pos
    constructor
    · intro le
      have rows : j.imageHeight * stride j.imageWidth ≤ j.imageHeight * (j.imageWidth * 3) := by
        rw [← Nat.mul_assoc]
        omega
      exact (Nat.le_of_mul_le_mul_left rows pos).antisymm fits
    · intro tight
      rw [tight, Nat.mul_assoc]
  · have row : j.imageHeight - 1 - line < j.imageHeight := by omega
    rw [entries _ row x hx, shifted_of_tight tight _ row x hx]
    exact loaded.pixelAt_eq colour col hl hx

/-- A picture of four by six pixels. -/
def Jpeg.fourBySix : Jpeg where
  imageWidth := 4
  imageHeight := 6
  numComponents := 3
  scanline y i := UInt8.ofNat (12 * y + i)
  width_pos := by decide
  height_pos := by decide
  width_le := by decide
  height_le := by decide

/-- `jpeg_rewritten` for this picture, which needs no padding. -/
theorem jpeg_rewritten_fourBySix : ∃ c matrix out,
    Jpeg.fourBySix.readJpegFile (fun _ => 0) = some c ∧
    rwBitmap unset c.writeBmpFile = some (matrix, out) ∧ out = c.writeBmpFile ∧
    matrix 5 2 = [8, 7, 6] := by
  obtain ⟨c, matrix, out, read, run, _, whole, pixels⟩ :=
    jpeg_rewritten .fourBySix rfl (by decide) (fun _ => 0) unset
  exact ⟨c, matrix, out, read, run, whole.mpr (by decide),
    pixels (.inl (by decide)) 0 (by decide) 2 (by decide)⟩

/-! ## `decode_frame` -/

/-- The loop of `decode_frame`: `cinfo.output_scanline`, `offset` and the memory behind `samples`. -/
structure Decoding where
  outputScanline : Nat
  offset : Int
  samples : Int → UInt8

namespace Jpeg

variable (j : Jpeg)

/-- One round: `jpeg_read_scanlines` delivers the next line, and
`memcpy(samples + offset, row_pointer[0], cinfo.image_width * cinfo.num_components)`. -/
def decodeLine (s : Decoding) : Decoding where
  outputScanline := s.outputScanline + 1
  offset := wrap32 (s.offset + j.lineSize)
  samples := fun i =>
    if s.offset ≤ i ∧ i < s.offset + j.lineSize then j.scanline s.outputScanline (i - s.offset).toNat
    else s.samples i

/-- `decode_frame`, with `offset` for its result, and `*w` and `*h`. -/
def decodeFrame (samples : Int → UInt8) : Except Empty (Decoding × Nat × Nat) := do
  let s ← iterate (fun s => s.outputScanline < j.imageHeight) (fun s => .ok (j.decodeLine s))
    j.imageHeight ⟨0, 0, samples⟩
  return (s, j.imageWidth, j.imageHeight)

variable {j} {samples : Int → UInt8}

/-- The lines decoded so far lie in `samples` one behind the other, and nothing else was written. -/
structure Decoded (j : Jpeg) (samples : Int → UInt8) (s : Decoding) : Prop where
  le : s.outputScanline ≤ j.imageHeight
  offset : s.offset = (s.outputScanline * j.lineSize : Nat)
  lines : ∀ y < s.outputScanline, ∀ i < j.lineSize,
    s.samples ((y * j.lineSize + i : Nat) : Int) = j.scanline y i
  outside : ∀ i : Int, i < 0 ∨ s.offset ≤ i → s.samples i = samples i

/-- One round. -/
lemma Decoded.decodeLine {s : Decoding} (small : j.imageHeight * j.lineSize < 2 ^ 31)
    (inv : j.Decoded samples s) (more : s.outputScanline < j.imageHeight) :
    j.Decoded samples (j.decodeLine s) := by
  have fits : (s.outputScanline + 1) * j.lineSize ≤ j.imageHeight * j.lineSize :=
    Nat.mul_le_mul_right _ more
  have next : s.offset + j.lineSize = ((s.outputScanline + 1) * j.lineSize : Nat) := by
    rw [inv.offset, Nat.succ_mul]
    push_cast
    ring
  have offset : (j.decodeLine s).offset = ((s.outputScanline + 1) * j.lineSize : Nat) := by
    show wrap32 (s.offset + j.lineSize) = _
    rw [next]
    exact wrap32_of_inInt ⟨by omega, by omega⟩
  have start := inv.offset
  refine ⟨more, offset, fun y hy i hi => ?_, fun i out => ?_⟩
  · show (if s.offset ≤ ((y * j.lineSize + i : Nat) : Int) ∧ _ then _ else _) = _
    rcases Nat.lt_succ_iff_lt_or_eq.mp hy with before | rfl
    · have le : (y + 1) * j.lineSize ≤ s.outputScanline * j.lineSize := Nat.mul_le_mul_right _ before
      rw [Nat.succ_mul] at le
      rw [if_neg (by omega)]
      exact inv.lines y before i hi
    · have place : (((s.outputScanline * j.lineSize + i : Nat) : Int) - s.offset).toNat = i := by omega
      rw [if_pos ⟨by omega, by omega⟩, place]
  · rw [offset, ← next] at out
    show (if s.offset ≤ i ∧ i < s.offset + j.lineSize then _ else _) = _
    rw [if_neg (by omega)]
    exact inv.outside i (by omega)

/-- After the loop all lines are there. -/
lemma decodeFrame_spec (small : j.imageHeight * j.lineSize < 2 ^ 31) (samples : Int → UInt8) :
    ∃ s, j.decodeFrame samples = .ok (s, j.imageWidth, j.imageHeight) ∧ j.Decoded samples s ∧
      s.outputScanline = j.imageHeight := by
  have done : Post (fun s => j.Decoded samples s ∧ decide (s.outputScanline < j.imageHeight) = false)
      (fun _ => True) (iterate (fun s => decide (s.outputScanline < j.imageHeight))
        (fun s => (.ok (j.decodeLine s) : Except Empty Decoding)) j.imageHeight ⟨0, 0, samples⟩) := by
    apply iterate_rule (j.Decoded samples) (fun _ => True) (fun s => j.imageHeight - s.outputScanline)
    · intro s _ more
      simpa using more
    · intro s inv more
      have more : s.outputScanline < j.imageHeight := by simpa using more
      have next : (j.decodeLine s).outputScanline = s.outputScanline + 1 := rfl
      exact ⟨inv.decodeLine small more, by omega⟩
    · exact ⟨Nat.zero_le _, by simp, by simp, fun _ _ => rfl⟩
    · exact Nat.sub_le _ _
  unfold decodeFrame
  cases e : iterate (fun s => decide (s.outputScanline < j.imageHeight))
      (fun s => (.ok (j.decodeLine s) : Except Empty Decoding)) j.imageHeight ⟨0, 0, samples⟩ with
  | error x => exact x.elim
  | ok s =>
    rw [e] at done
    obtain ⟨inv, stop⟩ := done
    have ge : j.imageHeight ≤ s.outputScanline := by simpa using stop
    exact ⟨s, rfl, inv, Nat.le_antisymm inv.le ge⟩

end Jpeg

/-- The two decoders agree: when the picture has less than `2 ^ 31` bytes, `decode_frame` leaves in the
memory of its caller what `read_jpeg_file` leaves in `raw_image`, byte for byte, and nothing around it, and
it returns the number of bytes and the size. -/
theorem decodeFrame_eq (j : Jpeg) (small : j.imageHeight * j.lineSize < 2 ^ 31)
    (samples fresh : Int → UInt8) :
    ∃ s c, j.decodeFrame samples = .ok (s, c.width, c.height) ∧ j.readJpegFile fresh = some c ∧
      s.offset = c.rawSize ∧ (∀ i : Int, 0 ≤ i → i < c.rawSize → s.samples i = c.rawImage i) ∧
      ∀ i : Int, i < 0 ∨ c.rawSize ≤ i → s.samples i = samples i := by
  obtain ⟨c, read, loaded⟩ := j.readJpegFile_spec fresh
  obtain ⟨s, decoded, inv, all⟩ := j.decodeFrame_spec small samples
  have size : (c.rawSize : Int) = (j.imageHeight * j.lineSize : Nat) := by
    rw [loaded.rawSize, Jpeg.lineSize]
    push_cast
    ring
  have offset : s.offset = c.rawSize := by rw [inv.offset, all, size]
  rw [← loaded.width, ← loaded.height] at decoded
  refine ⟨s, c, decoded, read, offset, fun i lo hi => ?_, fun i out => ?_⟩
  · obtain ⟨k, rfl⟩ := Int.eq_ofNat_of_zero_le lo
    have lt : k < j.imageHeight * j.lineSize := by omega
    have pos : 0 < j.lineSize := Nat.pos_of_ne_zero fun zero => by simp [zero] at lt
    have line : k / j.lineSize < j.imageHeight := Nat.div_lt_of_lt_mul (by rwa [Nat.mul_comm])
    have byte : k % j.lineSize < j.lineSize := Nat.mod_lt _ pos
    have place : k / j.lineSize * j.lineSize + k % j.lineSize = k := Nat.div_add_mod' k j.lineSize
    have left := inv.lines _ (by rwa [all]) _ byte
    have right := loaded.lines _ line _ byte
    rw [place] at left right
    exact left.trans right.symm
  · exact inv.outside i (by omega)

/-- `decodeFrame_eq` for the picture of four by six pixels. -/
theorem decodeFrame_eq_fourBySix : ∃ s c,
    Jpeg.fourBySix.decodeFrame (fun _ => 7) = .ok (s, c.width, c.height) ∧
    Jpeg.fourBySix.readJpegFile (fun _ => 0) = some c ∧ s.offset = 72 ∧
    (∀ i : Int, 0 ≤ i → i < c.rawSize → s.samples i = c.rawImage i) ∧ s.samples 72 = 7 := by
  obtain ⟨s, c, decoded, read, offset, same, outside⟩ :=
    decodeFrame_eq .fourBySix (by decide) (fun _ => 7) fun _ => 0
  have size : c.rawSize = 72 := by
    have run : (Jpeg.fourBySix.readJpegFile fun _ => 0).map Converter.rawSize = some 72 := by
      decide +kernel
    rw [read] at run
    exact Option.some.inj run
  rw [size] at offset
  exact ⟨s, c, decoded, read, offset, same, outside 72 (.inr (by rw [size]; decide))⟩

end Projector
