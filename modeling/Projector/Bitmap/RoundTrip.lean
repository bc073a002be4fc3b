import Projector.Bitmap.Lines

/-!
# Colour pictures survive the conversion

For a JPEG file with three components, what `write_bmp_file` writes after `read_jpeg_file` is a bitmap of
the same picture (`bmp_round_trip`): `readInfo`, which looks for the fields at fixed offsets, finds what
the structure `BMPHEAD` puts there (`headed`), and the pixels decoded from it are those of the JPEG file.
-/

namespace Projector

namespace Converter

variable {c : Converter}

/-! ## The lines -/

/-- Three bytes a pixel, and no index beyond the `int`. -/
structure Colour (c : Converter) : Prop where
  bytesPerPixel : c.bytesPerPixel = 3
  small : c.height * (c.width * 3) < 2 ^ 31

/-- The bytes of a line of the file, without the padding. -/
def lineByte (c : Converter) (line k : Nat) : UInt8 :=
  c.rawImage (((k / 3 + line * c.width) * 3 + (2 - k % 3) : Nat) : Int)

/-- The index does not wrap. -/
lemma Colour.index_eq (col : c.Colour) {line x : Nat} (hl : line < c.height) (hx : x < c.width) :
    c.index line x = (((x + line * c.width) * 3 : Nat) : Int) := by
  have lines : (line + 1) * (c.width * 3) ≤ c.height * (c.width * 3) := Nat.mul_le_mul_right _ hl
  have bound : (x + line * c.width) * 3 < (line + 1) * (c.width * 3) := by
    have e : (line + 1) * (c.width * 3) = (c.width + line * c.width) * 3 := by ring
    rw [e]
    omega
  have small := col.small
  rw [index, col.bytesPerPixel]
  exact wrap32_of_inInt ⟨by omega, by omega⟩

/-- The pixel and the channel of a byte. -/
lemma div_mod_three {x k : Nat} (hk : k < 3) : (x * 3 + k) / 3 = x ∧ (x * 3 + k) % 3 = k := by omega

/-- The inner loop fills the line and leaves the padding. -/
lemma Colour.fills (col : c.Colour) : c.Fills (c.width * 3) c.lineByte := by
  intro line hl linebuf k
  have bytes : (List.range c.width).flatMap (c.copyPixel line) =
      (List.range (c.width * 3)).map fun i => ⟨i, [c.lineByte line i]⟩ := by
    rw [← flatMap_range_groups]
    apply List.flatMap_congr
    intro x hx
    have first := div_mod_three (x := x) (by decide : 0 < 3)
    have second := div_mod_three (x := x) (by decide : 1 < 3)
    have third := div_mod_three (x := x) (by decide : 2 < 3)
    simp only [copyPixel, col.bytesPerPixel, col.index_eq hl (List.mem_range.mp hx), lineByte,
      List.range_succ, List.range_zero, List.nil_append, List.map_cons, List.map_nil,
      List.cons_append, first, second, third]
    rfl
  rw [bytes, Store.runAll_bytes]

/-- A pixel, with its bytes in exchanged order. -/
lemma Colour.decode (col : c.Colour) {line x : Nat} (hl : line < c.height) (hx : x < c.width) :
    ((c.writeBmpFile.drop (54 + (c.height - 1 - line) * stride c.width + x * 3)).take 3).reverse =
      [c.rawImage (((x + line * c.width) * 3 : Nat) : Int),
        c.rawImage (((x + line * c.width) * 3 + 1 : Nat) : Int),
        c.rawImage (((x + line * c.width) * 3 + 2 : Nat) : Int)] := by
  have fits := le_stride c.width
  have bytes := take_drop_eq (l := c.writeBmpFile)
    ((List.range 3).map fun k => c.lineByte line (x * 3 + k))
    (a := 54 + (c.height - 1 - line) * stride c.width + x * 3) (by
      intro k hk
      have hk : k < 3 := by simpa using hk
      have inLine : x * 3 + k < c.width * 3 := by omega
      rw [Nat.add_assoc _ (x * 3), col.fills.getElem?_writeBmpFile hl (by omega), filledLine,
        if_pos inLine]
      simp [hk])
  have first := div_mod_three (x := x) (by decide : 0 < 3)
  have second := div_mod_three (x := x) (by decide : 1 < 3)
  have third := div_mod_three (x := x) (by decide : 2 < 3)
  rw [List.length_map, List.length_range] at bytes
  rw [bytes]
  simp only [List.range_succ, List.range_zero, List.nil_append, List.map_cons, List.map_nil,
    List.cons_append, List.reverse_cons, List.reverse_nil, lineByte, first, second, third]
  rfl

/-- The length does not wrap when the file has less than `2 ^ 31` bytes. -/
lemma filesize_eq (small : 54 + c.height * stride c.width < 2 ^ 31) :
    wrap32 c.head.filesize = ((54 + c.height * stride c.width : Nat) : Int) := by
  have rows : wrap32 (c.bytesPerLine * c.height) = ((c.height * stride c.width : Nat) : Int) := by
    have comm : (stride c.width : Int) * c.height = ((c.height * stride c.width : Nat) : Int) := by
      push_cast
      ring
    rw [bytesPerLine_eq, comm]
    exact wrap32_of_inInt ⟨by omega, by omega⟩
  have size : c.head.filesize = ((54 + c.height * stride c.width : Nat) : Int) := by
    rw [head, rows]
    exact wrap32_of_inInt ⟨by omega, by omega⟩
  rw [size]
  exact wrap32_of_inInt ⟨by omega, by omega⟩

end Converter

/-! ## The file -/

/-- The headers, field by field. The structure takes 52 bytes, two of them behind `reserved`. -/
def BmpHead.parts (bh : BmpHead) : List (List UInt8) :=
  [[66, 77], intBytes bh.filesize, [0, 0, 0, 0], intBytes bh.headersize, intBytes bh.infoSize,
    intBytes bh.width, intBytes bh.depth, leBytes 2 bh.biPlanes, leBytes 2 bh.bits,
    intBytes bh.biCompression, intBytes 0, intBytes 0, intBytes 0, intBytes 0, intBytes 0]

/-- The header of the writer is the fields of the reader, one after the other. -/
lemma BmpHead.parts_flatten (bh : BmpHead) : [66, 77] ++ bh.bytes = bh.parts.flatten := by
  simp [BmpHead.bytes, BmpHead.parts, record, aligned]

/-- What is in the headers of a file. -/
structure Headed (bh : BmpHead) (raw : InfoHeader) (file : List UInt8) : Prop where
  filesize : intOfBytes (fread file 2 (intBytes 0)) = wrap32 bh.filesize
  width : (readInfo raw file).width = wrap32 bh.width
  height : (readInfo raw file).height = wrap32 bh.depth
  bpp : (readInfo raw file).bpp = bh.bits % 65536
  compression : (readInfo raw file).compression = leNat (intBytes bh.biCompression)

/-- `readInfo` looks where the fields are. -/
lemma headed (bh : BmpHead) (raw : InfoHeader) (out : List UInt8) :
    Headed bh raw (bh.parts.flatten ++ out) where
  filesize := by
    have part : fread (bh.parts.flatten ++ out) 2 (intBytes 0) = intBytes bh.filesize :=
      fread_part [[66, 77]] rfl rfl (by simp) out
    rw [part, intOfBytes_intBytes]
  width := by
    have part : fread (bh.parts.flatten ++ out) 18 (intBytes raw.width) = intBytes bh.width :=
      fread_part (bh.parts.take 5) rfl (by simp [BmpHead.parts]) (by simp) out
    simp only [readInfo, part, intOfBytes_intBytes]
  height := by
    have part : fread (bh.parts.flatten ++ out) 22 (intBytes raw.height) = intBytes bh.depth :=
      fread_part (bh.parts.take 6) rfl (by simp [BmpHead.parts]) (by simp) out
    simp only [readInfo, part, intOfBytes_intBytes]
  bpp := by
    have part : fread (bh.parts.flatten ++ out) 28 (leBytes 2 raw.bpp) = leBytes 2 bh.bits :=
      fread_part (bh.parts.take 8) rfl (by simp [BmpHead.parts]) (by simp) out
    simp only [readInfo, part, leNat_leBytes, Nat.reducePow]
  compression := by
    have part : fread (bh.parts.flatten ++ out) 30 (leBytes 4 raw.compression) =
        intBytes bh.biCompression :=
      fread_part (bh.parts.take 9) rfl (by simp [BmpHead.parts]) (by simp) out
    simp only [readInfo, part]

/-- The pixels of a bitmap of known size, first line first: the rows are stored in the opposite order, and
the bytes of a pixel too. -/
def decodeBmp (width height : Nat) (file : List UInt8) : List (List (List UInt8)) :=
  (List.range height).map fun line => (List.range width).map fun x =>
    ((file.drop (54 + (height - 1 - line) * stride width + x * 3)).take 3).reverse

/-- The pixels of a JPEG file with three components. -/
def Jpeg.pixels (j : Jpeg) : List (List (List UInt8)) :=
  (List.range j.imageHeight).map fun line => (List.range j.imageWidth).map fun x =>
    [j.scanline line (x * 3), j.scanline line (x * 3 + 1), j.scanline line (x * 3 + 2)]

/-! ## The round trip -/

namespace Jpeg

variable {j : Jpeg} {c : Converter}

/-- With three components and a file of less than `2 ^ 31` bytes no index is beyond the `int`. -/
lemma Loaded.colour (l : j.Loaded c) (colour : j.numComponents = 3)
    (small : 54 + j.imageHeight * stride j.imageWidth < 2 ^ 31) : c.Colour := by
  have le : j.imageHeight * (j.imageWidth * 3) ≤ j.imageHeight * stride j.imageWidth :=
    Nat.mul_le_mul_left _ (le_stride j.imageWidth)
  refine ⟨l.bytesPerPixel.trans colour, ?_⟩
  rw [l.width, l.height]
  omega

/-- The pixels of the bitmap are those of the JPEG file. -/
lemma Loaded.pixels (l : j.Loaded c) (colour : j.numComponents = 3) (col : c.Colour) :
    decodeBmp j.imageWidth j.imageHeight c.writeBmpFile = j.pixels := by
  have lineSize : j.lineSize = j.imageWidth * 3 := by rw [Jpeg.lineSize, colour]
  rw [decodeBmp, Jpeg.pixels]
  apply List.map_congr_left
  intro line hl
  apply List.map_congr_left
  intro x hx
  have hl := List.mem_range.mp hl
  have hx := List.mem_range.mp hx
  have pixel := col.decode (l.height ▸ hl) (l.width ▸ hx)
  rw [l.width, l.height] at pixel
  have place : (x + line * j.imageWidth) * 3 = line * j.lineSize + x * 3 := by
    rw [lineSize]
    ring
  have byte (k : Nat) (hk : k < 3) := l.lines line hl (x * 3 + k) (by omega)
  have first := byte 0 (by decide)
  have second := byte 1 (by decide)
  have third := byte 2 (by decide)
  simp only [Nat.add_zero, ← Nat.add_assoc] at first second third
  rw [pixel, place, first, second, third]

end Jpeg

/-- After `read_jpeg_file` on a file with three components, `write_bmp_file` writes a bitmap whose length
is in its header, in which `readInfo` finds the size and the format, and whose pixels are those of the
JPEG file. -/
theorem bmp_round_trip (j : Jpeg) (colour : j.numComponents = 3)
    (small : 54 + j.imageHeight * stride j.imageWidth < 2 ^ 31) (fresh : Int → UInt8) (raw : InfoHeader) :
    ∃ c, j.readJpegFile fresh = some c ∧
      intOfBytes (fread c.writeBmpFile 2 (intBytes 0)) = c.writeBmpFile.length ∧
      (readInfo raw c.writeBmpFile).width = j.imageWidth ∧
      (readInfo raw c.writeBmpFile).height = j.imageHeight ∧
      (readInfo raw c.writeBmpFile).bpp = 24 ∧ (readInfo raw c.writeBmpFile).compression = 0 ∧
      decodeBmp j.imageWidth j.imageHeight c.writeBmpFile = j.pixels := by
  obtain ⟨c, read, loaded⟩ := j.readJpegFile_spec fresh
  have col := loaded.colour colour small
  have width_le := j.width_le
  have height_le := j.height_le
  rw [← loaded.width, ← loaded.height] at small
  have header : Headed c.head raw c.writeBmpFile := by
    rw [Converter.writeBmpFile, BmpHead.parts_flatten]
    exact headed c.head raw c.writeLines.out
  refine ⟨c, read, ?_, ?_, ?_, ?_, ?_, loaded.pixels colour col⟩
  · rw [header.filesize, Converter.filesize_eq small, col.fills.length_writeBmpFile]
  · have head : c.head.width = j.imageWidth := congrArg Int.ofNat loaded.width
    rw [header.width, head]
    exact wrap32_of_inInt ⟨by omega, by omega⟩
  · have head : c.head.depth = j.imageHeight := congrArg Int.ofNat loaded.height
    rw [header.height, head]
    exact wrap32_of_inInt ⟨by omega, by omega⟩
  · exact header.bpp
  · have zero : leNat (intBytes 0) = 0 := by decide
    exact header.compression.trans zero

/-- A picture of five by three pixels, whose rows are padded by one byte. -/
def Jpeg.fiveByThree : Jpeg where
  imageWidth := 5
  imageHeight := 3
  numComponents := 3
  scanline y i := UInt8.ofNat (15 * y + i)
  width_pos := by decide
  height_pos := by decide
  width_le := by decide
  height_le := by decide

/-- `bmp_round_trip` for this picture. -/
theorem bmp_round_trip_fiveByThree : ∃ c, Jpeg.fiveByThree.readJpegFile (fun _ => 0) = some c ∧
    intOfBytes (fread c.writeBmpFile 2 (intBytes 0)) = c.writeBmpFile.length ∧
    (readInfo ⟨0, 0, 0, 0, 0, 0, 0⟩ c.writeBmpFile).width = 5 ∧
    (readInfo ⟨0, 0, 0, 0, 0, 0, 0⟩ c.writeBmpFile).height = 3 ∧
    (readInfo ⟨0, 0, 0, 0, 0, 0, 0⟩ c.writeBmpFile).bpp = 24 ∧
    (readInfo ⟨0, 0, 0, 0, 0, 0, 0⟩ c.writeBmpFile).compression = 0 ∧
    decodeBmp 5 3 c.writeBmpFile = Jpeg.fiveByThree.pixels :=
  bmp_round_trip .fiveByThree rfl (by decide) _ _

end Projector
