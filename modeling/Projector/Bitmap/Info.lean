import Mathlib.Order.Bounds.Basic
import Mathlib.Order.Bounds.Defs
import Projector.Base.File
import Projector.Base.Memory

/-!
# Bitmap files

`readInfo`, which `server/Bitmap.cpp` and `fb/rw_bitmap.c` have in the same words, and the format that
both programs read and write: 54 bytes of headers, and rows of three bytes a pixel that are padded to a
multiple of four.
-/

namespace Projector

/-- `INFOHEADER`, as far as `readInfo` fills it. -/
structure InfoHeader where
  width : Int
  height : Int
  bpp : Nat
  compression : Nat
  imagesize : Nat
  colours : Nat
  impcolours : Nat
deriving DecidableEq

/-- `readInfo`: `raw` is what the structure held before. -/
def readInfo (raw : InfoHeader) (arq : List UInt8) : InfoHeader where
  width := intOfBytes (fread arq 18 (intBytes raw.width))
  height := intOfBytes (fread arq 22 (intBytes raw.height))
  bpp := leNat (fread arq 28 (leBytes 2 raw.bpp))
  compression := leNat (fread arq 30 (leBytes 4 raw.compression))
  imagesize := leNat (fread arq 34 (leBytes 4 raw.imagesize))
  colours := leNat (fread arq 46 (leBytes 4 raw.colours))
  impcolours := leNat (fread arq 50 (leBytes 4 raw.impcolours))

/-- The bytes of a row: the least multiple of four that holds three bytes a pixel. -/
def stride (width : Nat) : Nat := (width * 3 + 3) / 4 * 4

/-- A line of the file is padded to the next multiple of four. -/
lemma isLeast_stride (width : Nat) : IsLeast {n | 4 ∣ n ∧ width * 3 ≤ n} (stride width) := by
  constructor
  · exact ⟨Nat.dvd_mul_left 4 _, by unfold stride; omega⟩
  · rintro n ⟨⟨k, rfl⟩, le⟩
    unfold stride
    omega

/-- The pixels of a line fit into it. -/
lemma le_stride (width : Nat) : width * 3 ≤ stride width := (isLeast_stride width).1.2

/-- A row has no padding exactly when the number of pixels is a multiple of four. -/
lemma stride_eq_iff {width : Nat} : stride width = width * 3 ↔ 4 ∣ width := by
  unfold stride
  omega

end Projector
