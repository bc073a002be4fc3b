import Projector.Base.Memory
import Projector.Base.Raster

/-!
# Plotting one pixel

`put_pixel`, `put_pixel_RGB24` and `put_pixel_RGB565`, which `fb/draw_bitmap.c` and `server/Server.cpp`
have in the same words. Each is one store into the frame buffer; its place is an `unsigned int`, computed
from the length of a line as the driver reports it.
-/

namespace Projector

/-- `unsigned int pix_offset = x * size + y * finfo.line_length` -/
def pixOffset (lineLength size x y : Nat) : Nat := (x * size + y * lineLength) % 4294967296

/-- `put_pixel` -/
def putPixel (lineLength x y : Nat) (c : Int) : Store UInt8 where
  off := pixOffset lineLength 1 x y
  bytes := [UInt8.ofInt c]

/-- `put_pixel_RGB24` -/
def putPixelRGB24 (lineLength x y r g b : Nat) : Store UInt8 where
  off := pixOffset lineLength 3 x y
  bytes := [UInt8.ofNat r, UInt8.ofNat g, UInt8.ofNat b]

/-- `unsigned short c = ((r / 8) << 11) + ((g / 4) << 5) + (b / 8)` -/
def rgb565 (r g b : Nat) : Nat := (((r / 8) <<< 11) + ((g / 4) <<< 5) + b / 8) % 65536

/-- `put_pixel_RGB565` -/
def putPixelRGB565 (lineLength x y r g b : Nat) : Store UInt8 where
  off := pixOffset lineLength 2 x y
  bytes := leBytes 2 (rgb565 r g b)

/-- The place of a pixel, when the whole screen lies below `2 ^ 32`. -/
lemma pixOffset_eq {l : Layout} {w h x y : Nat} (fit : w * l.size ≤ l.stride)
    (small : h * l.stride < 4294967296) (hx : x < w) (hy : y < h) :
    pixOffset l.stride l.size x y = l.offset x y := by
  have le := Layout.offset_add_le fit hx hy
  rw [pixOffset, Nat.mod_eq_of_lt (by rw [Layout.offset] at le; omega), Layout.offset]

/-- The three fields of a packed pixel. -/
lemma rgb565_fields {r g b : Nat} (hr : r < 256) (hg : g < 256) (hb : b < 256) :
    rgb565 r g b / 2048 = r / 8 ∧ rgb565 r g b / 32 % 64 = g / 4 ∧ rgb565 r g b % 32 = b / 8 := by
  simp only [rgb565, Nat.shiftLeft_eq]
  omega

end Projector
