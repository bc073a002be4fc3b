import Projector.Base.Loop
import Projector.Base.Raster
import Projector.Bitmap.Info

/-!
# From JPEG to BMP

`JPEGConverter` of `server/JPEGConverter.cpp`: `read_jpeg_file` stores the scan lines that the library
delivers one after the other, and `write_bmp_file` writes them out as a bitmap, last line first and with
the first and the third byte of each pixel exchanged. A `long` has four bytes.
-/

namespace Projector

/-- A JPEG file as the library decodes it; it refuses larger ones (`JPEG_MAX_DIMENSION`). -/
structure Jpeg where
  imageWidth : Nat
  imageHeight : Nat
  numComponents : Nat
  scanline : Nat → Nat → UInt8
  width_pos : 1 ≤ imageWidth
  height_pos : 1 ≤ imageHeight
  width_le : imageWidth ≤ 65500
  height_le : imageHeight ≤ 65500

/-- `class JPEGConverter`; `raw_image` is a block of `rawSize` bytes, seen with the memory around it. -/
structure Converter where
  width : Nat
  height : Nat
  bytesPerPixel : Nat
  rawSize : Nat
  rawImage : Int → UInt8

/-! ## `read_jpeg_file` -/

/-- The loop of `read_jpeg_file`: `cinfo.output_scanline`, `location` and `raw_image`. -/
structure Scan where
  outputScanline : Nat
  location : Nat
  rawImage : Int → UInt8

namespace Jpeg

variable (j : Jpeg)

/-- The bytes of a scan line. -/
def lineSize : Nat := j.imageWidth * j.numComponents

/-- `raw_image[location++] = b` -/
def put (s : Scan) (b : UInt8) : Scan :=
  { s with rawImage := fun i => if i = s.location then b else s.rawImage i, location := s.location + 1 }

/-- One round: `jpeg_read_scanlines` delivers the next line, which is then copied. -/
def readLine (s : Scan) : Scan :=
  (List.range j.lineSize).foldl (fun t i => put t (j.scanline s.outputScanline i))
    { s with outputScanline := s.outputScanline + 1 }

/-- The loop, which takes a round for each line. -/
def readLines (fresh : Int → UInt8) : Except Empty Scan :=
  iterate (fun s => s.outputScanline < j.imageHeight) (fun s => .ok (j.readLine s)) j.imageHeight
    ⟨0, 0, fresh⟩

/-- The object after `read_jpeg_file`; `fresh` is the memory that `malloc` returned. -/
def readJpegFile (fresh : Int → UInt8) : Option Converter :=
  (j.readLines fresh).toOption.map fun s =>
    ⟨j.imageWidth, j.imageHeight, j.numComponents, j.imageWidth * j.imageHeight * j.numComponents,
      s.rawImage⟩

end Jpeg

/-! ## `write_bmp_file` -/

/-- `BMPHEAD` -/
structure BmpHead where
  filesize : Int
  headersize : Int
  infoSize : Int
  width : Int
  depth : Int
  biPlanes : Nat
  bits : Nat
  biCompression : Int

/-- The bytes of the structure; `reserved` and the fields that are not set were cleared. -/
def BmpHead.bytes (bh : BmpHead) : List UInt8 :=
  record 0 [(4, intBytes bh.filesize), (1, [0, 0]), (4, intBytes bh.headersize), (4, intBytes bh.infoSize),
    (4, intBytes bh.width), (4, intBytes bh.depth), (2, leBytes 2 bh.biPlanes), (2, leBytes 2 bh.bits),
    (4, intBytes bh.biCompression), (4, intBytes 0), (4, intBytes 0), (4, intBytes 0), (4, intBytes 0),
    (4, intBytes 0)]

/-- The lines written so far: `linebuf`, the bytes in the file, and the indices of `raw_image` read. -/
structure Lines where
  linebuf : Mem
  out : List UInt8
  reads : List Int

namespace Converter

variable (c : Converter)

/-- `bytesPerLine` -/
def bytesPerLine : Nat :=
  let bytes := c.width * 3
  if bytes &&& 3 ≠ 0 then (bytes ||| 3) + 1 else bytes

/-- `bh` -/
def head : BmpHead where
  filesize := wrap32 (54 + wrap32 (c.bytesPerLine * c.height))
  headersize := 54
  infoSize := 40
  width := c.width
  depth := c.height
  biPlanes := 1
  bits := 24
  biCompression := 0

/-- `(x + line*width)*bytes_per_pixel`, an `int`. -/
def index (line x : Nat) : Int := wrap32 ((x + line * c.width) * c.bytesPerPixel : Nat)

/-- The body of the inner loop: three bytes are copied, in exchanged order. -/
def copyPixel (line x : Nat) : List (Store UInt8) :=
  [⟨x * c.bytesPerPixel, [c.rawImage (c.index line x + 2)]⟩,
    ⟨x * c.bytesPerPixel + 1, [c.rawImage (c.index line x + 1)]⟩,
    ⟨x * c.bytesPerPixel + 2, [c.rawImage (c.index line x + 0)]⟩]

/-- What the body reads. -/
def readsPixel (line x : Nat) : List Int := [c.index line x + 2, c.index line x + 1, c.index line x + 0]

/-- One round of the outer loop: fill `linebuf` and write all of it. -/
def writeLine (s : Lines) (line : Nat) : Lines :=
  let linebuf : Mem := Store.runAll s.linebuf ((List.range c.width).flatMap (c.copyPixel line))
  ⟨linebuf, s.out ++ linebuf.read 0 c.bytesPerLine,
    s.reads ++ (List.range c.width).flatMap (c.readsPixel line)⟩

/-- The outer loop, from the last line to the first, with a cleared `linebuf`. -/
def writeLines : Lines := (List.range c.height).reverse.foldl c.writeLine ⟨fun _ => 0, [], []⟩

/-- The file after `write_bmp_file`. -/
def writeBmpFile : List UInt8 := [66, 77] ++ c.head.bytes ++ c.writeLines.out

/-- The indices of `raw_image` that `write_bmp_file` reads. -/
def reads : List Int := c.writeLines.reads

end Converter

end Projector
