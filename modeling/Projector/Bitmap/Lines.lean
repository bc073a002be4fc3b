import Projector.Bitmap.Converter

/-!
# The loops of the converter

`read_jpeg_file` leaves the lines of the picture in `raw_image` one behind the other (`Loaded`).
`write_bmp_file` sends all lines through one buffer. When the inner loop overwrites the same part of it for
every line (`Fills`), a line of the file is a function of the line of the picture alone, and the rest of
the buffer stays clear (`Fills.getElem?_writeBmpFile`).
-/

namespace Projector

namespace Jpeg

variable {j : Jpeg} {fresh : Int → UInt8}

/-! ## Reading -/

/-- Copying a line: it lies behind what was there, which stays. -/
lemma foldl_put (line : Nat → UInt8) (s : Scan) (n : Nat) :
    ∃ raw, (List.range n).foldl (fun t i => put t (line i)) s = ⟨s.outputScanline, s.location + n, raw⟩ ∧
      (∀ i < n, raw ((s.location + i : Nat) : Int) = line i) ∧
      ∀ i : Int, i < s.location → raw i = s.rawImage i := by
  induction n with
  | zero => exact ⟨s.rawImage, rfl, by omega, fun _ _ => rfl⟩
  | succ n ih =>
    obtain ⟨raw, e, new, old⟩ := ih
    refine ⟨_, by rw [List.range_succ, List.foldl_append, e]; rfl, fun i hi => ?_, fun i hi => ?_⟩
    · by_cases last : i = n
      · simp [last]
      · have ne : ¬ ((s.location + i : Nat) : Int) = ((s.location + n : Nat) : Int) := by omega
        show (if ((s.location + i : Nat) : Int) = ((s.location + n : Nat) : Int) then _ else _) = _
        rw [if_neg ne]
        exact new i (by omega)
    · have ne : ¬ i = ((s.location + n : Nat) : Int) := by omega
      show (if i = ((s.location + n : Nat) : Int) then _ else _) = _
      rw [if_neg ne]
      exact old i hi

/-- The lines read so far lie in `raw_image` one behind the other. -/
structure Scanned (j : Jpeg) (s : Scan) : Prop where
  le : s.outputScanline ≤ j.imageHeight
  location : s.location = s.outputScanline * j.lineSize
  lines : ∀ y < s.outputScanline, ∀ i < j.lineSize,
    s.rawImage ((y * j.lineSize + i : Nat) : Int) = j.scanline y i

/-- One round. -/
lemma Scanned.readLine {s : Scan} (inv : j.Scanned s) (more : s.outputScanline < j.imageHeight) :
    j.Scanned (j.readLine s) ∧ (j.readLine s).outputScanline = s.outputScanline + 1 := by
  obtain ⟨raw, e, new, old⟩ := foldl_put (j.scanline s.outputScanline)
    { s with outputScanline := s.outputScanline + 1 } j.lineSize
  have next : j.readLine s = ⟨s.outputScanline + 1, s.location + j.lineSize, raw⟩ := e
  rw [next]
  refine ⟨⟨more, ?_, fun y hy i hi => ?_⟩, rfl⟩
  · show s.location + j.lineSize = (s.outputScanline + 1) * j.lineSize
    rw [inv.location, Nat.succ_mul]
  · rcases Nat.lt_succ_iff_lt_or_eq.mp hy with before | rfl
    · have le : (y + 1) * j.lineSize ≤ s.outputScanline * j.lineSize := Nat.mul_le_mul_right _ before
      rw [Nat.succ_mul, ← inv.location] at le
      exact (old _ (by show _ < (s.location : Int); omega)).trans (inv.lines y before i hi)
    · rw [← inv.location]
      exact new i hi

/-- After the loop all lines are there. -/
lemma readLines_spec (j : Jpeg) (fresh : Int → UInt8) : ∃ s, j.readLines fresh = .ok s ∧
    ∀ y < j.imageHeight, ∀ i < j.lineSize,
      s.rawImage ((y * j.lineSize + i : Nat) : Int) = j.scanline y i := by
  have done : Post (fun s => Scanned j s ∧ decide (s.outputScanline < j.imageHeight) = false)
      (fun _ => True) (j.readLines fresh) := by
    apply iterate_rule (Scanned j) (fun _ => True) (fun s => j.imageHeight - s.outputScanline)
    · intro s _ more
      simpa using more
    · intro s inv more
      have more : s.outputScanline < j.imageHeight := by simpa using more
      obtain ⟨keeps, next⟩ := inv.readLine more
      exact ⟨keeps, by omega⟩
    · exact ⟨Nat.zero_le _, by simp, by simp⟩
    · exact Nat.sub_le _ _
  cases e : j.readLines fresh with
  | error x => exact x.elim
  | ok s =>
    rw [e] at done
    obtain ⟨inv, stop⟩ := done
    have last : s.outputScanline = j.imageHeight := by
      have ge : j.imageHeight ≤ s.outputScanline := by simpa using stop
      have le := inv.le
      omega
    exact ⟨s, rfl, by rw [← last]; exact inv.lines⟩

/-- The object after `read_jpeg_file`. -/
structure Loaded (j : Jpeg) (c : Converter) : Prop where
  width : c.width = j.imageWidth
  height : c.height = j.imageHeight
  bytesPerPixel : c.bytesPerPixel = j.numComponents
  rawSize : c.rawSize = j.imageWidth * j.imageHeight * j.numComponents
  lines : ∀ y < j.imageHeight, ∀ i < j.lineSize,
    c.rawImage ((y * j.lineSize + i : Nat) : Int) = j.scanline y i

/-- `read_jpeg_file` succeeds and leaves the picture in `raw_image`. -/
lemma readJpegFile_spec (j : Jpeg) (fresh : Int → UInt8) :
    ∃ c, j.readJpegFile fresh = some c ∧ j.Loaded c := by
  obtain ⟨s, read, lines⟩ := j.readLines_spec fresh
  exact ⟨⟨j.imageWidth, j.imageHeight, j.numComponents,
    j.imageWidth * j.imageHeight * j.numComponents, s.rawImage⟩, by rw [readJpegFile, read]; rfl,
    rfl, rfl, rfl, rfl, lines⟩

end Jpeg

namespace Converter

variable {c : Converter}

/-! ## Writing -/

/-- The bit-twiddling rounds up. -/
lemma bytesPerLine_eq (c : Converter) : c.bytesPerLine = stride c.width := by
  have low : c.width * 3 &&& 3 = c.width * 3 % 4 := Nat.and_two_pow_sub_one_eq_mod _ 2
  have high : c.width * 3 ||| 3 = c.width * 3 / 4 * 4 + 3 := by
    have front : (c.width * 3 ||| 3) / 2 ^ 2 = c.width * 3 / 2 ^ 2 ||| 3 / 2 ^ 2 := Nat.or_div_two_pow
    have back : (c.width * 3 ||| 3) % 2 ^ 2 = c.width * 3 % 2 ^ 2 ||| 3 % 2 ^ 2 := Nat.or_mod_two_pow
    have ones : c.width * 3 % 4 ||| 3 = 3 :=
      (by decide : ∀ r < 4, r ||| 3 = 3) _ (Nat.mod_lt _ (by decide))
    simp only [Nat.reducePow, Nat.reduceDiv, Nat.or_zero, Nat.reduceMod, ones] at front back
    omega
  simp only [bytesPerLine, low, high, stride]
  split <;> omega

/-- For every line the inner loop overwrites the first `n` bytes of the buffer, whatever was there. -/
def Fills (c : Converter) (n : Nat) (fill : Nat → Nat → UInt8) : Prop :=
  ∀ line < c.height, ∀ (linebuf : Mem) (k : Nat),
    Store.runAll linebuf ((List.range c.width).flatMap (c.copyPixel line)) k =
      if k < n then fill line k else linebuf k

/-- A line of the file. -/
def filledLine (n : Nat) (fill : Nat → UInt8) : Mem := fun k => if k < n then fill k else 0

variable {n : Nat} {fill : Nat → Nat → UInt8}

/-- What the outer loop has written; behind the overwritten part the buffer is clear. -/
lemma Fills.foldl_writeLine (fills : c.Fills n fill) {lines : List Nat}
    (bound : ∀ line ∈ lines, line < c.height) :
    (lines.foldl c.writeLine ⟨fun _ => 0, [], []⟩).out =
      (lines.flatMap fun line => (filledLine n (fill line)).read 0 (stride c.width)) ∧
    ∀ k, n ≤ k → (lines.foldl c.writeLine ⟨fun _ => 0, [], []⟩).linebuf k = 0 := by
  induction lines using List.reverseRecOn with
  | nil => exact ⟨rfl, fun _ _ => rfl⟩
  | append_singleton lines line ih =>
    have hl := bound line (by simp)
    obtain ⟨out, clear⟩ := ih fun l mem => bound l (List.mem_append_left _ mem)
    have buf := fills line hl (lines.foldl c.writeLine ⟨fun _ => 0, [], []⟩).linebuf
    rw [List.foldl_append, List.flatMap_append, List.flatMap_singleton]
    refine ⟨?_, fun k le => ?_⟩
    · show _ ++ Mem.read _ _ _ = _
      rw [out, bytesPerLine_eq]
      congr 1
      apply Mem.read_congr
      intro k _
      rw [Nat.zero_add, buf, filledLine]
      split
      · rfl
      · exact clear k (by omega)
    · show Store.runAll _ _ k = 0
      rw [buf, if_neg (by omega), clear k le]

/-- The lines of the file, the last line of the picture first. -/
lemma Fills.out_eq (fills : c.Fills n fill) : c.writeLines.out =
    (List.range c.height).flatMap fun i =>
      (filledLine n (fill (c.height - 1 - i))).read 0 (stride c.width) := by
  have rows : (List.range c.height).reverse = (List.range c.height).map (c.height - 1 - ·) := by
    rw [← Nat.zero_add c.height, List.range_eq_range', List.reverse_range']
    simp only [Nat.zero_add, List.range_eq_range']
  rw [writeLines, (fills.foldl_writeLine fun line mem => by simpa using mem).1, rows, List.flatMap_map]

/-- The magic and the two headers have 54 bytes. -/
lemma length_head (c : Converter) : ([66, 77] ++ c.head.bytes).length = 54 := by
  simp [BmpHead.bytes, record, aligned]

/-- The number of bytes in the file. -/
lemma Fills.length_writeBmpFile (fills : c.Fills n fill) :
    c.writeBmpFile.length = 54 + c.height * stride c.width := by
  rw [writeBmpFile, List.length_append, length_head, fills.out_eq,
    length_flatMap_range (n := stride c.width) fun _ => by simp]

/-- Where a line of the picture is in the file. -/
lemma Fills.getElem?_writeBmpFile (fills : c.Fills n fill) {line k : Nat} (hl : line < c.height)
    (hk : k < stride c.width) :
    c.writeBmpFile[54 + (c.height - 1 - line) * stride c.width + k]? =
      some (filledLine n (fill line) k) := by
  have back : c.height - 1 - (c.height - 1 - line) = line := by omega
  have place : 54 + (c.height - 1 - line) * stride c.width + k =
      ([66, 77] ++ c.head.bytes).length + ((c.height - 1 - line) * stride c.width + k) := by
    rw [length_head]
    omega
  rw [writeBmpFile, place, List.getElem?_append_right (Nat.le_add_right _ _), Nat.add_sub_cancel_left,
    fills.out_eq, getElem?_flatMap_range (fun _ => by simp) (by omega) hk, back]
  simp [Mem.read, hk]

end Converter

end Projector
