import Projector.Fb.Pixel
import Projector.Server.Client
import Projector.Server.Receive

/-!
# Pictures on the screen

`Client::draw` has the library decompress a picture straight into the frame buffer, with a pitch of 0,
which stands for lines without padding. `put_pixel_RGB24` counts the lines by `finfo.line_length`, which
is what the driver reads them by. `directPath_iff` compares what the two leave in memory, on every screen
and for every picture of its size.
-/

namespace Projector

/-- A decoded picture: the bytes of its lines, three a pixel. -/
structure Picture where
  width : Nat
  height : Nat
  row : Nat → Nat → UInt8

/-- What the library promises about a picture: it is recognised, and `tjDecompress2` with a pitch that
holds a line, or with 0 for one that just does, writes pixel `(x, y)` at `x * 3 + y * pitch` and nothing
else. -/
structure TurboJpeg.Decodes (tj : TurboJpeg) (jpeg : List UInt8) (pic : Picture) : Prop where
  header : ∃ subsamp, tj.decompressHeader2 jpeg = some ((pic.width : Int), (pic.height : Int), subsamp)
  decompress : ∀ (fbp : Mem) (pitch : Nat),
    pic.width * 3 ≤ (if pitch = 0 then pic.width * 3 else pitch) →
    tj.decompress2 jpeg fbp pic.width pitch pic.height = Store.runAll fbp
      ((⟨3, if pitch = 0 then pic.width * 3 else pitch⟩ : Layout).paint pic.width pic.height
        (Layout.cell 3 pic.row))

/-- The picture put on the screen pixel by pixel: `put_pixel_RGB24` for each with its three bytes. -/
def Picture.putPixels (pic : Picture) (lineLength : Nat) : List (Store UInt8) :=
  (List.range pic.height).flatMap fun y => (List.range pic.width).flatMap fun x =>
    [putPixelRGB24 lineLength x y (pic.row y (x * 3)).toNat (pic.row y (x * 3 + 1)).toNat
      (pic.row y (x * 3 + 2)).toNat]

/-- A screen of 24 bits per pixel: it has pixels, its lines hold them, and its memory is below `2 ^ 32`. -/
structure Screen.Valid (s : Screen) : Prop where
  xres_pos : 1 ≤ s.xres
  yres_pos : 1 ≤ s.yres
  fits : s.xres * 3 ≤ s.lineLength
  small : s.yres * s.lineLength < 2 ^ 32

/-- An object with a picture of the size of the screen. -/
structure Client.Shows (tj : TurboJpeg) (s : Screen) (c : Client) (pic : Picture) : Prop where
  resX : c.resX = s.xres
  resY : c.resY = s.yres
  received : 0 < c.jpegOffset
  decodes : tj.Decodes c.jpeg pic
  width : pic.width = s.xres
  height : pic.height = s.yres

/-- Two memories have the same bytes at every pixel of the screen. -/
def Screen.SamePixels (s : Screen) (m m' : Mem) : Prop :=
  ∀ x < s.xres, ∀ y < s.yres, m.read (x * 3 + y * s.lineLength) 3 = m'.read (x * 3 + y * s.lineLength) 3

/-- The picture repeats itself, and what was in the frame buffer, in such a way that it looks the same with
lines packed tightly and with lines of the screen's length. -/
def Picture.Repeats (pic : Picture) (lineLength : Nat) (fbp : Mem) : Prop :=
  ∀ y < pic.height, ∀ j < pic.width * 3,
    (if j + y * lineLength < pic.height * (pic.width * 3) then
      pic.row ((j + y * lineLength) / (pic.width * 3)) ((j + y * lineLength) % (pic.width * 3))
    else fbp (j + y * lineLength)) = pic.row y j

variable {tj : TurboJpeg} {s : Screen} {c : Client} {pic : Picture} {fbp : Mem}

/-- `draw` packs the lines tightly. -/
lemma draw_of_shows (shows_ : c.Shows tj s pic) (fbp : Mem) : (c.draw tj fbp).2 =
    Store.runAll fbp ((⟨3, pic.width * 3⟩ : Layout).paint pic.width pic.height
      (Layout.cell 3 pic.row)) := by
  obtain ⟨subsamp, header⟩ := shows_.decodes.header
  have tight := shows_.decodes.decompress fbp 0 (by simp)
  have width : (pic.width : Int) = c.resX := by rw [shows_.resX, shows_.width]
  have height : (pic.height : Int) = c.resY := by rw [shows_.resY, shows_.height]
  simp only [Client.draw, gt_iff_lt, shows_.received, ↓reduceIte, header, width, height, and_self]
  rw [← width, ← height]
  exact tight

/-- The pixels one by one are a loop over the cells of the screen. -/
lemma putPixels_eq (valid : s.Valid) (width : pic.width = s.xres) (height : pic.height = s.yres) :
    pic.putPixels s.lineLength =
      (⟨3, s.lineLength⟩ : Layout).paint pic.width pic.height (Layout.cell 3 pic.row) := by
  apply Layout.flatMap_eq_paint
  intro x hx y hy
  have place : pixOffset s.lineLength 3 x y = (⟨3, s.lineLength⟩ : Layout).offset x y :=
    pixOffset_eq (l := ⟨3, s.lineLength⟩) (width ▸ valid.fits) (height ▸ valid.small) hx hy
  simp [putPixelRGB24, Layout.cell, List.range_succ, place]

/-- The bytes of the pixels are the bytes of the lines. -/
lemma samePixels_iff {m m' : Mem} : s.SamePixels m m' ↔
    ∀ y < s.yres, ∀ j < s.xres * 3, m (j + y * s.lineLength) = m' (j + y * s.lineLength) := by
  constructor
  · intro same y hy j hj
    have pixel := congrArg (fun bs => bs[j % 3]?) (same (j / 3) (by omega) y hy)
    have third : j % 3 < 3 := Nat.mod_lt _ (by decide)
    simp only [Mem.read, List.getElem?_map, List.getElem?_range third, Option.map_some,
      Option.some.injEq] at pixel
    have place : j / 3 * 3 + y * s.lineLength + j % 3 = j + y * s.lineLength := by omega
    rwa [place] at pixel
  · intro same x hx y hy
    apply Mem.read_congr
    intro k hk
    have place : x * 3 + y * s.lineLength + k = x * 3 + k + y * s.lineLength := by omega
    rw [place]
    exact same y hy (x * 3 + k) (by omega)

/-- A picture on a screen without padding, or with one line, repeats itself. -/
lemma repeats_of_tight (tight : s.lineLength = pic.width * 3 ∨ pic.height = 1) :
    pic.Repeats s.lineLength fbp := by
  intro y hy j hj
  rcases tight with tight | one
  · have inside : j + y * s.lineLength < pic.height * (pic.width * 3) := by
      have le : (y + 1) * (pic.width * 3) ≤ pic.height * (pic.width * 3) := Nat.mul_le_mul_right _ hy
      rw [Nat.succ_mul] at le
      rw [tight]
      omega
    rw [if_pos inside, tight, Nat.add_mul_div_right _ _ (by omega), Nat.div_eq_of_lt hj,
      Nat.add_mul_mod_self_right, Nat.mod_eq_of_lt hj, Nat.zero_add]
  · obtain rfl : y = 0 := by omega
    simp only [Nat.zero_mul, Nat.add_zero, one, Nat.one_mul, hj, ↓reduceIte]
    rw [Nat.div_eq_of_lt hj, Nat.mod_eq_of_lt hj]

/-- The two ways agree on a picture exactly when it repeats itself. -/
lemma samePixels_draw_iff (valid : s.Valid) (shows_ : c.Shows tj s pic) :
    s.SamePixels (c.draw tj fbp).2 (Store.runAll fbp (pic.putPixels s.lineLength)) ↔
      pic.Repeats s.lineLength fbp := by
  have width := shows_.width
  have height := shows_.height
  have pos : 0 < pic.width * 3 := by
    have xres_pos := valid.xres_pos
    omega
  rw [samePixels_iff, draw_of_shows shows_, putPixels_eq valid width height, ← width, ← height]
  refine forall₂_congr fun y hy => forall₂_congr fun j hj => ?_
  have row := Layout.runAll_paint_row (l := ⟨3, s.lineLength⟩) (m := fbp) pic.row
    (width ▸ valid.fits) hj hy
  rw [row, Layout.runAll_paint_tight pos]

/-! ## A picture that shows the difference -/

/-- One grey all over. -/
def Picture.gray (width height : Nat) (level : UInt8) : Picture where
  width := width
  height := height
  row _ _ := level

/-- A JPEG file of one component, with the data of its blocks. The only code of its DC table stands for a
difference of `category` bits, the only one of its AC table for the end of a block. -/
def grayJpeg (width height : Nat) (category : UInt8) (blocks : List UInt8) : List UInt8 :=
  [255, 216] ++ ([255, 219, 0, 67, 0] ++ List.replicate 64 8) ++
  [255, 192, 0, 11, 8, .ofNat (height / 256), .ofNat height, .ofNat (width / 256), .ofNat width,
    1, 1, 17, 0] ++
  ([255, 196, 0, 20, 0, 1] ++ List.replicate 15 0 ++ [category]) ++
  ([255, 196, 0, 20, 16, 1] ++ List.replicate 15 0 ++ [0]) ++
  [255, 218, 0, 8, 1, 1, 0, 0, 63, 0] ++ blocks ++ [255, 217]

/-- It begins with its marker. -/
lemma grayJpeg_ne_nil (width height : Nat) (category : UInt8) (blocks : List UInt8) :
    grayJpeg width height category blocks ≠ [] := by
  simp [grayJpeg]

/-- A decoder that recognises these files only. -/
def TurboJpeg.knowing (pics : List (List UInt8 × Picture)) : TurboJpeg where
  decompressHeader2 jpeg := (pics.lookup jpeg).map fun pic => (pic.width, pic.height, 3)
  decompress2 jpeg fbp _ pitch _ :=
    match pics.lookup jpeg with
    | some pic => Store.runAll fbp
      ((⟨3, if pitch = 0 then pic.width * 3 else pitch.toNat⟩ : Layout).paint pic.width pic.height
        (Layout.cell 3 pic.row))
    | .none => fbp

/-- They are decoded to their pictures. -/
lemma TurboJpeg.decodes_knowing {pics : List (List UInt8 × Picture)} {jpeg : List UInt8}
    (known : pics.lookup jpeg = some pic) : (knowing pics).Decodes jpeg pic where
  header := ⟨3, by simp [knowing, known]⟩
  decompress fbp pitch _ := by simp [knowing, known]

/-- An object that has received a file. -/
def Client.full (s : Screen) (jpeg : List UInt8) : Client :=
  { Client.blank with
    resX := s.xres, resY := s.yres, jpegBuffer := some ⟨jpeg.length + 1, .overlay (fun _ => 0) jpeg⟩,
    jpegOffset := jpeg.length }

/-- A decoder that knows the file shows its picture. -/
lemma shows_knowing {jpeg : List UInt8} (s : Screen) (pic : Picture) (ne : jpeg ≠ [])
    (width : pic.width = s.xres) (height : pic.height = s.yres) :
    (Client.full s jpeg).Shows (.knowing [(jpeg, pic)]) s pic where
  resX := rfl
  resY := rfl
  received := List.length_pos_iff.mpr ne
  decodes := by
    have bytes : (Client.full s jpeg).jpeg = jpeg := Mem.read_overlay ..
    rw [bytes]
    exact TurboJpeg.decodes_knowing (by simp)
  width := width
  height := height

/-- On a screen with padded lines the picture does not reach the end of the last line. -/
lemma not_repeats_gray {w h lineLength : Nat} {level : UInt8} (padded : w * 3 < lineLength) (hw : 1 ≤ w)
    (hh : 2 ≤ h) (ne : level ≠ 0) : ¬ (Picture.gray w h level).Repeats lineLength (fun _ => 0) := by
  intro repeats
  obtain ⟨k, rfl⟩ := Nat.exists_eq_add_of_le' hh
  have byte : (if w * 3 - 1 + (k + 1) * lineLength < (k + 2) * (w * 3) then level else 0) = level :=
    repeats (k + 1) (show k + 1 < k + 2 by omega) (w * 3 - 1) (show w * 3 - 1 < w * 3 by omega)
  have lines : (k + 1) * (w * 3 + 1) ≤ (k + 1) * lineLength := Nat.mul_le_mul_left _ padded
  have before : (k + 1) * (w * 3 + 1) = (k + 1) * (w * 3) + (k + 1) := Nat.mul_succ ..
  have whole : (k + 2) * (w * 3) = (k + 1) * (w * 3) + w * 3 := Nat.succ_mul ..
  have behind : ¬ w * 3 - 1 + (k + 1) * lineLength < (k + 2) * (w * 3) := by omega
  rw [if_neg behind] at byte
  exact ne byte.symm

/-- `draw` leaves the same bytes at every pixel as `put_pixel_RGB24` for each, if and only if the lines of
the screen are not padded, or there is only one, or the picture happens to repeat itself. So a screen shows
all its pictures if and only if one of the first two is the case. -/
theorem directPath_iff (valid : s.Valid) :
    (∀ tj (c : Client) (pic : Picture) fbp, c.Shows tj s pic →
      (s.SamePixels (c.draw tj fbp).2 (Store.runAll fbp (pic.putPixels s.lineLength)) ↔
        s.lineLength = s.xres * 3 ∨ s.yres = 1 ∨ pic.Repeats s.lineLength fbp)) ∧
    ((∀ tj (c : Client) (pic : Picture) fbp, c.Shows tj s pic →
      s.SamePixels (c.draw tj fbp).2 (Store.runAll fbp (pic.putPixels s.lineLength))) ↔
        s.lineLength = s.xres * 3 ∨ s.yres = 1) := by
  have tight {tj} {c : Client} {pic : Picture} (shows_ : c.Shows tj s pic) (fbp : Mem)
      (h : s.lineLength = s.xres * 3 ∨ s.yres = 1) : pic.Repeats s.lineLength fbp := by
    rw [← shows_.width, ← shows_.height] at h
    exact repeats_of_tight h
  constructor
  · intro tj c pic fbp shows_
    rw [samePixels_draw_iff valid shows_, ← or_assoc]
    exact ⟨.inr, fun h => h.elim (tight shows_ fbp) id⟩
  · constructor
    · intro all
      by_contra padded
      rw [not_or] at padded
      have shows_ := shows_knowing s (.gray s.xres s.yres 128) (List.cons_ne_nil 255 []) rfl rfl
      have repeats := (samePixels_draw_iff valid shows_).mp (all _ _ _ (fun _ => 0) shows_)
      have xres_pos := valid.xres_pos
      have yres_pos := valid.yres_pos
      have fits := valid.fits
      exact not_repeats_gray (by omega) xres_pos (by omega) (by decide) repeats
    · intro h tj c pic fbp shows_
      exact (samePixels_draw_iff valid shows_).mpr (tight shows_ fbp h)

/-- A screen of 1366 by 768 pixels whose driver rounds the lines up to 32 bytes. -/
def Screen.wide : Screen := ⟨1366, 768, 4128⟩

/-- It is a screen of 24 bits per pixel. -/
lemma Screen.wide_valid : Screen.wide.Valid := ⟨by decide, by decide, by decide, by decide⟩

/-- A grey picture of its size: 16416 blocks of two bits. -/
def wideJpeg : List UInt8 := grayJpeg 1366 768 0 (List.replicate 4104 0)

/-- The file is not empty. -/
lemma wideJpeg_ne_nil : wideJpeg ≠ [] := grayJpeg_ne_nil 1366 768 0 _

/-- `directPath_iff` for this picture on that screen. -/
theorem directPath_iff_wide :
    Screen.wide.SamePixels
        ((Client.full .wide wideJpeg).draw (.knowing [(wideJpeg, .gray 1366 768 128)]) (fun _ => 0)).2
        (Store.runAll (fun _ => 0) ((Picture.gray 1366 768 128).putPixels 4128)) ↔
      4128 = 1366 * 3 ∨ 768 = 1 ∨ (Picture.gray 1366 768 128).Repeats 4128 (fun _ => 0) :=
  (directPath_iff Screen.wide_valid).1 _ _ _ _
    (shows_knowing .wide (.gray 1366 768 128) wideJpeg_ne_nil rfl rfl)

/-- There `draw` leaves the end of the picture as it was. -/
theorem not_samePixels_wide :
    (Client.full .wide wideJpeg).Shows (.knowing [(wideJpeg, .gray 1366 768 128)]) .wide
      (.gray 1366 768 128) ∧
    ¬ Screen.wide.SamePixels
      ((Client.full .wide wideJpeg).draw (.knowing [(wideJpeg, .gray 1366 768 128)]) (fun _ => 0)).2
      (Store.runAll (fun _ => 0) ((Picture.gray 1366 768 128).putPixels 4128)) := by
  have shows_ := shows_knowing .wide (.gray 1366 768 128) wideJpeg_ne_nil rfl rfl
  refine ⟨shows_, fun same => ?_⟩
  exact not_repeats_gray (by decide) (by decide) (by decide) (by decide)
    ((samePixels_draw_iff Screen.wide_valid shows_).mp same)

end Projector
