import ApuBios.Library.Raster
import Mathlib.Data.Nat.Bitwise

/-!
# The framebuffer console

Model of `drivers/video/corebootfb.c` of libpayload: how a character is drawn. Addresses do not wrap
around in a framebuffer that lies in the address space, and are natural numbers.
-/

namespace ApuBios.Corebootfb

def fontHeight : ℕ := 16

def fontWidth : ℕ := 8

/-- `struct cb_framebuffer` -/
structure CbFramebuffer where
  physicalAddress : ℕ
  xResolution : ℕ
  yResolution : ℕ
  bytesPerLine : ℕ
  bitsPerPixel : ℕ
  redMaskPos : ℕ
  redMaskSize : ℕ
  greenMaskPos : ℕ
  greenMaskSize : ℕ
  blueMaskPos : ℕ
  blueMaskSize : ℕ

/-- `vga_colors` -/
def vgaColors : List ℕ :=
  [0x000000, 0xAA0000, 0x00AA00, 0xAA5500, 0x0000AA, 0xAA00AA, 0x00AAAA, 0xAAAAAA,
    0x555555, 0xFF5555, 0x55FF55, 0xFFFF55, 0x5555FF, 0xFF55FF, 0x55FFFF, 0xFFFFFF]

variable (fb : CbFramebuffer)

/-- `coreboot_video_console.columns`, as `corebootfb_init` sets it. -/
def columns : ℕ := fb.xResolution / fontWidth

/-- `coreboot_video_console.rows`, as `corebootfb_init` sets it. -/
def rows : ℕ := fb.yResolution / fontHeight

/-- A component of a colour of 24 bits, in the place that it has in a pixel. -/
def component (color shift maskSize maskPos : ℕ) : ℕ :=
  (((color >>> shift) &&& 0xff) >>> (8 - maskSize)) <<< maskPos

/-- `bgval` and `fgval`, of 32 bits -/
def pixelValue (color : ℕ) : ℕ :=
  if fb.bitsPerPixel > 8 then
    (component (vgaColors.getD color 0) 0 fb.blueMaskSize fb.blueMaskPos |||
      component (vgaColors.getD color 0) 8 fb.greenMaskSize fb.greenMaskPos |||
      component (vgaColors.getD color 0) 16 fb.redMaskSize fb.redMaskPos) % 2 ^ 32
  else 0

/-- The body of the loop over the columns of a glyph. -/
def drawPixel (fg bg : ℕ) (bits : UInt8) (dst x : ℕ) (mem : Mem) : Mem :=
  let fgval := pixelValue fb fg
  let bgval := pixelValue fb bg
  let pixel := dst + (fontWidth - x) * (fb.bitsPerPixel >>> 3)
  let isSet := bits.toNat &&& 1 <<< x ≠ 0
  match fb.bitsPerPixel with
  | 8 => mem.writeLE pixel 1 (if isSet then fg else bg)
  | 16 => mem.writeLE pixel 2 (if isSet then fgval else bgval)
  | 24 =>
    if isSet then
      ((mem.writeLE pixel 1 (fgval &&& 0xff)).writeLE (pixel + 1) 1 (fgval >>> 8 &&& 0xff)).writeLE
        (pixel + 2) 1 (fgval >>> 16 &&& 0xff)
    else
      ((mem.writeLE pixel 1 (bgval &&& 0xff)).writeLE (pixel + 1) 1 (bgval >>> 8 &&& 0xff)).writeLE
        (pixel + 2) 1 (bgval >>> 16 &&& 0xff)
  | 32 => mem.writeLE pixel 4 (if isSet then fgval else bgval)
  | _ => mem

/-- The loop over the columns of a glyph, which counts down to bit 0. -/
def drawLine (fg bg : ℕ) (bits : UInt8) (dst : ℕ) : (count : ℕ) → Mem → Mem
  | 0, mem => mem
  | x + 1, mem => drawLine fg bg bits dst x (drawPixel fb fg bg bits dst x mem)

/-- The loop over the lines of a glyph. -/
def drawLines (font : ℕ → UInt8) (fg bg : ℕ) : (count glyph dst : ℕ) → Mem → Mem
  | 0, _, _, mem => mem
  | count + 1, glyph, dst, mem =>
    drawLines font fg bg count (glyph + 1) (dst + fb.bytesPerLine)
      (drawLine fb fg bg (font glyph) dst fontWidth mem)

/-- `corebootfb_putchar`, with the bytes of `font8x16` -/
def corebootfbPutchar (font : ℕ → UInt8) (row col : UInt8) (ch : ℕ) (mem : Mem) : Mem :=
  let glyph := (ch &&& 0xFF) * fontHeight
  let bg := ch >>> 12 &&& 0xF
  let fg := ch >>> 8 &&& 0xF
  let dst := fb.physicalAddress + row.toNat * fontHeight * fb.bytesPerLine
  let dst := dst + col.toNat * fontWidth * (fb.bitsPerPixel >>> 3)
  drawLines fb font fg bg fontHeight glyph dst mem

end ApuBios.Corebootfb

/-!
# Where a character is drawn

The pixels of a line have the offsets one to eight in the cell, in place of zero to seven. So a character
is drawn one pixel too far to the right.
-/

namespace ApuBios.Corebootfb

/-- A framebuffer of one of the depths for which pixels are drawn, with lines as long as the resolution
asks for. -/
structure Screen where
  fb : CbFramebuffer
  depth : fb.bitsPerPixel = 8 ∨ fb.bitsPerPixel = 16 ∨ fb.bitsPerPixel = 24 ∨ fb.bitsPerPixel = 32
  line_le : fb.xResolution * (fb.bitsPerPixel / 8) ≤ fb.bytesPerLine

namespace Screen

/-- A cell of the console. -/
structure Cell (s : Screen) where
  row : UInt8
  col : UInt8
  row_lt : row.toNat < rows s.fb
  col_lt : col.toNat < columns s.fb

variable (s : Screen)

def bytesPerPixel : ℕ := s.fb.bitsPerPixel / 8

/-- The address of a pixel at a place in a cell or beside it. -/
def pixelAddr (c : Cell s) (y x : ℕ) : ℕ :=
  s.fb.physicalAddress + (c.row.toNat * fontHeight + y) * s.fb.bytesPerLine +
    (c.col.toNat * fontWidth + x) * s.bytesPerPixel

/-- How a colour is stored in a pixel: as its number, or as a value with its components. -/
def colorValue (color : ℕ) : ℕ := if s.fb.bitsPerPixel = 8 then color else pixelValue s.fb color

/-- The value of a pixel of a character, where bit 7 of a line is the leftmost one. -/
def glyphPixel (font : ℕ → UInt8) (ch y x : ℕ) : ℕ :=
  if (font ((ch &&& 0xFF) * fontHeight + y)).toNat.testBit (7 - x) then s.colorValue (ch >>> 8 &&& 0xF)
  else s.colorValue (ch >>> 12 &&& 0xF)

/-- The character is shown `shift` pixels to the right of its cell. -/
def ShowsGlyph (font : ℕ → UInt8) (c : Cell s) (ch shift : ℕ) (mem : Mem) : Prop :=
  ∀ y < fontHeight, ∀ x < fontWidth, ∀ j < s.bytesPerPixel,
    mem (pixelAddr s c y (x + shift) + j) = UInt8.ofNat (s.glyphPixel font ch y x / 256 ^ j)

/-- A byte that belongs to no pixel `shift` pixels to the right of the cell. -/
def Outside (c : Cell s) (shift a : ℕ) : Prop :=
  ∀ y < fontHeight, a < pixelAddr s c y shift ∨ pixelAddr s c y (fontWidth + shift) ≤ a

/-- The character is drawn `shift` pixels to the right of its cell, and nothing else is changed. -/
def Draws (font : ℕ → UInt8) (c : Cell s) (ch shift : ℕ) : Prop := ∀ mem : Mem,
  s.ShowsGlyph font c ch shift (corebootfbPutchar s.fb font c.row c.col ch mem) ∧
    ∀ a, s.Outside c shift a → corebootfbPutchar s.fb font c.row c.col ch mem a = mem a

variable {s} {c : Cell s} {font : ℕ → UInt8} {fg bg ch dst x y n glyph j : ℕ} {bits : UInt8} {mem : Mem}

/-! ### Pixels -/

lemma bytesPerPixel_eq : s.fb.bitsPerPixel >>> 3 = s.bytesPerPixel := Nat.shiftRight_eq_div_pow _ 3

lemma bytesPerPixel_pos : 0 < s.bytesPerPixel := by
  have hbytes : s.bytesPerPixel = s.fb.bitsPerPixel / 8 := rfl
  obtain h | h | h | h := s.depth <;> omega

lemma isSet_iff : bits.toNat &&& 1 <<< x ≠ 0 ↔ bits.toNat.testBit x = true := by
  rw [Nat.one_shiftLeft, Nat.and_two_pow]
  cases bits.toNat.testBit x <;> simp

/-- The bytes of a pixel of 24 bits. -/
lemma writeLE_three (v : ℕ) :
    ((mem.writeLE dst 1 (v &&& 0xff)).writeLE (dst + 1) 1 (v >>> 8 &&& 0xff)).writeLE (dst + 2) 1
      (v >>> 16 &&& 0xff) = mem.writeLE dst 3 v := by
  have htwo : mem.writeLE dst 2 v = (mem.writeLE dst 1 v).writeLE (dst + 1) 1 (v / 256 ^ 1) :=
    Mem.writeLE_succ
  have hthree : mem.writeLE dst 3 v = (mem.writeLE dst 2 v).writeLE (dst + 2) 1 (v / 256 ^ 2) :=
    Mem.writeLE_succ
  rw [Mem.writeLE_byte, Mem.writeLE_byte, Mem.writeLE_byte, hthree, htwo, Nat.shiftRight_eq_div_pow,
    Nat.shiftRight_eq_div_pow]
  rfl

/-- In all depths a pixel is one value. -/
lemma drawPixel_eq : drawPixel s.fb fg bg bits dst x mem =
    mem.writeLE (dst + (fontWidth - x) * s.bytesPerPixel) s.bytesPerPixel
      (if bits.toNat.testBit x then s.colorValue fg else s.colorValue bg) := by
  have hbytes : s.bytesPerPixel = s.fb.bitsPerPixel / 8 := rfl
  rw [drawPixel, bytesPerPixel_eq]
  simp only [isSet_iff, writeLE_three, colorValue]
  obtain h | h | h | h := s.depth
  · rw [hbytes, h]
    rfl
  · rw [hbytes, h]
    rfl
  · rw [hbytes, h]
    exact (apply_ite (mem.writeLE (dst + (fontWidth - x) * 3) 3) _ _ _).symm
  · rw [hbytes, h]
    rfl

/-! ### Lines -/

lemma drawLine_eq (hn : n ≤ fontWidth) : drawLine s.fb fg bg bits dst n mem =
    mem.writeCells (dst + (fontWidth + 1 - n) * s.bytesPerPixel) s.bytesPerPixel
      (fun i => if bits.toNat.testBit (n - 1 - i) then s.colorValue fg else s.colorValue bg) n := by
  induction n generalizing mem with
  | zero => rfl
  | succ n ih =>
    have hrest : (fun i => if bits.toNat.testBit (n - 1 - i) then s.colorValue fg else s.colorValue bg) =
        fun i => if bits.toNat.testBit (n + 1 - 1 - (i + 1)) then s.colorValue fg else s.colorValue bg := by
      funext i
      rw [show n + 1 - 1 - (i + 1) = n - 1 - i by omega]
    have hnext : dst + (fontWidth - n) * s.bytesPerPixel + s.bytesPerPixel =
        dst + (fontWidth + 1 - n) * s.bytesPerPixel := by
      rw [Nat.sub_add_comm (by omega), Nat.add_mul, Nat.one_mul, Nat.add_assoc]
    rw [drawLine, ih (by omega), drawPixel_eq, Mem.writeCells_succ, Nat.add_sub_add_right, hnext, hrest]
    rfl

lemma drawLines_eq : drawLines s.fb font fg bg n glyph dst mem =
    mem.writeRows (dst + s.bytesPerPixel) s.bytesPerPixel s.fb.bytesPerLine fontWidth
      (fun y x => if (font (glyph + y)).toNat.testBit (7 - x) then s.colorValue fg else s.colorValue bg)
      n := by
  induction n generalizing glyph dst mem with
  | zero => rfl
  | succ n ih =>
    have hfirst : (fontWidth + 1 - fontWidth) * s.bytesPerPixel = s.bytesPerPixel := Nat.one_mul _
    have hglyph (y : ℕ) : glyph + 1 + y = glyph + (y + 1) := by omega
    rw [drawLines, ih, drawLine_eq le_rfl, hfirst, Mem.writeRows_succ, Nat.add_right_comm]
    simp only [hglyph, Nat.add_zero]
    rfl

/-! ### Characters -/

lemma pixelAddr_add : pixelAddr s c y (x + n) =
    pixelAddr s c 0 n + y * s.fb.bytesPerLine + x * s.bytesPerPixel := by
  simp only [pixelAddr]
  ring

lemma corebootfbPutchar_eq : corebootfbPutchar s.fb font c.row c.col ch mem =
    mem.writeRows (pixelAddr s c 0 1) s.bytesPerPixel s.fb.bytesPerLine fontWidth (s.glyphPixel font ch)
      fontHeight := by
  have hstart : s.fb.physicalAddress + c.row.toNat * fontHeight * s.fb.bytesPerLine +
      c.col.toNat * fontWidth * s.bytesPerPixel + s.bytesPerPixel = pixelAddr s c 0 1 := by
    rw [pixelAddr]
    ring
  rw [corebootfbPutchar, bytesPerPixel_eq, drawLines_eq, hstart]
  rfl

/-- A line of a cell fits into a line of the screen. -/
lemma Cell.line_le (c : Cell s) : fontWidth * s.bytesPerPixel ≤ s.fb.bytesPerLine := by
  have hcol : 0 < s.fb.xResolution / fontWidth := Nat.zero_lt_of_lt c.col_lt
  have hres : fontWidth ≤ s.fb.xResolution := (Nat.div_pos_iff.mp hcol).2
  exact (Nat.mul_le_mul_right _ hres).trans s.line_le

/-- A character is drawn one pixel to the right of its cell. -/
theorem draws_one (font : ℕ → UInt8) (c : Cell s) (ch : ℕ) : s.Draws font c ch 1 := by
  intro mem
  rw [corebootfbPutchar_eq]
  constructor
  · intro y hy x hx j hj
    rw [pixelAddr_add]
    exact Mem.writeRows_read c.line_le hy hx hj
  · intro a ha
    refine Mem.writeRows_frame fun y hy => ?_
    obtain hlt | hle := ha y hy
    · rw [← Nat.zero_add 1, pixelAddr_add, Nat.zero_mul] at hlt
      exact .inl hlt
    · rw [pixelAddr_add] at hle
      exact .inr hle

/-- The first pixel of a line of the cell is not drawn. -/
theorem first_pixel_kept (c : Cell s) (hj : j < s.bytesPerPixel) :
    corebootfbPutchar s.fb font c.row c.col ch mem (pixelAddr s c 0 0 + j) = mem (pixelAddr s c 0 0 + j) := by
  refine (draws_one font c ch mem).2 _ fun y hy => .inl ?_
  have hone : pixelAddr s c y 1 = pixelAddr s c 0 0 + y * s.fb.bytesPerLine + 1 * s.bytesPerPixel :=
    pixelAddr_add (x := 1) (n := 0)
  omega

/-- The pixel behind the last line of the cell does not belong to it. -/
lemma outside_behind (c : Cell s) : s.Outside c 0 (pixelAddr s c 15 8) := by
  intro y hy
  have hle : y * s.fb.bytesPerLine ≤ 15 * s.fb.bytesPerLine := Nat.mul_le_mul_right _ (Nat.lt_succ_iff.mp hy)
  have hline : pixelAddr s c y (fontWidth + 0) =
      pixelAddr s c 0 0 + y * s.fb.bytesPerLine + fontWidth * s.bytesPerPixel := pixelAddr_add
  have hlast : pixelAddr s c 15 (fontWidth + 0) =
      pixelAddr s c 0 0 + 15 * s.fb.bytesPerLine + fontWidth * s.bytesPerPixel := pixelAddr_add
  have heq : pixelAddr s c 15 8 = pixelAddr s c 15 (fontWidth + 0) := rfl
  exact .inr (by omega)

/-- On no screen a character is drawn into its cell. -/
theorem not_draws (s : Screen) (font : ℕ → UInt8) (c : Cell s) (ch : ℕ) : ¬s.Draws font c ch 0 := by
  intro h
  have hwritten (mem : Mem) := (draws_one font c ch mem).1 15 (by decide) 7 (by decide) 0
    bytesPerPixel_pos
  have hkept (mem : Mem) := (h mem).2 _ (outside_behind c)
  have hconst : (0 : UInt8) = 1 := (hkept fun _ => 0).symm.trans
    ((hwritten _).trans ((hwritten _).symm.trans (hkept fun _ => 1)))
  exact absurd hconst (by decide)

/-- A screen of 640 by 480 pixels of one byte. -/
def indexed : Screen where
  fb := ⟨0xC0000000, 640, 480, 640, 8, 0, 0, 0, 0, 0, 0⟩
  depth := .inl rfl
  line_le := le_rfl

/-- A blank in the last cell is also written behind the framebuffer. -/
theorem behind_framebuffer :
    ¬indexed.Draws (fun _ => 0) ⟨29, 79, by decide, by decide⟩ 0x0720 0 := by
  intro h
  have hbyte := (h fun _ => 1).2 (0xC0000000 + 640 * 480) (by unfold Outside; decide)
  revert hbyte
  decide +kernel

end Screen

end ApuBios.Corebootfb
