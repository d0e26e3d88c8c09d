import Mathlib.Data.List.GetD
import Pacman.ColorMapper
import Pacman.Theorems.DotGrid

/-! What `color_mapper` draws. A sprite is tested against a box of 33 by 33 pixels; its last column is out of
    range of a row, and its last row finds an empty one, the first row of the next picture or, after the last
    picture, the memory's padding. -/

namespace Pacman
open Bits

/-! ### The memory of the sprites -/

/-- Row `v` of the picture of Pac-Man for a direction. -/
def pacPicture (direction : BitVec 2) (v : ℕ) : BitVec 32 := spriteRows.getD (32 * direction.toNat + v) 0

/-- Row `v` of the picture of a ghost. -/
def ghostPicture (v : ℕ) : BitVec 32 := spriteRows.getD (32 * 4 + v) 0

theorem spriteRows_length : spriteRows.length = 160 := by decide +kernel

theorem spriteData_listed {addr : BitVec 8} {n : ℕ} (h : addr.toNat = 96 + n) :
    spriteData addr = spriteRows.getD n 0 := by
  have hlt := addr.isLt
  have hstart : 2 ^ 8 - spriteRows.length = 96 := by
    rw [spriteRows_length]
    rfl
  have hn : n < spriteRows.length := by
    rw [spriteRows_length]
    omega
  rw [spriteData, h, ← hstart]
  refine rom_listed hn ?_
  rw [spriteRows_length]
  decide

theorem spriteData_padding {addr : BitVec 8} (h : addr.toNat < 96) : spriteData addr = 0 :=
  rom_padding (by rw [spriteRows_length]; omega)

/-- Every picture begins with an empty row. -/
theorem pacPicture_end (direction : BitVec 2) : pacPicture direction 32 = 0 := by
  revert direction
  decide +kernel

theorem ghostPicture_end : ghostPicture 32 = 0 := by decide +kernel

namespace ColorMapper

/-! ### Sprites -/

/-- The offset of a pixel from the left (upper) end of a sprite's box. -/
def offset (draw pos : BitVec 10) : ℤ := draw.toNat - pos.toNat + 16

/-- A sprite at `(x, y)` fits on the screen. -/
structure OnScreen (x y : BitVec 10) : Prop where
  x_bounds : 32 ≤ x.toNat ∧ x.toNat ≤ 384
  y_bounds : 32 ≤ y.toNat ∧ y.toNat ≤ 384

section Sprite
variable {m : ColorMapper} {x y : BitVec 10}

theorem inBox_iff (hsize : m.ballSize = 16) (h : OnScreen x y) : m.inBox x y = true ↔
    (0 ≤ offset m.drawX x ∧ offset m.drawX x ≤ 32) ∧ 0 ≤ offset m.drawY y ∧ offset m.drawY y ≤ 32 := by
  obtain ⟨hx, hy⟩ := h
  have hpred : ∀ a : BitVec 10, 32 ≤ a.toNat → a.toNat ≤ 384 → (a - 16).toNat = a.toNat - 16 := fun a h₁ h₂ => by
    rw [BitVec.toNat_sub]
    simp
    omega
  have hsucc : ∀ a : BitVec 10, 32 ≤ a.toNat → a.toNat ≤ 384 → (a + 16).toNat = a.toNat + 16 := fun a h₁ h₂ => by
    rw [BitVec.toNat_add]
    simp
    omega
  simp only [inBox, hsize, Bool.and_eq_true, decide_eq_true_eq, ge_iff_le, BitVec.le_def, hpred x hx.1 hx.2,
    hsucc x hx.1 hx.2, hpred y hy.1 hy.2, hsucc y hy.1 hy.2, offset]
  omega

theorem toNat_column {draw pos : BitVec 10} (h₀ : 0 ≤ offset draw pos) (h₁ : offset draw pos ≤ 32) :
    ((draw - pos + 16).toNat : ℤ) = offset draw pos := by
  unfold offset at *
  rw [BitVec.toNat_add, BitVec.toNat_sub]
  simp
  omega

/-- The last row and the last column of the box show nothing. -/
theorem box_trim {u v : ℤ} {P : ℕ → ℕ → Prop} (hcol : ∀ j, ¬P 32 j) (hrow : ∀ i, ¬P i 32) :
    ((0 ≤ u ∧ u ≤ 32) ∧ 0 ≤ v ∧ v ≤ 32) ∧ P u.toNat v.toNat ↔
      (0 ≤ u ∧ u ≤ 31) ∧ (0 ≤ v ∧ v ≤ 31) ∧ P u.toNat v.toNat := by
  constructor
  · rintro ⟨⟨hu, hv⟩, h⟩
    have hu' : u.toNat ≠ 32 := fun he => hcol _ (he ▸ h)
    have hv' : v.toNat ≠ 32 := fun he => hrow _ (he ▸ h)
    exact ⟨by omega, by omega, h⟩
  · rintro ⟨hu, hv, h⟩
    exact ⟨⟨by omega, by omega⟩, h⟩

theorem toNat_spriteAddr (hsize : m.ballSize = 16) (hon : m.ballOn = true) (h₀ : 0 ≤ offset m.drawY m.ballY)
    (h₁ : offset m.drawY m.ballY ≤ 32) :
    m.spriteAddr.toNat = 96 + (32 * m.direction.toNat + (offset m.drawY m.ballY).toNat) := by
  have hdir := m.direction.isLt
  have hdraw := m.drawY.isLt
  have hball := m.ballY.isLt
  unfold offset at *
  simp only [spriteAddr, hon, if_true, tmp1, hsize, BitVec.extractLsb'_toNat, BitVec.toNat_setWidth,
    BitVec.toNat_add, BitVec.toNat_sub, BitVec.toNat_mul, BitVec.reduceToNat, Nat.shiftRight_zero]
  omega

theorem toNat_ghostAddr {g : Ghost} (hsize : m.ballSize = 16) (hon : m.ghostOn g = true)
    (h₀ : 0 ≤ offset m.drawY (m.ghosty g)) (h₁ : offset m.drawY (m.ghosty g) ≤ 32) :
    (m.ghostAddr g).toNat = (96 + (32 * 4 + (offset m.drawY (m.ghosty g)).toNat)) % 256 := by
  have hdraw := m.drawY.isLt
  have hghost := (m.ghosty g).isLt
  unfold offset at *
  simp only [ghostAddr, hon, if_true, hsize, BitVec.toNat_setWidth, BitVec.toNat_add, BitVec.toNat_sub,
    BitVec.reduceToNat]
  omega

theorem ballLit_iff (hsize : m.ballSize = 16) (h : OnScreen m.ballX m.ballY) : m.ballLit = true ↔
    (0 ≤ offset m.drawX m.ballX ∧ offset m.drawX m.ballX ≤ 31) ∧
    (0 ≤ offset m.drawY m.ballY ∧ offset m.drawY m.ballY ≤ 31) ∧
    (pacPicture m.direction (offset m.drawY m.ballY).toNat).getMsbD (offset m.drawX m.ballX).toNat = true := by
  have hbox := inBox_iff hsize h
  rw [← box_trim (P := fun i j => (pacPicture m.direction j).getMsbD i = true) (fun j => by simp)
    (fun i => by simp [pacPicture_end]), ballLit, Bool.and_eq_true, ballOn, ← hbox]
  refine and_congr_right ?_
  intro hon
  obtain ⟨hu, hv⟩ := hbox.mp hon
  have hrow := spriteData_listed (toNat_spriteAddr hsize hon hv.1 hv.2)
  have hcol := toNat_column hu.1 hu.2
  rw [hrow, hsize, ← pacPicture, ← hcol, Int.toNat_natCast]

theorem ghostLit_iff {g : Ghost} (hsize : m.ballSize = 16) (h : OnScreen (m.ghostx g) (m.ghosty g)) :
    m.ghostLit g = true ↔
    (0 ≤ offset m.drawX (m.ghostx g) ∧ offset m.drawX (m.ghostx g) ≤ 31) ∧
    (0 ≤ offset m.drawY (m.ghosty g) ∧ offset m.drawY (m.ghosty g) ≤ 31) ∧
    (ghostPicture (offset m.drawY (m.ghosty g)).toNat).getLsbD (offset m.drawX (m.ghostx g)).toNat = true := by
  have hbox := inBox_iff hsize h
  rw [← box_trim (P := fun i j => (ghostPicture j).getLsbD i = true) (fun j => by simp)
    (fun i => by simp [ghostPicture_end]), ghostLit, Bool.and_eq_true, ghostOn, ← hbox]
  refine and_congr_right ?_
  intro hon
  obtain ⟨hu, hv⟩ := hbox.mp hon
  have haddr := toNat_ghostAddr hsize hon hv.1 hv.2
  have hcol := toNat_column hu.1 hu.2
  have hrow : spriteData (m.ghostAddr g) = ghostPicture (offset m.drawY (m.ghosty g)).toNat := by
    by_cases hlast : offset m.drawY (m.ghosty g) = 32
    · -- The address after the last picture wraps to the padding.
      rw [hlast] at haddr ⊢
      rw [spriteData_padding (by omega)]
      exact ghostPicture_end.symm
    · rw [ghostPicture]
      exact spriteData_listed (by omega)
  rw [hrow, hsize, ← hcol, Int.toNat_natCast]

end Sprite

/-- The layers of Pac-Man and of the ghosts show their pictures, each in the 32 by 32 pixels around its
    figure, and nothing else. Pac-Man's rows count from the left, the ghosts' from the right. -/
theorem sprites_drawn_exactly (m : ColorMapper) (hsize : m.ballSize = 16) (hpac : OnScreen m.ballX m.ballY)
    (hghost : ∀ g, OnScreen (m.ghostx g) (m.ghosty g)) :
    (m.ballLit = true ↔
      (0 ≤ offset m.drawX m.ballX ∧ offset m.drawX m.ballX ≤ 31) ∧
      (0 ≤ offset m.drawY m.ballY ∧ offset m.drawY m.ballY ≤ 31) ∧
      (pacPicture m.direction (offset m.drawY m.ballY).toNat).getMsbD (offset m.drawX m.ballX).toNat = true) ∧
    ∀ g, m.ghostLit g = true ↔
      (0 ≤ offset m.drawX (m.ghostx g) ∧ offset m.drawX (m.ghostx g) ≤ 31) ∧
      (0 ≤ offset m.drawY (m.ghosty g) ∧ offset m.drawY (m.ghosty g) ≤ 31) ∧
      (ghostPicture (offset m.drawY (m.ghosty g)).toNat).getLsbD (offset m.drawX (m.ghostx g)).toNat = true :=
  ⟨ballLit_iff hsize hpac, fun g => ghostLit_iff hsize (hghost g)⟩

/-- A pixel of Pac-Man at the start of the game. -/
theorem sprites_drawn_exactly_reset : (Lab8.reset.colorInstance 0 155 160).ballLit = true :=
  (sprites_drawn_exactly (Lab8.reset.colorInstance 0 155 160) rfl ⟨by decide, by decide⟩
    fun g => by cases g <;> exact ⟨by decide, by decide⟩).1.mpr (by decide +kernel)

/-! ### Dots -/

/-- Pixel `(i, j)` of the picture of a dot, counted from the left and from above. -/
def dotPicture (i j : ℕ) : Bool := (dotSpriteRows.getD j 0).getMsbD i

/-- The dot of cell `(c, r)` is still here, and `(i, j)` is the pixel's place in the 4 by 4 pixels around
    it. -/
structure AtDot (m : ColorMapper) (c r i j : ℕ) : Prop where
  cell : IsCell c r
  here : m.currDotMap.getMsbD (cellBit c r) = true
  column : (i : ℤ) = m.drawX.toNat - (32 * c - 2)
  row : (j : ℤ) = m.drawY.toNat - (32 * r - 2)
  column_le : i ≤ 3
  row_le : j ≤ 3

section Dot
variable {m : ColorMapper}

/-- The grid of the dots is shifted by two pixels, and its first line is one cell off. -/
theorem toNat_shifted (draw : BitVec 10) : ((draw.setWidth 32 + 2 - 32).setWidth 10).toNat = (draw.toNat + 994) % 1024 := by
  have hdraw := draw.isLt
  simp only [BitVec.toNat_setWidth, BitVec.toNat_add, BitVec.toNat_sub, BitVec.reduceToNat]
  omega

theorem toNat_xp2 : m.xp2.toNat = (m.drawX.toNat + 994) % 1024 := toNat_shifted m.drawX

theorem toNat_yp2 : m.yp2.toNat = (m.drawY.toNat + 994) % 1024 := toNat_shifted m.drawY

theorem toNat_low_bits (v : BitVec 10) (k : ℕ) : (v.extractLsb' 0 k).toNat = v.toNat % 2 ^ k := by
  rw [BitVec.extractLsb'_toNat, Nat.shiftRight_zero]

theorem dotOn_iff : m.dotOn = true ↔ ∃ c r i j, AtDot m c r i j := by
  simp only [dotOn, Bool.and_eq_true, decide_eq_true_eq, gt_iff_lt, toNat_low_bits, toNat_xp2, toNat_yp2,
    toNat_high_bits (show 10 = 5 + 5 from rfl)]
  constructor
  · rintro ⟨⟨⟨⟨⟨⟨hx, hy⟩, hx'⟩, hy'⟩, hhere⟩, hi⟩, hj⟩
    refine ⟨(m.drawX.toNat + 2) / 32, (m.drawY.toNat + 2) / 32, (m.drawX.toNat + 2) % 32,
      (m.drawY.toNat + 2) % 32, ⟨by omega, by omega, by omega, by omega⟩, ?_, by omega, by omega, by omega, by omega⟩
    convert hhere using 2
    unfold cellBit
    omega
  · rintro ⟨c, r, i, j, ⟨hc₁, hc₂, hr₁, hr₂⟩, hhere, hi, hj, hi', hj'⟩
    refine ⟨⟨⟨⟨⟨⟨by omega, by omega⟩, by omega⟩, by omega⟩, ?_⟩, by omega⟩, by omega⟩
    convert hhere using 2
    unfold cellBit
    omega

/-- The memory holds the picture behind three rows of padding, and shows two columns of four. -/
theorem dotSpriteData_iff : ∀ j i : Fin 4,
    (dotSpriteData (BitVec.ofNat 3 j)).getLsbD i = true ↔ (i : ℕ) = 1 ∧ (j : ℕ) = 3 := by
  decide +kernel

theorem dotLit_iff : m.dotLit = true ↔ ∃ c r, AtDot m c r 1 3 := by
  have hlit : ∀ {c r i j}, AtDot m c r i j → m.dotOn = true →
      ((dotSpriteData m.dotAddr).getLsbD (m.xp2.extractLsb' 0 2).toNat = true ↔ i = 1 ∧ j = 3) := by
    rintro c r i j ⟨⟨hc₁, hc₂, hr₁, hr₂⟩, -, hi, hj, hi', hj'⟩ hon
    have haddr : m.dotAddr = BitVec.ofNat 3 j := by
      rw [← BitVec.toNat_inj, dotAddr, if_pos hon, toNat_low_bits, toNat_yp2, BitVec.toNat_ofNat]
      omega
    have hcol : (m.xp2.extractLsb' 0 2).toNat = i := by
      rw [toNat_low_bits, toNat_xp2]
      omega
    rw [haddr, hcol]
    exact dotSpriteData_iff ⟨j, by omega⟩ ⟨i, by omega⟩
  rw [dotLit, Bool.and_eq_true]
  constructor
  · rintro ⟨hon, hbit⟩
    obtain ⟨c, r, i, j, h⟩ := dotOn_iff.mp hon
    obtain ⟨rfl, rfl⟩ := (hlit h hon).mp hbit
    exact ⟨c, r, h⟩
  · rintro ⟨c, r, h⟩
    have hon := dotOn_iff.mpr ⟨c, r, 1, 3, h⟩
    exact ⟨hon, (hlit h hon).mpr ⟨rfl, rfl⟩⟩

end Dot

/-- The layer of the dots is lit exactly at the lit pixels of the pictures of the dots that are still here. -/
def DotsAsPictured (m : ColorMapper) : Prop :=
  m.dotLit = true ↔ ∃ c r i j, AtDot m c r i j ∧ dotPicture i j = true

/-- Of each dot one pixel is drawn: the layer is as pictured except at the eleven other lit pixels of the
    pictures. -/
theorem dots_as_pictured_iff (m : ColorMapper) :
    DotsAsPictured m ↔ ∀ c r i j, AtDot m c r i j → dotPicture i j = true → i = 1 ∧ j = 3 := by
  have hpicture : dotPicture 1 3 = true := by decide
  rw [DotsAsPictured, dotLit_iff]
  constructor
  · intro h c r i j hat hpix
    obtain ⟨c', r', hat'⟩ := h.mpr ⟨c, r, i, j, hat, hpix⟩
    have := hat.column
    have := hat.row
    have := hat'.column
    have := hat'.row
    obtain ⟨-, -, -, -, hi, hj⟩ := hat
    omega
  · intro h
    constructor
    · rintro ⟨c, r, hat⟩
      exact ⟨c, r, 1, 3, hat, hpicture⟩
    · rintro ⟨c, r, i, j, hat, hpix⟩
      obtain ⟨rfl, rfl⟩ := h c r i j hat hpix
      exact ⟨c, r, hat⟩

/-- In the middle of the dot of cell `(5, 6)`, at the start of level 1: no sprite is there, and no dot. -/
theorem dot_middle_dark :
    let m := Lab8.reset.colorInstance 0 160 192
    m.ballLit = false ∧ (∀ g, m.ghostLit g = false) ∧ ¬DotsAsPictured m := by
  intro m
  have hat : AtDot m 5 6 2 2 :=
    ⟨⟨by decide, by decide, by decide, by decide⟩, by decide +kernel, by decide, by decide, by decide, by decide⟩
  refine ⟨by decide +kernel, fun g => by cases g <;> decide +kernel, ?_⟩
  intro h
  have := (dots_as_pictured_iff _).mp h 5 6 2 2 hat (by decide)
  omega

/-! ### Walls -/

/-- What stands in a row of the memory of the walls: padding, or row `n` of the picture of a level. -/
inductive WallRow where
  | padding
  | level1 (n : ℕ)
  | level2 (n : ℕ)
  deriving DecidableEq

def WallRow.content : WallRow → BitVec 416
  | padding => 0
  | level1 n => level1Rows.getD n 0
  | level2 n => level2Rows.getD n 0

/-- The address of the first row of level 1; the last row of all has the address 1023. -/
def level1Start : ℕ := 2 ^ 10 - (level1Rows ++ level2Rows).length

def level2Start : ℕ := 2 ^ 10 - level2Rows.length

def wallRowAt (addr : BitVec 10) : WallRow :=
  if addr.toNat < level1Start then .padding
  else if addr.toNat < level2Start then .level1 (addr.toNat - level1Start)
  else .level2 (addr.toNat - level2Start)

theorem level1Rows_length : level1Rows.length = 402 := by decide +kernel

theorem level2Rows_length : level2Rows.length = 402 := by decide +kernel

theorem level1Start_eq : level1Start = 220 := by
  simp only [level1Start, List.length_append, level1Rows_length, level2Rows_length, Nat.reducePow, Nat.reduceAdd, Nat.reduceSub]

theorem level2Start_eq : level2Start = 622 := by
  simp only [level2Start, level2Rows_length, Nat.reducePow, Nat.reduceSub]

theorem wallData_eq (addr : BitVec 10) : wallData addr = (wallRowAt addr).content := by
  have hlt := addr.isLt
  have hlen : (level1Rows ++ level2Rows).length = 804 := by
    rw [List.length_append, level1Rows_length, level2Rows_length]
  unfold wallData wallRowAt
  rw [level1Start_eq, level2Start_eq]
  by_cases hpad : addr.toNat < 220
  · rw [if_pos hpad]
    exact rom_padding (by omega)
  rw [if_neg hpad]
  have haddr : 2 ^ 10 - (level1Rows ++ level2Rows).length + (addr.toNat - 220) = addr.toNat := by omega
  have hrow : rom (2 ^ 10) (level1Rows ++ level2Rows) (2 ^ 10 - (level1Rows ++ level2Rows).length + (addr.toNat - 220)) =
      (level1Rows ++ level2Rows).getD (addr.toNat - 220) 0 := rom_listed (by omega) (by omega)
  rw [haddr] at hrow
  rw [hrow]
  by_cases hfirst : addr.toNat < 622
  · rw [if_pos hfirst, List.getD_append _ _ _ _ (by rw [level1Rows_length]; omega)]
    rfl
  · rw [if_neg hfirst, List.getD_append_right _ _ _ _ (by rw [level1Rows_length]; omega), level1Rows_length,
      Nat.sub_sub]
    rfl

/-- Row `n` of those listed under the comment of a level. -/
def listedRow (level : BitVec 2) (n : ℕ) : WallRow := if level = 0b01 then .level1 n else .level2 n

theorem wallRow_level1 {m : ColorMapper} (hon : m.wallOn = true) (hlevel : m.level = 0b01) :
    wallRowAt m.wallAddr = .level1 m.drawY.toNat := by
  have hy : m.drawY.toNat ≤ 400 := by
    rw [wallOn, Bool.and_eq_true, decide_eq_true_iff, decide_eq_true_iff] at hon
    exact hon.2
  have haddr : m.wallAddr.toNat = m.drawY.toNat + 220 := by
    simp only [wallAddr, hon, hlevel, if_true, BitVec.toNat_setWidth, BitVec.toNat_add, BitVec.reduceToNat]
    omega
  rw [wallRowAt, level1Start_eq, level2Start_eq, haddr, if_neg (by omega), if_pos (by omega), Nat.add_sub_cancel]

theorem wallRow_level2 {m : ColorMapper} (hon : m.wallOn = true) (hlevel : m.level = 0b10) :
    wallRowAt m.wallAddr = if m.drawY.toNat < 400 then .level2 (m.drawY.toNat + 2) else .padding := by
  have hy : m.drawY.toNat ≤ 400 := by
    rw [wallOn, Bool.and_eq_true, decide_eq_true_iff, decide_eq_true_iff] at hon
    exact hon.2
  have haddr : m.wallAddr.toNat = (m.drawY.toNat + 624) % 1024 := by
    simp [wallAddr, hon, hlevel, BitVec.toNat_setWidth, BitVec.toNat_add]
  unfold wallRowAt
  rw [level1Start_eq, level2Start_eq, haddr]
  by_cases hlast : m.drawY.toNat < 400
  · rw [if_neg (by omega), if_neg (by omega), if_pos hlast]
    exact congrArg WallRow.level2 (by omega)
  · rw [if_pos (by omega), if_neg hlast]

/-- In the area of the walls each scan line shows its row of the level's picture in level 1 only. Level 2 shows
    the row two below it, and padding on the last line. -/
theorem wall_row_iff (m : ColorMapper) (hx : m.drawX.toNat < 416) (hy : m.drawY.toNat ≤ 400)
    (hlevel : m.level = 0b01 ∨ m.level = 0b10) :
    wallRowAt m.wallAddr = listedRow m.level m.drawY.toNat ↔ m.level = 0b01 := by
  have hon : m.wallOn = true := by
    rw [wallOn, Bool.and_eq_true]
    exact ⟨decide_eq_true hx, decide_eq_true hy⟩
  rcases hlevel with hlevel | hlevel
  · rw [wallRow_level1 hon hlevel, listedRow, if_pos hlevel]
    exact iff_of_true rfl hlevel
  · have hnot : m.level ≠ 0b01 := by
      rw [hlevel]
      decide
    rw [wallRow_level2 hon hlevel, listedRow, if_neg hnot]
    refine iff_of_false ?_ hnot
    intro h
    split at h
    next => exact absurd (WallRow.level2.inj h) (by omega)
    next => cases h

/-- The first line of level 1. -/
theorem wall_row_level1 : wallRowAt (Lab8.reset.colorInstance 0 0 0).wallAddr = .level1 0 :=
  (wall_row_iff (Lab8.reset.colorInstance 0 0 0) (by decide) (by decide) (Or.inl rfl)).mpr rfl

/-- In level 2 the last line reads a row of padding, which is empty, in place of row 400 of the picture, one of the rows of
    the lower wall. -/
theorem wall_row_level2_padding :
    let s : Lab8 := { Lab8.reset with control := { state := .level2, resetAll := false } }
    let m := s.colorInstance 0 208 400
    m.level = 0b10 ∧ wallRowAt m.wallAddr ≠ listedRow m.level m.drawY.toNat ∧
      wallData m.wallAddr ≠ (listedRow m.level m.drawY.toNat).content := by
  intro s m
  have hrow : wallRowAt m.wallAddr = .padding := wallRow_level2 (by decide) rfl
  have hlisted : listedRow m.level m.drawY.toNat = .level2 400 := rfl
  rw [wallData_eq, hrow, hlisted]
  exact ⟨rfl, by decide, by decide +kernel⟩

end ColorMapper

end Pacman
