import Pacman.Lab8
import Pacman.SpriteData
import Pacman.WallData

/-! The picture (`Color_Mapper.sv`): which layers are lit at a pixel, and the colour that follows. A sum with an
    unsized literal is 32 bits wide and is cut where it is assigned; a sum of ports only is 10 bits wide. A
    bit that is selected out of range is not 1. -/

namespace Pacman

/-- The input ports of `color_mapper`; the ghosts' ports (`oghostx`, `bghostx`, `rghostx`, `pghostx` and the
    same with `y`) by ghost. Bit 0 of `currDotMap` is the most significant one. -/
structure ColorMapper where
  ballX : BitVec 10
  ballY : BitVec 10
  drawX : BitVec 10
  drawY : BitVec 10
  ballSize : BitVec 10
  ghostx : Ghost → BitVec 10
  ghosty : Ghost → BitVec 10
  currDotMap : BitVec 144
  direction : BitVec 2
  level : BitVec 2

namespace ColorMapper

variable (m : ColorMapper)

/-- The bounding test of a sprite at `(x, y)`. -/
def inBox (x y : BitVec 10) : Bool :=
  m.drawX ≥ x - m.ballSize && m.drawX ≤ x + m.ballSize && m.drawY ≥ y - m.ballSize && m.drawY ≤ y + m.ballSize

/-! ### Pac-Man -/

def tmp1 : BitVec 10 :=
  (m.drawY.setWidth 32 - m.ballY.setWidth 32 + m.ballSize.setWidth 32 + 96 + 32 * m.direction.setWidth 32).setWidth 10

def ballOn : Bool := m.inBox m.ballX m.ballY

def spriteAddr : BitVec 8 := if m.ballOn then m.tmp1.extractLsb' 0 8 else 0

/-- `sprite_data` counts its bits from the left. -/
def ballLit : Bool := m.ballOn && (spriteData m.spriteAddr).getMsbD (m.drawX - m.ballX + m.ballSize).toNat

/-! ### The ghosts -/

/-- `oghost_on`, `bghost_on`, `rghost_on` and `pghost_on`. -/
def ghostOn (g : Ghost) : Bool := m.inBox (m.ghostx g) (m.ghosty g)

def ghostAddr (g : Ghost) : BitVec 8 :=
  if m.ghostOn g then
    (m.drawY.setWidth 32 - (m.ghosty g).setWidth 32 + m.ballSize.setWidth 32 + 224).setWidth 8
  else 0

/-- `oghost_data` and the others count their bits from the right. -/
def ghostLit (g : Ghost) : Bool :=
  m.ghostOn g && (spriteData (m.ghostAddr g)).getLsbD (m.drawX - m.ghostx g + m.ballSize).toNat

/-! ### The dots -/

def xp2 : BitVec 10 := (m.drawX.setWidth 32 + 2 - 32).setWidth 10

def yp2 : BitVec 10 := (m.drawY.setWidth 32 + 2 - 32).setWidth 10

def dotOn : Bool :=
  m.drawX.toNat > 16 && m.drawY.toNat > 16 && m.drawX.toNat < 410 && m.drawY.toNat ≤ 400 &&
    m.currDotMap.getMsbD ((m.yp2.extractLsb' 5 5).toNat * 12 + (m.xp2.extractLsb' 5 5).toNat) &&
    (m.xp2.extractLsb' 0 5).toNat ≤ 3 && (m.yp2.extractLsb' 0 5).toNat ≤ 3

def dotAddr : BitVec 3 := if m.dotOn then m.yp2.extractLsb' 0 3 else 0b100

def dotLit : Bool := m.dotOn && (dotSpriteData m.dotAddr).getLsbD (m.xp2.extractLsb' 0 2).toNat

/-! ### The walls -/

def wallOn : Bool := m.drawX.toNat < 416 && m.drawY.toNat ≤ 400

def wallAddr : BitVec 10 :=
  if m.wallOn then
    if m.level = 0b01 then (m.drawY.setWidth 32 + 220).setWidth 10 else (m.drawY.setWidth 32 + 224 + 400).setWidth 10
  else 0

def wallLit : Bool := m.wallOn && (wallData m.wallAddr).getLsbD m.drawX.toNat

/-! ### The colour -/

/-- `Red`, `Green` and `Blue`. -/
structure Color where
  red : BitVec 8
  green : BitVec 8
  blue : BitVec 8
  deriving DecidableEq

/-- The colour of the first layer that is lit. -/
def color : Color :=
  if m.ballLit then { red := 0xff, green := 0xff, blue := 0x00 }
  else if m.ghostLit .orange then { red := 0xff, green := 0xb8, blue := 0x51 }
  else if m.ghostLit .blue then { red := 0x01, green := 0xff, blue := 0xff }
  else if m.ghostLit .red then { red := 0xff, green := 0x5f, blue := 0x5f }
  else if m.ghostLit .pink then { red := 0xff, green := 0xb8, blue := 0xff }
  else if m.dotLit then { red := 0xff, green := 0xff, blue := 0x00 }
  else if m.wallLit then { red := 0x00, green := 0x00, blue := 0xff }
  else { red := 0x00, green := 0x00, blue := 0x00 }

end ColorMapper

/-- `color_instance`: the picture of a state of the game. -/
def Lab8.colorInstance (s : Lab8) (keycode : BitVec 16) (drawX drawY : BitVec 10) : ColorMapper where
  ballX := s.pac.pacXPos
  ballY := s.pac.pacYPos
  drawX := drawX
  drawY := drawY
  ballSize := 16
  ghostx := fun g => (s.ghosts g).ghostXPos
  ghosty := fun g => (s.ghosts g).ghostYPos
  currDotMap := s.currDotMap
  direction := s.pac.direction s.walls keycode
  level := s.control.level

end Pacman
