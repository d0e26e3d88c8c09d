import Pacman.Lib.Bits

/-! The pictures of Pac-Man, of a ghost (`spriteData.sv`) and of a dot (`dotSpriteData.sv`). A set bit is a lit
    pixel. The listings do not fill their memories. -/

namespace Pacman
open Bits

/-- The rows of the five pictures, 32 each, as `spriteData` lists them. -/
def spriteRows : List (BitVec 32) := [
  -- Pacman facing left
  0b00000000000000000000000000000000,
  0b00000000000000000000000000000000,
  0b00000000000000000000000000000000,
  0b00000000000000000000000000000000,
  0b00000000000000000000000000000000,
  0b00000000000000000000000000000000,
  0b00000000000001111111000000000000,
  0b00000000000111111111111000000000,
  0b00000000011111111111111110000000,
  0b00000000111111111111111111000000,
  0b00000011111111111111111111100000,
  0b00000111111111111111111110000000,
  0b00001111111111111111111000000000,
  0b00001111111111111111110000000000,
  0b00001111111111111111000000000000,
  0b00011111111111111000000000000000,
  0b00011111111111110000000000000000,
  0b00011111111111111000000000000000,
  0b00001111111111111111000000000000,
  0b00001111111111111111110000000000,
  0b00001111111111111111111000000000,
  0b00000111111111111111111110000000,
  0b00000011111111111111111111100000,
  0b00000000111111111111111111000000,
  0b00000000011111111111111110000000,
  0b00000000000111111111111000000000,
  0b00000000000001111111000000000000,
  0b00000000000000000000000000000000,
  0b00000000000000000000000000000000,
  0b00000000000000000000000000000000,
  0b00000000000000000000000000000000,
  0b00000000000000000000000000000000,
  -- Pacman facing left
  0b00000000000000000000000000000000,
  0b00000000000000000000000000000000,
  0b00000000000000000000000000000000,
  0b00000000000000000000000000000000,
  0b00000000000000000000000000000000,
  0b00000000000000000000000000000000,
  0b00000000000011111110000000000000,
  0b00000000011111111111100000000000,
  0b00000001111111111111111000000000,
  0b00000011111111111111111100000000,
  0b00000111111111111111111111000000,
  0b00000001111111111111111111100000,
  0b00000000011111111111111111110000,
  0b00000000001111111111111111110000,
  0b00000000000011111111111111110000,
  0b00000000000000011111111111111000,
  0b00000000000000001111111111111000,
  0b00000000000000011111111111111000,
  0b00000000000011111111111111110000,
  0b00000000001111111111111111110000,
  0b00000000011111111111111111110000,
  0b00000001111111111111111111100000,
  0b00000111111111111111111111000000,
  0b00000011111111111111111100000000,
  0b00000001111111111111111000000000,
  0b00000000011111111111100000000000,
  0b00000000000011111110000000000000,
  0b00000000000000000000000000000000,
  0b00000000000000000000000000000000,
  0b00000000000000000000000000000000,
  0b00000000000000000000000000000000,
  0b00000000000000000000000000000000,
  -- Pacman facing up
  0b00000000000000000000000000000000,
  0b00000000000000000000000000000000,
  0b00000000000000000000000000000000,
  0b00000000000000000000000000000000,
  0b00000000000000000000000000000000,
  0b00000000000000000000000000000000,
  0b00000000000100000000001000000000,
  0b00000000011100000000001110000000,
  0b00000000111100000000001111000000,
  0b00000011111100000000001111100000,
  0b00000111111110000000011111100000,
  0b00001111111110000000011111110000,
  0b00001111111111000000111111110000,
  0b00001111111111000000111111110000,
  0b00011111111111100001111111110000,
  0b00011111111111100011111111110000,
  0b00011111111111110111111111111000,
  0b00001111111111111111111111110000,
  0b00001111111111111111111111110000,
  0b00001111111111111111111111110000,
  0b00000111111111111111111111100000,
  0b00000011111111111111111111100000,
  0b00000000111111111111111111000000,
  0b00000000011111111111111110000000,
  0b00000000000111111111111000000000,
  0b00000000000001111111000000000000,
  0b00000000000000000000000000000000,
  0b00000000000000000000000000000000,
  0b00000000000000000000000000000000,
  0b00000000000000000000000000000000,
  0b00000000000000000000000000000000,
  0b00000000000000000000000000000000,
  -- Pacman facing down
  0b00000000000000000000000000000000,
  0b00000000000000000000000000000000,
  0b00000000000000000000000000000000,
  0b00000000000000000000000000000000,
  0b00000000000000000000000000000000,
  0b00000000000000000000000000000000,
  0b00000000000001111111000000000000,
  0b00000000000111111111111000000000,
  0b00000000011111111111111110000000,
  0b00000000111111111111111111000000,
  0b00000011111111111111111111100000,
  0b00000111111111111111111111100000,
  0b00001111111111111111111111110000,
  0b00001111111111111111111111110000,
  0b00001111111111111111111111110000,
  0b00011111111111111011111111111000,
  0b00011111111111110001111111111000,
  0b00011111111111100001111111111000,
  0b00001111111111000000111111110000,
  0b00001111111111000000111111110000,
  0b00001111111110000000011111110000,
  0b00000111111110000000011111100000,
  0b00000011111100000000001111100000,
  0b00000000111100000000001111000000,
  0b00000000011100000000001110000000,
  0b00000000000100000000001000000000,
  0b00000000000000000000000000000000,
  0b00000000000000000000000000000000,
  0b00000000000000000000000000000000,
  0b00000000000000000000000000000000,
  0b00000000000000000000000000000000,
  0b00000000000000000000000000000000,
  -- Ghost sprite
  0b00000000000000000000000000000000,
  0b00000000000000000000000000000000,
  0b00000000000000000000000000000000,
  0b00000000000000000000000000000000,
  0b00000000000000000000000000000000,
  0b00000000000111111111110000000000,
  0b00000000011111111111111000000000,
  0b00000000111111111111111100000000,
  0b00000001111111111111111110000000,
  0b00000011111111111111111111000000,
  0b00000111111111111111111111100000,
  0b00000111110011111111100111100000,
  0b00001111100001111111000011110000,
  0b00001111100001111111000011110000,
  0b00001111100001111111000011110000,
  0b00011111110011111111100111111000,
  0b00011111111111111111111111111000,
  0b00011111111111111111111111111000,
  0b00011111111111111111111111111000,
  0b00011111111111111111111111111000,
  0b00011111111111111111111111111000,
  0b00011110111111110111111110111000,
  0b00011100011111100011111100011000,
  0b00011100001111100001111000011000,
  0b00011000000111000000111000011000,
  0b00010000000010000000010000001000,
  0b00010000000010000000010000001000,
  0b00000000000000000000000000000000,
  0b00000000000000000000000000000000,
  0b00000000000000000000000000000000,
  0b00000000000000000000000000000000,
  0b00000000000000000000000000000000]

def spriteData (addr : BitVec 8) : BitVec 32 := rom (2 ^ 8) spriteRows addr.toNat

/-- The rows that `dotSpriteData` lists: those of the dot, and an empty one. -/
def dotSpriteRows : List (BitVec 4) := [
  0b0110,
  0b1111,
  0b1111,
  0b0110,
  0b0000]

/-- The output is two bits wide, and takes the low bits of a row. -/
def dotSpriteData (addr : BitVec 3) : BitVec 2 := (rom (2 ^ 3) dotSpriteRows addr.toNat).setWidth 2

end Pacman
