import Pacman.Lib.Bits

/-! The pictures of the walls (`lvl1sprite.sv`): 402 rows of 416 pixels for each level. Equal rows that follow
    each other are listed once, with their number. -/

namespace Pacman
open Bits

/-- The rows that the runs `(number, row)` stand for. -/
def expand {k : ℕ} (runs : List (ℕ × BitVec k)) : List (BitVec k) := runs.flatMap fun r => List.replicate r.1 r.2

def level1Runs : List (ℕ × BitVec 416) := [
  (14, 0x00000000000000000000000000000000000000000000000000000000000000000000000000000000000000000000000000000000),
  (4, 0x0003ffffffffffffffffffffffffffffffffffffffffffffffffffffffffffffffffffffffffffffffffffffffffffffffffc000),
  (28, 0x0003c0000003c000000000000000000000000000000000000003c000000000000000000000000000000000000003c0000003c000),
  (4, 0x0003c000000000000000ffffffff00000000ffffffff0000000000000000ffffffff00000000ffffffff0000000000000003c000),
  (28, 0x0003c0000003c0000003c0000003c0000003c0000003c0000003c0000003c0000003c0000003c0000003c0000003c0000003c000),
  (4, 0x0003c000000000000000ffffffff00000000ffffffff0000000000000000ffffffff00000000ffffffff0000000000000003c000),
  (28, 0x0003c0000003c0000000000000000000000000000000000000000000000000000000000000000000000000000003c0000003c000),
  (4, 0x0003c000000000000000ffffffff0000000000000000ffffffffffffffff0000000000000000ffffffff0000000000000003c000),
  (28, 0x0003c0000003c00000000000000000000003c000000000000003c000000000000003c00000000000000000000003c0000003c000),
  (4, 0x0003c0000000ffffffffffffffff00000000ffffffff0000000000000000ffffffff00000000ffffffffffffffff00000003c000),
  (28, 0x0003c0000003c000000000000003c0000003c0000000000000000000000000000003c0000003c000000000000003c0000003c000),
  (4, 0x0003c0000000ffffffffffffffff0000000000000000ffffffffffffffff0000000000000000ffffffffffffffff00000003c000),
  (28, 0x0003c0000003c0000000000000000000000000000003c0000003c0000003c0000000000000000000000000000003c0000003c000),
  (4, 0x0003c0000000ffffffffffffffff0000000000000000ffffffffffffffff0000000000000000ffffffffffffffff00000003c000),
  (28, 0x0003c0000003c000000000000003c0000003c0000003c0000003c0000003c0000003c0000003c000000000000003c0000003c000),
  (4, 0x0003c000000000000000000000000000000000000000ffffffffffffffff0000000000000000000000000000000000000003c000),
  (28, 0x0003c0000003c000000000000003c0000003c0000000000000000000000000000003c0000003c000000000000003c0000003c000),
  (4, 0x0003c0000000ffffffffffffffff0000000000000000ffffffffffffffff0000000000000000ffffffffffffffff00000003c000),
  (28, 0x0003c0000003c000000000000000000000000000000000000003c000000000000000000000000000000000000003c0000003c000),
  (4, 0x0003c000000000000000ffffffff00000000ffffffff0000000000000000ffffffff00000000ffffffff0000000000000003c000),
  (28, 0x0003c0000003c000000000000003c00000000000000000000000000000000000000000000003c000000000000003c0000003c000),
  (4, 0x0003c0000000ffffffff000000000000000000000000ffffffffffffffff000000000000000000000000ffffffff00000003c000),
  (28, 0x0003c0000003c00000000000000000000003c000000000000003c000000000000003c00000000000000000000003c0000003c000),
  (4, 0x0003c000000000000000ffffffffffffffffffffffff0000000000000000ffffffffffffffffffffffff0000000000000003c000),
  (28, 0x0003c0000003c0000000000000000000000000000000000000000000000000000000000000000000000000000003c0000003c000),
  (4, 0x0003ffffffffffffffffffffffffffffffffffffffffffffffffffffffffffffffffffffffffffffffffffffffffffffffffc000)]

def level2Runs : List (ℕ × BitVec 416) := [
  (14, 0x00000000000000000000000000000000000000000000000000000000000000000000000000000000000000000000000000000000),
  (4, 0x0003ffffffffffffffffffffffffffffffffffffffffffffffffffffffffffffffffffffffffffffffffffffffffffffffffc000),
  (28, 0x0003c00000000000000000000000000000000000000000000003c00000000000000000000000000000000000000000000003c000),
  (4, 0x0003c0000000ffffffff00000000ffffffffffffffff0000000000000000ffffffffffffffff00000000ffffffff00000003c000),
  (28, 0x0003c0000003c0000003c0000003c000000000000003c0000003c0000003c000000000000003c0000003c0000003c0000003c000),
  (4, 0x0003c0000000ffffffff00000000ffffffffffffffff0000000000000000ffffffffffffffff00000000ffffffff00000003c000),
  (28, 0x0003c00000000000000000000000000000000000000000000000000000000000000000000000000000000000000000000003c000),
  (4, 0x0003c0000000ffffffffffffffff0000000000000000ffffffffffffffff0000000000000000ffffffffffffffff00000003c000),
  (28, 0x0003c0000000000000000000000000000003c000000000000003c000000000000003c0000000000000000000000000000003c000),
  (4, 0x0003ffffffffffffffffffffffff00000000ffffffff0000000000000000ffffffff00000000ffffffffffffffffffffffffc000),
  (28, 0x0003c00000000000000000000003c0000003c0000000000000000000000000000003c0000003c00000000000000000000003c000),
  (4, 0x0003ffffffffffffffffffffffff0000000000000000ffffffffffffffff0000000000000000ffffffffffffffffffffffffc000),
  (28, 0x0003c000000000000000000000000000000000000003c0000003c0000003c000000000000000000000000000000000000003c000),
  (4, 0x0003ffffffffffffffffffffffff0000000000000000ffffffffffffffff0000000000000000ffffffffffffffffffffffffc000),
  (28, 0x0003c00000000000000000000003c0000003c0000003c0000003c0000003c0000003c0000003c00000000000000000000003c000),
  (4, 0x0003c000000000000000000000000000000000000000ffffffffffffffff0000000000000000000000000000000000000003c000),
  (28, 0x0003c00000000000000000000003c0000003c0000000000000000000000000000003c0000003c00000000000000000000003c000),
  (4, 0x0003ffffffffffffffffffffffff0000000000000000ffffffffffffffff0000000000000000ffffffffffffffffffffffffc000),
  (28, 0x0003c00000000000000000000000000000000000000000000003c00000000000000000000000000000000000000000000003c000),
  (4, 0x0003c0000000ffffffffffffffff00000000ffffffff0000000000000000ffffffff00000000ffffffffffffffff00000003c000),
  (28, 0x0003c00000000000000000000003c00000000000000000000000000000000000000000000003c00000000000000000000003c000),
  (4, 0x0003ffffffffffffffff000000000000000000000000ffffffffffffffff000000000000000000000000ffffffffffffffffc000),
  (28, 0x0003c0000000000000000000000000000003c000000000000003c000000000000003c0000000000000000000000000000003c000),
  (4, 0x0003c0000000ffffffffffffffffffffffffffffffff0000000000000000ffffffffffffffffffffffffffffffff00000003c000),
  (28, 0x0003c00000000000000000000000000000000000000000000000000000000000000000000000000000000000000000000003c000),
  (4, 0x0003ffffffffffffffffffffffffffffffffffffffffffffffffffffffffffffffffffffffffffffffffffffffffffffffffc000)]

/-- The rows under the comment "Level 1". -/
def level1Rows : List (BitVec 416) := expand level1Runs

/-- The rows under the comment "Level 2". -/
def level2Rows : List (BitVec 416) := expand level2Runs

def wallData (addr : BitVec 10) : BitVec 416 := rom (2 ^ 10) (level1Rows ++ level2Rows) addr.toNat

end Pacman
