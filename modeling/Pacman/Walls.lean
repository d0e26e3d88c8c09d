import Pacman.Lib.Bits

/-! The wall maps (`get_walls.sv`) and the lookup of the open sides of a cell (`check_walls.sv`,
    `check_walls_row.sv`). A set wall bit is a wall. Index 0 of a map is its most significant bit, so
    that the rows of the source listings read from left to right. -/

namespace Pacman
open Bits

/-- A wall map: 13 rows of 12 horizontal walls, and 12 rows of 13 vertical walls. -/
structure Walls where
  horizWalls : BitVec 156
  vertWalls : BitVec 156
  deriving DecidableEq

/-- Which sides of a cell are open. -/
structure Turns where
  turnL : Bool
  turnR : Bool
  turnU : Bool
  turnD : Bool
  deriving DecidableEq

/-- The open sides of column `xpos` of one row. Left of the maze only right is open, right of it only
    left. -/
def checkWallsRow (vertWalls : BitVec 13) (belowWalls aboveWalls : BitVec 12) (xpos : BitVec 5) : Turns :=
  let sides (below above left right : ℕ) : Turns :=
    { turnD := !belowWalls.getMsbD below
      turnU := !aboveWalls.getMsbD above
      turnL := !vertWalls.getMsbD left
      turnR := !vertWalls.getMsbD right }
  match xpos.toNat with
  | 0x00 => { turnD := false, turnU := false, turnL := false, turnR := true }
  | 0x01 => sides 0 0 0 1
  | 0x02 => sides 1 1 1 2
  | 0x03 => sides 2 2 2 3
  | 0x04 => sides 3 3 3 4
  | 0x05 => sides 4 4 4 5
  | 0x06 => sides 5 5 5 6
  | 0x07 => sides 6 6 6 7
  | 0x08 => sides 7 7 7 8
  | 0x09 => sides 8 8 8 9
  | 0x0a => sides 9 9 9 10
  | 0x0b => sides 10 10 10 11
  | 0x0c => sides 11 11 11 12
  | _ => { turnD := false, turnU := false, turnL := true, turnR := false }

/-- The open sides of cell `(xpos, ypos)`: the row instance that `ypos` selects. Above the maze only
    down is open, below it only up. -/
def checkWalls (w : Walls) (xpos ypos : BitVec 5) : Turns :=
  let v := w.vertWalls
  let h := w.horizWalls
  match ypos.toNat with
  | 0x00 => { turnD := true, turnU := false, turnR := false, turnL := false }
  | 0x01 => checkWallsRow (slice v 0 12) (slice h 12 23) (slice h 0 11) xpos
  | 0x02 => checkWallsRow (slice v 13 25) (slice h 24 35) (slice h 12 23) xpos
  | 0x03 => checkWallsRow (slice v 26 38) (slice h 36 47) (slice h 24 35) xpos
  | 0x04 => checkWallsRow (slice v 39 51) (slice h 48 59) (slice h 36 47) xpos
  | 0x05 => checkWallsRow (slice v 52 64) (slice h 60 71) (slice h 48 59) xpos
  | 0x06 => checkWallsRow (slice v 65 77) (slice h 72 83) (slice h 60 71) xpos
  | 0x07 => checkWallsRow (slice v 78 90) (slice h 84 95) (slice h 72 83) xpos
  | 0x08 => checkWallsRow (slice v 91 103) (slice h 96 107) (slice h 84 95) xpos
  | 0x09 => checkWallsRow (slice v 104 116) (slice h 108 119) (slice h 96 107) xpos
  | 0x0a => checkWallsRow (slice v 117 129) (slice h 120 131) (slice h 108 119) xpos
  | 0x0b => checkWallsRow (slice v 130 142) (slice h 132 143) (slice h 120 131) xpos
  | 0x0c => checkWallsRow (slice v 143 155) (slice h 144 155) (slice h 132 143) xpos
  | _ => { turnD := false, turnU := true, turnR := false, turnL := false }

/-! ### The maps of `get_walls` -/

/-- The map between levels: every side is closed but those inside the pen. -/
def defaultVert : BitVec 156 :=
  concat (k := 13) 156 [0x1fff, 0x1fff, 0x1fff, 0x1fff, 0x1fff, 0x1fbf,
    0x1fbf, 0x1fff, 0x1fff, 0x1fff, 0x1fff, 0x1fff]

def defaultHoriz : BitVec 156 :=
  concat (k := 12) 156 [0xfff, 0xfff, 0xfff, 0xfff, 0xfff, 0xfff,
    0xf9f, 0xfff, 0xfff, 0xfff, 0xfff, 0xfff, 0xfff]

def lvl0vert : BitVec 156 :=
  concat (k := 13) 156 [0x1001, 0x1001, 0x1001, 0x1001, 0x1001, 0x1001,
    0x1001, 0x1001, 0x1181, 0x1181, 0x1181, 0x1181]

def lvl0horiz : BitVec 156 :=
  concat (k := 12) 156 [0xfff, 0x000, 0x000, 0x000, 0x000, 0x000,
    0x000, 0x000, 0x000, 0x000, 0x000, 0x000, 0xfff]

def lvl1vert : BitVec 156 :=
  concat (k := 13) 156 [0x1843, 0x1fff, 0x1803, 0x1953, 0x1b1b, 0x18e3,
    0x1bfb, 0x1b1b, 0x1843, 0x1a0b, 0x1953, 0x1803]

def lvl1horiz : BitVec 156 :=
  concat (k := 12) 156 [0xfff, 0x294, 0x294, 0x264, 0x696, 0x666,
    0x666, 0x060, 0x666, 0x294, 0x462, 0x39c, 0xfff]

def lvl2vert : BitVec 156 :=
  concat (k := 13) 156 [0x1041, 0x1eef, 0x1001, 0x1151, 0x1319, 0x10e1,
    0x13f9, 0x1319, 0x1041, 0x1209, 0x1151, 0x1001]

def lvl2horiz : BitVec 156 :=
  concat (k := 12) 156 [0xfff, 0x59a, 0x59a, 0x666, 0xe97, 0xe67,
    0xe67, 0x060, 0xe67, 0x696, 0xc63, 0x79e, 0xfff]

/-- The map for a level, or the closed map while `isPre` is set. -/
def getWalls (level : BitVec 2) (isPre : Bool) : Walls :=
  if isPre then { horizWalls := defaultHoriz, vertWalls := defaultVert }
  else
    match level.toNat with
    | 0b00 => { horizWalls := lvl0horiz, vertWalls := lvl0vert }
    | 0b01 => { horizWalls := lvl1horiz, vertWalls := lvl1vert }
    | 0b10 => { horizWalls := lvl2horiz, vertWalls := lvl2vert }
    | _ => { horizWalls := BitVec.allOnes 156, vertWalls := 0#156 }

end Pacman
