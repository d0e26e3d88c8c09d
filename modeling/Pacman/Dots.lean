import Mathlib.Data.Fin.VecNotation
import Mathlib.Data.List.FinRange
import Pacman.Lib.Bits

/-! The dots (`pacDot.sv`, `pacDotRow.sv`, `allPacDots.sv`) and the maps they start from
    (`getDotStarts.sv`). -/

namespace Pacman
open Bits

/-! ### One dot -/

/-- The state of one `pacDot`. -/
inductive DotState where
  | eaten | uneaten
  deriving DecidableEq

namespace PacDot

def next (state : DotState) (atIntersection : Bool) (pacX pacY : BitVec 10) (dotX dotY : BitVec 5) : DotState :=
  match state with
  | .uneaten =>
    if dotX = pacX.extractLsb' 5 5 ∧ dotY = pacY.extractLsb' 5 5 ∧ atIntersection = true then .eaten else state
  | .eaten => state

def stillHere (state : DotState) (resetVal : Bool) : Bool :=
  match state with
  | .eaten => false
  | .uneaten => resetVal

end PacDot

/-! ### A row of dots -/

namespace PacDotRow

/-- `dotX` of the instance that drives bit `j` of the row: `pacDot1`, at the far left, drives bit 11. -/
def dotX : Fin 12 → BitVec 5 := ![0x0c, 0x0b, 0x0a, 0x09, 0x08, 0x07, 0x06, 0x05, 0x04, 0x03, 0x02, 0x01]

def stillHere (row : Fin 12 → DotState) (dotRowStart : BitVec 12) : BitVec 12 :=
  ofBits 12 fun j => PacDot.stillHere (row j) (dotRowStart.getLsbD j)

def anyLeft (row : Fin 12 → DotState) (dotRowStart : BitVec 12) : Bool := stillHere row dotRowStart ≠ 0

end PacDotRow

/-! ### All rows -/

/-- The dots by row and bit, each counted as in `anyLeftRows` and `stillHere`: row 11 is `dotRow1`, at
    the top. -/
abbrev AllPacDots := Fin 12 → Fin 12 → DotState

namespace AllPacDots

/-- `dotY` of the row instance that drives `anyLeftRows[i]`. -/
def dotY : Fin 12 → BitVec 5 := ![0x0c, 0x0b, 0x0a, 0x09, 0x08, 0x07, 0x06, 0x05, 0x04, 0x03, 0x02, 0x01]

/-- The low end of the slice of `dotStarts` and of `stillHere` that belongs to row `i`. -/
def lowBit : Fin 12 → ℕ := ![0, 12, 24, 36, 48, 60, 72, 84, 96, 108, 120, 132]

def reset : AllPacDots := fun _ _ => .uneaten

def atIntersection (pacX pacY : BitVec 10) : Bool :=
  !(pacX.getLsbD 0 || pacX.getLsbD 1 || pacX.getLsbD 2 || pacX.getLsbD 3 || pacX.getLsbD 4 ||
    pacY.getLsbD 0 || pacY.getLsbD 1 || pacY.getLsbD 2 || pacY.getLsbD 3 || pacY.getLsbD 4)

/-- One `Clk` edge without a reset. -/
def next (dots : AllPacDots) (pacX pacY : BitVec 10) : AllPacDots := fun i j =>
  PacDot.next (dots i j) (atIntersection pacX pacY) pacX pacY (PacDotRow.dotX j) (dotY i)

def rowStart (dotStarts : BitVec 144) (i : Fin 12) : BitVec 12 := dotStarts.extractLsb' (lowBit i) 12

/-- The dots that can still be eaten and are drawn. -/
def stillHere (dots : AllPacDots) (dotStarts : BitVec 144) : BitVec 144 :=
  let row (i : Fin 12) : BitVec 12 := PacDotRow.stillHere (dots i) (rowStart dotStarts i)
  concat 144 [row 11, row 10, row 9, row 8, row 7, row 6, row 5, row 4, row 3, row 2, row 1, row 0]

/-- Some row has a dot left. -/
def anyLeft (dots : AllPacDots) (dotStarts : BitVec 144) : Bool :=
  (List.finRange 12).any fun i => PacDotRow.anyLeft (dots i) (rowStart dotStarts i)

end AllPacDots

/-! ### The maps of `getDotStarts` -/

def lvl1Dots : BitVec 144 :=
  concat (k := 12) 144 [0x7fe, 0x56a, 0x7fe, 0x7fe, 0x1f8, 0x79e,
    0x198, 0x1f8, 0x7fe, 0x7fe, 0x7fe, 0x7fe]

def lvl2Dots : BitVec 144 :=
  concat (k := 12) 144 [0xfff, 0xa65, 0xfff, 0xfff, 0x1f8, 0xf9f,
    0x198, 0x1f8, 0xfff, 0xfff, 0xfff, 0xfff]

def defaultDots : BitVec 144 :=
  concat (k := 12) 144 [0x000, 0x000, 0x000, 0x000, 0x0f0, 0x090,
    0x090, 0x0f0, 0x000, 0x000, 0x000, 0x000]

def getDotStarts (level : BitVec 2) : BitVec 144 :=
  match level.toNat with
  | 0b00 => defaultDots
  | 0b01 => lvl1Dots
  | 0b10 => lvl2Dots
  | _ => defaultDots

end Pacman
