import Pacman.PacMotion

/-! A ghost (`ghost_motion.sv`): the collision test, the choice of a side at an intersection, and the
    registers they feed on every ghost frame edge. -/

namespace Pacman

/-- The registers of `ghost_motion` that its next state or its outputs depend on. -/
structure GhostMotion where
  ghostXMotion : BitVec 10
  ghostYMotion : BitVec 10
  ghostXPos : BitVec 10
  ghostYPos : BitVec 10
  counterRand : BitVec 3
  deriving DecidableEq

namespace GhostMotion

def ghostXStep : BitVec 10 := 1
def ghostYStep : BitVec 10 := 1
def collisionDist : BitVec 10 := 0x010

/-- The asynchronous reset, to the start cell. -/
def reset (xStart yStart : BitVec 5) : GhostMotion where
  ghostYMotion := 0
  ghostXMotion := 0
  ghostYPos := yStart ++ 0#5
  ghostXPos := xStart ++ 0#5
  counterRand := 0

/-! ### The collision test -/

section Compare
variable (ghost pac : BitVec 10)

/-- `cmpX` (`cmpY`): the ghost's coordinate less Pac-Man's. -/
def cmp : BitVec 10 := ghost + (~~~pac + 1)

/-- `cmpX2` (`cmpY2`): the same the other way round. -/
def cmp2 : BitVec 10 := (~~~ghost + 1) + pac

/-- `absX` (`absY`). -/
def abs : BitVec 10 := if (cmp ghost pac).getLsbD 9 then cmp2 ghost pac else cmp ghost pac

/-- `hitX` (`hitY`). -/
def hit : BitVec 10 := abs ghost pac + (~~~collisionDist + 1)

/-- `tooFarRight` (`tooFarDown`): the ghost's coordinate is the larger one. -/
def tooFarHigh : Bool := !(cmp ghost pac).getLsbD 9 && cmp ghost pac ≠ 0

/-- `tooFarLeft` (`tooFarUp`). -/
def tooFarLow : Bool := !tooFarHigh ghost pac && cmp ghost pac ≠ 0

end Compare

variable (g : GhostMotion)

def hitPacman (pacX pacY : BitVec 10) : Bool :=
  let hitX := hit g.ghostXPos pacX
  let hitY := hit g.ghostYPos pacY
  (hitX = 0 && hitY.getLsbD 9) || (hitY = 0 && hitX.getLsbD 9)

/-! ### The choice of a side -/

/-- The sides of the cell that the ghost stands in. -/
def turns (w : Walls) : Turns := checkWalls w (g.ghostXPos.extractLsb' 5 5) (g.ghostYPos.extractLsb' 5 5)

def currRand (randomness : BitVec 16) : BitVec 2 :=
  match g.counterRand.toNat with
  | 0x0 => randomness.extractLsb 1 0
  | 0x1 => randomness.extractLsb 3 2
  | 0x2 => randomness.extractLsb 5 4
  | 0x3 => randomness.extractLsb 7 6
  | 0x4 => randomness.extractLsb 9 8
  | 0x5 => randomness.extractLsb 11 10
  | 0x6 => randomness.extractLsb 13 12
  | 0x7 => randomness.extractLsb 15 14
  | _ => randomness.extractLsb 1 0

def sameBlockX : Bool :=
  !(g.ghostXPos.getLsbD 0 || g.ghostXPos.getLsbD 1 || g.ghostXPos.getLsbD 2 || g.ghostXPos.getLsbD 3 ||
    g.ghostXPos.getLsbD 4)

def sameBlockY : Bool :=
  !(g.ghostYPos.getLsbD 0 || g.ghostYPos.getLsbD 1 || g.ghostYPos.getLsbD 2 || g.ghostYPos.getLsbD 3 ||
    g.ghostYPos.getLsbD 4)

def atIntersection : Bool := g.sameBlockX && g.sameBlockY

def left : Bool := g.ghostXMotion.getLsbD 9
def up : Bool := g.ghostYMotion.getLsbD 9
def right : Bool := g.ghostXMotion.getLsbD 0 && !g.ghostXMotion.getLsbD 9
def down : Bool := g.ghostYMotion.getLsbD 0 && !g.ghostYMotion.getLsbD 9

def goL : Motion := { y := 0, x := ~~~ghostXStep + 1 }
def goR : Motion := { y := 0, x := ghostXStep }
def goU : Motion := { y := ~~~ghostYStep + 1, x := 0 }
def goD : Motion := { y := ghostYStep, x := 0 }

/-- `ghost_X_Turn_Motion` and `ghost_Y_Turn_Motion`: `case (dirs)` with `dirs = {L, R, U, D}`. -/
def turnMotion (w : Walls) (pacX pacY : BitVec 10) (randomness : BitVec 16) : Motion :=
  let t := g.turns w
  let goBack : Bool := g.currRand randomness = 0b11 -- 25% chance of going back
  let tooFarRight := tooFarHigh g.ghostXPos pacX
  let tooFarLeft := tooFarLow g.ghostXPos pacX
  let tooFarDown := tooFarHigh g.ghostYPos pacY
  let tooFarUp := tooFarLow g.ghostYPos pacY
  match t.turnL, t.turnR, t.turnU, t.turnD with
  | false, false, false, false => goU -- no options, go up
  | false, false, false, true => goD
  | false, false, true, false => goU
  | false, true, false, false => goR
  | true, false, false, false => goL
  | true, true, false, false => -- LR
    if goBack then if g.left then goR else goL
    else if g.left then goL else goR
  | true, false, true, false => -- LU
    if goBack then if g.down then goU else goL
    else if g.down then goL else goU
  | true, false, false, true => -- LD
    if goBack then if g.up then goD else goL
    else if g.up then goL else goD
  | false, true, true, false => -- RU
    if goBack then if g.down then goU else goR
    else if g.down then goR else goU
  | false, true, false, true => -- RD
    if goBack then if g.up then goD else goR
    else if g.up then goR else goD
  | false, false, true, true => -- UD
    if goBack then if g.up then goD else goU
    else if g.up then goU else goD
  | true, true, true, false => -- LRU
    if tooFarDown then goU else if tooFarRight then goL else goR
  | true, true, false, true => -- LRD
    if tooFarUp then goD else if tooFarRight then goL else goR
  | true, false, true, true => -- LUD
    if tooFarRight then goL else if tooFarDown then goU else goD
  | false, true, true, true => -- RUD
    if tooFarLeft then goR else if tooFarDown then goU else goD
  | true, true, true, true => -- LRUD
    match (g.currRand randomness).toNat with
    | 0b00 => goL
    | 0b01 => goR
    | 0b10 => goU
    | _ => goD

/-- `X_motion_final` and `Y_motion_final`: ghosts only turn at intersections. -/
def motionFinal (w : Walls) (pacX pacY : BitVec 10) (randomness : BitVec 16) : Motion :=
  if g.atIntersection = false then { y := g.ghostYMotion, x := g.ghostXMotion }
  else g.turnMotion w pacX pacY randomness

def nextCounterRand : BitVec 3 :=
  if g.atIntersection = false then g.counterRand
  else
    match g.counterRand.toNat with
    | 0x0 => 0x1
    | 0x1 => 0x2
    | 0x2 => 0x3
    | 0x3 => 0x4
    | 0x4 => 0x5
    | 0x5 => 0x6
    | 0x6 => 0x7
    | 0x7 => 0x0
    | _ => 0x1

/-- One ghost frame edge (`Move_ghost`). -/
def moveGhost (w : Walls) (pacX pacY : BitVec 10) (randomness : BitVec 16) : GhostMotion :=
  let m := g.motionFinal w pacX pacY randomness
  { ghostYMotion := m.y
    ghostXMotion := m.x
    ghostYPos := g.ghostYPos + m.y
    ghostXPos := g.ghostXPos + m.x
    counterRand := g.nextCounterRand }

end GhostMotion

end Pacman
