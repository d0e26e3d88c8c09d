import Pacman.Walls

/-! Pac-Man (`pac_motion.sv`): the combinational block that picks the next motion from the key, the
    current motion and the open sides, and the registers it feeds on every frame edge. -/

namespace Pacman

/-- A pair of 10-bit motion words, one pixel a frame in two's complement. -/
structure Motion where
  x : BitVec 10
  y : BitVec 10
  deriving DecidableEq

/-- The registers of `pac_motion`. -/
structure PacMotion where
  pacXMotion : BitVec 10
  pacYMotion : BitVec 10
  pacXPos : BitVec 10
  pacYPos : BitVec 10
  lastXTurnMotion : BitVec 10
  lastYTurnMotion : BitVec 10
  deriving DecidableEq

namespace PacMotion

def pacXStart : BitVec 10 := 160
def pacYStart : BitVec 10 := 160
def pacXStep : BitVec 10 := 1
def pacYStep : BitVec 10 := 1

def codeA : BitVec 16 := 0x0004
def codeW : BitVec 16 := 0x001a
def codeS : BitVec 16 := 0x0016
def codeD : BitVec 16 := 0x0007

/-- The asynchronous reset. -/
def reset : PacMotion where
  pacXMotion := 0
  pacYMotion := 0
  pacXPos := pacXStart
  pacYPos := pacYStart
  lastXTurnMotion := 0
  lastYTurnMotion := 0

variable (p : PacMotion)

/-- The sides of the cell that Pac-Man stands in. -/
def turns (w : Walls) : Turns := checkWalls w (p.pacXPos.extractLsb' 5 5) (p.pacYPos.extractLsb' 5 5)

/-- What the key asks for: the motion, whether its side is closed, and the side's number. -/
structure KeyTurn where
  pacYTurnMotion : BitVec 10
  pacXTurnMotion : BitVec 10
  turnBlocked : Bool
  turnDir : BitVec 3

def keyTurn (t : Turns) (keycode : BitVec 16) : KeyTurn :=
  if keycode = codeS then
    { pacYTurnMotion := pacYStep, pacXTurnMotion := 0, turnBlocked := !t.turnD, turnDir := 0b011 }
  else if keycode = codeW then
    { pacYTurnMotion := ~~~pacYStep + 1, pacXTurnMotion := 0, turnBlocked := !t.turnU, turnDir := 0b010 }
  else if keycode = codeD then
    { pacYTurnMotion := 0, pacXTurnMotion := pacXStep, turnBlocked := !t.turnR, turnDir := 0b001 }
  else if keycode = codeA then
    { pacYTurnMotion := 0, pacXTurnMotion := ~~~pacXStep + 1, turnBlocked := !t.turnL, turnDir := 0b000 }
  else
    { pacYTurnMotion := p.lastYTurnMotion, pacXTurnMotion := p.lastXTurnMotion, turnBlocked := true,
      turnDir := 0b111 }

def atIntersection : Bool :=
  !(p.pacXPos.getLsbD 0 || p.pacXPos.getLsbD 1 || p.pacXPos.getLsbD 2 || p.pacXPos.getLsbD 3 ||
    p.pacXPos.getLsbD 4 || p.pacYPos.getLsbD 0 || p.pacYPos.getLsbD 1 || p.pacYPos.getLsbD 2 ||
    p.pacYPos.getLsbD 3 || p.pacYPos.getLsbD 4)

def left : Bool := p.pacXMotion.getLsbD 9
def up : Bool := p.pacYMotion.getLsbD 9
def right : Bool := p.pacXMotion.getLsbD 0 && !p.pacXMotion.getLsbD 9
def down : Bool := p.pacYMotion.getLsbD 0 && !p.pacYMotion.getLsbD 9

/-- The motion without a turn: straight on or a stop at an intersection, and between intersections
    straight on or, on the opposite key, back. -/
def continueMotion (t : Turns) (turnDir : BitVec 3) : Motion :=
  if p.atIntersection then
    if p.right && t.turnR then { x := pacXStep, y := 0 }
    else if p.left && t.turnL then { x := ~~~pacXStep + 1, y := 0 }
    else if p.up && t.turnU then { x := 0, y := ~~~pacYStep + 1 }
    else if p.down && t.turnD then { x := 0, y := pacYStep }
    else { x := 0, y := 0 }
  else
    if turnDir = 0b000 && p.right then { x := ~~~pacXStep + 1, y := 0 }
    else if turnDir = 0b001 && p.left then { x := pacXStep, y := 0 }
    else if turnDir = 0b010 && p.down then { x := 0, y := ~~~pacYStep + 1 }
    else if turnDir = 0b011 && p.up then { x := 0, y := pacYStep }
    else { x := p.pacXMotion, y := p.pacYMotion }

/-- `X_motion_final` and `Y_motion_final`. -/
def motionFinal (w : Walls) (keycode : BitVec 16) : Motion :=
  let k := p.keyTurn (p.turns w) keycode
  if k.turnBlocked = true ∨ p.atIntersection = false then p.continueMotion (p.turns w) k.turnDir
  else { x := k.pacXTurnMotion, y := k.pacYTurnMotion }

/-- One frame edge (`Move_pac`). -/
def movePac (w : Walls) (keycode : BitVec 16) : PacMotion :=
  let k := p.keyTurn (p.turns w) keycode
  let m := p.motionFinal w keycode
  { lastYTurnMotion := k.pacYTurnMotion
    lastXTurnMotion := k.pacXTurnMotion
    pacYMotion := m.y
    pacXMotion := m.x
    pacYPos := p.pacYPos + m.y
    pacXPos := p.pacXPos + m.x }

/-- The picture to draw: right, left, down or up. -/
def direction (w : Walls) (keycode : BitVec 16) : BitVec 2 :=
  let k := p.keyTurn (p.turns w) keycode
  if k.pacXTurnMotion = pacXStep then 0b00
  else if k.pacXTurnMotion = ~~~pacXStep + 1 then 0b01
  else if k.pacYTurnMotion = pacYStep then 0b11
  else 0b10

end PacMotion

end Pacman
