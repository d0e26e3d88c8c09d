import Pacman.Control
import Pacman.Dots
import Pacman.GhostMotion
import Pacman.Lib.Machine

/-! The game as `lab8.sv` composes it. A step is one `Clk` edge, which may carry a frame edge of
    Pac-Man, one of the ghosts, both or neither. All registers sample the values before the edge; a reset
    that is asserted before the edge, or by it, holds after it, because it is asynchronous. -/

namespace Pacman

/-- The four instances of `ghost_motion`. -/
inductive Ghost where
  | orange | blue | red | pink
  deriving DecidableEq

/-- The registers of the game. -/
structure Lab8 where
  control : Control
  pac : PacMotion
  ghosts : Ghost → GhostMotion
  dots : AllPacDots

namespace Lab8

/-- What a `Clk` edge meets: the reset button (`Reset_h`), the key, the random word of each ghost, and
    whether `clkdiv` and `ghostClk` rise. -/
structure Input where
  resetH : Bool
  keycode : BitVec 16
  randomness : Ghost → BitVec 16
  pacFrame : Bool
  ghostFrame : Bool

def ghostStart : BitVec 5 := 0x06

/-- The state while the reset button is held. -/
def reset : Lab8 where
  control := Control.reset
  pac := PacMotion.reset
  ghosts := fun _ => GhostMotion.reset ghostStart ghostStart
  dots := AllPacDots.reset

variable (s : Lab8)

def walls : Walls := getWalls s.control.level s.control.isPre

def dotStartMap : BitVec 144 := getDotStarts s.control.level

def currDotMap : BitVec 144 := s.dots.stillHere s.dotStartMap

def anyDotsLeft : Bool := s.dots.anyLeft s.dotStartMap

def hitPacman (g : Ghost) : Bool := (s.ghosts g).hitPacman s.pac.pacXPos s.pac.pacYPos

def pacManDied : Bool :=
  s.hitPacman .orange || s.hitPacman .blue || s.hitPacman .red || s.hitPacman .pink

variable (i : Input)

/-- `control` after the edge. -/
def controlNext : Control :=
  if i.resetH then Control.reset else s.control.next i.keycode s.pacManDied s.anyDotsLeft

/-- `resetObjects` is asserted at the edge: before it, or by it. -/
def resetObjects : Bool := i.resetH || s.control.resetAll || (s.controlNext i).resetAll

/-- One `Clk` edge with the frame edges it carries. -/
def step : Lab8 where
  control := s.controlNext i
  pac :=
    if s.resetObjects i then PacMotion.reset
    else if i.pacFrame then s.pac.movePac s.walls i.keycode
    else s.pac
  ghosts := fun g =>
    if s.resetObjects i then GhostMotion.reset ghostStart ghostStart
    else if i.ghostFrame then
      (s.ghosts g).moveGhost s.walls s.pac.pacXPos s.pac.pacYPos (i.randomness g)
    else s.ghosts g
  dots :=
    if s.resetObjects i then AllPacDots.reset
    else s.dots.next s.pac.pacXPos s.pac.pacYPos

/-- A state of some run from reset. -/
def Reachable (s : Lab8) : Prop := Machine.Reachable step reset s

end Lab8

end Pacman
