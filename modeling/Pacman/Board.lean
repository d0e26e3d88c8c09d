import Pacman.FrameClocks
import Pacman.Lab8
import Pacman.VgaController

/-! The game with the dividers that make its frame clocks and with the beam that draws it, as `lab8.sv` wires
    them: the two clocks are no inputs any more. The only inputs are the reset button, the key and the random
    words. -/

namespace Pacman

/-- The registers of the dividers, of the VGA timing and of the game. -/
structure Board where
  clocks : FrameClocks
  vga : VgaController
  game : Lab8

namespace Board

/-- What a `Clk` edge meets from outside. -/
structure Input where
  resetH : Bool
  keycode : BitVec 16
  randomness : Ghost → BitVec 16

/-- The state while the reset button is held. -/
def reset : Board where
  clocks := FrameClocks.reset
  vga := VgaController.reset
  game := Lab8.reset

variable (s : Board) (i : Input)

def clocksNext : FrameClocks := if i.resetH then FrameClocks.reset else s.clocks.next

/-- The edge as the game meets it: a frame edge is a rising edge of its divided clock. -/
def edge : Lab8.Input where
  resetH := i.resetH
  keycode := i.keycode
  randomness := i.randomness
  pacFrame := !s.clocks.clkdiv && (s.clocksNext i).clkdiv
  ghostFrame := !s.clocks.ghostClk && (s.clocksNext i).ghostClk

/-- One `Clk` edge. -/
def step : Board where
  clocks := s.clocksNext i
  vga := if i.resetH then VgaController.reset else s.vga.clk
  game := s.game.step (s.edge i)

end Board

end Pacman
