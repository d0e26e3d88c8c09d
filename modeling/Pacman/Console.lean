import Pacman.Board
import Pacman.UsbMain

/-! The whole of `lab8.sv`: the board and the processor that runs `main`. What `main` stores for the game, the key code and
    the random words of the ghosts, goes through registers of the processor's system (`nios_system_Keycode.v`), whose
    outputs are the board's inputs. Pieces of `main` and `Clk` edges come in any order; the reset button resets both
    sides. -/

namespace Pacman

/-- The registers that the game sees. -/
structure Ports where
  keycode : BitVec 16
  randomness : Ghost → BitVec 16

namespace Ports

def reset : Ports where
  keycode := 0
  randomness := fun _ => 0

def store (p : Ports) : BusEvent → Ports
  | .keycode value => { p with keycode := value }
  | .random g value => { p with randomness := Function.update p.randomness g value }
  | .write .. | .read .. => p

end Ports

structure Console where
  software : UsbMain
  ports : Ports
  board : Board

namespace Console

/-- What comes next: a piece of `main`, whose reads give `v`, or a `Clk` edge. -/
inductive Action where
  | software (v : ℕ → BitVec 16)
  | clk (resetH : Bool)

def reset : Console where
  software := UsbMain.start
  ports := Ports.reset
  board := Board.reset

variable (s : Console)

/-- What a `Clk` edge meets. -/
def input (resetH : Bool) : Board.Input where
  resetH := resetH
  keycode := s.ports.keycode
  randomness := s.ports.randomness

def step : Action → Console
  | .software v =>
    { s with software := s.software.step v, ports := (s.software.events v).foldl Ports.store s.ports }
  | .clk resetH =>
    { software := if resetH then UsbMain.start else s.software
      ports := if resetH then Ports.reset else s.ports
      board := s.board.step (s.input resetH) }

end Console

end Pacman
