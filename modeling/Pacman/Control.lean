import Mathlib.Tactic.Common

/-! The level control (`control.sv`). -/

namespace Pacman

/-- The states of the control machine. -/
inductive LevelState where
  | level1 | level2 | beat1 | beat2 | newGame
  deriving DecidableEq

/-- The registers of `control`. -/
structure Control where
  state : LevelState
  resetAll : Bool
  deriving DecidableEq

namespace Control

/-- The enter key. -/
def codeEnter : BitVec 16 := 0x0028

/-- The asynchronous reset. -/
def reset : Control := { state := .newGame, resetAll := true }

/-- One `Clk` edge. A death comes first; otherwise a level ends with its last dot, which resets all
    objects, and the next one begins with the enter key, which resets nothing. -/
def next (s : Control) (keycode : BitVec 16) (pacManDied anyDotsLeft : Bool) : Control :=
  if pacManDied then { state := .newGame, resetAll := true }
  else
    match s.state with
    | .newGame => { state := if keycode = codeEnter then .level1 else .newGame, resetAll := false }
    | .level1 => if anyDotsLeft then { state := .level1, resetAll := false }
      else { state := .beat1, resetAll := true }
    | .level2 => if anyDotsLeft then { state := .level2, resetAll := false }
      else { state := .beat2, resetAll := true }
    | .beat1 => { state := if keycode = codeEnter then .level2 else .beat1, resetAll := false }
    | .beat2 => { state := if keycode = codeEnter then .level1 else .beat2, resetAll := false }

/-- The level whose maps are shown. -/
def level (s : Control) : BitVec 2 :=
  match s.state with
  | .newGame => 0b01
  | .level1 => 0b01
  | .level2 => 0b10
  | .beat1 => 0b10
  | .beat2 => 0b01

/-- Set between levels. -/
def isPre (s : Control) : Bool :=
  match s.state with
  | .newGame | .beat1 | .beat2 => true
  | .level1 | .level2 => false

end Control

end Pacman
