import Mathlib.Logic.Function.Iterate
import Mathlib.Tactic.Common

/-! The two clock dividers of `lab8.sv`, which make the frame clocks of Pac-Man and of the ghosts from
    `Clk`. -/

namespace Pacman

/-- The registers of the dividers. -/
structure FrameClocks where
  counter : BitVec 18
  ghostCounter : BitVec 18
  clkdiv : Bool
  ghostClk : Bool
  deriving DecidableEq

namespace FrameClocks

/-- The asynchronous reset. -/
def reset : FrameClocks where
  counter := 0
  ghostCounter := 0
  clkdiv := false
  ghostClk := false

/-- One `Clk` edge. At its limit a counter is assigned twice, and the second assignment holds. -/
def next (s : FrameClocks) : FrameClocks where
  counter := if s.counter ≥ 200000 then 0 else s.counter + 1
  ghostCounter := if s.ghostCounter ≥ 262000 then 0 else s.ghostCounter + 1
  clkdiv := if s.counter ≥ 200000 then !s.clkdiv else s.clkdiv
  ghostClk := if s.ghostCounter ≥ 262000 then !s.ghostClk else s.ghostClk

/-- The state after `n` edges since reset. -/
def after (n : ℕ) : FrameClocks := next^[n] reset

end FrameClocks

end Pacman
