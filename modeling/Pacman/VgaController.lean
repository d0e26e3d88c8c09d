import Mathlib.Logic.Function.Iterate
import Mathlib.Tactic.Common

/-! The VGA timing (`VGA_controller.sv`): the pixel clock, the counters of pixels and lines, and the
    registered sync pulses. -/

namespace Pacman

/-- The registers of `vga_controller`. -/
structure VgaController where
  clkdiv : Bool
  hc : BitVec 10
  vc : BitVec 10
  hs : Bool
  vs : Bool
  deriving DecidableEq

namespace VgaController

def hpixels : BitVec 10 := 0b1100011111
def vlines : BitVec 10 := 0b1000001100

/-- The asynchronous reset. -/
def reset : VgaController where
  clkdiv := false
  hc := 0
  vc := 0
  hs := false
  vs := false

variable (s : VgaController)

/-- One rising edge of `clkdiv`: `counter_proc`, `hsync_proc` and `vsync_proc`. The sums with 1 do not wrap,
    since the literal is 32 bits wide. -/
def pixelClock : VgaController where
  clkdiv := s.clkdiv
  hc := if s.hc = hpixels then 0 else s.hc + 1
  vc := if s.hc = hpixels then if s.vc = vlines then 0 else s.vc + 1 else s.vc
  hs := if s.hc.toNat + 1 ≥ 0b1010010000 ∧ s.hc.toNat + 1 < 0b1011110000 then false else true
  vs := if s.vc.toNat + 1 = 0b111101010 ∨ s.vc.toNat + 1 = 0b111101011 then false else true

/-- One `Clk` edge, which toggles `clkdiv`. -/
def clk : VgaController :=
  if s.clkdiv then { s with clkdiv := false } else { s.pixelClock with clkdiv := true }

def drawX : BitVec 10 := s.hc

def drawY : BitVec 10 := s.vc

/-- The blanking signal (`display`), active low. -/
def blank : Bool := !(s.hc ≥ 0b1010000000 || s.vc ≥ 0b0111100000)

/-- The registers after `n` pixel clocks since reset. -/
def afterPixelClocks (n : ℕ) : VgaController := pixelClock^[n] reset

end VgaController

end Pacman
