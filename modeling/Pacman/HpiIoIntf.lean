import Mathlib.Tactic.Common

/-! The register stage between the software's PIO registers and the pins of the USB chip
    (`hpi_io_intf.sv`). -/

namespace Pacman

/-- The `out_port`s of the PIO registers that the software stores to. -/
structure FromSw where
  address : BitVec 2
  dataOut : BitVec 16
  r : Bool
  w : Bool
  cs : Bool
  deriving DecidableEq

/-- The registers of `hpi_io_intf`; `none` is the value Z. -/
structure HpiIoIntf where
  tmpData : Option (BitVec 16)
  otgAddr : BitVec 2
  otgRdN : Bool
  otgWrN : Bool
  otgCsN : Bool
  fromSwDataIn : Option (BitVec 16)
  deriving DecidableEq

namespace HpiIoIntf

/-- The asynchronous reset. -/
def reset : HpiIoIntf where
  tmpData := none
  otgAddr := 0
  otgRdN := true
  otgWrN := true
  otgCsN := true
  fromSwDataIn := none

variable (s : HpiIoIntf)

/-- What the FPGA drives on `OTG_DATA`. -/
def otgData : Option (BitVec 16) := if s.otgWrN then none else s.tmpData

/-- One `Clk` edge, at which the chip drives `chip` on `OTG_DATA`. -/
def next (sw : FromSw) (chip : Option (BitVec 16)) : HpiIoIntf where
  tmpData := some sw.dataOut
  otgAddr := sw.address
  otgRdN := sw.r
  otgWrN := sw.w
  otgCsN := sw.cs
  fromSwDataIn := s.otgData.or chip

end HpiIoIntf

end Pacman
