import Pacman.Lib.Trace
import Pacman.HpiIoIntf

/-! The software's accesses to the chip (`io_handler.c`), and what they do on the OTG pins. -/

namespace Pacman

/-- One access to a PIO register: a store, or the load of the data register. -/
inductive Access where
  | cs (level : Bool)
  | r (level : Bool)
  | w (level : Bool)
  | address (value : BitVec 8)
  | data (value : BitVec 16)
  | loadData
  deriving DecidableEq

/-- A store to a PIO register, which keeps as many bits as it has. -/
def FromSw.store (sw : FromSw) : Access → FromSw
  | .cs level => { sw with cs := level }
  | .r level => { sw with r := level }
  | .w level => { sw with w := level }
  | .address value => { sw with address := value.setWidth 2 }
  | .data value => { sw with dataOut := value }
  | .loadData => sw

/-- `IO_init`. -/
def ioInit : List Access := [.cs true, .r true, .w true, .address 0, .data 0]

/-- `IO_write`. -/
def ioWrite (address : BitVec 8) (data : BitVec 16) : List Access :=
  [.cs false, .address address, .data data, .w false, .w true, .cs true]

/-- `IO_read`; it returns what its load gives. -/
def ioRead (address : BitVec 8) : List Access :=
  [.cs false, .address address, .r false, .loadData, .r true, .cs true]

/-- A call of `IO_write` or `IO_read`. -/
inductive Call where
  | write (address : BitVec 8) (data : BitVec 16)
  | read (address : BitVec 8)
  deriving DecidableEq

namespace Call

def accesses : Call → List Access
  | write address data => ioWrite address data
  | read address => ioRead address

def address : Call → BitVec 8
  | write address _ => address
  | read address => address

end Call

/-- The PIO registers with `hpi_io_intf`. -/
structure OtgPort where
  sw : FromSw
  intf : HpiIoIntf
  deriving DecidableEq

/-- An access, and what the chip drives at each `Clk` edge from then on until the next access. -/
abbrev Op := Access × List (Option (BitVec 16))

/-- What a `Clk` edge meets on the pins: what the FPGA puts out, and what the chip drives. -/
structure Cycle where
  csN : Bool
  rdN : Bool
  wrN : Bool
  addr : BitVec 2
  drive : Option (BitVec 16)
  chip : Option (BitVec 16)
  deriving DecidableEq

namespace OtgPort
variable (s : OtgPort)

def clk (chip : Option (BitVec 16)) : OtgPort := { s with intf := s.intf.next s.sw chip }

def access (a : Access) : OtgPort := { s with sw := s.sw.store a }

def step (op : Op) : OtgPort := Machine.run clk (s.access op.1) op.2

def cycle (chip : Option (BitVec 16)) : Cycle where
  csN := s.intf.otgCsN
  rdN := s.intf.otgRdN
  wrN := s.intf.otgWrN
  addr := s.intf.otgAddr
  drive := s.intf.otgData
  chip := chip

/-- The pins at the `Clk` edges after an access. -/
def cycles (op : Op) : List Cycle := Machine.outputs clk (fun t chip => [t.cycle chip]) (s.access op.1) op.2

/-- The pins at all `Clk` edges of a run. -/
def trace (ops : List Op) : List Cycle := Machine.outputs step cycles s ops

/-- A load gives what `hpi_io_intf` holds at the moment it takes effect. -/
def loaded (op : Op) : List (Option (BitVec 16)) := if op.1 = .loadData then [s.intf.fromSwDataIn] else []

/-- What the loads of a run give, in order. -/
def returned (ops : List Op) : List (Option (BitVec 16)) := Machine.outputs step loaded s ops

end OtgPort

end Pacman
