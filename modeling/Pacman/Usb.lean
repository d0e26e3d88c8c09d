import Mathlib.Logic.Function.Basic
import Pacman.IoHandler

/-! The driver's wait for a finished transfer (`usb.c`), one bus access after the other, with the SIE1 message
    register of the chip (`lcp_cmd.h`). -/

namespace Pacman

def hpiData : BitVec 8 := 0

def hpiAddr : BitVec 8 := 2

/-- `HPI_SIE1_MSG_ADR`. -/
def hpiSie1MsgAdr : BitVec 16 := 0x0144

/-- The message bit `HUSB_TDListDone`. -/
def husbTDListDone : BitVec 16 := 0x1000

/-- The bus accesses of `UsbRead`, which returns what the last one reads. -/
def usbRead (address : BitVec 16) : List Call := [.write hpiAddr address, .read hpiData]

/-- The bus accesses of `UsbWrite`. -/
def usbWrite (address data : BitVec 16) : List Call := [.write hpiAddr address, .write hpiData data]

/-- The chip behind the bus: the address that `HPI_ADDR` sets, and the words that `HPI_DATA` reaches. -/
structure UsbChip where
  address : BitVec 16
  word : BitVec 16 → BitVec 16

namespace UsbChip
variable (c : UsbChip)

/-- The SIE1 message register. -/
def msg : BitVec 16 := c.word hpiSie1MsgAdr

/-- The controller posts messages. -/
def post (bits : BitVec 16) : UsbChip := { c with word := Function.update c.word hpiSie1MsgAdr (c.msg ||| bits) }

def write (port : BitVec 8) (data : BitVec 16) : UsbChip :=
  if port = hpiAddr then { c with address := data }
  else if port = hpiData then { c with word := Function.update c.word c.address data }
  else c

end UsbChip

/-- `UsbWaitTDListDone` on its way: the bus accesses of this pass of the loop that are still to come, none when
    it has returned, and the value of its variable. -/
structure UsbWait where
  chip : UsbChip
  todo : List Call
  usbCtlVal : BitVec 16

namespace UsbWait

/-- One pass of the loop, and the part before the loop: read the message register and clear it. -/
def pass : List Call := usbRead hpiSie1MsgAdr ++ usbWrite hpiSie1MsgAdr 0

/-- The call of `UsbWaitTDListDone`. -/
def enter (chip : UsbChip) (usbCtlVal : BitVec 16) : UsbWait := { chip, todo := pass, usbCtlVal }

variable (s : UsbWait)

/-- The test of the loop at the end of a pass. -/
def loopTest : UsbWait := { s with todo := if s.usbCtlVal ≠ husbTDListDone then pass else [] }

/-- A bus access with the others of the pass that follow it. -/
def access (call : Call) (calls : List Call) : UsbWait :=
  match call with
  | .write port data => { s with chip := s.chip.write port data, todo := calls }
  -- `UsbRead` reads `HPI_DATA` and no other port.
  | .read _ => { s with usbCtlVal := s.chip.word s.chip.address, todo := calls }

/-- The controller posts `bits`; then the driver makes its next bus access. -/
def step (bits : BitVec 16) : UsbWait :=
  let s := { s with chip := s.chip.post bits }
  match s.todo with
  | [] => s
  | [call] => (s.access call []).loopTest
  | call :: calls => s.access call calls

end UsbWait

end Pacman
