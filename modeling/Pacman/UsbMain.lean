import Pacman.Lab8
import Pacman.Lib.Trace
import Pacman.UsbDriver

/-! The software's `main` (`main.c`) as a flow graph: each place is the straight piece of code up to the next test,
    with its bus accesses. A step runs one piece; its input is what the reads of the piece give, one after the other, or
    what `rand` gives. The messages and the delays are left out. -/

namespace Pacman

def commExecInt : BitVec 16 := 0xCE01

def commAck : BitVec 16 := 0x0FED

/-- `COMM_INT_NUM`; `COMM_R0` to `COMM_R13` are the words behind it. -/
def commIntNum : BitVec 16 := 0x01C2

def husbSie1InitInt : BitVec 16 := 0x0072

def husbResetInt : BitVec 16 := 0x0074

def husbPEOT : BitVec 16 := 0x01B4

def hpiIrqRoutingReg : BitVec 16 := 0x0142

def host1IrqEnReg : BitVec 16 := 0xC08C

/-- `ctl_reg`, the register `USB1_CTL_REG`. -/
def ctlReg : BitVec 16 := 0xC08A

/-- `no_device`, the lines `A_DP_STAT` and `A_DM_STAT`. -/
def noDevice : BitVec 16 := 0x2000 ||| 0x1000

def hpiStatusSIE1msgFlag : BitVec 16 := 0x0010

/-- What happens on the bus, and the stores to the ports of the game. -/
inductive BusEvent where
  | write (port : BitVec 8) (data : BitVec 16)
  | read (port : BitVec 8) (value : BitVec 16)
  | keycode (value : BitVec 16)
  | random (g : Ghost) (value : BitVec 16)
  deriving DecidableEq

/-- The accesses with what the reads give. -/
def busEvents : List Call → (ℕ → BitVec 16) → List BusEvent
  | [], _ => []
  | .write port data :: calls, v => .write port data :: busEvents calls v
  | .read port :: calls, v => .read port (v 0) :: busEvents calls fun n => v (n + 1)

/-- The places of `main`, in the order of the source. -/
inductive UsbMain.Place where
  /-- `USB_HOT_PLUG` up to the end of step 1. -/
  | hotPlug
  | initStatus
  | initAck
  /-- The mailbox holds no `COMM_ACK`: it is read once more for the message. -/
  | ackError
  /-- Step 2. -/
  | reset
  | detect
  | detectAgain (hotPlugCount : ℕ)
  | waitDevice
  | issue (r : Request)
  | status (r : Request)
  | done (r : Request)
  | check (r : Request)
  /-- `UsbGetRetryCnt`. -/
  | retry (r : Request)
  | retryClear (r : Request)
  | retryStatus (r : Request)
  | retryCount (r : Request)
  | deviceInfo
  | poll
  | pollStatus
  | pollDone
  | keycode
  | present
  | presentAgain (hotPlugCount : ℕ)
  | removed
  | random (g : Ghost)
  deriving DecidableEq

structure UsbMain where
  place : UsbMain.Place
  toggle : BitVec 8
  dataSize : BitVec 8
  deriving DecidableEq

namespace UsbMain

/-- The state at `USB_HOT_PLUG` for the first time. `data_size` has no value yet. -/
def start : UsbMain where
  place := .hotPlug
  toggle := 0
  dataSize := 0

/-- The parameters of a BIOS call: `COMM_R0`, and `COMM_R1` to `COMM_R13` at 0. -/
def commRegisters (r0 : BitVec 16) : List Call :=
  (List.range 14).flatMap fun n => usbWrite (commIntNum + 2 * BitVec.ofNat 16 (n + 1)) (if n = 0 then r0 else 0)

variable (s : UsbMain)

/-- The bus accesses of the piece at a place. -/
def calls : List Call :=
  match s.place with
  | .hotPlug =>
    usbSoftReset ++ usbWrite hpiSie1MsgAdr 0 ++ usbWrite host1StatReg 0xFFFF ++ usbWrite husbPEOT 600 ++
      usbWrite hpiIrqRoutingReg (0x0400 ||| 0x0040) ++ usbWrite host1IrqEnReg (0x0010 ||| 0x0200) ++
      commRegisters 0 ++ usbWrite commIntNum husbSie1InitInt ++ [.write hpiMailbox commExecInt]
  | .initStatus => [.read hpiStatus]
  | .initAck => [.read hpiMailbox]
  | .ackError => [.read hpiMailbox]
  | .reset =>
    usbWrite commIntNum husbResetInt ++ commRegisters 0x003c ++ [.write hpiMailbox commExecInt, .read hpiMailbox]
  | .detect => usbRead ctlReg
  | .detectAgain _ => usbRead ctlReg
  | .waitDevice => usbRead ctlReg
  | .issue r => r.calls
  | .status _ => [.read hpiStatus]
  | .done _ => UsbWait.pass
  | .check _ => usbRead 0x0506 ++ usbRead 0x0508
  | .retry _ => .read hpiStatus :: usbRead hpiSie1MsgAdr
  | .retryClear _ => usbWrite hpiSie1MsgAdr 0
  | .retryStatus _ => [.read hpiStatus]
  | .retryCount _ => usbRead 0x0508
  | .deviceInfo =>
    usbRead 0x056c ++
      [.write hpiAddr 0x0576, .write hpiData 0x073F, .write hpiData 0x8105, .write hpiData 0x0003,
        .write hpiData 0x0008, .write hpiData 0xAC0A] ++
      usbWrite husbSie1PCurrentTDPtr 0x0576 ++ usbRead 0x057c
  | .poll => keyboardPoll s.dataSize s.toggle
  | .pollStatus => [.read hpiStatus]
  | .pollDone => UsbWait.pass
  | .keycode => usbRead 0x051e
  | .present => usbRead ctlReg
  | .presentAgain _ => usbRead ctlReg
  | .removed => usbRead ctlReg ++ usbRead ctlReg ++ usbRead ctlReg
  | .random _ => []

def goto (p : Place) : UsbMain := { s with place := p }

def loop : UsbMain := { s with place := .poll, toggle := s.toggle + 1 }

/-- What follows when a request has been answered. -/
def answered : Request → UsbMain
  | .setAddress => s.goto (.issue .deviceDesc1)
  | .deviceDesc1 => s.goto (.issue .deviceDesc2)
  | .deviceDesc2 => s.goto (.issue .configDesc1)
  | .configDesc1 => s.goto (.issue .configDesc2)
  | .configDesc2 => s.goto .deviceInfo
  | .setConfig => s.goto (.issue .classRequest)
  | .classRequest => s.goto (.issue .hidDesc)
  | .hidDesc => s.goto (.issue .reportDesc)
  | .reportDesc => s.loop

/-- Run the piece at a place, whose reads give `v`, and the test behind it. -/
def step (v : ℕ → BitVec 16) : UsbMain :=
  match s.place with
  | .hotPlug => s.goto .initStatus
  | .initStatus => s.goto (if v 0 &&& 0xFFFF = 0 then .initStatus else .initAck)
  | .initAck => s.goto (if v 0 ≠ commAck then .ackError else .reset)
  | .ackError => s.goto .hotPlug
  | .reset => s.goto (if v 0 ≠ commAck then .ackError else .detect)
  | .detect => s.goto (if v 0 &&& noDevice = 0 then .detectAgain 0 else .issue .setAddress)
  | .detectAgain n =>
    s.goto (if v 0 &&& noDevice ≠ 0 then .issue .setAddress
      else if n + 1 < 5 then .detectAgain (n + 1) else .waitDevice)
  | .waitDevice => s.goto (if v 0 &&& noDevice ≠ 0 then .hotPlug else .waitDevice)
  | .issue r => s.goto (.status r)
  | .status r => s.goto (if v 0 &&& hpiStatusSIE1msgFlag = 0 then .issue r else .done r)
  | .done r => s.goto (if v 0 ≠ husbTDListDone then .done r else .check r)
  | .check r => if v 1 ≠ 0x03 then s.goto (.retry r) else s.answered r
  | .retry r => s.goto (if v 1 = husbTDListDone then .retryClear r else .retryCount r)
  | .retryClear r => s.goto (.retryStatus r)
  | .retryStatus r => s.goto (if v 0 &&& hpiStatusSIE1msgFlag = 0 then .retryStatus r else .retryCount r)
  -- Only the first request starts over.
  | .retryCount r =>
    if r = .setAddress then s.goto .hotPlug else if v 0 ≠ 0x03 then s.goto (.retry r) else s.answered r
  | .deviceInfo => { s with place := .issue .setConfig, dataSize := (v 1 &&& 0x0ff).setWidth 8 }
  | .poll => s.goto .pollStatus
  | .pollStatus => s.goto (if v 0 &&& hpiStatusSIE1msgFlag = 0 then .poll else .pollDone)
  | .pollDone => s.goto (if v 0 ≠ husbTDListDone then .pollDone else .keycode)
  | .keycode => s.goto .present
  | .present => s.goto (if v 0 &&& noDevice = 0 then .presentAgain 0 else .random .orange)
  | .presentAgain n =>
    s.goto (if v 0 &&& noDevice ≠ 0 then .random .orange
      else if n + 1 < 7 then .presentAgain (n + 1) else .removed)
  | .removed => s.goto (if v 2 &&& noDevice ≠ 0 then .hotPlug else .removed)
  | .random .orange => s.goto (.random .blue)
  | .random .blue => s.goto (.random .red)
  | .random .red => s.goto (.random .pink)
  | .random .pink => s.loop

/-- What a step stores to the ports of the game. Of what `rand` gives, the ports keep the low half, `v 0`. -/
def stores (v : ℕ → BitVec 16) : List BusEvent :=
  match s.place with
  | .keycode => [.keycode (v 0 &&& 0xff)]
  | .random g => [.random g (v 0)]
  | _ => []

def events (v : ℕ → BitVec 16) : List BusEvent := busEvents s.calls v ++ s.stores v

/-- All that happens on the bus and the ports in a run from the start. -/
def trace (vs : List (ℕ → BitVec 16)) : List BusEvent := Machine.outputs step events start vs

end UsbMain

end Pacman
