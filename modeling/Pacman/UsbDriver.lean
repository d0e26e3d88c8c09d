import Pacman.Usb

/-! The other functions of the driver (`usb.c`) as their bus accesses. A request leaves a list of transfer
    descriptors in the chip's memory; the words are those of the source, one descriptor or setup packet a line. -/

namespace Pacman

def hpiMailbox : BitVec 8 := 1

def hpiStatus : BitVec 8 := 3

def commReset : BitVec 16 := 0xFA50

def hpiSie2MsgAdr : BitVec 16 := 0x0148

def host1StatReg : BitVec 16 := 0xC090

def host2StatReg : BitVec 16 := 0xC0B0

def husbSie1PCurrentTDPtr : BitVec 16 := 0x01B0

def usbSoftReset : List Call :=
  [.write hpiMailbox commReset, .read hpiMailbox, .read hpiStatus] ++
    usbRead hpiSie1MsgAdr ++ usbWrite hpiSie1MsgAdr 0 ++ usbRead hpiSie2MsgAdr ++ usbWrite hpiSie2MsgAdr 0 ++
    usbWrite host1StatReg 0xFFFF ++ usbWrite host2StatReg 0xFFFF

/-- The shape of the requests: store the words from 0x0500 on, and start the controller on the descriptor there.
    `HPI_DATA` goes on to the next word by itself. -/
def tdList (words : List (BitVec 16)) : List Call :=
  .write hpiAddr 0x0500 :: words.map (.write hpiData) ++ usbWrite husbSie1PCurrentTDPtr 0x0500

def usbSetAddress : List Call := tdList
  [0x050C, 0x0008, 0x00D0, 0x0001, 0x0013, 0x0514,
   0x0500, 0x0002, 0x0000, 0x0000,
   0x0000, 0x0000, 0x0090, 0x0041, 0x0013, 0x0000]

def usbGetDeviceDesc1 : List Call := tdList
  [0x050C, 0x0008, 0x02D0, 0x0001, 0x0013, 0x0514,
   0x0680, 0x0100, 0x0000, 0x0008,
   0x052C, 0x0008, 0x0290, 0x0041, 0x0013, 0x0520,
   0x0000, 0x0000, 0x0210, 0x0041, 0x0013, 0x0000]

def usbGetDeviceDesc2 : List Call := tdList
  [0x050C, 0x0008, 0x02D0, 0x0001, 0x0013, 0x0514,
   0x0680, 0x0100, 0x0000, 0x0012,
   0x0544, 0x0008, 0x0290, 0x0041, 0x0013, 0x0520,
   0x054c, 0x0008, 0x0290, 0x0001, 0x0013, 0x052c,
   0x0554, 0x0002, 0x0290, 0x0041, 0x0013, 0x0538,
   0x0000, 0x0000, 0x0210, 0x0041, 0x0013, 0x0000]

def usbGetConfigDesc1 : List Call := tdList
  [0x050C, 0x0008, 0x02D0, 0x0001, 0x0013, 0x0514,
   0x0680, 0x0200, 0x0000, 0x0009,
   0x0544, 0x0008, 0x0290, 0x0041, 0x0013, 0x0520,
   0x054c, 0x0001, 0x0290, 0x0001, 0x0013, 0x052c,
   0x0000, 0x0000, 0x0210, 0x0041, 0x0013, 0x0000]

def usbGetConfigDesc2 : List Call := tdList
  [0x050C, 0x0008, 0x02D0, 0x0001, 0x0013, 0x0514,
   0x0680, 0x0200, 0x0000, 0x00FF,
   0x055c, 0x0008, 0x0290, 0x0041, 0x0013, 0x0520,
   0x0564, 0x0008, 0x0290, 0x0001, 0x0013, 0x052c,
   0x056c, 0x0008, 0x0290, 0x0041, 0x0013, 0x0538,
   0x0574, 0x0008, 0x0290, 0x0001, 0x0013, 0x0544,
   0x057c, 0x0002, 0x0290, 0x0041, 0x0013, 0x0550,
   0x0000, 0x0000, 0x0210, 0x0041, 0x0013, 0x0000]

def usbSetConfig : List Call := tdList
  [0x050C, 0x0008, 0x02D0, 0x0001, 0x0013, 0x0514,
   0x0900, 0x0001, 0x0000, 0x0000,
   0x0000, 0x0000, 0x0290, 0x0041, 0x0013, 0x0000]

def usbClassRequest : List Call := tdList
  [0x050C, 0x0008, 0x02D0, 0x0001, 0x0013, 0x0514,
   0x0A21, 0x0000, 0x0000, 0x0000,
   0x0000, 0x0000, 0x0290, 0x0041, 0x0013, 0x0000]

def usbGetHidDesc : List Call := tdList
  [0x050C, 0x0008, 0x02D0, 0x0001, 0x0013, 0x0514,
   0x0681, 0x2100, 0x0000, 0x007B,
   0x0544, 0x0008, 0x0290, 0x0041, 0x0013, 0x0520,
   0x0000, 0x0000, 0x0210, 0x0041, 0x0013, 0x0000]

def usbGetReportDesc : List Call := tdList
  [0x050C, 0x0008, 0x02D0, 0x0001, 0x0013, 0x0514,
   0x0681, 0x2200, 0x0000, 0x007B,
   0x0580, 0x0008, 0x0290, 0x0041, 0x0013, 0x0520,
   0x0588, 0x0008, 0x0290, 0x0001, 0x0013, 0x052c,
   0x0590, 0x0008, 0x0290, 0x0041, 0x0013, 0x0538,
   0x0598, 0x0008, 0x0290, 0x0001, 0x0013, 0x0544,
   0x05a0, 0x0008, 0x0290, 0x0041, 0x0013, 0x0550,
   0x05a8, 0x0008, 0x0290, 0x0001, 0x0013, 0x055c,
   0x05b0, 0x0008, 0x0290, 0x0041, 0x0013, 0x0568,
   0x05b8, 0x0003, 0x0290, 0x0001, 0x0013, 0x0574,
   0x0000, 0x0000, 0x0210, 0x0041, 0x0013, 0x0000]

/-- The requests in the order of `main`. -/
inductive Request where
  | setAddress
  | deviceDesc1
  | deviceDesc2
  | configDesc1
  | configDesc2
  | setConfig
  | classRequest
  | hidDesc
  | reportDesc
  deriving DecidableEq

namespace Request

def calls : Request → List Call
  | setAddress => usbSetAddress
  | deviceDesc1 => usbGetDeviceDesc1
  | deviceDesc2 => usbGetDeviceDesc2
  | configDesc1 => usbGetConfigDesc1
  | configDesc2 => usbGetConfigDesc2
  | setConfig => usbSetConfig
  | classRequest => usbClassRequest
  | hidDesc => usbGetHidDesc
  | reportDesc => usbGetReportDesc

end Request

/-- The list of `main`'s loop, which asks the keyboard for what is pressed. -/
def keyboardPoll (dataSize toggle : BitVec 8) : List Call := tdList
  [0x051c, 0x000f &&& dataSize.setWidth 16, 0x0291, if toggle % 2 ≠ 0 then 0x0001 else 0x0041, 0x0013, 0x0000]

end Pacman
