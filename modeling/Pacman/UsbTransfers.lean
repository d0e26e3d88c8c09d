import Pacman.Lib.Memory
import Pacman.UsbDriver

/-! What the driver's requests are for: control transfers of USB, each a setup packet, a data stage in packets of at
    most 8 bytes, and a status stage the other way. The controller reads them as a list of transfer descriptors,
    with the fields that `cy7c67200.h` names for the host registers. -/

namespace Pacman

def setupPid : BitVec 4 := 0xD

def inPid : BitVec 4 := 0x9

def outPid : BitVec 4 := 0x1

/-- A transaction on the USB, and the piece of the chip's memory that its data fill or are taken from. -/
structure Transaction where
  pid : BitVec 4
  device : BitVec 8
  endpoint : BitVec 4
  data1 : Bool
  buffer : BitVec 16
  length : BitVec 10
  deriving DecidableEq

namespace Transaction

/-- The words of a descriptor up to its pointer. The third one holds `HOST_PID_SEL` and `HOST_ENDPOINT_SEL`, the
    fourth `HOST_ARM_EN` and `HOST_SEQ_SEL`, the fifth the retries. -/
def words (t : Transaction) : List (BitVec 16) :=
  [t.buffer, t.length.setWidth 16, t.device ++ t.pid ++ t.endpoint, if t.data1 then 0x0041 else 0x0001, 0x0013]

/-- A descriptor, and the words between it and the next one. -/
def node (t : Transaction) (back : List (BitVec 16)) : Memory.Node (BitVec 16) := ⟨t.words, back⟩

/-- What the controller reads in the descriptor at `p`. -/
def ofDescriptor (m : BitVec 16 → BitVec 16) (p : BitVec 16) : Transaction where
  pid := (m (p + 4)).extractLsb' 4 4
  device := (m (p + 4)).extractLsb' 8 8
  endpoint := (m (p + 4)).extractLsb' 0 4
  data1 := (m (p + 6)).getLsbD 6
  buffer := m p
  length := (m (p + 2)).setWidth 10

/-- Where the data of an IN transaction go, byte by byte. -/
def addresses (t : Transaction) : List (BitVec 16) :=
  (List.range t.length.toNat).map fun n => t.buffer + BitVec.ofNat 16 n

end Transaction

/-- A control transfer with endpoint 0 of a device. `bytes` is what the data stage asks for: no more than the setup
    packet says, from a device only when it says so, and with room for it behind the list of descriptors. -/
structure ControlTransfer where
  device : BitVec 8
  /-- `bmRequestType` and `bRequest`. -/
  request : BitVec 16
  value : BitVec 16
  index : BitVec 16
  length : BitVec 16
  buffer : BitVec 16
  bytes : ℕ
  toHost : request.getLsbD 7 = decide (0 < bytes)
  asked : bytes ≤ length.toNat
  room : 0 < bytes → 0x0514 + 12 * ((bytes + 7) / 8 + 1) ≤ buffer.toNat ∧ buffer.toNat + bytes ≤ 0x0600

namespace ControlTransfer
variable (t : ControlTransfer)

def setupPacket : List (BitVec 16) := [t.request, t.value, t.index, t.length]

def setupStage : Transaction where
  pid := setupPid
  device := t.device
  endpoint := 0
  data1 := false
  buffer := 0x050C
  length := 8

def dataPacket (i : ℕ) : Transaction where
  pid := inPid
  device := t.device
  endpoint := 0
  data1 := i % 2 = 0
  buffer := t.buffer + BitVec.ofNat 16 (8 * i)
  length := BitVec.ofNat 10 (min 8 (t.bytes - 8 * i))

/-- The data stage begins with DATA1. -/
def dataStage : List Transaction := (List.range ((t.bytes + 7) / 8)).map t.dataPacket

/-- The status stage goes against the data, to the host where there are none. -/
def statusStage : Transaction where
  pid := if 0 < t.bytes then outPid else inPid
  device := t.device
  endpoint := 0
  data1 := true
  buffer := 0
  length := 0

def transactions : List Transaction := t.setupStage :: (t.dataStage ++ [t.statusStage])

/-- The descriptors, with the setup packet behind the first. -/
def nodes : List (Memory.Node (BitVec 16)) :=
  t.setupStage.node t.setupPacket :: (t.dataStage ++ [t.statusStage]).map (·.node [])

def encode : List (BitVec 16) := Memory.layout 0x0500 t.nodes

end ControlTransfer

namespace Request

/-- A transfer that reads a descriptor of device 2. -/
def getDescriptor (request value length buffer : BitVec 16) (bytes : ℕ)
    (toHost : request.getLsbD 7 = decide (0 < bytes)) (asked : bytes ≤ length.toNat)
    (room : 0 < bytes → 0x0514 + 12 * ((bytes + 7) / 8 + 1) ≤ buffer.toNat ∧ buffer.toNat + bytes ≤ 0x0600) :
    ControlTransfer :=
  { device := 2, request, value, index := 0, length, buffer, bytes, toHost, asked, room }

/-- A transfer without a data stage. -/
def command (device : BitVec 8) (request value : BitVec 16) (toHost : request.getLsbD 7 = false) : ControlTransfer where
  device := device
  request := request
  value := value
  index := 0
  length := 0
  buffer := 0
  bytes := 0
  toHost := toHost
  asked := Nat.zero_le _
  room h := absurd h (Nat.lt_irrefl 0)

/-- What each request asks for. The keyboard is device 2 once `UsbSetAddress` has made it so. -/
def transfer : Request → ControlTransfer
  | setAddress => command 0 0x0500 2 (by decide)
  | deviceDesc1 => getDescriptor 0x0680 0x0100 8 0x052C 8 (by decide) (by decide) (by decide)
  | deviceDesc2 => getDescriptor 0x0680 0x0100 18 0x0544 18 (by decide) (by decide) (by decide)
  | configDesc1 => getDescriptor 0x0680 0x0200 9 0x0544 9 (by decide) (by decide) (by decide)
  | configDesc2 => getDescriptor 0x0680 0x0200 255 0x055C 34 (by decide) (by decide) (by decide)
  | setConfig => command 2 0x0900 1 (by decide)
  | classRequest => command 2 0x0A21 0 (by decide)
  | hidDesc => getDescriptor 0x0681 0x2100 123 0x0544 8 (by decide) (by decide) (by decide)
  | reportDesc => getDescriptor 0x0681 0x2200 123 0x0580 59 (by decide) (by decide) (by decide)

end Request

/-- The transaction of `keyboardPoll`. -/
def pollTransaction (dataSize toggle : BitVec 8) : Transaction where
  pid := inPid
  device := 2
  endpoint := 1
  data1 := toggle % 2 = 0
  buffer := 0x051C
  length := dataSize.setWidth 10 &&& 0xF

/-- The words of the chip's memory that the driver stores lists in, and its pointer to one. -/
def DriverWord (q : BitVec 16) : Prop := q = husbSie1PCurrentTDPtr ∨ 0x0500 ≤ q.toNat ∧ q.toNat < 0x0600

/-- A chip on the bus as a request counts on it. An access meets what else the chip does in the meantime; while the
    driver stores a list, that leaves the driver's words alone. `HPI_DATA` stores a word and goes on to the next. -/
structure HpiChip (κ ι : Type*) where
  next : κ → ι × Call → κ
  address : κ → BitVec 16
  word : κ → BitVec 16 → BitVec 16
  address_addr : ∀ s i a, address (next s (i, .write hpiAddr a)) = a
  address_data : ∀ s i d, address (next s (i, .write hpiData d)) = address s + 2
  word_addr : ∀ s i a q, DriverWord q → word (next s (i, .write hpiAddr a)) q = word s q
  word_data : ∀ s i d q, DriverWord q →
    word (next s (i, .write hpiData d)) q = if q = address s then d else word s q

/-- A chip that only keeps what is stored. -/
def memoryChip : HpiChip (BitVec 16 × (BitVec 16 → BitVec 16)) Unit where
  next s op :=
    match op.2 with
    | .write port d =>
      if port = hpiAddr then (d, s.2) else if port = hpiData then (s.1 + 2, Function.update s.2 s.1 d) else s
    | .read port => if port = hpiData then (s.1 + 2, s.2) else s
  address s := s.1
  word s := s.2
  address_addr _ _ _ := rfl
  address_data _ _ _ := rfl
  word_addr _ _ _ _ _ := rfl
  word_data _ _ _ _ _ := Function.update_apply ..

end Pacman
