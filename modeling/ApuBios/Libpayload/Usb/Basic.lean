import Mathlib.Tactic

/-!
# The USB core

Model of `drivers/usb/usb.c` of libpayload: the table of the devices of a controller, and how a device
is given an address and its descriptors are read. An access outside of the table, of a buffer that has
been allocated for a descriptor, or of the endpoints of a device is a fault.
-/

namespace ApuBios.Usb

abbrev Byte := BitVec 8

/-! ### Devices and controllers -/

inductive Direction where
  | setup
  | in_
  | out
  deriving DecidableEq

/-- `endpoint_t`, whose type is the byte of the descriptor. -/
structure Endpoint where
  endpoint : ℕ
  direction : Direction
  toggle : ℕ
  maxpacketsize : ℕ
  type : ℕ
  interval : ℤ
  deriving DecidableEq

/-- An endpoint of zero bytes. -/
def Endpoint.zero : Endpoint := ⟨0, .setup, 0, 0, 0, 0⟩

/-- The functions that `usbdev_t` may have as `init`. -/
inductive Init where
  | nop
  | hid
  | msc
  | hub
  | generic
  deriving DecidableEq

/-- `usbdev_t` -/
structure Usbdev where
  endpoints : Fin 32 → Endpoint
  num_endp : ℕ
  address : ℤ
  hub : ℤ
  port : ℤ
  speed : ℤ
  quirks : ℕ
  descriptor : List Byte
  configuration : List Byte
  init : Init

/-- The table `devices` of a controller. -/
abbrev Hci := Fin 128 → Option Usbdev

/-- `dev_req_t` -/
structure DevReq where
  bmRequestType : ℕ
  bRequest : ℕ
  wValue : ℕ
  wIndex : ℕ
  wLength : ℕ

/-- What `control` returns, and the bytes that it stores. -/
structure Answer where
  ret : ℤ
  data : List Byte

/-- A device that is attached: its answers to the requests in turn, and what the buffers on the stack
and the memory for its entry hold before. -/
structure Device where
  control : ℕ → DevReq → Answer
  stack : ℕ → Byte
  fresh : Usbdev

/-- An access outside of the buffer of a descriptor, or of the endpoints of a device. -/
inductive Access where
  | descriptor
  | endpoints
  deriving DecidableEq

/-- An access outside of the table of a controller, or one of these. -/
inductive Fault where
  | devices
  | access (a : Access)
  deriving DecidableEq

/-- What does not change while a device is attached: the drivers that are compiled in, the function
`set_address`, and what `finish_device_config` returns, 0 if there is none. -/
structure Controller where
  USB_HID : Bool
  USB_MSC : Bool
  USB_HUB : Bool
  set_address : Device → Hci → (speed hubport hubaddr : ℤ) → Option (ℤ × Hci)
  finish_device_config : ℤ

def SET_ADDRESS : ℕ := 5
def GET_DESCRIPTOR : ℕ := 6

/-- `gen_bmRequestType (device_to_host, standard_type, dev_recp)` -/
def deviceToHost : ℕ := 0x80

/-! ### Buffers -/

/-- The byte at an offset of a buffer. -/
def byteAt (buf : List Byte) (offset : ℤ) : Byte := (buf[offset.toNat]?).getD 0

/-- Some bytes of a buffer. -/
def Inside (buf : List Byte) (offset : ℤ) (n : ℕ) : Prop := 0 ≤ offset ∧ offset + n ≤ buf.length

instance (buf : List Byte) (offset : ℤ) (n : ℕ) : Decidable (Inside buf offset n) :=
  inferInstanceAs (Decidable (_ ∧ _))

def readByte (buf : List Byte) (offset : ℤ) : Except Access Byte :=
  if Inside buf offset 1 then .ok (byteAt buf offset) else .error .descriptor

def readShort (buf : List Byte) (offset : ℤ) : Except Access ℕ := do
  let low ← readByte buf offset
  let high ← readByte buf (offset + 1)
  return low.toNat + 256 * high.toNat

/-- What a transfer leaves in a buffer. -/
def stored (buf data : List Byte) : List Byte := data.take buf.length ++ buf.drop data.length

/-- The request of `get_descriptor`. -/
def descriptorRequest (bmRequestType descType descIdx langID wLength : ℕ) : DevReq :=
  ⟨bmRequestType, GET_DESCRIPTOR, descType * 256 + descIdx, langID, wLength⟩

/-- `buf` -/
def descriptorHead (d : Device) (n : ℕ) (request : ℕ → DevReq) : List Byte :=
  stored ((List.range 8).map d.stack) (d.control n (request 8)).data

/-- `result`, which is as large as the first bytes say. -/
def descriptorBytes (d : Device) (n : ℕ) (request : ℕ → DevReq) : List Byte :=
  let buf := descriptorHead d n request
  let size :=
    if byteAt buf 1 = 2 then (byteAt buf 2).toNat + 256 * (byteAt buf 3).toNat
    else (byteAt buf 0).toNat
  stored (List.replicate size 0) (d.control (n + 1) (request size)).data

def getDescriptor (d : Device) (n : ℕ) (dev : Usbdev) (bmRequestType descType descIdx langID : ℕ) :
    Usbdev × List Byte :=
  let request := descriptorRequest bmRequestType descType descIdx langID
  let buf := descriptorHead d n request
  let ep := { dev.endpoints 0 with maxpacketsize := (byteAt buf 7).toNat }
  let dev :=
    if descType = 1 ∧ byteAt buf 7 ≠ 0 then
      { dev with endpoints := Function.update dev.endpoints 0 ep }
    else
      dev
  (dev, descriptorBytes d n request)

/-! ### Descriptors -/

/-- The vendor, the device, the quirks and the number of interfaces. -/
def usb_quirks : List (ℕ × ℕ × ℕ × ℕ) :=
  [(0x3538, 0x0054, 0, 0), (0x13fd, 0x0841, 0, 0), (0x1267, 0x0103, 0, 1), (0x0a12, 0x0001, 0, 1)]

def usbQuirkCheck (vendor device : ℕ) : ℕ :=
  match usb_quirks.find? fun q => q.1 == vendor && q.2.1 == device with
  | some q => q.2.2.1
  | none => 0

def usbInterfaceCheck (vendor device : ℕ) : ℕ :=
  match usb_quirks.find? fun q => q.1 == vendor && q.2.1 == device with
  | some q => q.2.2.2
  | none => 0

/-- `LOG2` of 0 is not defined. -/
def usbDecodeInterval (speed : ℤ) (type bInterval : ℕ) : ℤ :=
  match speed, type with
  | 1, 1 | 1, 3 => Nat.log2 bInterval + 3
  | 0, 1 => (bInterval : ℤ) - 1 + 3
  | 0, 3 => Nat.log2 bInterval + 3
  | 2, 1 | 2, 3 => (bInterval : ℤ) - 1
  | 2, _ => Nat.log2 bInterval
  | 3, 1 | 3, 3 => (bInterval : ℤ) - 1
  | _, _ => 0

/-- `dev->endpoints[dev->num_endp++]` -/
def addEndpoint (dev : Usbdev) (ep : Endpoint) : Except Access Usbdev :=
  if h : dev.num_endp < 32 then
    .ok { dev with
      endpoints := Function.update dev.endpoints ⟨dev.num_endp, h⟩ ep
      num_endp := dev.num_endp + 1 }
  else
    .error .endpoints

/-- The loop over the endpoints of an interface, with the number that is left. -/
def endpointLoop (cd : List Byte) : ℕ → (endp : ℤ) → Usbdev → Except Access (ℤ × Usbdev)
  | 0, endp, dev => .ok (endp, dev)
  | n + 1, endp, dev => do
    let bEndpointAddress ← readByte cd (endp + 2)
    let wMaxPacketSize ← readShort cd (endp + 4)
    let bmAttributes ← readByte cd (endp + 3)
    let bInterval ← readByte cd (endp + 6)
    let dev ← addEndpoint dev
      { endpoint := bEndpointAddress.toNat
        direction := if bEndpointAddress &&& 0x80 = 0 then .out else .in_
        toggle := 0
        maxpacketsize := wMaxPacketSize
        type := bmAttributes.toNat
        interval := usbDecodeInterval dev.speed bmAttributes.toNat bInterval.toNat }
    let bLength ← readByte cd endp
    endpointLoop cd n (endp + bLength.toNat) dev

/-- What is printed of an interface. The arguments are evaluated without debug messages, too. -/
def debugInterface (cd : List Byte) (current : ℤ) : Except Access Unit := do
  let _bInterfaceNumber ← readByte cd (current + 2)
  let _bNumEndpoints ← readByte cd (current + 4)
  let _bInterfaceClass ← readByte cd (current + 5)
  let _bInterfaceSubClass ← readByte cd (current + 6)
  let _bInterfaceProtocol ← readByte cd (current + 7)

/-- The first endpoint descriptor. One other descriptor is skipped, by a length that is signed. -/
def firstEndpoint (cd : List Byte) (current : ℤ) : Except Access ℤ := do
  let bLength ← readByte cd current
  let endp := current + bLength.toNat
  let bDescriptorType ← readByte cd (endp + 1)
  if bDescriptorType ≠ 5 then
    let skipped ← readByte cd endp
    return endp + skipped.toInt
  else
    return endp

/-- The loop over the interfaces, with the number that is left. -/
def interfaceLoop (dd cd : List Byte) : ℕ → (current : ℤ) → Usbdev → Except Access Usbdev
  | 0, _, dev => .ok dev
  | n + 1, current, dev => do
    debugInterface cd current
    let endp ← firstEndpoint cd current
    let bMaxPacketSize0 ← readByte dd 7
    let bInterval ← readByte cd (endp + 6)
    let ep := { Endpoint.zero with
      maxpacketsize := bMaxPacketSize0.toNat
      interval := usbDecodeInterval dev.speed 0 bInterval.toNat }
    let dev := { dev with
      endpoints := Function.update (fun _ => Endpoint.zero) 0 ep
      num_endp := 1 }
    let bNumEndpoints ← readByte cd (current + 4)
    let (endp, dev) ← endpointLoop cd bNumEndpoints.toNat endp dev
    interfaceLoop dd cd n endp dev

/-- The function for a class. -/
def classInit (c : Controller) (deviceClass : Byte) : Init :=
  if deviceClass = 0x03 ∧ c.USB_HID then .hid
  else if deviceClass = 0x08 ∧ c.USB_MSC then .msc
  else if deviceClass = 0x09 ∧ c.USB_HUB then .hub
  else .generic

/-- How many interfaces are looked at. -/
def interfaceCount (idVendor idProduct bNumInterfaces : ℕ) : ℕ :=
  if 1 < bNumInterfaces then
    let interfaces := usbInterfaceCheck idVendor idProduct
    if interfaces ≠ 0 then interfaces else 1
  else
    bNumInterfaces

/-- `set_address` from the configuration descriptor on. -/
def readConfiguration (c : Controller) (d : Device) (dd : List Byte) (idVendor idProduct : ℕ)
    (dev : Usbdev) : Except Access Usbdev := do
  let (dev, cd) := getDescriptor d 3 dev deviceToHost 2 0 0
  let dev := { dev with configuration := cd }
  let bLength ← readByte cd 0
  let interface : ℤ := bLength.toNat
  let bNumInterfaces ← readByte cd 4
  let dev ← interfaceLoop dd cd (interfaceCount idVendor idProduct bNumInterfaces.toNat) interface dev
  if c.finish_device_config ≠ 0 then
    return dev
  -- `set_configuration` does not look at the answer
  let _bConfigurationValue ← readByte cd 5
  let bDeviceClass ← readByte dd 4
  let deviceClass ← if bDeviceClass = 0 then readByte cd (interface + 5) else pure bDeviceClass
  return { dev with init := classInit c deviceClass }

/-- `set_address` behind the address: whether the device is usable, and what is known of it. -/
def readDescriptors (c : Controller) (d : Device) (dev : Usbdev) : Except Access (Bool × Usbdev) := do
  let (dev, dd) := getDescriptor d 1 dev deviceToHost 1 0 0
  let idVendor ← readShort dd 8
  let idProduct ← readShort dd 10
  let _bcdUSB ← readShort dd 2
  let dev := { dev with descriptor := dd, quirks := usbQuirkCheck idVendor idProduct }
  let bNumConfigurations ← readByte dd 17
  if bNumConfigurations = 0 then
    return (false, { dev with address := 0 })
  let dev ← readConfiguration c d dd idVendor idProduct dev
  return (true, dev)

/-! ### Addresses -/

/-- The index of a device in the table. -/
def index (adr : ℤ) : Option (Fin 128) :=
  if h : 0 ≤ adr ∧ adr < 128 then some ⟨adr.toNat, by omega⟩ else none

/-- An access outside of the table is a fault. -/
def inTable {α : Type} (r : Option α) : Except Fault α := r.elim (.error .devices) .ok

def initDeviceEntry (d : Device) (hci : Hci) (i : Fin 128) : Hci :=
  Function.update hci i
    (some { d.fresh with address := -1, hub := -1, port := -1, descriptor := [], init := .nop })

/-- The first free address, or -1. -/
def getFreeAddress (hci : Hci) : ℤ :=
  match (List.finRange 128).find? fun i => i.val ≠ 0 ∧ (hci i).isNone with
  | some i => i
  | none => -1

def genericSetAddress (d : Device) (hci : Hci) (speed hubport hubaddr : ℤ) : Option (ℤ × Hci) :=
  let adr := getFreeAddress hci
  (index adr).map fun i =>
    let hci := initDeviceEntry d hci i
    let hci := Function.update hci i ((hci i).map fun dev =>
      let ep := { dev.endpoints 0 with
        endpoint := 0
        maxpacketsize := 8
        toggle := 0
        direction := .setup }
      { dev with
        address := 0
        hub := hubaddr
        port := hubport
        speed := speed
        endpoints := Function.update dev.endpoints 0 ep })
    if (d.control 0 ⟨0, SET_ADDRESS, adr.toNat, 0, 0⟩).ret ≠ 0 then (-1, hci) else (adr, hci)

def setAddress (c : Controller) (d : Device) (hci : Hci) (speed hubport hubaddr : ℤ) :
    Except Fault (ℤ × Hci) := do
  let (adr, hci) ← inTable (c.set_address d hci speed hubport hubaddr)
  if adr < 0 then
    return (-1, hci)
  let i ← inTable (index adr)
  match hci i with
  | none => return (-1, hci)
  | some dev =>
    let dev := { dev with address := adr, hub := hubaddr, port := hubport, speed := speed }
    let (usable, dev) ← (readDescriptors c d dev).mapError .access
    return (if usable then adr else -1, Function.update hci i (some dev))

end ApuBios.Usb
