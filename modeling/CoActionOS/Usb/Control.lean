import CoActionOS.Cafs.Medium

/-!
# The control endpoint of the USB device

`usb_dev_std_setup` answers the standard requests.  The handler of a request sets where the data stage reads and, if it
clips it, how much of `wLength` is sent; the first packet is sent at once and one more for each IN interrupt.

The class and vendor requests and what the calls do to the hardware are not modelled.
-/

namespace CoActionOS

namespace Usb

open Cafs (Bytes u16 u32 slice overwrite)

def usbMaxPacket0 : Nat := 64
def usbLogicEpNum : Nat := 16
def usbDevAltSettingSize : Nat := 4
def usbEndpointIn : UInt8 := 0x80
def usbDevEpMask : UInt8 := 0x8F
def usbDevRequestStandard : Nat := 0
def usbDefaultEpMask : BitVec 32 := 0x00010001

/-! ### Requests -/

inductive Direction
  | hostToDevice | deviceToHost
  deriving DecidableEq, Repr

/-- The standard requests, by `bRequest`. -/
inductive Request
  | getStatus | clearFeature | setFeature | setAddress | getDescriptor | setDescriptor | getConfiguration
  | setConfiguration | getInterface | setInterface
  deriving DecidableEq, Repr

def Request.ofCode (bRequest : UInt8) : Option Request :=
  match bRequest.toNat with
  | 0 => some .getStatus
  | 1 => some .clearFeature
  | 3 => some .setFeature
  | 5 => some .setAddress
  | 6 => some .getDescriptor
  | 7 => some .setDescriptor
  | 8 => some .getConfiguration
  | 9 => some .setConfiguration
  | 10 => some .getInterface
  | 11 => some .setInterface
  | _ => none

/-- The five bits of the recipient. -/
inductive Recipient
  | device | interface | endpoint | other
  deriving DecidableEq, Repr

def Recipient.ofCode (recipient : Nat) : Recipient :=
  match recipient with
  | 0 => .device
  | 1 => .interface
  | 2 => .endpoint
  | _ => .other

/-- `usb_setup_pkt_t`; the bytes of `wValue` and `wIndex` are read one by one. -/
structure SetupPkt where
  bmRequestType : UInt8
  bRequest : UInt8
  wValue : UInt8 × UInt8
  wIndex : UInt8 × UInt8
  wLength : BitVec 16

namespace SetupPkt

variable (pkt : SetupPkt)

def recipient : Recipient := .ofCode (pkt.bmRequestType.toNat % 32)

def type : Nat := pkt.bmRequestType.toNat / 32 % 4

def dir : Direction := if pkt.bmRequestType.toNat / 128 = 0 then .hostToDevice else .deviceToHost

end SetupPkt

/-! ### The state -/

/-- Where the variables and the descriptors are, and the characters that the serial number comes to. -/
structure Config where
  status : Nat
  cfg : Nat
  ep0Buf : Nat
  altSetting : Nat
  devDescriptor : Nat
  cfgDescriptor : Nat
  stringDescriptor : Nat
  serialno : List UInt8

/-- The variables of `usb_dev_setup.c`.  Those which are sent from are in the memory. -/
structure UsbDev where
  mem : Bytes
  addr : UInt8
  epMask : BitVec 32
  epHalt : BitVec 32
  epStall : BitVec 32
  numInterfaces : UInt8
  setupPkt : SetupPkt
  dptr : Nat
  cnt : BitVec 16

/-- What a handler comes to: it is refused, or it has set up the data stage, or it has gone over the end of an array. -/
inductive Handled
  | refused (s : UsbDev)
  | overrun
  | done (s : UsbDev)

/-- `usb_dev_decode_ep` -/
def decodeEp (ep : UInt8) : BitVec 32 :=
  if ep &&& usbEndpointIn ≠ 0 then (BitVec.ofNat 32 ep.toNat <<< usbLogicEpNum) <<< (ep.toNat % usbLogicEpNum)
  else 1#32 <<< ep.toNat

namespace UsbDev

variable (u : Config) (s : UsbDev)

def cfg : UInt8 := s.mem u.cfg

def setCfg (cfg : UInt8) : UsbDev := { s with mem := overwrite s.mem u.cfg [cfg] }

def status : Nat := u16 s.mem u.status

def setStatus (status : Nat) : UsbDev := { s with mem := overwrite s.mem u.status (Cafs.le16 status) }

/-- An answer of two bytes in `usb_dev_std_ep0_buf`. -/
def answerEp0 (value : UInt8) : UsbDev := { s with mem := overwrite s.mem u.ep0Buf [value, 0], dptr := u.ep0Buf }

def initEp : UsbDev := { s with epHalt := 0, epMask := usbDefaultEpMask, epStall := 0 }

/-! ### The handlers -/

/-- `usb_dev_std_req_get_status` -/
def reqGetStatus : Handled :=
  let pkt := s.setupPkt
  match pkt.recipient with
  | .device => .done { s with dptr := u.status }
  | .interface =>
    if s.cfg u ≠ 0 ∧ pkt.wIndex.1 < s.numInterfaces then .done (s.answerEp0 u 0) else .refused s
  | .endpoint =>
    let i := pkt.wIndex.1 &&& usbDevEpMask
    let j := decodeEp i
    if (s.cfg u ≠ 0 ∨ i &&& 15 = 0) ∧ s.epMask &&& j ≠ 0 then
      .done (s.answerEp0 u (if s.epHalt &&& j ≠ 0 then 1 else 0))
    else .refused s
  | .other => .refused s

/-- `usb_dev_std_reg_set_clrfeature` -/
def regSetClrfeature (sc : Bool) : Handled :=
  let pkt := s.setupPkt
  match pkt.recipient with
  | .device =>
    if pkt.wValue = (1, 0) then .done (s.setStatus u (if sc then s.status u ||| 2 else s.status u &&& 0xFFFD))
    else .refused s
  | .endpoint =>
    let i := pkt.wIndex.1 &&& usbDevEpMask
    let j := decodeEp i
    if s.cfg u ≠ 0 ∧ i &&& 15 ≠ 0 ∧ s.epMask &&& j ≠ 0 then
      if pkt.wValue = (0, 0) then
        if sc then .done { s with epHalt := s.epHalt ||| j }
        else if s.epStall &&& j ≠ 0 then .done s
        else .done { s with epHalt := s.epHalt &&& ~~~j }
      else .refused s
    else .refused s
  | .interface | .other => .refused s

end UsbDev

/-- The configuration descriptor with a number: the loop stays at the end of the descriptors. -/
def cfgDescriptorAt (m : Bytes) : Nat → Nat → Nat
  | 0, p => p
  | n + 1, p => cfgDescriptorAt m n (if m p ≠ 0 then p + u16 m (p + 2) else p)

def stringDescriptorAt (m : Bytes) : Nat → Nat → Nat
  | 0, p => p
  | n + 1, p => stringDescriptorAt m n (if m p ≠ 0 then p + (m p).toNat else p)

def sizeofUsbDevDesc : Nat := 18

/-- The length of the string that is made of the serial number, with its header. -/
def serialnoLength : Nat := 32 * 2 + 2

namespace UsbDev

variable (u : Config) (s : UsbDev)

/-- The end of `usb_dev_std_req_getdesc`. -/
def sendDesc (dptr len : Nat) : UsbDev :=
  { s with dptr := dptr, cnt := if s.cnt.toNat > len then BitVec.ofNat 16 len else s.cnt }

/-- `usb_dev_std_req_getdesc` -/
def reqGetdesc : Handled :=
  let pkt := s.setupPkt
  match pkt.recipient with
  | .device =>
    match pkt.wValue.2.toNat with
    | 1 => .done (s.sendDesc u.devDescriptor sizeofUsbDevDesc)
    | 2 =>
      let p := cfgDescriptorAt s.mem pkt.wValue.1.toNat u.cfgDescriptor
      if s.mem p = 0 then .refused s else .done (s.sendDesc p (u16 s.mem (p + 2)))
    | 3 =>
      let p := stringDescriptorAt s.mem pkt.wValue.1.toNat u.stringDescriptor
      if s.mem p = 0 then .refused s
      else if u32 s.mem (p + 2) = 0 then
        -- the string is written to `usb_dev_std_ep0_buf`
        if usbMaxPacket0 < serialnoLength then .overrun
        else
          .done ({ s with mem := overwrite s.mem u.ep0Buf (UInt8.ofNat serialnoLength :: 3 :: u.serialno) }.sendDesc u.ep0Buf
            serialnoLength)
      else .done (s.sendDesc p (s.mem p).toNat)
    | _ => .refused s
  | .interface | .endpoint | .other => .refused s

/-- `usb_dev_std_req_setaddr` -/
def reqSetaddr : Handled :=
  match s.setupPkt.recipient with
  | .device => .done { s with addr := usbEndpointIn ||| s.setupPkt.wValue.1 }
  | .interface | .endpoint | .other => .refused s

/-- `usb_dev_std_req_getcfg` -/
def reqGetcfg : Handled :=
  match s.setupPkt.recipient with
  | .device => .done { s with dptr := u.cfg }
  | .interface | .endpoint | .other => .refused s

/-- The configuration whose descriptor is at `p` is taken. -/
def configure (p : Nat) : UsbDev :=
  let s := s.setCfg u s.setupPkt.wValue.1
  let s := { s with numInterfaces := s.mem (p + 4) }
  let s := { s with mem := overwrite s.mem u.altSetting [0, 0, 0, 0] }.initEp
  s.setStatus u (if s.mem (p + 7) &&& 0x40 ≠ 0 then s.status u ||| 1 else s.status u &&& 0xFFFE)

/-- The loop of `usb_dev_std_req_setcfg` over the descriptors; `none` is that it takes more turns. -/
def setcfgLoop : Nat → UsbDev → Nat → UInt8 → Option UsbDev
  | 0, _, _, _ => none
  | fuel + 1, s, p, alternateSetting =>
    if s.mem p = 0 then some s
    else
      match (s.mem (p + 1)).toNat with
      | 2 =>
        if s.mem (p + 5) = s.setupPkt.wValue.1 then
          let s := s.configure u p
          setcfgLoop fuel s (p + (s.mem p).toNat) alternateSetting
        else setcfgLoop fuel s (p + u16 s.mem (p + 2)) alternateSetting
      | 4 => setcfgLoop fuel s (p + (s.mem p).toNat) (s.mem (p + 3))
      | 5 =>
        if alternateSetting = 0 then
          let s := { s with epMask := s.epMask ||| decodeEp (s.mem (p + 2) &&& usbDevEpMask) }
          setcfgLoop fuel s (p + (s.mem p).toNat) alternateSetting
        else setcfgLoop fuel s (p + (s.mem p).toNat) alternateSetting
      | _ => setcfgLoop fuel s (p + (s.mem p).toNat) alternateSetting

/-- `usb_dev_std_req_setcfg` -/
def reqSetcfg (fuel : Nat) : Option Handled :=
  match s.setupPkt.recipient with
  | .device =>
    let s? :=
      if s.setupPkt.wValue.1 ≠ 0 then setcfgLoop u fuel s u.cfgDescriptor 0 else some (s.setCfg u 0).initEp
    s?.map fun s => if s.cfg u ≠ s.setupPkt.wValue.1 then .refused s else .done s
  | .interface | .endpoint | .other => some (.refused s)

/-- `usb_dev_std_req_getinterface` -/
def reqGetinterface : Handled :=
  let pkt := s.setupPkt
  match pkt.recipient with
  | .interface =>
    if s.cfg u ≠ 0 ∧ pkt.wIndex.1 < s.numInterfaces then
      if usbDevAltSettingSize ≤ pkt.wIndex.1.toNat then .overrun
      else .done { s with dptr := u.altSetting + pkt.wIndex.1.toNat }
    else .refused s
  | .device | .endpoint | .other => .refused s

end UsbDev

/-- The local variables of `usb_dev_std_req_setinterface`. -/
structure SetInterface where
  interfaceNumber : UInt8
  alternateSetting : UInt8
  prevInterfaceNumber : UInt8
  mask : BitVec 32
  ret : Bool

namespace UsbDev

variable (u : Config) (s : UsbDev)

/-- An endpoint of the interface that is set. -/
def setEndpoint (x : SetInterface) (j : BitVec 32) : UsbDev × SetInterface :=
  if x.alternateSetting = s.setupPkt.wValue.1 then
    ({ s with epMask := s.epMask ||| j, epHalt := s.epHalt &&& ~~~j }, { x with mask := x.mask ||| j })
  else if x.alternateSetting = x.prevInterfaceNumber ∧ x.mask &&& j = 0 then
    ({ s with epMask := s.epMask &&& ~~~j, epHalt := s.epHalt &&& ~~~j }, x)
  else (s, x)

/-- The loop of `usb_dev_std_req_setinterface`. -/
def setinterfaceLoop : Nat → UsbDev → Nat → SetInterface → Option Handled
  | 0, _, _, _ => none
  | fuel + 1, s, p, x =>
    if s.mem p = 0 then some (if x.ret then .done s else .refused s)
    else
      match (s.mem (p + 1)).toNat with
      | 2 =>
        if s.mem (p + 5) ≠ s.cfg u then setinterfaceLoop fuel s (p + u16 s.mem (p + 2)) x
        else setinterfaceLoop fuel s (p + (s.mem p).toNat) x
      | 4 =>
        let x := { x with interfaceNumber := s.mem (p + 2), alternateSetting := s.mem (p + 3), mask := 0 }
        if x.interfaceNumber = s.setupPkt.wIndex.1 ∧ x.alternateSetting = s.setupPkt.wValue.1 then
          if usbDevAltSettingSize ≤ x.interfaceNumber.toNat then some .overrun
          else
            let a := u.altSetting + x.interfaceNumber.toNat
            let x := { x with ret := true, prevInterfaceNumber := s.mem a }
            let s := { s with mem := overwrite s.mem a [x.alternateSetting] }
            setinterfaceLoop fuel s (p + (s.mem p).toNat) x
        else setinterfaceLoop fuel s (p + (s.mem p).toNat) x
      | 5 =>
        if x.interfaceNumber = s.setupPkt.wIndex.1 then
          let (s, x) := s.setEndpoint x (decodeEp (s.mem (p + 2) &&& usbDevEpMask))
          setinterfaceLoop fuel s (p + (s.mem p).toNat) x
        else setinterfaceLoop fuel s (p + (s.mem p).toNat) x
      | _ => setinterfaceLoop fuel s (p + (s.mem p).toNat) x

/-- `usb_dev_std_req_setinterface` -/
def reqSetinterface (fuel : Nat) : Option Handled :=
  match s.setupPkt.recipient with
  | .interface =>
    if s.cfg u = 0 then some (.refused s) else setinterfaceLoop u fuel s u.cfgDescriptor ⟨0, 0, 0, 0, false⟩
  | .device | .endpoint | .other => some (.refused s)

/-! ### The events of the endpoint -/

/-- `usb_dev_std_datain_stage`, with the packet that it writes. -/
def datainStage : UsbDev × List UInt8 :=
  let cnt := if s.cnt.toNat > usbMaxPacket0 then usbMaxPacket0 else s.cnt.toNat
  ({ s with dptr := s.dptr + cnt, cnt := s.cnt - BitVec.ofNat 16 cnt }, slice s.mem s.dptr cnt)

def stall : UsbDev := { s with cnt := 0 }

end UsbDev

/-- What comes of a setup packet: the endpoint is stalled, or a packet is sent, or an array was overrun. -/
inductive Reply
  | stalled (s : UsbDev)
  | sent (s : UsbDev) (packet : List UInt8)
  | overrun

def Handled.datain : Handled → Reply
  | .refused s => .stalled s.stall
  | .overrun => .overrun
  | .done s => .sent s.datainStage.1 s.datainStage.2

/-- `usb_dev_std_statusin_stage` writes an empty packet. -/
def Handled.statusin : Handled → Reply
  | .refused s => .stalled s.stall
  | .overrun => .overrun
  | .done s => .sent s []

namespace UsbDev

variable (u : Config) (s : UsbDev)

/-- A standard request; `none` is that a loop over the descriptors takes more turns. -/
def standardRequest (fuel : Nat) : Option Reply :=
  match Request.ofCode s.setupPkt.bRequest with
  | some .getStatus => some (s.reqGetStatus u).datain
  | some .clearFeature => some (s.regSetClrfeature u false).statusin
  | some .setFeature => some (s.regSetClrfeature u true).statusin
  | some .setAddress => some s.reqSetaddr.statusin
  | some .getDescriptor => some (s.reqGetdesc u).datain
  | some .setDescriptor => some (.stalled s.stall)
  | some .getConfiguration => some (s.reqGetcfg u).datain
  | some .setConfiguration => (s.reqSetcfg u fuel).map (·.statusin)
  | some .getInterface => some (s.reqGetinterface u).datain
  | some .setInterface => (s.reqSetinterface u fuel).map (·.statusin)
  | none => some (.stalled s.stall)

/-- `usb_dev_std_setup` for `USB_SETUP_EVENT`.  What it does for the other types of requests is not modelled. -/
def setupEvent (fuel : Nat) (pkt : SetupPkt) : Option Reply :=
  if pkt.type = usbDevRequestStandard then
    { s with setupPkt := pkt, cnt := pkt.wLength }.standardRequest u fuel
  else none

end UsbDev

/-- The events of a data stage: the others are those of its end. -/
inductive BusEvent
  | inEvent | inEventStall | outEventStall
  deriving DecidableEq, Repr

namespace UsbDev

/-- `usb_dev_std_setup` for these events. -/
def busEvent (s : UsbDev) : BusEvent → UsbDev × Option (List UInt8)
  | .inEvent =>
    match s.setupPkt.dir with
    | .deviceToHost => (s.datainStage.1, some s.datainStage.2)
    | .hostToDevice =>
      if s.addr &&& usbEndpointIn ≠ 0 then ({ s with addr := s.addr &&& 0x7F }, none) else (s, none)
  | .inEventStall | .outEventStall => (s, none)

/-- The packets that are sent. -/
def packets : UsbDev → List BusEvent → List (List UInt8)
  | _, [] => []
  | s, e :: es => (s.busEvent e).2.toList ++ packets (s.busEvent e).1 es

end UsbDev

end Usb

end CoActionOS
