import CoActionOS.Lib.Pieces
import CoActionOS.Usb.Control

/-!
# The data stage of a control transfer

The first packet and those of the IN interrupts are the pieces of what a handler has set up (`packets_eq`).  That is the
response to the request, cut to `wLength`, if the handler clips the length, as only the one of `GET_DESCRIPTOR` does, or
the host does not ask for more (`data_stage_iff`).
-/

namespace CoActionOS

namespace Usb

open Cafs (Bytes u16 u32 slice overwrite)
open Pieces (pieces Brings)

/-! ### The statement -/

/-- What a request asks for; `none` is that there is no such thing. -/
def response (u : Config) (s : UsbDev) (pkt : SetupPkt) : Option (List UInt8) :=
  match Request.ofCode pkt.bRequest with
  | some .getStatus =>
    match pkt.recipient with
    | .device => some (slice s.mem u.status 2)
    | .interface => some [0, 0]
    | .endpoint => some [if s.epHalt &&& decodeEp (pkt.wIndex.1 &&& usbDevEpMask) ≠ 0 then 1 else 0, 0]
    | .other => none
  | some .getDescriptor =>
    match pkt.wValue.2.toNat with
    | 1 => some (slice s.mem u.devDescriptor sizeofUsbDevDesc)
    | 2 =>
      let p := cfgDescriptorAt s.mem pkt.wValue.1.toNat u.cfgDescriptor
      some (slice s.mem p (u16 s.mem (p + 2)))
    | 3 =>
      let p := stringDescriptorAt s.mem pkt.wValue.1.toNat u.stringDescriptor
      if u32 s.mem (p + 2) = 0 then some (UInt8.ofNat serialnoLength :: 3 :: u.serialno)
      else some (slice s.mem p (s.mem p).toNat)
    | _ => none
  | some .getConfiguration => some [s.mem u.cfg]
  | some .getInterface =>
    if pkt.wIndex.1.toNat < usbDevAltSettingSize then some [s.mem (u.altSetting + pkt.wIndex.1.toNat)] else none
  | _ => some []

/-- At every time of the data stage the packets bring the first `wLength` bytes of the response, as far as they go. -/
def Reply.Bounded (u : Config) (s : UsbDev) (pkt : SetupPkt) (reply : Reply) : Prop :=
  ∃ s' packet r, reply = .sent s' packet ∧ response u s pkt = some r ∧
    ∀ es, Brings usbMaxPacket0 (r.take pkt.wLength.toNat) (packet :: s'.packets es)

/-- The host asks for no more than there is where the length is not clipped, and no array is too small. -/
def Fits (u : Config) (s : UsbDev) (pkt : SetupPkt) : Prop :=
  match Request.ofCode pkt.bRequest with
  | some .getStatus => pkt.wLength.toNat ≤ 2
  | some .getDescriptor =>
    pkt.wValue.2.toNat = 3 → u32 s.mem (stringDescriptorAt s.mem pkt.wValue.1.toNat u.stringDescriptor + 2) ≠ 0
  | some .getConfiguration => pkt.wLength.toNat ≤ 1
  | some .getInterface => pkt.wLength.toNat ≤ 1 ∧ pkt.wIndex.1.toNat < usbDevAltSettingSize
  | some .setInterface => pkt.wLength = 0 ∧ pkt.wIndex.1.toNat < usbDevAltSettingSize
  | _ => pkt.wLength = 0

/-! ### The data stage -/

section

variable {u : Config} {s s' : UsbDev} {pkt : SetupPkt} {r : List UInt8}

theorem take_slice (m : Bytes) (o n k : Nat) : (slice m o n).take k = slice m o (min k n) := by
  unfold slice
  rw [← List.map_take, List.take_range]

theorem drop_slice (m : Bytes) (o n k : Nat) : (slice m o n).drop k = slice m (o + k) (n - k) := by
  apply List.ext_getElem
  · rw [List.length_drop, Cafs.length_slice, Cafs.length_slice]
  · intro i h1 h2
    rw [List.getElem_drop, Cafs.getElem_slice, Cafs.getElem_slice, Nat.add_assoc]

/-- The stage sends the next packet of what is left. -/
theorem packet_datainStage : s.datainStage.2 = (slice s.mem s.dptr s.cnt.toNat).take usbMaxPacket0 := by
  unfold UsbDev.datainStage
  dsimp only
  rw [take_slice]
  congr 1
  split_ifs <;> omega

theorem left_datainStage :
    slice s.datainStage.1.mem s.datainStage.1.dptr s.datainStage.1.cnt.toNat =
      (slice s.mem s.dptr s.cnt.toNat).drop usbMaxPacket0 := by
  have hcnt := s.cnt.isLt
  unfold UsbDev.datainStage
  dsimp only
  rw [drop_slice]
  by_cases hlong : s.cnt.toNat > usbMaxPacket0
  · have hle : BitVec.ofNat 16 usbMaxPacket0 ≤ s.cnt := BitVec.le_def.mpr hlong.le
    rw [if_pos hlong, BitVec.toNat_sub_of_le hle]
    rfl
  · have hzero : s.cnt.toNat - usbMaxPacket0 = 0 := by omega
    rw [if_neg hlong, BitVec.ofNat_toNat, BitVec.setWidth_eq, BitVec.sub_self, hzero]
    rfl

theorem setupPkt_datainStage : s.datainStage.1.setupPkt = s.setupPkt := rfl

/-- The packets of the IN events are the pieces of what is left. -/
theorem packets_eq (hdir : s.setupPkt.dir = .deviceToHost) (es : List BusEvent) :
    s.packets es = pieces usbMaxPacket0 (es.count .inEvent) (slice s.mem s.dptr s.cnt.toNat) := by
  induction es generalizing s with
  | nil => rfl
  | cons e es ih =>
    cases e with
    | inEvent =>
      have hstep : s.busEvent .inEvent = (s.datainStage.1, some s.datainStage.2) := by
        unfold UsbDev.busEvent
        rw [hdir]
      rw [UsbDev.packets, hstep, List.count_cons_self, pieces, ← packet_datainStage, ← left_datainStage]
      exact congrArg (s.datainStage.2 :: ·) (ih hdir)
    | inEventStall => exact ih hdir
    | outEventStall => exact ih hdir

/-- What was set up is the response. -/
theorem bounded_datain_iff (hr : response u s pkt = some r) (hdir : s'.setupPkt.dir = .deviceToHost) :
    ((Handled.done s').datain).Bounded u s pkt ↔ slice s'.mem s'.dptr s'.cnt.toNat = r.take pkt.wLength.toNat := by
  rw [← Pieces.forall_brings_pieces_iff (n := usbMaxPacket0) (by decide)]
  have hpackets : ∀ es, s'.datainStage.2 :: s'.datainStage.1.packets es =
      pieces usbMaxPacket0 (es.count .inEvent + 1) (slice s'.mem s'.dptr s'.cnt.toNat) := by
    intro es
    rw [packets_eq (setupPkt_datainStage ▸ hdir), left_datainStage, packet_datainStage, pieces]
  constructor
  · rintro ⟨s'', packet, r', heq, hr', h⟩ k
    obtain ⟨rfl, rfl⟩ := Reply.sent.inj heq
    obtain rfl := Option.some.inj (hr.symm.trans hr')
    have hk := h (List.replicate k .inEvent)
    rwa [hpackets, List.count_replicate_self] at hk
  · intro h
    refine ⟨_, _, r, rfl, hr, fun es => ?_⟩
    rw [hpackets]
    exact h _

/-- After the status packet nothing is to be sent. -/
theorem bounded_statusin_iff (hr : response u s pkt = some []) (hdir : s'.setupPkt.dir = .deviceToHost) :
    ((Handled.done s').statusin).Bounded u s pkt ↔ s'.cnt = 0 := by
  have hnil : slice s'.mem s'.dptr s'.cnt.toNat = [] ↔ s'.cnt = 0 := by
    rw [← List.length_eq_zero_iff, Cafs.length_slice]
    exact ⟨fun h => BitVec.eq_of_toNat_eq h, fun h => h ▸ rfl⟩
  rw [← hnil, ← Pieces.forall_brings_nil_iff (n := usbMaxPacket0) (by decide)]
  constructor
  · rintro ⟨s'', packet, r', heq, hr', h⟩ k
    obtain ⟨rfl, rfl⟩ := Reply.sent.inj heq
    obtain rfl := Option.some.inj (hr.symm.trans hr')
    have hk := h (List.replicate k .inEvent)
    rwa [packets_eq hdir, List.count_replicate_self, List.take_nil] at hk
  · intro h
    refine ⟨_, _, [], rfl, hr, fun es => ?_⟩
    rw [packets_eq hdir, List.take_nil]
    exact h _

theorem not_bounded_overrun : ¬ Reply.overrun.Bounded u s pkt := by
  rintro ⟨_, _, _, heq, -, -⟩
  exact nomatch heq

/-- A part of a piece of memory is what it is cut to. -/
theorem slice_eq_take_iff {m : Bytes} {o n k : Nat} : slice m o n = (slice m o k).take n ↔ n ≤ k := by
  rw [take_slice]
  constructor
  · intro h
    have hlen := congrArg List.length h
    rw [Cafs.length_slice, Cafs.length_slice] at hlen
    omega
  · intro h
    rw [Nat.min_eq_left h]

end

/-! ### The handlers -/

/-- A handler without a data stage leaves the packet and the length as they were. -/
def Handled.Keeps (pkt : SetupPkt) (cnt : BitVec 16) : Handled → Prop
  | .done s => s.setupPkt = pkt ∧ s.cnt = cnt
  | .refused _ => True
  | .overrun => False

section

variable {u : Config} {s s' : UsbDev} {pkt : SetupPkt} {r : List UInt8} {h : Handled} {fuel : Nat}

theorem keeps_regSetClrfeature (sc : Bool) : (s.regSetClrfeature u sc).Keeps s.setupPkt s.cnt := by
  unfold UsbDev.regSetClrfeature
  dsimp only
  split
  · split
    · exact ⟨rfl, rfl⟩
    · trivial
  · split_ifs
    all_goals first
      | exact ⟨rfl, rfl⟩
      | trivial
  · trivial
  · trivial

theorem keeps_reqSetaddr : s.reqSetaddr.Keeps s.setupPkt s.cnt := by
  unfold UsbDev.reqSetaddr
  cases s.setupPkt.recipient with
  | device => exact ⟨rfl, rfl⟩
  | interface => trivial
  | endpoint => trivial
  | other => trivial

theorem setcfgLoop_keeps {p : Nat} {alternateSetting : UInt8}
    (h : UsbDev.setcfgLoop u fuel s p alternateSetting = some s') : s'.setupPkt = s.setupPkt ∧ s'.cnt = s.cnt := by
  induction fuel generalizing s p alternateSetting with
  | zero => exact nomatch h
  | succ fuel ih =>
    unfold UsbDev.setcfgLoop at h
    split at h
    · obtain rfl := Option.some.inj h
      exact ⟨rfl, rfl⟩
    · split at h
      · split at h
        · have hkept := ih (s := s.configure u p) h
          exact hkept
        · exact ih h
      · exact ih h
      · split at h
        · have hkept := ih (s := { s with epMask := _ }) h
          exact hkept
        · exact ih h
      · exact ih h

theorem keeps_reqSetcfg (hh : s.reqSetcfg u fuel = some h) : h.Keeps s.setupPkt s.cnt := by
  unfold UsbDev.reqSetcfg at hh
  split at hh
  · obtain ⟨s', hs', rfl⟩ := Option.map_eq_some_iff.mp hh
    have hkept : s'.setupPkt = s.setupPkt ∧ s'.cnt = s.cnt := by
      split at hs'
      · exact setcfgLoop_keeps hs'
      · obtain rfl := Option.some.inj hs'
        exact ⟨rfl, rfl⟩
    split
    · trivial
    · exact hkept
  all_goals
    obtain rfl := Option.some.inj hh
    trivial

/-- What `usb_dev_std_req_setinterface` comes to: it is done only for an interface with a place in the array, and that is
overrun only for one without. -/
def Handled.SetsInterface (pkt : SetupPkt) (cnt : BitVec 16) : Handled → Prop
  | .done s => s.setupPkt = pkt ∧ s.cnt = cnt ∧ pkt.wIndex.1.toNat < usbDevAltSettingSize
  | .refused _ => True
  | .overrun => usbDevAltSettingSize ≤ pkt.wIndex.1.toNat

theorem setEndpoint_keeps (x : SetInterface) (j : BitVec 32) :
    (s.setEndpoint x j).1.setupPkt = s.setupPkt ∧ (s.setEndpoint x j).1.cnt = s.cnt ∧
      (s.setEndpoint x j).2.ret = x.ret := by
  unfold UsbDev.setEndpoint
  split_ifs
  · exact ⟨rfl, rfl, rfl⟩
  · exact ⟨rfl, rfl, rfl⟩
  · exact ⟨rfl, rfl, rfl⟩

theorem setinterfaceLoop_sets {p : Nat} {x : SetInterface}
    (hret : x.ret = true → s.setupPkt.wIndex.1.toNat < usbDevAltSettingSize)
    (hh : UsbDev.setinterfaceLoop u fuel s p x = some h) : h.SetsInterface s.setupPkt s.cnt := by
  induction fuel generalizing s p x with
  | zero => exact nomatch hh
  | succ fuel ih =>
    unfold UsbDev.setinterfaceLoop at hh
    split at hh
    -- the end of the descriptors
    · obtain rfl := Option.some.inj hh
      by_cases hdone : x.ret = true
      · rw [if_pos hdone]
        exact ⟨rfl, rfl, hret hdone⟩
      · rw [if_neg hdone]
        trivial
    · split at hh
      · split at hh
        · exact ih hret hh
        · exact ih hret hh
      -- an interface descriptor is the one asked for if the numbers agree
      · dsimp only at hh
        split at hh
        · next hfound =>
          split at hh
          · next hover =>
            obtain rfl := Option.some.inj hh
            rw [hfound.1] at hover
            exact hover
          · next hplace =>
            rw [hfound.1] at hplace
            have hsets := fun hret => ih hret hh
            exact hsets fun _ => Nat.lt_of_not_le hplace
        · have hsets := fun hret => ih hret hh
          exact hsets hret
      -- an endpoint descriptor of that interface
      · split at hh
        · have hkept := setEndpoint_keeps (s := s) x (decodeEp (s.mem (p + 2) &&& usbDevEpMask))
          generalize s.setEndpoint x (decodeEp (s.mem (p + 2) &&& usbDevEpMask)) = y at hh hkept
          obtain ⟨s', x'⟩ := y
          obtain ⟨hpkt, hcnt, hsame⟩ : s'.setupPkt = s.setupPkt ∧ s'.cnt = s.cnt ∧ x'.ret = x.ret := hkept
          have hsets := ih (by rw [hpkt, hsame]; exact hret) hh
          rwa [hpkt, hcnt] at hsets
        · exact ih hret hh
      · exact ih hret hh

theorem sets_reqSetinterface (hh : s.reqSetinterface u fuel = some h) : h.SetsInterface s.setupPkt s.cnt := by
  unfold UsbDev.reqSetinterface at hh
  split at hh
  · split at hh
    · obtain rfl := Option.some.inj hh
      trivial
    · exact setinterfaceLoop_sets (by exact nofun) hh
  all_goals
    obtain rfl := Option.some.inj hh
    trivial

end

/-! ### Each request -/

section

variable {u : Config} {s : UsbDev} {pkt : SetupPkt} {reply : Reply} {h : Handled} {fuel : Nat}

/-- The state in which the request is handled. -/
def UsbDev.asked (s : UsbDev) (pkt : SetupPkt) : UsbDev := { s with setupPkt := pkt, cnt := pkt.wLength }

theorem bounded_getStatus_iff (hreq : Request.ofCode pkt.bRequest = some .getStatus) (hdir : pkt.dir = .deviceToHost)
    (hreply : ((s.asked pkt).reqGetStatus u).datain = reply) (hans : ∀ s', reply ≠ .stalled s') :
    reply.Bounded u s pkt ↔ pkt.wLength.toNat ≤ 2 := by
  -- an answer in the buffer is read from there
  have hep0 : ∀ v : UInt8, slice ((s.asked pkt).answerEp0 u v).mem u.ep0Buf 2 = [v, 0] := by
    intro v
    refine List.ext_getElem rfl fun i h1 h2 => ?_
    rw [Cafs.getElem_slice]
    exact Cafs.overwrite_add h2
  have hanswer : ∀ v : UInt8, response u s pkt = some [v, 0] →
      ((Handled.done ((s.asked pkt).answerEp0 u v)).datain.Bounded u s pkt ↔ pkt.wLength.toNat ≤ 2) := by
    intro v hr
    rw [bounded_datain_iff hr hdir, ← hep0 v]
    exact slice_eq_take_iff
  subst hreply
  unfold response at hanswer
  rw [hreq] at hanswer
  unfold UsbDev.reqGetStatus at hans ⊢
  dsimp only at hans ⊢
  have hrecipient : (s.asked pkt).setupPkt.recipient = pkt.recipient := rfl
  rw [hrecipient] at hans ⊢
  cases hto : pkt.recipient with
  | device =>
    have hr : response u s pkt = some (slice s.mem u.status 2) := by
      unfold response
      rw [hreq]
      dsimp only
      rw [hto]
    dsimp only
    rw [bounded_datain_iff hr hdir]
    exact slice_eq_take_iff
  | interface =>
    rw [hto] at hans hanswer
    dsimp only at hans hanswer ⊢
    split at hans
    · next hif =>
      rw [if_pos hif]
      exact hanswer 0 rfl
    · exact absurd rfl (hans _)
  | endpoint =>
    rw [hto] at hans hanswer
    dsimp only at hans hanswer ⊢
    split at hans
    · next hif =>
      rw [if_pos hif]
      exact hanswer _ rfl
    · exact absurd rfl (hans _)
  | other =>
    rw [hto] at hans
    exact absurd rfl (hans _)

theorem bounded_getConfiguration_iff (hreq : Request.ofCode pkt.bRequest = some .getConfiguration)
    (hdir : pkt.dir = .deviceToHost) (hreply : ((s.asked pkt).reqGetcfg u).datain = reply)
    (hans : ∀ s', reply ≠ .stalled s') : reply.Bounded u s pkt ↔ pkt.wLength.toNat ≤ 1 := by
  have hr : response u s pkt = some (slice s.mem u.cfg 1) := by
    unfold response
    rw [hreq]
    rfl
  subst hreply
  unfold UsbDev.reqGetcfg at hans ⊢
  have hrecipient : (s.asked pkt).setupPkt.recipient = pkt.recipient := rfl
  rw [hrecipient] at hans ⊢
  cases hto : pkt.recipient with
  | device =>
    dsimp only
    rw [bounded_datain_iff hr hdir]
    exact slice_eq_take_iff
  | interface | endpoint | other =>
    rw [hto] at hans
    exact absurd rfl (hans _)

theorem bounded_getInterface_iff (hreq : Request.ofCode pkt.bRequest = some .getInterface)
    (hdir : pkt.dir = .deviceToHost) (hreply : ((s.asked pkt).reqGetinterface u).datain = reply)
    (hans : ∀ s', reply ≠ .stalled s') :
    reply.Bounded u s pkt ↔ pkt.wLength.toNat ≤ 1 ∧ pkt.wIndex.1.toNat < usbDevAltSettingSize := by
  subst hreply
  unfold UsbDev.reqGetinterface at hans ⊢
  dsimp only at hans ⊢
  have hpkt : (s.asked pkt).setupPkt = pkt := rfl
  rw [hpkt] at hans ⊢
  cases hto : pkt.recipient with
  | interface =>
    rw [hto] at hans
    dsimp only at hans ⊢
    split at hans
    · next hif =>
      rw [if_pos hif]
      by_cases hplace : usbDevAltSettingSize ≤ pkt.wIndex.1.toNat
      · rw [if_pos hplace]
        exact iff_of_false not_bounded_overrun fun h => absurd h.2 (Nat.not_lt_of_le hplace)
      · have hlt : pkt.wIndex.1.toNat < usbDevAltSettingSize := Nat.lt_of_not_le hplace
        have hr : response u s pkt = some (slice s.mem (u.altSetting + pkt.wIndex.1.toNat) 1) := by
          unfold response
          rw [hreq]
          exact if_pos hlt
        rw [if_neg hplace, bounded_datain_iff hr hdir, and_iff_left hlt]
        exact slice_eq_take_iff
    · exact absurd rfl (hans _)
  | device | endpoint | other =>
    rw [hto] at hans
    exact absurd rfl (hans _)

/-- A descriptor is clipped. -/
theorem bounded_sendDesc (hdir : pkt.dir = .deviceToHost) {p len : Nat} (hlen : len < 2 ^ 16)
    (hr : response u s pkt = some (slice s.mem p len)) :
    (Handled.done ((s.asked pkt).sendDesc p len)).datain.Bounded u s pkt := by
  rw [bounded_datain_iff hr hdir, take_slice]
  have hcnt : ((s.asked pkt).sendDesc p len).cnt.toNat = min pkt.wLength.toNat len := by
    unfold UsbDev.sendDesc UsbDev.asked
    dsimp only
    split_ifs with hgt
    · rw [BitVec.toNat_ofNat, Nat.mod_eq_of_lt hlen, Nat.min_eq_right hgt.le]
    · rw [Nat.min_eq_left (Nat.le_of_not_lt hgt)]
  rw [hcnt]
  rfl

theorem bounded_getDescriptor_iff (hreq : Request.ofCode pkt.bRequest = some .getDescriptor)
    (hdir : pkt.dir = .deviceToHost) (hreply : ((s.asked pkt).reqGetdesc u).datain = reply)
    (hans : ∀ s', reply ≠ .stalled s') :
    reply.Bounded u s pkt ↔ (pkt.wValue.2.toNat = 3 →
      u32 s.mem (stringDescriptorAt s.mem pkt.wValue.1.toNat u.stringDescriptor + 2) ≠ 0) := by
  subst hreply
  unfold UsbDev.reqGetdesc at hans ⊢
  have hpkt : (s.asked pkt).setupPkt = pkt := rfl
  have hmem : (s.asked pkt).mem = s.mem := rfl
  simp only [hpkt, hmem] at hans ⊢
  cases hto : pkt.recipient with
  | device =>
    rw [hto] at hans
    dsimp only at hans ⊢
    split at hans
    · next htype =>
      rw [htype]
      refine iff_of_true (bounded_sendDesc hdir (by decide) ?_) fun h => by cases h
      unfold response
      simp only [hreq, htype]
    · next htype =>
      rw [htype]
      split at hans
      · exact absurd rfl (hans _)
      · next hne =>
        rw [if_neg hne]
        refine iff_of_true (bounded_sendDesc hdir (Cafs.u16_lt _ _) ?_) fun h => by cases h
        unfold response
        simp only [hreq, htype]
    · next htype =>
      rw [htype, imp_iff_right rfl]
      split at hans
      · exact absurd rfl (hans _)
      · next hne =>
        rw [if_neg hne]
        by_cases hzero : u32 s.mem (stringDescriptorAt s.mem pkt.wValue.1.toNat u.stringDescriptor + 2) = 0
        · rw [if_pos hzero]
          exact iff_of_false not_bounded_overrun (not_not.mpr hzero)
        · rw [if_neg hzero]
          refine iff_of_true (bounded_sendDesc hdir ?_ ?_) hzero
          · exact Nat.lt_of_lt_of_le (UInt8.toNat_lt _) (by decide)
          · unfold response
            simp only [hreq, htype, hzero, if_false]
    · exact absurd rfl (hans _)
  | interface | endpoint | other =>
    rw [hto] at hans
    exact absurd rfl (hans _)

/-- A request that has nothing to send still lets `wLength` bytes be sent. -/
theorem bounded_statusin_of_keeps (hr : response u s pkt = some []) (hdir : pkt.dir = .deviceToHost)
    (hkeeps : h.Keeps pkt pkt.wLength) (hans : ∀ s', h.statusin ≠ .stalled s') :
    h.statusin.Bounded u s pkt ↔ pkt.wLength = 0 := by
  cases h with
  | refused s' => exact absurd rfl (hans _)
  | overrun => exact hkeeps.elim
  | done s' =>
    obtain ⟨hpkt, hcnt⟩ : s'.setupPkt = pkt ∧ s'.cnt = pkt.wLength := hkeeps
    rw [bounded_statusin_iff hr (by rw [hpkt]; exact hdir), hcnt]

theorem bounded_setInterface_iff (hr : response u s pkt = some []) (hdir : pkt.dir = .deviceToHost)
    (hsets : h.SetsInterface pkt pkt.wLength) (hans : ∀ s', h.statusin ≠ .stalled s') :
    h.statusin.Bounded u s pkt ↔ pkt.wLength = 0 ∧ pkt.wIndex.1.toNat < usbDevAltSettingSize := by
  cases h with
  | refused s' => exact absurd rfl (hans _)
  | overrun => exact iff_of_false not_bounded_overrun fun h => absurd h.2 (Nat.not_lt_of_le hsets)
  | done s' =>
    obtain ⟨hpkt, hcnt, hplace⟩ := hsets
    rw [bounded_statusin_iff hr (by rw [hpkt]; exact hdir), hcnt, and_iff_left hplace]

end

/-- The device sends what is asked for, and no more, exactly if that fits. -/
theorem data_stage_iff (u : Config) (s : UsbDev) (fuel : Nat) (pkt : SetupPkt) (reply : Reply)
    (hdir : pkt.dir = .deviceToHost) (h : s.setupEvent u fuel pkt = some reply) (hans : ∀ s', reply ≠ .stalled s') :
    reply.Bounded u s pkt ↔ Fits u s pkt := by
  -- no data is expected of the other requests
  have hnone : ∀ request, Request.ofCode pkt.bRequest = some request →
      request ≠ .getStatus → request ≠ .getDescriptor → request ≠ .getConfiguration → request ≠ .getInterface →
        response u s pkt = some [] := by
    intro request hreq
    unfold response
    rw [hreq]
    cases request with
    | getStatus => exact fun h => absurd rfl h
    | getDescriptor => exact fun _ h => absurd rfl h
    | getConfiguration => exact fun _ _ h => absurd rfl h
    | getInterface => exact fun _ _ _ h => absurd rfl h
    | _ => exact fun _ _ _ _ => rfl
  -- a packet that is not a standard request is not answered
  unfold UsbDev.setupEvent at h
  split at h
  swap
  · exact nomatch h
  change (s.asked pkt).standardRequest u fuel = some reply at h
  unfold UsbDev.standardRequest at h
  have hpkt : (s.asked pkt).setupPkt = pkt := rfl
  rw [hpkt] at h
  unfold Fits
  -- the requests, one by one
  cases hreq : Request.ofCode pkt.bRequest with
  | none =>
    rw [hreq] at h
    exact absurd (Option.some.inj h).symm (hans _)
  | some request =>
    rw [hreq] at h
    have hresp := hnone request hreq
    cases request with
    | getStatus => exact bounded_getStatus_iff hreq hdir (Option.some.inj h) hans
    | getDescriptor => exact bounded_getDescriptor_iff hreq hdir (Option.some.inj h) hans
    | getConfiguration => exact bounded_getConfiguration_iff hreq hdir (Option.some.inj h) hans
    | getInterface => exact bounded_getInterface_iff hreq hdir (Option.some.inj h) hans
    | setDescriptor => exact absurd (Option.some.inj h).symm (hans _)
    | clearFeature =>
      obtain rfl := Option.some.inj h
      exact bounded_statusin_of_keeps (hresp nofun nofun nofun nofun) hdir (keeps_regSetClrfeature false) hans
    | setFeature =>
      obtain rfl := Option.some.inj h
      exact bounded_statusin_of_keeps (hresp nofun nofun nofun nofun) hdir (keeps_regSetClrfeature true) hans
    | setAddress =>
      obtain rfl := Option.some.inj h
      exact bounded_statusin_of_keeps (hresp nofun nofun nofun nofun) hdir keeps_reqSetaddr hans
    | setConfiguration =>
      obtain ⟨handled, hh, rfl⟩ := Option.map_eq_some_iff.mp h
      exact bounded_statusin_of_keeps (hresp nofun nofun nofun nofun) hdir (keeps_reqSetcfg hh) hans
    | setInterface =>
      obtain ⟨handled, hh, rfl⟩ := Option.map_eq_some_iff.mp h
      exact bounded_setInterface_iff (hresp nofun nofun nofun nofun) hdir (sets_reqSetinterface hh) hans

/-- A device without descriptors. -/
def emptyConfig : Config := ⟨0, 2, 4, 68, 72, 72, 72, []⟩

def emptyDev : UsbDev := ⟨fun _ => 0, 0, usbDefaultEpMask, 0, 0, 0, ⟨0, 0, (0, 0), (0, 0), 0⟩, 0, 0⟩

theorem data_stage_iff_getStatus :
    ∃ reply, emptyDev.setupEvent emptyConfig 0 ⟨0x80, 0, (0, 0), (0, 0), 2⟩ = some reply ∧
      (reply.Bounded emptyConfig emptyDev ⟨0x80, 0, (0, 0), (0, 0), 2⟩ ↔
        Fits emptyConfig emptyDev ⟨0x80, 0, (0, 0), (0, 0), 2⟩) :=
  ⟨_, rfl, data_stage_iff emptyConfig emptyDev 0 ⟨0x80, 0, (0, 0), (0, 0), 2⟩ _ rfl rfl nofun⟩

/-- `GET_CONFIGURATION` for 8 bytes: the configuration is one byte, and eight are sent. -/
theorem not_data_stage : ¬ ∀ (u : Config) (s : UsbDev) (fuel : Nat) (pkt : SetupPkt) (reply : Reply),
    pkt.dir = .deviceToHost → s.setupEvent u fuel pkt = some reply → (∀ s', reply ≠ .stalled s') →
      reply.Bounded u s pkt := by
  intro h
  have hans : ∀ s', ((emptyDev.asked ⟨0x80, 8, (0, 0), (0, 0), 8⟩).reqGetcfg emptyConfig).datain ≠ .stalled s' := by
    intro s' heq
    have hdone : (emptyDev.asked ⟨0x80, 8, (0, 0), (0, 0), 8⟩).reqGetcfg emptyConfig = .done _ := rfl
    rw [hdone] at heq
    exact nomatch heq
  have hbounded := h emptyConfig emptyDev 0 ⟨0x80, 8, (0, 0), (0, 0), 8⟩ _ rfl rfl hans
  exact absurd ((bounded_getConfiguration_iff rfl rfl rfl hans).mp hbounded) (by decide)

end Usb

end CoActionOS
