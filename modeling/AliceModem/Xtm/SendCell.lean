import AliceModem.Xtm.Devices
import AliceModem.Xtm.PacketBytes

namespace AliceModem.SendCell

open ByteMemory Transmit PacketBytes

def cellPayloadSize : Nat := 48

def cellSize : Nat := 5 + cellPayloadSize

inductive CType
  | oamF5Segment
  | oamF5EndToEnd
  | oamF4Segment
  | oamF4EndToEnd
  | asmP0
  | asmP1
  | asmP2
  | asmP3

def CType.code : CType → BitVec 8
  | .oamF5Segment => 0x00
  | .oamF5EndToEnd => 0x01
  | .oamF4Segment => 0x02
  | .oamF4EndToEnd => 0x03
  | .asmP0 => 0x04
  | .asmP1 => 0x05
  | .asmP2 => 0x06
  | .asmP3 => 0x07

def CType.fstat : CType → BitVec 12
  | .oamF5Segment => 0x040
  | .oamF5EndToEnd => 0x050
  | .oamF4Segment => 0x0c0
  | .oamF4EndToEnd => 0x0d0
  | .asmP0 => 0x080
  | .asmP1 => 0x090
  | .asmP2 => 0x0a0
  | .asmP3 => 0x0b0

inductive ConnAddr
  | vcc (ulPortMask : Nat)
  | flow (ulPortMask : Nat)

def ConnAddr.ulPortMask : ConnAddr → Nat
  | .vcc ulPortMask => ulPortMask
  | .flow ulPortMask => ulPortMask

structure Cell where
  connAddr : ConnAddr
  ucCircuitType : BitVec 8
  ucData : List UInt8
  length_eq : ucData.length = cellSize

def Cell.payload (pC : Cell) : List UInt8 := pC.ucData.take cellPayloadSize

/-- A device with the port of each queue. `beyond` tells which words behind the
table of priorities are not null. -/
structure Dev where
  tx : Transmit.Sys
  linkUp : Bool
  ulPort : Fin maxTransmitQueues → Nat
  beyond : Nat → Nat → Bool

def Dev.doLinkUp (s : Dev) (lsc : LinkStatusChange) : Dev :=
  { s with
    tx := s.tx.doLinkUp lsc true
    linkUp := true
    ulPort := fun i => ((lsc.queueId i).map fun id => portIdToPort id.ulPortId).getD (s.ulPort i) }

namespace Dev

def hasQueue (s : Dev) (ulPort i : Nat) : Bool :=
  if ulPort < maxPhyPorts then (s.tx.dev.pTxPriorities ulPort i).isSome else s.beyond ulPort i

def cellPriority (s : Dev) (pC : Cell) : Nat :=
  ((List.range maxSubPriorities).find? (s.hasQueue pC.connAddr.ulPortMask)).getD 0

end Dev

def cellProtocol (ucCircuitType : BitVec 8) : BitVec 16 :=
  (match ucCircuitType with
    | 0x00 => 0x0040
    | 0x01 => 0x0050
    | 0x02 => 0x00c0
    | 0x03 => 0x00d0
    | 0x04 => 0x0080
    | 0x05 => 0x0090
    | 0x06 => 0x00a0
    | 0x07 => 0x00b0
    | _ => 0x0000) ||| 0xf000

/-- The packet of a cell, in a buffer at `address` of which 16 bytes are kept free. -/
def cellPacket (garbage : Nat → Mem UInt8) (id address priority : Nat) (pC : Cell) : Packet :=
  ⟨⟨id, address + 16, 16, cellPayloadSize, cellProtocol pC.ucCircuitType, priority, 0⟩,
    patch (garbage id) 16 pC.payload⟩

def allocated (tx : Transmit.Sys) (m : Memory) : Transmit.Sys := { tx with mem := { m with fresh := m.fresh + 1 } }

structure Result where
  nRet : Int
  dev : Dev
  sent : Option (Fin maxTransmitQueues × Packet)

def doSendCellReq (garbage : Nat → Mem UInt8) (s : Dev) (pC : Cell) : Result :=
  if s.linkUp then
    match s.tx.mem.alloc with
    | (none, m) => ⟨Devices.enomem, { s with tx := { s.tx with mem := m } }, none⟩
    | (some address, m) =>
        let tx := allocated s.tx m
        let p := cellPacket garbage m.fresh address (s.cellPriority pC) pC
        ⟨0, { s with tx := tx.bcmxtmrtXmit (some p.skb) }, bcmxtmrtXmit garbage tx p⟩
  else ⟨Devices.eperm, s, none⟩

def Dev.cellQueue (s : Dev) (pC : Cell) : Fin maxTransmitQueues :=
  let queue :=
    if 1 ≤ s.cellPriority pC ∧ s.cellPriority pC ≤ 4 then s.tx.dev.pTxPriorities 0 (s.cellPriority pC) else none
  queue.getD ⟨0, by decide⟩

/-- A request for a port on which the device has a queue with a free descriptor. -/
structure Request (s : Dev) (pC : Cell) (port : Nat) (ct : CType) : Prop where
  linkUp : s.linkUp = true
  port_lt : port < maxPhyPorts
  mask : pC.connAddr.ulPortMask = 2 ^ port
  circuitType : pC.ucCircuitType = ct.code
  queue : ∃ i : Fin maxTransmitQueues, i.val < s.tx.dev.ulTxQInfosSize ∧ s.ulPort i = port ∧
    (s.tx.dev.txQInfos i).ulFreeBds ≠ 0

/-- One descriptor is written, in a queue of the port, for the payload of the cell
and with its circuit type. -/
def SentAsRequested (garbage : Nat → Mem UInt8) (s : Dev) (pC : Cell) (port : Nat) (ct : CType) : Prop :=
  let freed := s.tx.freeTransmitted.dev.txQInfos
  let queues := (doSendCellReq garbage s pC).dev.tx.dev.txQInfos
  ∃ i p, (doSendCellReq garbage s pC).sent = some (i, p) ∧ i.val < s.tx.dev.ulTxQInfosSize ∧ s.ulPort i = port ∧
    p.bytes = pC.payload ∧ (∀ j ≠ i, queues j = freed j) ∧ (queues i).ulFreeBds + 1 = (freed i).ulFreeBds ∧
    (∀ bd ≠ (freed i).ulTail, (queues i).pBds bd = (freed i).pBds bd) ∧
    ((queues i).pBds (freed i).ulTail).length = .ofNat cellPayloadSize ∧
    ((queues i).pBds (freed i).ulTail).address = p.skb.data ∧
    ((queues i).pBds (freed i).ulTail).status.fstat &&& 0x0f0 = ct.fstat

/-- There is memory for the cell, no header is inserted in front of it, the queue
it goes to is one of the port and not full, and the circuit type is not disturbed
by the identifier of the connection. -/
structure Undisturbed (s : Dev) (pC : Cell) (port : Nat) (ct : CType) : Prop where
  memory : s.tx.mem.alloc.1 ≠ none
  header : hwAddRemoveHeader s.tx.dev = true ∨ s.tx.dev.ulHdrType = .none
  queue : (s.cellQueue pC).val < s.tx.dev.ulTxQInfosSize ∧ s.ulPort (s.cellQueue pC) = port ∧
    (s.tx.freeTransmitted.dev.txQInfos (s.cellQueue pC)).ulFreeBds ≠ 0
  vcid : (s.tx.dev.ucTxVcid.setWidth 12 ||| ct.fstat) &&& 0x0f0 = ct.fstat

section Xmit

variable {garbage : Nat → Mem UInt8} {s : Transmit.Sys} {p p' : Packet} {i : Fin maxTransmitQueues}

theorem xmit_header (hhdr : ¬ hwAddRemoveHeader s.dev ∧ s.dev.ulHdrType ≠ .none)
    (h : bcmxtmrtXmit garbage s p = some (i, p')) : minPktSize ≤ p'.skb.len := by
  rw [bcmxtmrtXmit] at h
  split at h
  · cases h
  · have hins : insertHdr garbage s.freeTransmitted p =
        p.addRfc2684Hdr garbage s.dev.ulHdrType s.freeTransmitted.mem := if_pos hhdr
    rw [hins] at h
    rcases hr : p.addRfc2684Hdr garbage s.dev.ulHdrType s.freeTransmitted.mem with ⟨_ | p1, m1⟩
    · rw [hr] at h
      cases h
    · rw [hr] at h
      have hlong : minPktSize ≤ p1.skb.len := by
        rw [← length_bytes, bytes_addRfc2684Hdr hr, List.length_append, List.length_append, List.length_replicate,
          length_hdr, length_bytes]
        omega
      rw [← (align_some garbage m1 p1).2.1] at hlong
      dsimp only [send] at h
      rw [pad_long hlong] at h
      split at h
      · cases h
        exact hlong
      · cases h

variable (garbage) in
theorem xmit_plain (hplain : hwAddRemoveHeader s.dev = true ∨ s.dev.ulHdrType = .none) (hcell : isCell p.skb)
    (hsize : s.dev.ulTxQInfosSize ≠ 0) : bcmxtmrtXmit garbage s p =
      if (s.freeTransmitted.dev.txQInfos (chooseQueue s.dev p.skb)).ulFreeBds ≠ 0 then
        some (chooseQueue s.dev p.skb, (p.align garbage s.freeTransmitted.mem).1)
      else none := by
  have hins : insertHdr garbage s.freeTransmitted p = (some p, s.freeTransmitted.mem) :=
    if_neg fun hhdr => hplain.elim (fun hw => hhdr.1 hw) hhdr.2
  have halign := (isCell_align garbage s.freeTransmitted.mem p).trans hcell
  rw [bcmxtmrtXmit, if_neg (show ¬ s.freeTransmitted.dev.ulTxQInfosSize = 0 from hsize), hins]
  dsimp only [send]
  rw [pad_cell halign]
  change Option.map _ (if (s.freeTransmitted.dev.txQInfos (chooseQueue s.dev p.skb)).ulFreeBds ≠ 0 then _ else _) = _
  split
  · rfl
  · rfl

theorem cell_fstat (d : DevCtx) {skb : Skb} (hcell : isCell skb) :
    txFstat d skb &&& 0x0f0 = (d.ucTxVcid.setWidth 12 ||| (skb.protocol.setWidth 12 &&& 0x0f0)) &&& 0x0f0 := by
  rw [txFstat, if_pos hcell]
  dsimp only
  split
  · rw [BitVec.and_assoc, show (~~~0x700 &&& 0x0f0 : BitVec 12) = 0x0f0 from rfl, BitVec.and_or_distrib_right,
      show (0x800 &&& 0x0f0 : BitVec 12) = 0 from rfl]
    exact BitVec.or_zero
  · rfl

theorem cellProtocol_cell (ct : CType) : cellProtocol ct.code &&& ~~~0x00f0 == 0xf000 := by
  cases ct <;> rfl

theorem cellProtocol_fstat (ct : CType) : (cellProtocol ct.code).setWidth 12 &&& 0x0f0 = ct.fstat := by
  cases ct <;> rfl

end Xmit

section Request

variable {garbage : Nat → Mem UInt8} {s : Dev} {pC : Cell} {port : Nat} {ct : CType}

theorem length_payload (pC : Cell) : pC.payload.length = cellPayloadSize := by
  rw [Cell.payload, List.length_take, pC.length_eq]
  rfl

theorem bytes_cellPacket (garbage : Nat → Mem UInt8) (id address priority : Nat) (pC : Cell) :
    (cellPacket garbage id address priority pC).bytes = pC.payload := by
  have hread := readBytes_patch (garbage id) 16 pC.payload
  rwa [length_payload] at hread

theorem doSendCellReq_refused (hup : s.linkUp = true) {m : Memory} (hm : s.tx.mem.alloc = (none, m)) :
    (doSendCellReq garbage s pC).sent = none := by
  rw [doSendCellReq, if_pos hup, hm]

theorem sentAsRequested_iff {i : Fin maxTransmitQueues} {p : Packet}
    (hsent : (doSendCellReq garbage s pC).sent = some (i, p))
    (hqueues : (doSendCellReq garbage s pC).dev.tx.dev.txQInfos = Function.update s.tx.freeTransmitted.dev.txQInfos i
      ((s.tx.freeTransmitted.dev.txQInfos i).enqueue s.tx.freeTransmitted.dev p.skb))
    (hfree : (s.tx.freeTransmitted.dev.txQInfos i).ulFreeBds ≠ 0) (hbytes : p.bytes = pC.payload) :
    SentAsRequested garbage s pC port ct ↔ (i.val < s.tx.dev.ulTxQInfosSize ∧ s.ulPort i = port) ∧
      txFstat s.tx.freeTransmitted.dev p.skb &&& 0x0f0 = ct.fstat := by
  have hlen : p.skb.len = cellPayloadSize := by rw [← length_bytes, hbytes, length_payload]
  have htail (q : TxQInfo) (d : DevCtx) : (q.enqueue d p.skb).pBds q.ulTail =
      ⟨.ofNat p.skb.len, ⟨true, true, true, (q.pBds q.ulTail).status.wrap, txFstat d p.skb⟩, p.skb.data⟩ :=
    Function.update_self ..
  rw [SentAsRequested, hqueues]
  constructor
  · rintro ⟨i', p', hsent', hlt, hport, -, -, -, -, -, -, hfstat⟩
    rw [hsent] at hsent'
    cases hsent'
    rw [Function.update_self, htail] at hfstat
    exact ⟨⟨hlt, hport⟩, hfstat⟩
  · rintro ⟨⟨hlt, hport⟩, hfstat⟩
    refine ⟨i, p, hsent, hlt, hport, hbytes, fun j hj => Function.update_of_ne hj .., ?_⟩
    rw [Function.update_self]
    refine ⟨Nat.sub_add_cancel (Nat.pos_of_ne_zero hfree), fun bd hbd => Function.update_of_ne hbd .., ?_⟩
    rw [htail, hlen]
    exact ⟨rfl, rfl, hfstat⟩

variable (garbage pC) in
theorem doSendCellReq_granted (hup : s.linkUp = true) {address : Nat} {m : Memory}
    (hm : s.tx.mem.alloc = (some address, m)) : ∃ p, p = cellPacket garbage m.fresh address (s.cellPriority pC) pC ∧
      (doSendCellReq garbage s pC).dev.tx = (allocated s.tx m).bcmxtmrtXmit (some p.skb) ∧
      (doSendCellReq garbage s pC).sent = bcmxtmrtXmit garbage (allocated s.tx m) p := by
  rw [doSendCellReq, if_pos hup, hm]
  exact ⟨_, rfl, rfl, rfl⟩

theorem not_sent_header (hhdr : ¬ hwAddRemoveHeader s.tx.dev ∧ s.tx.dev.ulHdrType ≠ .none) {m : Memory} {p : Packet}
    (hsent : (doSendCellReq garbage s pC).sent = bcmxtmrtXmit garbage (allocated s.tx m) p) :
    ¬ SentAsRequested garbage s pC port ct := by
  rintro ⟨i, p', hsent', -, -, hbytes', -⟩
  have hlong := xmit_header (s := allocated s.tx m) hhdr (hsent.symm.trans hsent')
  rw [← length_bytes, hbytes', length_payload] at hlong
  exact absurd hlong (by decide)

theorem Request.queues (hreq : Request s pC port ct) : s.tx.dev.ulTxQInfosSize ≠ 0 := by
  obtain ⟨i, hi, -⟩ := hreq.queue
  exact Nat.ne_of_gt (Nat.lt_of_le_of_lt (Nat.zero_le _) hi)

theorem Request.sent_iff (hreq : Request s pC port ct) {address : Nat} {m : Memory}
    (hm : s.tx.mem.alloc = (some address, m)) : SentAsRequested garbage s pC port ct ↔ Undisturbed s pC port ct := by
  obtain ⟨p, hp, htx, hsent⟩ := doSendCellReq_granted garbage pC hreq.linkUp hm
  have hbytes : p.bytes = pC.payload := hp ▸ bytes_cellPacket ..
  have hprotocol : p.skb.protocol = cellProtocol ct.code := by
    rw [hp]
    exact congrArg cellProtocol hreq.circuitType
  have hcell : isCell p.skb := by
    rw [isCell, hprotocol]
    exact cellProtocol_cell ct
  have hchoose : chooseQueue (allocated s.tx m).dev p.skb = s.cellQueue pC := by
    rw [hp]
    rfl
  by_cases hhdr : ¬ hwAddRemoveHeader s.tx.dev ∧ s.tx.dev.ulHdrType ≠ .none
  · exact iff_of_false (not_sent_header hhdr hsent) fun h => h.header.elim hhdr.1 hhdr.2
  · have hplain : hwAddRemoveHeader s.tx.dev = true ∨ s.tx.dev.ulHdrType = .none := by
      rwa [not_and_or, not_not, not_not] at hhdr
    have hxmit := xmit_plain garbage (s := allocated s.tx m) hplain hcell hreq.queues
    rw [hchoose] at hxmit
    split at hxmit
    case isTrue hfree =>
      obtain ⟨halign, -, hcopied⟩ := align_some garbage (allocated s.tx m).freeTransmitted.mem p
      have hqueues := xmit_queues garbage p (allocated s.tx m)
      rw [hxmit, ← htx] at hqueues
      rw [sentAsRequested_iff (hsent.trans hxmit) hqueues hfree (halign.trans hbytes),
        cell_fstat _ ((isCell_align ..).trans hcell), hcopied, hprotocol, cellProtocol_fstat]
      constructor
      · rintro ⟨⟨hlt, hport⟩, hvcid⟩
        exact ⟨by rw [hm]; exact Option.some_ne_none _, hplain, ⟨hlt, hport, hfree⟩, hvcid⟩
      · intro h
        exact ⟨⟨h.queue.1, h.queue.2.1⟩, h.vcid⟩
    case isFalse hfull =>
      refine iff_of_false ?_ fun h => hfull h.queue.2.2
      rintro ⟨i, p', hsent', -⟩
      rw [hsent, hxmit] at hsent'
      cases hsent'

end Request

/-- A cell is sent as requested exactly if nothing of what is done for packets
disturbs it. -/
theorem cell_sent_iff (garbage : Nat → Mem UInt8) {s : Dev} {pC : Cell} {port : Nat} {ct : CType}
    (hreq : Request s pC port ct) : SentAsRequested garbage s pC port ct ↔ Undisturbed s pC port ct := by
  rcases hm : s.tx.mem.alloc with ⟨_ | address, m⟩
  · refine iff_of_false ?_ fun h => h.memory (by rw [hm])
    rintro ⟨i, p, hsent, -⟩
    rw [doSendCellReq_refused hreq.linkUp hm] at hsent
    cases hsent
  · exact hreq.sent_iff hm

def demoDev (hdrType : HdrType) : Dev :=
  Dev.doLinkUp ⟨TransmitBuffers.start .atm hdrType 0 [], false, fun _ => 0, fun _ _ => false⟩
    ⟨0, [⟨1, 0, 2, 0⟩, ⟨2, 0, 2, 1⟩], by decide⟩

def demoCell (port : Nat) : Cell := ⟨.vcc (2 ^ port), 0x00, List.replicate 53 0x6a, rfl⟩

theorem demo_request_port0 (hdrType : HdrType) : Request (demoDev hdrType) (demoCell 0) 0 .oamF5Segment :=
  ⟨rfl, by decide, rfl, rfl, 0, show 0 < 2 by decide, rfl, show 2 ≠ 0 by decide⟩

theorem demo_request_port1 (hdrType : HdrType) : Request (demoDev hdrType) (demoCell 1) 1 .oamF5Segment :=
  ⟨rfl, by decide, rfl, rfl, 1, show 1 < 2 by decide, rfl, show 2 ≠ 0 by decide⟩

theorem cell_sent_port0 :
    SentAsRequested (fun _ _ => 0) (demoDev .none) (demoCell 0) 0 .oamF5Segment ↔
      Undisturbed (demoDev .none) (demoCell 0) 0 .oamF5Segment :=
  cell_sent_iff _ (demo_request_port0 .none)

theorem cell_misdirected_or_padded :
    (Request (demoDev .none) (demoCell 1) 1 .oamF5Segment ∧
      (doSendCellReq (fun _ _ => 0) (demoDev .none) (demoCell 1)).sent.map Prod.fst = some 0 ∧
      ¬ SentAsRequested (fun _ _ => 0) (demoDev .none) (demoCell 1) 1 .oamF5Segment) ∧
    (Request (demoDev .llcSnapEthernet) (demoCell 0) 0 .oamF5Segment ∧
      (doSendCellReq (fun _ _ => 0) (demoDev .llcSnapEthernet) (demoCell 0)).sent.map (fun r => r.2.skb.len) = some 60 ∧
      ¬ SentAsRequested (fun _ _ => 0) (demoDev .llcSnapEthernet) (demoCell 0) 0 .oamF5Segment) := by
  have hone := demo_request_port1 .none
  have hzero := demo_request_port0 .llcSnapEthernet
  refine ⟨⟨hone, by decide, fun h => ?_⟩, hzero, by decide, fun h => ?_⟩
  · have hport := ((hone.sent_iff rfl).mp h).queue.2.1
    exact absurd hport (by decide)
  · have hheader := ((hzero.sent_iff rfl).mp h).header
    exact absurd hheader (by decide)

end AliceModem.SendCell
