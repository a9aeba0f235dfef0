import AliceModem.Lib.ByteMemory
import AliceModem.Xtm.TransmitRing

namespace AliceModem.PacketBytes

open ByteMemory Transmit TransmitRing

/-- A packet with its buffer, which starts at the headroom. -/
structure Packet where
  skb : Skb
  buf : Mem UInt8

def erase (r : Option Packet × Memory) : Option Skb × Memory := (r.1.map Packet.skb, r.2)

def ucHdrs : HdrType → List UInt8
  | .none => List.replicate 16 0
  | .llcSnapEthernet => [0xAA, 0xAA, 0x03, 0x00, 0x80, 0xC2, 0x00, 0x07, 0x00, 0x00] ++ List.replicate 6 0
  | .llcSnapRouteIp => [0xAA, 0xAA, 0x03, 0x00, 0x00, 0x00, 0x08, 0x00] ++ List.replicate 8 0
  | .llcEncapsPpp => [0xFE, 0xFE, 0x03, 0xCF] ++ List.replicate 12 0
  | .vcMuxEthernet => [0x00, 0x00] ++ List.replicate 14 0

namespace Packet

def bytes (p : Packet) : List UInt8 := readBytes p.buf p.skb.headroom p.skb.len

-- what is in the memory that an allocation returns
variable (garbage : Nat → Mem UInt8)

def copyExpand (m : Memory) (p : Packet) : Option Packet × Memory :=
  match Transmit.skbCopyExpand m p.skb with
  | (none, m) => (none, m)
  | (some skb2, m) => (some ⟨skb2, patch (garbage skb2.id) 0 p.bytes⟩, m)

def reallocHeadroom (m : Memory) (p : Packet) (headroom : Nat) : Option Packet × Memory :=
  match Transmit.skbReallocHeadroom m p.skb headroom with
  | (none, m) => (none, m)
  | (some skb2, m) => (some ⟨skb2, patch (garbage skb2.id) (skbDataAlign (headroom - p.skb.headroom))
      (readBytes p.buf 0 (p.skb.headroom + p.skb.len))⟩, m)

def makeHeadroom (m : Memory) (p : Packet) (minheadroom : Nat) : Option Packet × Memory :=
  if p.skb.headroom < minheadroom then
    let (p2, m) := p.reallocHeadroom garbage m minheadroom
    (p2, m.kfreeSkb p.skb)
  else (some p, m)

def push (p : Packet) (hdr : List UInt8) : Packet :=
  let skb := skbPush p.skb hdr.length
  ⟨skb, patch p.buf skb.headroom hdr⟩

def putZeros (p : Packet) (len : Nat) : Packet :=
  ⟨{ p.skb with len := len }, fill p.buf (p.skb.headroom + p.skb.len) (len - p.skb.len) 0⟩

def addRfc2684Hdr (hdrType : HdrType) (m : Memory) (p : Packet) : Option Packet × Memory :=
  match p.makeHeadroom garbage m (hdrLens hdrType) with
  | (none, m) => (none, m)
  | (some p, m) =>
      let p := p.push ((ucHdrs hdrType).take (hdrLens hdrType))
      if p.skb.len < minPktSize then
        let (p2, m) := p.copyExpand garbage m
        (p2.map (putZeros · minPktSize), m.kfreeSkb p.skb)
      else (some p, m)

def copyOrKeep (m : Memory) (p : Packet) (len : Nat) : Packet × Memory :=
  match p.copyExpand garbage m with
  | (none, m) => (p, m)
  | (some p2, m) => (p2.putZeros len, m.kfreeSkb p.skb)

def align (m : Memory) (p : Packet) : Packet × Memory :=
  if p.skb.data % 4 ≠ 0 then p.copyOrKeep garbage m p.skb.len else (p, m)

def pad (m : Memory) (p : Packet) : Packet × Memory :=
  if p.skb.len < Dma.ethZlen ∧ ¬ isCell p.skb then p.copyOrKeep garbage m Dma.ethZlen else (p, m)

end Packet

section Xmit

variable (garbage : Nat → Mem UInt8)

def insertHdr (s : Sys) (p : Packet) : Option Packet × Memory :=
  if ¬ hwAddRemoveHeader s.dev ∧ s.dev.ulHdrType ≠ .none then p.addRfc2684Hdr garbage s.dev.ulHdrType s.mem
  else (some p, s.mem)

/-- The packet that is put into the ring, unless that is full. -/
def send (s : Sys) (i : Fin maxTransmitQueues) (m : Memory) (p : Packet) : Option Packet :=
  let (p, m) := p.align garbage m
  if (s.dev.txQInfos i).ulFreeBds ≠ 0 then some (p.pad garbage m).1 else none

/-- The queue and the packet of the descriptor that is written for a packet. -/
def bcmxtmrtXmit (s : Sys) (p : Packet) : Option (Fin maxTransmitQueues × Packet) :=
  let s := s.freeTransmitted
  if s.dev.ulTxQInfosSize = 0 then none
  else
    match insertHdr garbage s p with
    | (none, _) => none
    | (some p', m) => (send garbage s (chooseQueue s.dev p.skb) m p').map (chooseQueue s.dev p.skb, ·)

end Xmit

section Erase

variable (garbage : Nat → Mem UInt8) (m : Memory) (p : Packet)

theorem length_hdr (hdrType : HdrType) : ((ucHdrs hdrType).take (hdrLens hdrType)).length = hdrLens hdrType := by
  cases hdrType <;> rfl

theorem erase_copyExpand : erase (p.copyExpand garbage m) = skbCopyExpand m p.skb := by
  rw [Packet.copyExpand]
  rcases skbCopyExpand m p.skb with ⟨_ | skb2, m'⟩
  · rfl
  · rfl

theorem erase_reallocHeadroom (headroom : Nat) :
    erase (p.reallocHeadroom garbage m headroom) = skbReallocHeadroom m p.skb headroom := by
  rw [Packet.reallocHeadroom]
  rcases skbReallocHeadroom m p.skb headroom with ⟨_ | skb2, m'⟩
  · rfl
  · rfl

theorem erase_makeHeadroom (minheadroom : Nat) :
    erase (p.makeHeadroom garbage m minheadroom) = makeHeadroom m p.skb minheadroom := by
  rw [Packet.makeHeadroom, Transmit.makeHeadroom]
  split
  · rw [← erase_reallocHeadroom garbage]
    rfl
  · rfl

theorem erase_addRfc2684Hdr (hdrType : HdrType) :
    erase (p.addRfc2684Hdr garbage hdrType m) = addRfc2684Hdr hdrType m p.skb := by
  have hroom := erase_makeHeadroom garbage m p (hdrLens hdrType)
  rw [Packet.addRfc2684Hdr, Transmit.addRfc2684Hdr, ← hroom]
  rcases p.makeHeadroom garbage m (hdrLens hdrType) with ⟨_ | p', m'⟩
  · rfl
  · have hpush : (p'.push ((ucHdrs hdrType).take (hdrLens hdrType))).skb = skbPush p'.skb (hdrLens hdrType) :=
      congrArg (skbPush p'.skb) (length_hdr hdrType)
    simp only [erase, Option.map_some, hpush]
    split
    · rw [← hpush, ← erase_copyExpand garbage]
      simp only [erase, Option.map_map]
      rfl
    · exact congrArg (fun skb => (some skb, m')) hpush

theorem erase_copyOrKeep (len : Nat) :
    ((p.copyOrKeep garbage m len).1.skb, (p.copyOrKeep garbage m len).2) = copyOrKeep m p.skb len := by
  rw [Packet.copyOrKeep, Transmit.copyOrKeep, ← erase_copyExpand garbage]
  rcases p.copyExpand garbage m with ⟨_ | p2, m'⟩
  · rfl
  · rfl

theorem erase_align : ((p.align garbage m).1.skb, (p.align garbage m).2) = align m p.skb := by
  rw [Packet.align, Transmit.align]
  split
  · exact erase_copyOrKeep ..
  · rfl

theorem erase_pad : ((p.pad garbage m).1.skb, (p.pad garbage m).2) = pad m p.skb := by
  rw [Packet.pad, Transmit.pad]
  split
  · exact erase_copyOrKeep ..
  · rfl

theorem erase_insertHdr (s : Sys) : erase (insertHdr garbage s p) = s.insertHdr p.skb := by
  rw [insertHdr, Sys.insertHdr]
  split
  · exact erase_addRfc2684Hdr ..
  · rfl

theorem xmit_queues (s : Sys) : (s.bcmxtmrtXmit (some p.skb)).dev.txQInfos =
    match bcmxtmrtXmit garbage s p with
    | none => s.freeTransmitted.dev.txQInfos
    | some (i, p') => Function.update s.freeTransmitted.dev.txQInfos i
        ((s.freeTransmitted.dev.txQInfos i).enqueue s.freeTransmitted.dev p'.skb) := by
  rw [Sys.bcmxtmrtXmit, bcmxtmrtXmit]
  split
  · rfl
  · rw [← erase_insertHdr garbage]
    rcases insertHdr garbage s.freeTransmitted p with ⟨_ | p', m'⟩
    · rfl
    · simp only [erase, Option.map_some, Sys.send, send, ← erase_align garbage, ← erase_pad garbage]
      split
      · rfl
      · rfl

end Erase

section Bytes

variable {garbage : Nat → Mem UInt8} {m m' : Memory} {p p' : Packet} {n : Nat}

theorem length_bytes (p : Packet) : p.bytes.length = p.skb.len := length_readBytes ..

theorem copy_some {skb skb2 : Skb} (h : m.copy skb n = (some skb2, m')) :
    ∃ id data, skb2 = { skb with id := id, data := data, headroom := n } := by
  rw [Memory.copy] at h
  rcases hm : m.alloc with ⟨_ | data, m1⟩
  · rw [hm] at h
    cases h
  · rw [hm] at h
    cases h
    exact ⟨_, _, rfl⟩

theorem bytes_push {hdr : List UInt8} (h : hdr.length ≤ p.skb.headroom) : (p.push hdr).bytes = hdr ++ p.bytes := by
  change readBytes (patch p.buf (p.skb.headroom - hdr.length : Nat) hdr) (p.skb.headroom - hdr.length : Nat)
    (p.skb.len + hdr.length) = _
  rw [Nat.add_comm, readBytes_append, readBytes_patch, readBytes_patch_disjoint _ _ _ _ _ (.inr le_rfl)]
  congr 2
  omega

theorem bytes_putZeros (h : p.skb.len ≤ n) : (p.putZeros n).bytes = p.bytes ++ List.replicate (n - p.skb.len) 0 := by
  change readBytes (fill p.buf (p.skb.headroom + p.skb.len) (n - p.skb.len) 0) p.skb.headroom n = _
  obtain ⟨k, rfl⟩ := Nat.exists_eq_add_of_le h
  rw [Nat.add_sub_cancel_left, readBytes_append, fill, readBytes_patch_disjoint _ _ _ _ _ (.inl le_rfl)]
  congr 1
  exact readBytes_replicate fun i hi => fill_inside _ _ _ _ _ (by omega) (by omega)

theorem copyExpand_some (h : p.copyExpand garbage m = (some p', m')) :
    p'.bytes = p.bytes ∧ ∃ id data, p'.skb = { p.skb with id := id, data := data, headroom := 0 } := by
  rw [Packet.copyExpand] at h
  rcases hr : skbCopyExpand m p.skb with ⟨_ | skb2, m1⟩
  · rw [hr] at h
    cases h
  · obtain ⟨id, data, rfl⟩ := copy_some hr
    rw [hr] at h
    cases h
    refine ⟨?_, id, data, rfl⟩
    have hread := readBytes_patch (garbage id) 0 p.bytes
    rwa [length_bytes] at hread

theorem reallocHeadroom_some (h : p.reallocHeadroom garbage m n = (some p', m')) :
    p'.bytes = p.bytes ∧ p'.skb.len = p.skb.len ∧ n ≤ p'.skb.headroom := by
  rw [Packet.reallocHeadroom] at h
  rcases hr : skbReallocHeadroom m p.skb n with ⟨_ | skb2, m1⟩
  · rw [hr] at h
    cases h
  · obtain ⟨id, data, rfl⟩ := copy_some hr
    rw [hr] at h
    cases h
    refine ⟨?_, rfl, ?_⟩
    · have hread := readBytes_patch_right (garbage id) (skbDataAlign (n - p.skb.headroom))
        (readBytes p.buf 0 p.skb.headroom) p.bytes
      rw [length_bytes, length_readBytes, ← Int.natCast_add, Nat.add_comm] at hread
      rw [readBytes_append, Int.zero_add]
      exact hread
    · change n ≤ p.skb.headroom + skbDataAlign (n - p.skb.headroom)
      rw [skbDataAlign]
      omega

theorem makeHeadroom_some (h : p.makeHeadroom garbage m n = (some p', m')) :
    p'.bytes = p.bytes ∧ p'.skb.len = p.skb.len ∧ n ≤ p'.skb.headroom := by
  rw [Packet.makeHeadroom] at h
  split at h
  case isTrue =>
    rcases hr : p.reallocHeadroom garbage m n with ⟨_ | p2, m2⟩
    · rw [hr] at h
      cases h
    · rw [hr] at h
      cases h
      exact reallocHeadroom_some hr
  case isFalse hroom =>
    cases h
    exact ⟨rfl, rfl, Nat.le_of_not_lt hroom⟩

theorem bytes_addRfc2684Hdr {hdrType : HdrType} (h : p.addRfc2684Hdr garbage hdrType m = (some p', m')) :
    p'.bytes = (ucHdrs hdrType).take (hdrLens hdrType) ++ p.bytes ++
      List.replicate (minPktSize - (hdrLens hdrType + p.skb.len)) 0 := by
  have hlen := length_hdr hdrType
  rw [Packet.addRfc2684Hdr] at h
  generalize (ucHdrs hdrType).take (hdrLens hdrType) = hdr at h hlen ⊢
  rcases hr : p.makeHeadroom garbage m (hdrLens hdrType) with ⟨_ | p1, m1⟩
  · rw [hr] at h
    cases h
  · rw [hr] at h
    obtain ⟨hbytes, hlen1, hroom⟩ := makeHeadroom_some hr
    have hpush : (p1.push hdr).bytes = hdr ++ p.bytes := by rw [bytes_push (hlen ▸ hroom), hbytes]
    have hlen2 : (p1.push hdr).skb.len = hdrLens hdrType + p.skb.len := by
      rw [← length_bytes, hpush, List.length_append, hlen, length_bytes]
    dsimp only at h
    split at h
    case isTrue hshort =>
      rcases hc : (p1.push hdr).copyExpand garbage m1 with ⟨_ | p2, m2⟩
      · rw [hc] at h
        cases h
      · rw [hc] at h
        cases h
        obtain ⟨hcopy, id, data, hskb⟩ := copyExpand_some hc
        have hlen3 : p2.skb.len = hdrLens hdrType + p.skb.len := by rw [hskb, ← hlen2]
        rw [bytes_putZeros (by omega), hcopy, hpush, hlen3]
    case isFalse hlong =>
      cases h
      rw [hpush, Nat.sub_eq_zero_of_le (by omega), List.replicate_zero, List.append_nil]

theorem align_some (garbage : Nat → Mem UInt8) (m : Memory) (p : Packet) : (p.align garbage m).1.bytes = p.bytes ∧
    (p.align garbage m).1.skb.len = p.skb.len ∧ (p.align garbage m).1.skb.protocol = p.skb.protocol := by
  rw [Packet.align]
  split
  · rw [Packet.copyOrKeep]
    rcases hc : p.copyExpand garbage m with ⟨_ | p2, m2⟩
    · exact ⟨rfl, rfl, rfl⟩
    · obtain ⟨hbytes, id, data, hskb⟩ := copyExpand_some hc
      have hlen : p2.skb.len = p.skb.len := by rw [hskb]
      have hprotocol : p2.skb.protocol = p.skb.protocol := by rw [hskb]
      refine ⟨?_, rfl, hprotocol⟩
      rw [bytes_putZeros hlen.le, hbytes, hlen, Nat.sub_self, List.replicate_zero, List.append_nil]
  · exact ⟨rfl, rfl, rfl⟩

theorem isCell_align (garbage : Nat → Mem UInt8) (m : Memory) (p : Packet) :
    isCell (p.align garbage m).1.skb = isCell p.skb := by
  rw [isCell, (align_some garbage m p).2.2, isCell]

theorem pad_cell (hcell : isCell p.skb) : p.pad garbage m = (p, m) := if_neg fun h => h.2 hcell

theorem pad_long (hlen : Dma.ethZlen ≤ p.skb.len) : p.pad garbage m = (p, m) :=
  if_neg fun h => Nat.not_lt.mpr hlen h.1

end Bytes

end AliceModem.PacketBytes
