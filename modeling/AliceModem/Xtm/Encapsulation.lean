import AliceModem.Xtm.PacketBytes
import AliceModem.Xtm.Receive

namespace AliceModem.Encapsulation

open ByteMemory Transmit TransmitRing PacketBytes

def documented : HdrType → List UInt8
  | .none => []
  | .llcSnapEthernet => [0xAA, 0xAA, 0x03, 0x00, 0x80, 0xC2, 0x00, 0x07, 0x00, 0x00]
  | .llcSnapRouteIp => [0xAA, 0xAA, 0x03, 0x00, 0x00, 0x00, 0x08, 0x00]
  | .llcEncapsPpp => [0xFE, 0xFE, 0x03, 0xCF]
  | .vcMuxEthernet => [0x00, 0x00]

/-- The zeros behind a payload with a header of `n` bytes. -/
def padding (n : Nat) (payload : List UInt8) : List UInt8 := List.replicate (minPktSize - (n + payload.length)) 0

def rxHdrLens : HdrType → Nat
  | .none => 0
  | .llcSnapEthernet => 10
  | .llcSnapRouteIp => 7
  | .llcEncapsPpp => 4
  | .vcMuxEthernet => 2

def rxDev (d : DevCtx) : Receive.RxDev := ⟨d.ulTrafficType = .ptm, hwAddRemoveHeader d, rxHdrLens d.ulHdrType⟩

structure Received (d : DevCtx) (p : Packet) (mem : Mem UInt8) (pucData : Nat) (length : UInt16) : Prop where
  length : length.toNat = p.skb.len + if d.ulTrafficType = .ptm then 4 else 0
  bytes : readBytes mem pucData p.skb.len = p.bytes

def stripped (d : DevCtx) (header : Nat) (mem : Mem UInt8) (pucData : Nat) (length : UInt16) : List UInt8 :=
  let skb := Receive.rxSkb (rxDev d) header pucData length
  readBytes mem skb.data skb.len

/-- The packet is the documented header with the payload and padding, and the
receiver gets the payload and the padding back. -/
def RoundTrip (garbage : Nat → Mem UInt8) (d : DevCtx) (m : Memory) (p : Packet) : Prop :=
  ∃ p' m', p.addRfc2684Hdr garbage d.ulHdrType m = (some p', m') ∧
    p'.bytes = documented d.ulHdrType ++ p.bytes ++ padding (documented d.ulHdrType).length p.bytes ∧
    ∀ header mem pucData length, Received d p' mem pucData length →
      stripped d header mem pucData length = p.bytes ++ padding (documented d.ulHdrType).length p.bytes

section

variable {garbage : Nat → Mem UInt8} {d : DevCtx} {m m' : Memory} {p p' : Packet} {mem : Mem UInt8}
  {header pucData : Nat} {length : UInt16}

theorem addRfc2684Hdr_supplied (hmem : Supplied m) (garbage : Nat → Mem UInt8) (p : Packet) (hdrType : HdrType) :
    ∃ p' m', p.addRfc2684Hdr garbage hdrType m = (some p', m') := by
  obtain ⟨⟨skb', hskb'⟩, -⟩ := hmem.addRfc2684Hdr p.skb hdrType
  rw [← erase_addRfc2684Hdr garbage] at hskb'
  rcases hr : p.addRfc2684Hdr garbage hdrType m with ⟨_ | p', m'⟩
  · rw [hr] at hskb'
    cases hskb'
  · exact ⟨p', m', rfl⟩

theorem rxHdrLens_eq (hdrType : HdrType) : rxHdrLens hdrType = hdrLens hdrType := by
  cases hdrType <;> rfl

theorem rxLength_eq (h : Received d p mem pucData length) (hlen : minPktSize ≤ p.skb.len) :
    (Receive.rxLength (rxDev d) length).toNat = p.skb.len := by
  have hlength := h.length
  have hfcs : (if (rxDev d).ptm ∧ length ≠ 0 then length - 4 else length).toNat = p.skb.len := by
    by_cases hptm : d.ulTrafficType = .ptm
    · rw [if_pos hptm] at hlength
      have hfour : (4 : UInt16) ≤ length := by
        rw [UInt16.le_iff_toNat_le, hlength]
        exact Nat.le_add_left _ _
      have hne : length ≠ 0 := by
        rintro rfl
        exact absurd hfour (by decide)
      rw [if_pos ⟨by simp [rxDev, hptm], hne⟩, UInt16.toNat_sub_of_le _ _ hfour, hlength]
      exact Nat.add_sub_cancel _ _
    · rw [if_neg hptm] at hlength
      rw [if_neg (by simp [rxDev, hptm])]
      exact hlength
  rw [Receive.rxLength, if_neg (by rw [hfcs]; exact Nat.not_lt.mpr hlen), hfcs]

theorem stripped_eq (hsw : hwAddRemoveHeader d = false) (h : Received d p mem pucData length)
    (hlen : minPktSize ≤ p.skb.len) :
    stripped d header mem pucData length = p.bytes.drop (hdrLens d.ulHdrType) := by
  have hpull : hdrLens d.ulHdrType ≤ p.skb.len := by
    refine le_trans ?_ hlen
    cases d.ulHdrType <;> decide
  have hskb : Receive.rxSkb (rxDev d) header pucData length = ⟨header, pucData - Receive.rxbufHeadReserve,
      pucData + hdrLens d.ulHdrType, p.skb.len - hdrLens d.ulHdrType⟩ := by
    rw [Receive.rxSkb, rxLength_eq h hlen]
    simp [rxDev, hsw, rxHdrLens_eq]
  rw [stripped, hskb]
  dsimp only
  rw [Int.natCast_add, ← drop_readBytes mem pucData hpull, h.bytes]

theorem stripped_packet (hsw : hwAddRemoveHeader d = false)
    (hp : p.addRfc2684Hdr garbage d.ulHdrType m = (some p', m')) (h : Received d p' mem pucData length) :
    stripped d header mem pucData length = p.bytes ++ padding (hdrLens d.ulHdrType) p.bytes := by
  have hbytes := bytes_addRfc2684Hdr hp
  have hhdr := length_hdr d.ulHdrType
  have hlen : p'.skb.len = hdrLens d.ulHdrType + p.skb.len + (minPktSize - (hdrLens d.ulHdrType + p.skb.len)) := by
    rw [← length_bytes, hbytes, List.length_append, List.length_append, hhdr, length_bytes, List.length_replicate]
  rw [stripped_eq hsw h (by omega), hbytes, List.append_assoc, List.drop_left' hhdr, padding, length_bytes]

theorem not_roundTrip_routeIp (hsw : hwAddRemoveHeader d = false) (hhdr : d.ulHdrType = .llcSnapRouteIp) :
    ¬ RoundTrip garbage d m p := by
  rintro ⟨p', m', hp, hdoc, hstrip⟩
  have hbytes := bytes_addRfc2684Hdr hp
  have hlen := congrArg List.length (hbytes.symm.trans hdoc)
  simp only [List.length_append, hhdr, length_hdr, padding, List.length_replicate, length_bytes] at hlen
  have hseven : hdrLens .llcSnapRouteIp = 7 := rfl
  have height : (documented .llcSnapRouteIp).length = 8 := rfl
  have hmin : minPktSize = 60 := rfl
  have hp' : p'.skb.len = 60 := by
    rw [← length_bytes, hbytes]
    simp only [List.length_append, hhdr, length_hdr, List.length_replicate, length_bytes]
    omega
  have hreceived : Received d p' (patch (fun _ => 0) 0 p'.bytes) 0
      (.ofNat (60 + if d.ulTrafficType = .ptm then 4 else 0)) := by
    constructor
    · rw [hp']
      split <;> rfl
    · have hread := readBytes_patch (fun _ => 0) 0 p'.bytes
      rwa [length_bytes] at hread
  have hback := hstrip 0 _ _ _ hreceived
  rw [stripped_packet hsw hp hreceived] at hback
  have hpad := congrArg List.length (List.append_cancel_left hback)
  simp only [padding, List.length_replicate, length_bytes, hhdr] at hpad
  omega

end

/-- With the headers of the software the round trip succeeds for every payload
and headroom, except for routed IP, where it never does. -/
theorem round_trip_iff (garbage : Nat → Mem UInt8) {d : DevCtx} (hsw : hwAddRemoveHeader d = false)
    (hhdr : d.ulHdrType ≠ .none) {m : Memory} (hmem : Supplied m) (p : Packet) :
    RoundTrip garbage d m p ↔ d.ulHdrType ≠ .llcSnapRouteIp := by
  refine ⟨fun h hip => not_roundTrip_routeIp hsw hip h, fun hip => ?_⟩
  obtain ⟨p', m', hp⟩ := addRfc2684Hdr_supplied hmem garbage p d.ulHdrType
  have hdoc : documented d.ulHdrType = (ucHdrs d.ulHdrType).take (hdrLens d.ulHdrType) := by
    cases htype : d.ulHdrType with
    | none => exact absurd htype hhdr
    | llcSnapRouteIp => exact absurd htype hip
    | llcSnapEthernet | llcEncapsPpp | vcMuxEthernet => rfl
  have hlen : (documented d.ulHdrType).length = hdrLens d.ulHdrType := by rw [hdoc, length_hdr]
  refine ⟨p', m', hp, ?_, fun header mem pucData length h => ?_⟩
  · rw [bytes_addRfc2684Hdr hp, hlen, padding, length_bytes, hdoc]
  · rw [stripped_packet hsw hp h, hlen]

def demoDev (hdrType : HdrType) : DevCtx := (TransmitBuffers.start .atm hdrType 0 []).dev

def demoPacket : Packet := ⟨{ TransmitBuffers.demoSkb with len := 20 }, fun i => if i = 0 then 0x45 else 0⟩

theorem bridged_round_trip :
    RoundTrip (fun _ _ => 0) (demoDev .llcSnapEthernet) ⟨0, 0, []⟩ demoPacket ↔ HdrType.llcSnapEthernet ≠ .llcSnapRouteIp :=
  round_trip_iff _ rfl (by decide) (fun _ ha => absurd ha List.not_mem_nil) demoPacket

theorem route_ip_header_short :
    ((demoPacket.addRfc2684Hdr (fun _ _ => 0) .llcSnapRouteIp ⟨0, 0, []⟩).1.map fun p => p.bytes.take 8) =
        some [0xAA, 0xAA, 0x03, 0x00, 0x00, 0x00, 0x08, 0x45] ∧
      ¬ RoundTrip (fun _ _ => 0) (demoDev .llcSnapRouteIp) ⟨0, 0, []⟩ demoPacket :=
  ⟨by decide, not_roundTrip_routeIp rfl rfl⟩

end AliceModem.Encapsulation
