import AliceModem.Xtm.Dma
import Mathlib.Data.Fintype.BigOperators
import Mathlib.Data.List.FinRange

namespace AliceModem.Transmit

open RingBuffer Dma

abbrev maxTransmitQueues : Nat := 16

def maxPhyPorts : Nat := 4

def maxSubPriorities : Nat := 8

inductive HdrType
  | none
  | llcSnapEthernet
  | llcSnapRouteIp
  | llcEncapsPpp
  | vcMuxEthernet
  deriving DecidableEq

inductive TrafficType
  | notConnected
  | atm
  | ptm
  deriving DecidableEq

structure Skb where
  id : Nat
  data : Nat
  headroom : Nat
  len : Nat
  protocol : BitVec 16
  priority : Nat
  nfmark : Nat
  deriving DecidableEq

/-- The pointers below `fresh` have been packets. An allocation takes the next
outcome, a failure or the address of the data. -/
structure Memory where
  fresh : Nat
  freed : Multiset Nat
  allocs : List (Option Nat)

structure TxQInfo where
  ulQueueSize : Nat
  pDma : Option Nat
  pBds : Nat → DmaDesc
  ppSkbs : Nat → Option Nat
  ulFreeBds : Nat
  ulHead : Nat
  ulTail : Nat

structure DevCtx where
  ulTrafficType : TrafficType
  ulHdrType : HdrType
  ulFlags : BitVec 32
  ucTxVcid : BitVec 8
  ulTxQInfosSize : Nat
  txQInfos : Fin maxTransmitQueues → TxQInfo
  pTxPriorities : Nat → Nat → Option (Fin maxTransmitQueues)

/-- A device, the memory of its packets, and whether the kernel has followed a
null pointer. -/
structure Sys where
  dev : DevCtx
  mem : Memory
  oops : Bool

namespace Memory

def kfreeSkb (m : Memory) (skb : Skb) : Memory := { m with freed := skb.id ::ₘ m.freed }

def alloc (m : Memory) : Option Nat × Memory := (m.allocs.headD (some 0), { m with allocs := m.allocs.tail })

def copy (m : Memory) (skb : Skb) (headroom : Nat) : Option Skb × Memory :=
  match m.alloc with
  | (none, m) => (none, m)
  | (some data, m) => (some { skb with id := m.fresh, data := data, headroom := headroom },
      { m with fresh := m.fresh + 1 })

end Memory

def skbDataAlign (n : Nat) : Nat := (n + 31) / 32 * 32

def skbCopyExpand (m : Memory) (skb : Skb) : Option Skb × Memory := m.copy skb 0

def skbReallocHeadroom (m : Memory) (skb : Skb) (headroom : Nat) : Option Skb × Memory :=
  m.copy skb (skb.headroom + skbDataAlign (headroom - skb.headroom))

def skbPush (skb : Skb) (n : Nat) : Skb :=
  { skb with data := skb.data - n, headroom := skb.headroom - n, len := skb.len + n }

def hdrLens : HdrType → Nat
  | .none => 0
  | .llcSnapEthernet => 10
  | .llcSnapRouteIp => 7
  | .llcEncapsPpp => 4
  | .vcMuxEthernet => 2

def minPktSize : Nat := 60

/-- Room for the header, by a copy if there is none. The packet that is copied
is freed, also if the copy fails. -/
def makeHeadroom (m : Memory) (skb : Skb) (minheadroom : Nat) : Option Skb × Memory :=
  if skb.headroom < minheadroom then
    let (skb2, m) := skbReallocHeadroom m skb minheadroom
    (skb2, m.kfreeSkb skb)
  else (some skb, m)

def addRfc2684Hdr (hdrType : HdrType) (m : Memory) (skb : Skb) : Option Skb × Memory :=
  match makeHeadroom m skb (hdrLens hdrType) with
  | (none, m) => (none, m)
  | (some skb, m) =>
      let skb := skbPush skb (hdrLens hdrType)
      if skb.len < minPktSize then
        let (skb2, m) := skbCopyExpand m skb
        (skb2.map fun skb2 => { skb2 with len := minPktSize }, m.kfreeSkb skb)
      else (some skb, m)

/-- The copy takes the place of the packet, which stays if the copy fails. -/
def copyOrKeep (m : Memory) (skb : Skb) (len : Nat) : Skb × Memory :=
  match skbCopyExpand m skb with
  | (none, m) => (skb, m)
  | (some skb2, m) => ({ skb2 with len := len }, m.kfreeSkb skb)

def align (m : Memory) (skb : Skb) : Skb × Memory :=
  if skb.data % 4 ≠ 0 then copyOrKeep m skb skb.len else (skb, m)

def isCell (skb : Skb) : Bool := skb.protocol &&& ~~~0x00f0 == 0xf000

def pad (m : Memory) (skb : Skb) : Skb × Memory :=
  if skb.len < ethZlen ∧ ¬ isCell skb then copyOrKeep m skb ethZlen else (skb, m)

def hwAddRemoveHeader (d : DevCtx) : Bool := d.ulFlags &&& 0x01 != 0

def useAltFstat (d : DevCtx) : Bool := d.ulFlags &&& 0x02 != 0

def hdrIndex : HdrType → BitVec 12
  | .none | .llcSnapEthernet => 0
  | .llcSnapRouteIp => 1
  | .llcEncapsPpp => 2
  | .vcMuxEthernet => 3

def txFstat (d : DevCtx) (skb : Skb) : BitVec 12 :=
  let fstat := d.ucTxVcid.setWidth 12
  if isCell skb then
    let fstat := fstat ||| (skb.protocol.setWidth 12 &&& 0x0f0)
    if useAltFstat d then (fstat ||| 0x800) &&& ~~~0x700 else fstat
  else if d.ulTrafficType = .atm then
    let fstat := fstat ||| 0x070
    if ¬ useAltFstat d then fstat
    else if d.ulHdrType ≠ .none then fstat ||| 0x800 ||| 0x100 ||| hdrIndex d.ulHdrType <<< 9
    else (fstat ||| 0x800) &&& ~~~0x700
  else fstat ||| 0x0f0 ||| 0x002 ||| 0x001

namespace TxQInfo

def freeHead (q : TxQInfo) : TxQInfo :=
  { q with
    ppSkbs := Function.update q.ppSkbs q.ulHead none
    ulHead := advance q.pBds q.ulHead
    ulFreeBds := q.ulFreeBds + 1 }

/-- The loop over `n` descriptors in use, and the packets it frees. -/
def freeLoop : Nat → TxQInfo → TxQInfo × Multiset Nat
  | 0, q => (q, 0)
  | n + 1, q =>
      if (q.pBds q.ulHead).status.own then (q, 0)
      else
        let r := freeLoop n q.freeHead
        (r.1, held (q.ppSkbs q.ulHead) + r.2)

def freeTransmitted (q : TxQInfo) : TxQInfo × Multiset Nat := freeLoop (q.ulQueueSize - q.ulFreeBds) q

def enqueue (d : DevCtx) (q : TxQInfo) (skb : Skb) : TxQInfo :=
  let status : Status := ⟨true, true, true, (q.pBds q.ulTail).status.wrap, txFstat d skb⟩
  { q with
    ulFreeBds := q.ulFreeBds - 1
    ppSkbs := Function.update q.ppSkbs q.ulTail (some skb.id)
    pBds := Function.update q.pBds q.ulTail ⟨.ofNat skb.len, status, skb.data⟩
    ulTail := advance q.pBds q.ulTail }

def stored (q : TxQInfo) : Multiset Nat := contents q.ulQueueSize q.ppSkbs

def complete (q : TxQInfo) (i : Nat) : TxQInfo :=
  { q with pBds := Function.update q.pBds i (q.pBds i).done }

def Next (q : TxQInfo) (i : Nat) : Prop :=
  ∃ k < q.ulQueueSize - q.ulFreeBds, place q.ulQueueSize q.ulHead k = i ∧
    ∀ j < k, (q.pBds (place q.ulQueueSize q.ulHead j)).status.own = false

end TxQInfo

def zeroDesc : DmaDesc := ⟨0, ⟨false, false, false, false, 0⟩, 0⟩

def zeroQueue : TxQInfo := ⟨0, none, fun _ => zeroDesc, fun _ => none, 0, 0, 0⟩

/-- The queue of a packet: by the mark of the packet, else by its priority,
else the first one. -/
def chooseQueue (d : DevCtx) (skb : Skb) : Fin maxTransmitQueues :=
  let ulPriority := skb.nfmark % 16
  let queue :=
    if 1 ≤ ulPriority ∧ ulPriority ≤ 4 then d.pTxPriorities 0 ulPriority
    else if 1 ≤ skb.priority ∧ skb.priority ≤ 4 then d.pTxPriorities 0 skb.priority
    else none
  queue.getD 0

namespace Sys

/-- Packets that have been transmitted are freed, in every queue in use. -/
def freeTransmitted (s : Sys) : Sys :=
  let r (i : Fin maxTransmitQueues) :=
    if i.val < s.dev.ulTxQInfosSize then (s.dev.txQInfos i).freeTransmitted else (s.dev.txQInfos i, 0)
  { s with
    dev := { s.dev with txQInfos := fun i => (r i).1 }
    mem := { s.mem with freed := s.mem.freed + ∑ i, (r i).2 } }

def insertHdr (s : Sys) (skb : Skb) : Option Skb × Memory :=
  if ¬ hwAddRemoveHeader s.dev ∧ s.dev.ulHdrType ≠ .none then addRfc2684Hdr s.dev.ulHdrType s.mem skb
  else (some skb, s.mem)

def send (s : Sys) (i : Fin maxTransmitQueues) (m : Memory) (skb : Skb) : Sys :=
  let (skb, m) := align m skb
  let q := s.dev.txQInfos i
  if q.ulFreeBds ≠ 0 then
    let (skb, m) := pad m skb
    { s with dev := { s.dev with txQInfos := Function.update s.dev.txQInfos i (q.enqueue s.dev skb) }, mem := m }
  else { s with mem := m.kfreeSkb skb }

/-- A packet whose header could not be inserted is null when its data is looked at. -/
def bcmxtmrtXmit (s : Sys) : Option Skb → Sys
  | none => s.freeTransmitted
  | some skb =>
      let s := s.freeTransmitted
      if s.dev.ulTxQInfosSize = 0 then { s with mem := s.mem.kfreeSkb skb }
      else
        match s.insertHdr skb with
        | (none, m) => { s with mem := m, oops := true }
        | (some skb', m) => s.send (chooseQueue s.dev skb) m skb'

end Sys

structure TransmitQueueId where
  ulPortId : Nat
  ulSubPriority : Nat
  ulQueueSize : Nat
  ulQueueIndex : Nat

structure LinkStatusChange where
  ucTxVcid : BitVec 8
  transmitQueueIds : List TransmitQueueId
  length_le : transmitQueueIds.length ≤ maxTransmitQueues

def portIdToPort : Nat → Nat
  | 0x01 => 0
  | 0x02 => 1
  | 0x04 => 2
  | 0x08 => 3
  | _ => maxPhyPorts

namespace TransmitQueueId

def valid (id : TransmitQueueId) : Bool :=
  portIdToPort id.ulPortId < maxPhyPorts && id.ulSubPriority < maxSubPriorities

def queue (id : TransmitQueueId) : TxQInfo :=
  { ulQueueSize := id.ulQueueSize
    pDma := some id.ulQueueIndex
    pBds := fun i => { zeroDesc with status := { zeroDesc.status with wrap := decide (i + 1 = id.ulQueueSize) } }
    ppSkbs := fun _ => none
    ulFreeBds := id.ulQueueSize
    ulHead := 0
    ulTail := 0 }

end TransmitQueueId

namespace LinkStatusChange

def queueId (lsc : LinkStatusChange) (i : Fin maxTransmitQueues) : Option TransmitQueueId :=
  (lsc.transmitQueueIds[i.val]?).filter TransmitQueueId.valid

def priorities (lsc : LinkStatusChange) (pr : Nat → Nat → Option (Fin maxTransmitQueues)) :
    Nat → Nat → Option (Fin maxTransmitQueues) :=
  (List.finRange maxTransmitQueues).foldl (fun pr i =>
    match lsc.queueId i with
    | none => pr
    | some id => Function.update pr (portIdToPort id.ulPortId)
        (Function.update (pr (portIdToPort id.ulPortId)) id.ulSubPriority (some i))) pr

end LinkStatusChange

namespace Sys

/-- The memory of the queues may be refused. -/
def doLinkUp (s : Sys) (lsc : LinkStatusChange) (memory : Bool) : Sys :=
  if memory then
    { s with dev := { s.dev with
        ucTxVcid := lsc.ucTxVcid
        ulTxQInfosSize := lsc.transmitQueueIds.length
        txQInfos := fun i => ((lsc.queueId i).map TransmitQueueId.queue).getD (s.dev.txQInfos i)
        pTxPriorities := lsc.priorities s.dev.pTxPriorities } }
  else s

def Channels (s : Sys) : Prop := ∀ i, i.val < s.dev.ulTxQInfosSize → (s.dev.txQInfos i).pDma ≠ none

instance (s : Sys) : Decidable s.Channels := by
  unfold Channels
  infer_instance

/-- A queue that was passed over has no channel to halt. -/
def doLinkDown (s : Sys) : Sys :=
  let s := s.bcmxtmrtXmit none
  if s.Channels then
    { s with dev := { s.dev with
        ucTxVcid := 0xff
        ulTxQInfosSize := 0
        txQInfos := fun _ => zeroQueue
        pTxPriorities := fun _ _ => none } }
  else { s with oops := true }

def stored (s : Sys) : Multiset Nat := ∑ i, (s.dev.txQInfos i).stored

end Sys

end AliceModem.Transmit
