import AliceModem.Xtm.Dma
import Mathlib.Data.Fintype.BigOperators
import Mathlib.Data.List.FinRange

namespace AliceModem.Receive

open RingBuffer Dma

abbrev maxReceiveQueues : Nat := 4

instance neZero_maxReceiveQueues : NeZero maxReceiveQueues := ⟨by decide⟩

def maxBufmemBlocks : Nat := 16

def rxbufHeadReserve : Nat := 32

def rxbufSize : Nat := 1536

def rxbufAllocSize : Nat := 1728

def bufsPerBlock : Nat := 64 * 1024 / rxbufAllocSize

/-- The ring of a receive queue. Head and tail are counted from the base, which
is null if there are no descriptors. -/
structure RxBdInfo where
  size : Nat
  bds : Nat → DmaDesc
  head : Nat
  tail : Nat

structure RxDev where
  ptm : Bool
  hwAddRemoveHeader : Bool
  hdrLen : Nat

abbrev Devices : Type := BitVec 7 → Option RxDev

structure RxSkb where
  header : Nat
  head : Nat
  data : Nat
  len : Nat

/-- The driver, and the data buffers that were taken from each ring and are not
back. The headers that are free are chained. -/
structure Sys where
  rx : Fin maxReceiveQueues → RxBdInfo
  freeRxSkbList : List Nat
  out : Fin maxReceiveQueues → Multiset Nat
  noPlace : Bool
  oops : Bool

def buffer (bd : DmaDesc) : Option Nat := if bd.address = 0 then none else some bd.address

namespace RxBdInfo

def putTail (q : RxBdInfo) (pucData : Nat) : RxBdInfo :=
  let status : Status := ⟨true, false, false, (q.bds q.tail).status.wrap, 0⟩
  { q with
    bds := Function.update q.bds q.tail ⟨.ofNat rxbufSize, status, pucData + rxbufHeadReserve⟩
    tail := advance q.bds q.tail }

def assignRxBuffer (q : RxBdInfo) (pucData : Nat) : Option RxBdInfo :=
  if (q.bds q.tail).address = 0 then some (q.putTail pucData) else none

def Ready (q : RxBdInfo) : Prop :=
  q.size ≠ 0 ∧ (q.bds q.head).status.own = false ∧ (q.bds q.head).address ≠ 0

instance (q : RxBdInfo) : Decidable q.Ready := inferInstanceAs (Decidable (_ ∧ _))

def takeHead (q : RxBdInfo) (length : UInt16) : RxBdInfo :=
  { q with
    bds := Function.update q.bds q.head ⟨length, ⟨false, false, false, (q.bds q.head).status.wrap, 0⟩, 0⟩
    head := advance q.bds q.head }

def fill (q : RxBdInfo) (i : Nat) (length : UInt16) (fstat : BitVec 12) : RxBdInfo :=
  let bd := q.bds i
  { q with bds := Function.update q.bds i ⟨length, ⟨false, true, true, bd.status.wrap, fstat⟩, bd.address⟩ }

def Next (q : RxBdInfo) (i : Nat) : Prop :=
  (q.bds i).status.own ∧ ∃ k < q.size, place q.size q.head k = i ∧
    ∀ j < k, (q.bds (place q.size q.head j)).status.own = false

def addresses (q : RxBdInfo) : Multiset Nat := contents q.size fun i => buffer (q.bds i)

end RxBdInfo

def matchId (fstat : BitVec 12) : BitVec 7 := fstat.setWidth 7

def isCell (fstat : BitVec 12) : Bool := fstat &&& 0x400 != 0

def isError (fstat : BitVec 12) : Bool := fstat &&& 0x800 != 0

def rxLength (dev : RxDev) (length : UInt16) : UInt16 :=
  let length := if dev.ptm ∧ length ≠ 0 then length - 4 else length
  if length.toNat < ethZlen then .ofNat ethZlen else length

def rxSkb (dev : RxDev) (header pucData : Nat) (length : UInt16) : RxSkb :=
  let pull := if dev.hwAddRemoveHeader then 0 else dev.hdrLen
  ⟨header, pucData - rxbufHeadReserve, pucData + pull, (rxLength dev length).toNat - pull⟩

/-- What the tasklet does with a descriptor that has a packet: a packet for a
device goes to the stack, a cell or an error back to the ring. -/
inductive Fate
  | deliver (dev : RxDev)
  | recycle

def fate (devs : Devices) (fstat : BitVec 12) : Fate :=
  match devs (matchId fstat) with
  | none => .recycle
  | some dev => if isError fstat ∨ isCell fstat then .recycle else .deliver dev

namespace Sys

def setQueue (s : Sys) (i : Fin maxReceiveQueues) (q : RxBdInfo) (out : Multiset Nat) : Sys :=
  { s with rx := Function.update s.rx i q, out := Function.update s.out i out }

def assign (s : Sys) (i : Fin maxReceiveQueues) (pucData : Nat) : Sys :=
  match (s.rx i).assignRxBuffer pucData with
  | some q => s.setQueue i q ((s.out i).erase (pucData + rxbufHeadReserve))
  | none => { s with noPlace := true }

def freeData (s : Sys) (i : Fin maxReceiveQueues) (head : Nat) : Sys := s.assign i head

def take (s : Sys) (i : Fin maxReceiveQueues) (length : UInt16) : Sys :=
  s.setQueue i ((s.rx i).takeHead length) (((s.rx i).bds (s.rx i).head).address ::ₘ s.out i)

def setList (s : Sys) (skbs : List Nat) : Sys := { s with freeRxSkbList := skbs }

def freeSkb (s : Sys) (skb : Nat) : Sys := s.setList (skb :: s.freeRxSkbList)

def fault (s : Sys) : Sys := { s with oops := true }

/-- One visit of the tasklet to a queue, and the packet it delivers. Without a
free header the tasklet follows a null pointer. -/
def rxQueue (devs : Devices) (s : Sys) (i : Fin maxReceiveQueues) : Sys × Option RxSkb :=
  let bd := (s.rx i).bds (s.rx i).head
  if ¬ (s.rx i).Ready then (s, none)
  else
    match fate devs bd.status.fstat with
    | .recycle => ((s.take i bd.length).assign i (bd.address - rxbufHeadReserve), none)
    | .deliver dev =>
        match s.freeRxSkbList with
        | [] => ((s.take i bd.length).fault, none)
        | skb :: skbs => ((s.take i (rxLength dev bd.length)).setList skbs, some (rxSkb dev skb bd.address bd.length))

end Sys

structure Round where
  sys : Sys
  skbs : List RxSkb
  more : Bool

def Round.visit (devs : Devices) (r : Round) (i : Fin maxReceiveQueues) : Round :=
  if r.sys.oops then r
  else
    let (s, skb) := r.sys.rxQueue devs i
    ⟨s, r.skbs ++ skb.toList, r.more || decide (r.sys.rx i).Ready⟩

def rxRound (devs : Devices) (s : Sys) : Round :=
  (List.finRange maxReceiveQueues).foldl (Round.visit devs) ⟨s, [], false⟩

/-- Rounds over all queues until one finds nothing, `n` rounds at most. -/
def bcmxtmrtRxtasklet (devs : Devices) : Nat → Sys → Sys × List RxSkb
  | 0, s => (s, [])
  | n + 1, s =>
      let r := rxRound devs s
      if r.more ∧ r.sys.oops = false then
        let (s, skbs) := bcmxtmrtRxtasklet devs n r.sys
        (s, r.skbs ++ skbs)
      else (r.sys, r.skbs)

/-- The sizes of the receive queues. The blocks of the data buffers have room in
the table of blocks. -/
structure GlobalInitParms where
  sizes : Fin maxReceiveQueues → Nat
  fits : ∑ i, sizes i ≤ maxBufmemBlocks * bufsPerBlock

def blockBufs (p amt : Nat) : List Nat :=
  (List.range amt).map fun i => (p + 15) / 16 * 16 + i * rxbufAllocSize + rxbufHeadReserve

/-- The blocks for `n` buffers, by the outcomes of their allocations: whether
all went well, and the data addresses. A failure is noted and the loop goes on;
it has not ended when the outcomes are used up. -/
def allocBufs : List (Option Nat) → Nat → Option (Bool × List Nat)
  | _, 0 => some (true, [])
  | [], _ + 1 => none
  | none :: blocks, n + 1 => (allocBufs blocks (n + 1)).map fun r => (false, r.2)
  | some p :: blocks, n + 1 =>
      let amt := min bufsPerBlock (n + 1)
      (allocBufs blocks (n + 1 - amt)).map fun r => (r.1, blockBufs p amt ++ r.2)

/-- The blocks that are allocated for `n` buffers, with their lengths. -/
def granted : List (Option Nat) → Nat → List (Nat × Nat)
  | _, 0 | [], _ + 1 => []
  | none :: blocks, n + 1 => granted blocks (n + 1)
  | some p :: blocks, n + 1 =>
      let amt := min bufsPerBlock (n + 1)
      (p, amt * rxbufAllocSize) :: granted blocks (n + 1 - amt)

def Separate (blocks : List (Nat × Nat)) : Prop :=
  blocks.Pairwise fun a b => a.1 + a.2 ≤ b.1 ∨ b.1 + b.2 ≤ a.1

instance (blocks : List (Nat × Nat)) : Decidable (Separate blocks) :=
  inferInstanceAs (Decidable (List.Pairwise _ _))

def initQueue (size : Nat) (addrs : List Nat) : RxBdInfo :=
  { size := size
    bds := fun j => ⟨.ofNat rxbufSize, ⟨true, false, false, decide (j + 1 = size), 0⟩, addrs.getD j 0⟩
    head := 0
    tail := 0 }

def offset (sizes : Fin maxReceiveQueues → Nat) (i : Fin maxReceiveQueues) : Nat := ∑ j with j < i, sizes j

def enomem : Int := -12

/-- The driver before its initialisation. Attempts that failed may have left
headers on the list. -/
def loaded (free : List Nat) : Sys := ⟨fun _ => initQueue 0 [], free, fun _ => 0, false, false⟩

/-- The driver is initialised once; the error of a second request is not kept.
The headers are named by their place. -/
def doGlobInitReq (uninitialized skbMem bdMem : Bool) (blocks : List (Option Nat)) (s : Sys)
    (parms : GlobalInitParms) : Option (Int × Sys) :=
  let n := ∑ i, parms.sizes i
  let chained := s.setList ((List.range n).reverse ++ s.freeRxSkbList)
  if ¬ uninitialized ∨ ¬ skbMem then some (enomem, s)
  else if ¬ bdMem then some (enomem, chained)
  else
    (allocBufs blocks n).map fun r =>
      if r.1 then
        (0, { chained with rx := fun i => initQueue (parms.sizes i) (r.2.drop (offset parms.sizes i)) })
      else (enomem, chained)

end AliceModem.Receive
