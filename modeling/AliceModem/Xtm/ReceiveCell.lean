import AliceModem.Lib.ByteMemory
import AliceModem.Xtm.Receive
import AliceModem.Xtm.SendCell

namespace AliceModem.ReceiveCell

open ByteMemory Receive
open SendCell (CType cellSize)

inductive Handler
  | oam
  | asm
  deriving DecidableEq

structure RxCell where
  ulPortMask : Nat
  usVpi : Nat
  usVci : Nat
  ucCircuitType : BitVec 8
  ucData : List UInt8

/-- What is done with a received cell: the entry of the table that is read, the
case of the dispatch unless the cell has an error, the handler that is called,
the errors that are counted, and the ring if the buffer has its place there. -/
structure Outcome where
  cell : RxCell
  index : Nat
  dispatch : Option Nat
  delivered : Option Handler
  rxErrors : Nat
  ring : Option RxBdInfo

def ucCts : List (BitVec 8) := [0, 0, 0, 0, 0x00, 0x01, 0, 0, 0x04, 0x05, 0x06, 0x07, 0x02, 0x03]

def chdrCt (ucCHdr : UInt8) : Nat := (ucCHdr &&& 0x0f).toNat

def chdrError (ucCHdr : UInt8) : Bool := ucCHdr &&& 0x80 != 0

def chdrPort (ucCHdr : UInt8) : Nat := ((ucCHdr &&& 0x60) >>> 5).toNat

section

variable (mem : Mem UInt8) (pucData : Nat)

def pucAtmHdr (i : Nat) : Nat := (mem (pucData + 1 + i)).toNat

def usVpi : Nat := (pucAtmHdr mem pucData 0 * 2 ^ 8 + pucAtmHdr mem pucData 1) / 2 ^ 4

def usVci : Nat :=
  (pucAtmHdr mem pucData 1 % 2 ^ 4 * 2 ^ 16 + pucAtmHdr mem pucData 2 * 2 ^ 8 + pucAtmHdr mem pucData 3) % 2 ^ 16 / 2 ^ 4

def ucCHdr : UInt8 :=
  if usVci mem pucData = 3 then 0x0c else if usVci mem pucData = 4 then 0x0d else mem pucData

end

def cellHandler : Nat → Option Handler
  | 0x4 | 0x5 | 0xc | 0xd => some .oam
  | 0x8 | 0x9 | 0xa | 0xb => some .asm
  | _ => none

/-- `beyond` is what stands behind the table. -/
def processRxCell (registered : Handler → Bool) (beyond : Nat → BitVec 8) (q : RxBdInfo) (mem : Mem UInt8)
    (pucData : Nat) : Outcome :=
  let hdr := ucCHdr mem pucData
  let cell : RxCell :=
    { ulPortMask := 2 ^ chdrPort (mem pucData)
      usVpi := usVpi mem pucData
      usVci := usVci mem pucData
      ucCircuitType := (ucCts[chdrCt hdr]?).getD (beyond (chdrCt hdr))
      ucData := [] }
  let ring := q.assignRxBuffer (pucData - rxbufHeadReserve)
  if chdrError hdr then ⟨cell, chdrCt hdr, none, none, 1, ring⟩
  else
    { cell := { cell with ucData := readBytes mem (pucData + 1) cellSize }
      index := chdrCt hdr
      dispatch := some (chdrCt hdr)
      delivered := (cellHandler (chdrCt hdr)).filter registered
      rxErrors := 0
      ring := ring }

section

variable (mem : Mem UInt8) (pucData : Nat)

def hdrVpi : Nat := pucAtmHdr mem pucData 0 * 2 ^ 4 + pucAtmHdr mem pucData 1 / 2 ^ 4

def hdrVci : Nat :=
  pucAtmHdr mem pucData 1 % 2 ^ 4 * 2 ^ 12 + pucAtmHdr mem pucData 2 * 2 ^ 4 + pucAtmHdr mem pucData 3 / 2 ^ 4

def kind : Option CType :=
  if hdrVci mem pucData = 3 then some .oamF4Segment
  else if hdrVci mem pucData = 4 then some .oamF4EndToEnd
  else
    match chdrCt (mem pucData) with
    | 0x4 => some .oamF5Segment
    | 0x5 => some .oamF5EndToEnd
    | 0x8 => some .asmP0
    | 0x9 => some .asmP1
    | 0xa => some .asmP2
    | 0xb => some .asmP3
    | _ => none

end

def handlerOf : CType → Handler
  | .oamF5Segment | .oamF5EndToEnd | .oamF4Segment | .oamF4EndToEnd => .oam
  | .asmP0 | .asmP1 | .asmP2 | .asmP3 => .asm

def IsF4 (vci : Nat) : Prop := vci = 3 ∨ vci = 4

/-- A cell is decoded as its header has it, and its buffer goes back. -/
structure Decoded (registered : Handler → Bool) (q : RxBdInfo) (mem : Mem UInt8) (pucData : Nat) (o : Outcome) : Prop where
  vpi : o.cell.usVpi = hdrVpi mem pucData
  vci : o.cell.usVci = hdrVci mem pucData
  f4 : ∀ ct ∈ o.dispatch, ct = 0xc ∨ ct = 0xd → IsF4 (hdrVci mem pucData)
  error : chdrError (mem pucData) = true → o.rxErrors = 1 ∧ o.delivered = none
  index : o.index < ucCts.length
  delivered : chdrError (mem pucData) = false → ∀ ct ∈ kind mem pucData, registered (handlerOf ct) = true →
    o.delivered = some (handlerOf ct) ∧ o.cell.ucCircuitType = ct.code
  buffer : rxbufHeadReserve ≤ pucData → (q.bds q.tail).address = 0 → ∃ q', o.ring = some q' ∧
    (q'.bds q.tail).address = pucData ∧ (q'.bds q.tail).status.own = true

/-- The VCI has 12 bits, an F4 cell has no error, and the circuit type of any
other is in the table and, without an error, not that of F4. -/
structure Decodable (mem : Mem UInt8) (pucData : Nat) : Prop where
  vci : pucAtmHdr mem pucData 1 % 2 ^ 4 = 0
  error : chdrError (mem pucData) = true → ¬ IsF4 (hdrVci mem pucData)
  index : IsF4 (hdrVci mem pucData) ∨ chdrCt (mem pucData) ≤ 0xd
  f4 : chdrError (mem pucData) = false → chdrCt (mem pucData) = 0xc ∨ chdrCt (mem pucData) = 0xd →
    IsF4 (hdrVci mem pucData)

section

variable {mem : Mem UInt8} {pucData : Nat}

theorem pucAtmHdr_lt (mem : Mem UInt8) (pucData i : Nat) : pucAtmHdr mem pucData i < 2 ^ 8 := UInt8.toNat_lt _

theorem usVpi_eq (mem : Mem UInt8) (pucData : Nat) : usVpi mem pucData = hdrVpi mem pucData := by
  rw [usVpi, hdrVpi]
  omega

theorem usVci_eq_iff : usVci mem pucData = hdrVci mem pucData ↔ pucAtmHdr mem pucData 1 % 2 ^ 4 = 0 := by
  have h2 := pucAtmHdr_lt mem pucData 2
  have h3 := pucAtmHdr_lt mem pucData 3
  rw [usVci, hdrVci]
  omega

theorem ucCHdr_f4Segment (h : usVci mem pucData = 3) : ucCHdr mem pucData = 0x0c := if_pos h

theorem ucCHdr_f4EndToEnd (h : usVci mem pucData = 4) : ucCHdr mem pucData = 0x0d := by
  rw [ucCHdr, if_neg (by omega), if_pos h]

theorem ucCHdr_other (h : ¬ IsF4 (usVci mem pucData)) : ucCHdr mem pucData = mem pucData := by
  rw [IsF4, not_or] at h
  rw [ucCHdr, if_neg h.1, if_neg h.2]

theorem ucCHdr_f4 (h : IsF4 (usVci mem pucData)) :
    chdrError (ucCHdr mem pucData) = false ∧ chdrCt (ucCHdr mem pucData) < ucCts.length := by
  rcases h with h3 | h4
  · rw [ucCHdr_f4Segment h3]
    decide
  · rw [ucCHdr_f4EndToEnd h4]
    decide

variable (registered : Handler → Bool) (beyond : Nat → BitVec 8) (q : RxBdInfo)

theorem processRxCell_error (h : chdrError (ucCHdr mem pucData) = true) :
    (processRxCell registered beyond q mem pucData).rxErrors = 1 ∧
      (processRxCell registered beyond q mem pucData).delivered = none ∧
      (processRxCell registered beyond q mem pucData).dispatch = none := by
  simp only [processRxCell, if_pos h, and_self]

theorem processRxCell_dispatch (h : chdrError (ucCHdr mem pucData) = false) :
    (processRxCell registered beyond q mem pucData).rxErrors = 0 ∧
      (processRxCell registered beyond q mem pucData).delivered =
        (cellHandler (chdrCt (ucCHdr mem pucData))).filter registered ∧
      (processRxCell registered beyond q mem pucData).dispatch = some (chdrCt (ucCHdr mem pucData)) := by
  simp only [processRxCell, h, Bool.false_eq_true, if_false, and_self]

variable (mem pucData) in
theorem processRxCell_cell : (processRxCell registered beyond q mem pucData).cell.usVpi = usVpi mem pucData ∧
    (processRxCell registered beyond q mem pucData).cell.usVci = usVci mem pucData ∧
    (processRxCell registered beyond q mem pucData).cell.ucCircuitType =
      (ucCts[chdrCt (ucCHdr mem pucData)]?).getD (beyond (chdrCt (ucCHdr mem pucData))) ∧
    (processRxCell registered beyond q mem pucData).index = chdrCt (ucCHdr mem pucData) ∧
    (processRxCell registered beyond q mem pucData).ring = q.assignRxBuffer (pucData - rxbufHeadReserve) := by
  rw [processRxCell]
  dsimp only
  split
  · exact ⟨rfl, rfl, rfl, rfl, rfl⟩
  · exact ⟨rfl, rfl, rfl, rfl, rfl⟩

theorem assignRxBuffer_returns (hreserve : rxbufHeadReserve ≤ pucData) (hfree : (q.bds q.tail).address = 0) :
    ∃ q', q.assignRxBuffer (pucData - rxbufHeadReserve) = some q' ∧ (q'.bds q.tail).address = pucData ∧
      (q'.bds q.tail).status.own = true := by
  have htail : (q.putTail (pucData - rxbufHeadReserve)).bds q.tail = ⟨.ofNat rxbufSize,
      ⟨true, false, false, (q.bds q.tail).status.wrap, 0⟩, pucData - rxbufHeadReserve + rxbufHeadReserve⟩ :=
    Function.update_self ..
  refine ⟨q.putTail (pucData - rxbufHeadReserve), if_pos hfree, ?_, ?_⟩
  · rw [htail]
    exact Nat.sub_add_cancel hreserve
  · rw [htail]

theorem kind_table {ct : CType} (hvci : usVci mem pucData = hdrVci mem pucData) (hkind : kind mem pucData = some ct) :
    cellHandler (chdrCt (ucCHdr mem pucData)) = some (handlerOf ct) ∧
      ucCts[chdrCt (ucCHdr mem pucData)]? = some ct.code := by
  rw [kind] at hkind
  split at hkind
  case isTrue h3 =>
    cases hkind
    rw [ucCHdr_f4Segment (hvci.trans h3)]
    exact ⟨rfl, rfl⟩
  case isFalse h3 =>
    split at hkind
    case isTrue h4 =>
      cases hkind
      rw [ucCHdr_f4EndToEnd (hvci.trans h4)]
      exact ⟨rfl, rfl⟩
    case isFalse h4 =>
      rw [ucCHdr_other (hvci ▸ fun h => h.elim h3 h4)]
      split at hkind
      case h_7 => cases hkind
      all_goals
        rename_i hct
        cases hkind
        rw [hct]
        exact ⟨rfl, rfl⟩

theorem Decoded.decodable {registered : Handler → Bool} {beyond : Nat → BitVec 8} {q : RxBdInfo}
    (h : Decoded registered q mem pucData (processRxCell registered beyond q mem pucData)) : Decodable mem pucData := by
  obtain ⟨-, hcell, -, hindex, -⟩ := processRxCell_cell mem pucData registered beyond q
  have hvci : usVci mem pucData = hdrVci mem pucData := hcell.symm.trans h.vci
  have hlt := h.index
  rw [hindex] at hlt
  refine ⟨usVci_eq_iff.mp hvci, fun herror hf4 => ?_, ?_, fun hok hct => ?_⟩
  · have hnone := (processRxCell_dispatch registered beyond q (ucCHdr_f4 (hvci ▸ hf4)).1).1
    rw [(h.error herror).1] at hnone
    cases hnone
  · by_cases hf4 : IsF4 (hdrVci mem pucData)
    · exact .inl hf4
    · rw [ucCHdr_other (hvci ▸ hf4)] at hlt
      exact .inr (Nat.le_of_lt_succ hlt)
  · by_contra hf4
    have hother := ucCHdr_other (hvci ▸ hf4)
    have hcase := (processRxCell_dispatch registered beyond q (hother ▸ hok)).2.2
    rw [hother] at hcase
    exact hf4 (h.f4 _ hcase hct)

theorem Decodable.decoded (h : Decodable mem pucData) :
    Decoded registered q mem pucData (processRxCell registered beyond q mem pucData) := by
  obtain ⟨hvpi, hcell, htype, hindex, hring⟩ :=
    processRxCell_cell mem pucData registered beyond q
  have hvci := usVci_eq_iff.mpr h.vci
  refine ⟨hvpi.trans (usVpi_eq mem pucData), hcell.trans hvci, fun ct hcase hct => ?_, fun herror => ?_, ?_,
    fun hok ct hkind hreg => ?_, fun hreserve hfree => ?_⟩
  · by_contra hf4
    have hother := ucCHdr_other (hvci ▸ hf4)
    by_cases herror : chdrError (mem pucData) = true
    · rw [(processRxCell_error registered beyond q (hother ▸ herror)).2.2] at hcase
      cases hcase
    · rw [Bool.not_eq_true] at herror
      rw [(processRxCell_dispatch registered beyond q (hother ▸ herror)).2.2, hother] at hcase
      cases hcase
      exact hf4 (h.f4 herror hct)
  · have hother := ucCHdr_other (hvci ▸ h.error herror)
    have hcount := processRxCell_error registered beyond q (hother ▸ herror)
    exact ⟨hcount.1, hcount.2.1⟩
  · rw [hindex]
    rcases h.index with hf4 | hle
    · exact (ucCHdr_f4 (hvci ▸ hf4)).2
    · by_cases hf4 : IsF4 (hdrVci mem pucData)
      · exact (ucCHdr_f4 (hvci ▸ hf4)).2
      · rw [ucCHdr_other (hvci ▸ hf4)]
        exact Nat.lt_succ_of_le hle
  · have hfine : chdrError (ucCHdr mem pucData) = false := by
      by_cases hf4 : IsF4 (hdrVci mem pucData)
      · exact (ucCHdr_f4 (hvci ▸ hf4)).1
      · rw [ucCHdr_other (hvci ▸ hf4)]
        exact hok
    obtain ⟨hhandler, hcode⟩ := kind_table hvci hkind
    refine ⟨?_, ?_⟩
    · rw [(processRxCell_dispatch registered beyond q hfine).2.1, hhandler]
      exact Option.filter_some_pos hreg
    · rw [htype, hcode, Option.getD_some]
  · rw [hring]
    exact assignRxBuffer_returns q hreserve hfree

theorem rxQueue_cell {devs : Devices} {s : Receive.Sys} {i : Fin maxReceiveQueues} {q' : RxBdInfo}
    (hready : (s.rx i).Ready) (hfate : fate devs ((s.rx i).bds (s.rx i).head).status.fstat = .recycle)
    (hring : (processRxCell registered beyond ((s.rx i).takeHead ((s.rx i).bds (s.rx i).head).length) mem
      ((s.rx i).bds (s.rx i).head).address).ring = some q') : (s.rxQueue devs i).1.rx i = q' := by
  rw [(processRxCell_cell ..).2.2.2.2] at hring
  have htake : (s.take i ((s.rx i).bds (s.rx i).head).length).rx i =
      (s.rx i).takeHead ((s.rx i).bds (s.rx i).head).length := Function.update_self ..
  rw [Receive.Sys.rxQueue, if_neg (not_not.mpr hready), hfate, Receive.Sys.assign, htake, hring]
  exact Function.update_self ..

end

/-- A received cell is decoded faithfully exactly if it is `Decodable`. -/
theorem cell_decoded_iff (registered : Handler → Bool) (beyond : Nat → BitVec 8) (q : RxBdInfo) (mem : Mem UInt8)
    (pucData : Nat) :
    Decoded registered q mem pucData (processRxCell registered beyond q mem pucData) ↔ Decodable mem pucData :=
  ⟨fun h => h.decodable, fun h => h.decoded registered beyond q⟩

def demoMem (bytes : List UInt8) : Mem UInt8 := fun i => bytes.getD (i - rxbufHeadReserve).toNat 0

def demoRing : RxBdInfo := ⟨1, fun _ => ⟨0, ⟨false, false, false, true, 0⟩, 0⟩, 0, 0⟩

/-- An F5 cell with VCI 0x1003 is taken for an F4 cell with VCI 3, an F4 cell with
an error is delivered, and circuit type 15 is looked up behind the table. -/
theorem cells_decoded_wrongly :
    ((processRxCell (fun _ => true) (fun _ => 0) demoRing (demoMem [0x05, 0x00, 0x01, 0x00, 0x30]) 32).cell.usVci = 3 ∧
      ¬ Decoded (fun _ => true) demoRing (demoMem [0x05, 0x00, 0x01, 0x00, 0x30]) 32
        (processRxCell (fun _ => true) (fun _ => 0) demoRing (demoMem [0x05, 0x00, 0x01, 0x00, 0x30]) 32)) ∧
    ((processRxCell (fun _ => true) (fun _ => 0) demoRing (demoMem [0x81, 0x00, 0x00, 0x00, 0x30]) 32).delivered =
        some .oam ∧
      ¬ Decoded (fun _ => true) demoRing (demoMem [0x81, 0x00, 0x00, 0x00, 0x30]) 32
        (processRxCell (fun _ => true) (fun _ => 0) demoRing (demoMem [0x81, 0x00, 0x00, 0x00, 0x30]) 32)) ∧
    ((processRxCell (fun _ => true) (fun _ => 0) demoRing (demoMem [0x0f, 0x00, 0x00, 0x06, 0x40]) 32).index = 15 ∧
      ¬ Decoded (fun _ => true) demoRing (demoMem [0x0f, 0x00, 0x00, 0x06, 0x40]) 32
        (processRxCell (fun _ => true) (fun _ => 0) demoRing (demoMem [0x0f, 0x00, 0x00, 0x06, 0x40]) 32)) := by
  refine ⟨⟨by decide, fun h => ?_⟩, ⟨by decide, fun h => ?_⟩, by decide, fun h => ?_⟩
  · exact absurd h.decodable.vci (by decide)
  · exact h.decodable.error (by decide) (.inl (by decide))
  · exact absurd h.index (by decide)

end AliceModem.ReceiveCell
