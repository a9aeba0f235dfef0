import AliceModem.Lib.RingBuffer

namespace AliceModem.Dma

open RingBuffer

/-- The status half word of a descriptor: the flags of the DMA engine, from bit
15 down, and the twelve bits of the frame status. -/
structure Status where
  own : Bool
  eop : Bool
  sop : Bool
  wrap : Bool
  fstat : BitVec 12
  deriving DecidableEq

structure DmaDesc where
  length : UInt16
  status : Status
  address : Nat
  deriving DecidableEq

def DmaDesc.done (bd : DmaDesc) : DmaDesc := { bd with status := { bd.status with own := false } }

def ethZlen : Nat := 60

/-- The descriptor after `i`: the first one again after the one with `DMA_WRAP`. -/
def advance (bds : Nat → DmaDesc) (i : Nat) : Nat := if (bds i).status.wrap then 0 else i + 1

/-- `DMA_WRAP` marks the last of `n` descriptors and no other. -/
def Wraps (n : Nat) (bds : Nat → DmaDesc) : Prop := ∀ i < n, (bds i).status.wrap = decide (i + 1 = n)

theorem Wraps.advance {n i : Nat} {bds : Nat → DmaDesc} (h : Wraps n bds) (hi : i < n) :
    advance bds i = place n i 1 := by
  rw [place_one hi, Dma.advance, h i hi]
  simp only [decide_eq_true_eq]

theorem Wraps.update {n i : Nat} {bds : Nat → DmaDesc} (h : Wraps n bds) (bd : DmaDesc)
    (hbd : bd.status.wrap = (bds i).status.wrap) : Wraps n (Function.update bds i bd) := by
  intro j hj
  by_cases hji : j = i
  · subst hji
    rw [Function.update_self, hbd, h j hj]
  · rw [Function.update_of_ne hji, h j hj]

end AliceModem.Dma
