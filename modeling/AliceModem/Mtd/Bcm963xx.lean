import AliceModem.Kernel.Vsprintf
import AliceModem.Lib.Words

namespace AliceModem.Bcm963xx

open Vsprintf Words

def windowSize : Nat := 0x400000

def extendedSize : Nat := 0xBFC00000

/-- The size of `struct bcm963xx_cfe_map`, whose reserved field has 16 bytes more
than the one of `FILE_TAG`. -/
def cfeMapSize : Nat := 272

structure MtdInfo where
  size : Nat
  erasesize : Nat
  size_lt : size < 4294967296
  erasesize_pos : 0 < erasesize
  erasesize_dvd : erasesize ∣ size

inductive PartName
  | cfe | kernel | rootfs | data | nvram | linux
deriving DecidableEq

structure MtdPartition where
  name : PartName
  offset : Nat
  size : Nat
deriving DecidableEq

structure TagNumbers where
  rootAddress : Nat := 0
  rootLength : Nat := 0
  kernelAddress : Nat := 0
  kernelLength : Nat := 0
  totalLength : Nat := 0

/-- The numbers in the bytes of a tag; `uninit` is what the variables hold
before. -/
def tagNumbers (buf : List UInt8) (uninit : TagNumbers) : TagNumbers where
  rootAddress := sscanfU (buf.drop 94) uninit.rootAddress
  rootLength := sscanfU (buf.drop 106) uninit.rootLength
  kernelAddress := sscanfU (buf.drop 116) uninit.kernelAddress
  kernelLength := sscanfU (buf.drop 128) uninit.kernelLength
  totalLength := sscanfU (buf.drop 62) uninit.totalLength

def roundup (x y : Nat) : Nat := uint32 (uint32 (x + (y - 1)) / y * y)

variable (master : MtdInfo)

def spareaddr (totallen : Nat) : Nat := uint32 (roundup totallen master.erasesize + master.erasesize)

def sparelen (totallen : Nat) : Nat := uint32 (master.size - spareaddr master totallen - master.erasesize)

def partitions (t : TagNumbers) : List MtdPartition :=
  [⟨.cfe, 0, master.erasesize⟩] ++
  (if 0 < t.kernelLength then [⟨.kernel, uint32 (t.kernelAddress - extendedSize), t.kernelLength⟩] else []) ++
  (if 0 < t.rootLength then [⟨.rootfs, uint32 (t.rootAddress - extendedSize), t.rootLength⟩] else []) ++
  (if 0 < sparelen master t.totalLength then
    [⟨.data, spareaddr master t.totalLength, sparelen master t.totalLength⟩] else []) ++
  [⟨.nvram, uint32 (master.size - master.erasesize), master.erasesize⟩,
    ⟨.linux, master.erasesize, uint32 (windowSize - master.erasesize)⟩]

inductive Errno
  | enomem | eio
deriving DecidableEq

/-- `vmalloc` and `kmalloc` say whether the memory is there, and `buf` is what
the device delivers from the sector behind the CFE on. -/
def parseCfePartitions (vmalloc kmalloc : Bool) (buf : List UInt8) (uninit : TagNumbers) :
    Except Errno (List MtdPartition) :=
  if vmalloc = false then .error .enomem
  else if buf.length ≠ cfeMapSize then .error .eio
  else if kmalloc = false then .error .enomem
  else .ok (partitions master (tagNumbers buf uninit))

end AliceModem.Bcm963xx
