import AliceModem.Hwdefs
import AliceModem.Lib.SerialFlash
import AliceModem.Lib.Transition
import AliceModem.Lib.Words

namespace AliceModem.SpiFlash

open Words Hwdefs ByteMemory SerialFlash Transition

inductive Family
  | undefined
  | sst
  | atmel
  | amd
  | span
  | nx
  | kh
  deriving DecidableEq

/-- What `spi_flash_init` finds out about the part. -/
structure Part where
  family : Family
  numsector : Nat
  sectorsize : Nat
  sstAaiWordProgram : Bool
  deriving DecidableEq

def spiFlashInit (deviceId : Nat) : Part :=
  let id := deviceId % 256
  if deviceId / 256 = 0x1f then
    if id = 0x60 then ⟨.atmel, 2, 32768, false⟩
    else if id = 0x63 then ⟨.atmel, 4, 65536, false⟩
    else ⟨.atmel, 0, 0, false⟩
  else if deviceId / 256 = 0xbf then
    if id = 0x41 then ⟨.sst, 512, 4096, true⟩
    else if id = 0x80 then ⟨.sst, 256, 4096, false⟩
    else if id = 0x44 then ⟨.sst, 128, 4096, false⟩
    else ⟨.sst, 64, 4096, false⟩
  else if deviceId / 256 = 0x14 then
    if id = 0x14 then ⟨.kh, 512, 4096, false⟩ else ⟨.kh, 0, 4096, false⟩
  else if deviceId / 256 = 0x11 then ⟨.amd, 4, 65536, false⟩
  else if deviceId / 256 = 0xef then
    if id = 0x11 then ⟨.nx, 4, 65536, false⟩
    else if id = 0x12 then ⟨.nx, 8, 65536, false⟩
    else if id = 0x14 then ⟨.nx, 32, 65536, false⟩
    else ⟨.nx, 0, 65536, false⟩
  else if deviceId / 256 = 0x12 then ⟨.amd, 8, 65536, false⟩
  else if deviceId / 256 = 0x01 then
    if id = 0x15 then ⟨.span, 64, 65536, false⟩
    else if id = 0x14 then ⟨.span, 32, 65536, false⟩
    else if id = 0x13 then ⟨.span, 16, 65536, false⟩
    else ⟨.span, 8, 65536, false⟩
  else ⟨.undefined, 1, 4096, false⟩

/-- `FLASH_BASE` of this chip. -/
abbrev flashBase : Int := imageBase

/-- `sizeof(SPI->spiMsgData)`. -/
abbrev spiMsgData : Int := 63

abbrev cmdLen4 : Int := 4

abbrev maxRead : Nat := 60

def Part.totalSize (p : Part) : Nat := p.numsector * p.sectorsize

def Part.base (p : Part) (sector : Nat) : Int := if sector < p.numsector then (sector * p.sectorsize : Nat) else 0

def addressBytes (dst : Int) : List UInt8 :=
  [UInt8.ofNat (dst.toNat / 65536), UInt8.ofNat (dst.toNat / 256), UInt8.ofNat dst.toNat]

section

variable (k : Kind)

def spiFlashUb (c : Chip) : Chip := c.receive k [wren]

def spiFlashResetUb (c : Chip) : Chip := c.receive k [wrdi]

def spiRead (c : Chip) (addr : Int) (nbytes : Nat) : List UInt8 :=
  match addressBytes addr with
  | [a2, a1, a0] => c.read k (k.address a2 a1 a0) nbytes
  | _ => []

def readLoop (c : Chip) : Nat → Int → Nat → List UInt8
  | 0, _, _ => []
  | fuel + 1, addr, numbytes =>
      if 0 < numbytes then
        let maxread := if numbytes < maxRead then numbytes else maxRead
        spiRead k c addr maxread ++ readLoop c fuel (uint32 (addr + maxread)) (numbytes - maxread)
      else []

def spiFlashReadBuf (p : Part) (sector : Nat) (offset : Int) (numbytes : Nat) (c : Chip) : Chip × List UInt8 :=
  let c := spiFlashResetUb k c
  (c, readLoop k c numbytes (uint32 (flashBase + p.base sector + offset)) numbytes)

/-- The local variables of `spi_flash_write` that its loops change, with the part and the memory of the host. -/
structure Call where
  chip : Chip
  host : Mem UInt8
  pbuf : Int
  nbytes : Int
  dst : Int

def aaiStep (op : UInt8) (width : Nat) (buf : Int) (s : Call) : Call :=
  { s with
    chip := s.chip.receive k (op :: ((if s.pbuf = buf then addressBytes s.dst else []) ++ readBytes s.host s.pbuf width))
    pbuf := s.pbuf + width
    nbytes := int32 (s.nbytes - width) }

def Call.send (s : Call) (data : List UInt8) : Call :=
  { s with chip := (spiFlashUb k s.chip).receive k (prog :: (addressBytes s.dst ++ data)) }

def Call.advance (s : Call) (maxwrite : Int) : Call :=
  { s with
    pbuf := s.pbuf + maxwrite
    nbytes := int32 (s.nbytes - maxwrite)
    dst := uint32 (s.dst + maxwrite) }

def maxwrite (limit : Int) (s : Call) : Int :=
  let maxwrite := if (uint32 s.nbytes : Int) < limit then s.nbytes else limit
  let pagelimit := 256 - s.dst % 256
  if maxwrite < pagelimit then maxwrite else pagelimit

theorem maxwrite_eq {s : Call} (limit : Int) {r : Nat} (hn : s.nbytes = r) (hr : r < 2147483648) :
    maxwrite limit s = min (min (r : Int) limit) (256 - s.dst % 256) := by
  have hcast := uint32_of_range (z := r) (by omega) (by omega)
  rw [maxwrite, hn, hcast]
  split_ifs <;> omega

def pageStep (limit : Int) (s : Call) : Call :=
  let maxwrite := maxwrite limit s
  (s.send k (readBytes s.host s.pbuf maxwrite.toNat)).advance maxwrite

def redirect (btmp2 : Int) (s : Call) : Call :=
  if s.nbytes = 1 then { s with host := patch s.host btmp2 [s.host s.pbuf], pbuf := btmp2, nbytes := 2 } else s

def evenStep (limit : Int) (s : Call) : Call :=
  let maxwrite := maxwrite limit s
  let maxwrite := if maxwrite % 2 = 1 then maxwrite - 1 else maxwrite
  (s.send k (readBytes s.host s.pbuf maxwrite.toNat)).advance maxwrite

def nxStep (limit btmp2 : Int) (s : Call) : Call := evenStep k limit (redirect btmp2 s)

/-- The byte in front of an odd offset and the first byte of the data, for which `pbuf` and `dst` move. -/
def nxHead (p : Part) (sector offset : Nat) (s : Call) : List UInt8 × Call :=
  if offset % 2 = 1 then
    let (chip, byte) := spiFlashReadBuf k p sector (offset - 1) 1 s.chip
    (byte ++ [s.host s.pbuf], { s with chip := chip, pbuf := s.pbuf + 1, dst := uint32 (s.dst - 1) })
  else ([], s)

def nxTail (p : Part) (sector offset : Nat) (btmp2 : Int) (s : Call) : Call :=
  if (offset % 2 = 1 ∧ s.nbytes % 2 = 0) ∨ (offset % 2 = 0 ∧ s.nbytes % 2 = 1) then
    let (chip, byte) := spiFlashReadBuf k p sector (offset + s.nbytes) 1 s.chip
    { s with chip := chip, host := patch s.host (btmp2 + 1) byte }
  else s

def nxWriteHead (offset : Nat) (btmp1 : List UInt8) (s : Call) : Call :=
  if offset % 2 = 1 then
    let s := s.send k btmp1
    { s with nbytes := int32 (s.nbytes - 1), dst := uint32 (s.dst + 2) }
  else s

def nxStart (p : Part) (sector offset : Nat) (btmp2 : Int) (s : Call) : Call :=
  let (btmp1, s) := nxHead k p sector offset s
  nxWriteHead k offset btmp1 (nxTail k p sector offset btmp2 s)

/-- The result and the part afterwards, or `none` if `fuel` rounds are not enough. The buffer is at
address `buf` of the host's memory, and the array `btmp2` at its own. -/
def spiFlashWrite (p : Part) (fuel : Nat) (sector offset : Nat) (host : Mem UInt8) (buf btmp2 nbytes : Int) (c : Chip) :
    Option (Int × Chip) :=
  let s : Call := ⟨c, host, buf, nbytes, uint32 (flashBase + p.base sector + offset)⟩
  let limit := spiMsgData - cmdLen4
  match p.family with
  | .sst =>
      let s := { s with chip := spiFlashUb k s.chip }
      let step := if p.sstAaiWordProgram then aaiStep k aaiWord 2 buf else aaiStep k aaiByte 1 buf
      (whileLoop (fun s => s.nbytes ≠ 0) step fuel s).map fun s => (int32 (s.pbuf - buf), spiFlashResetUb k s.chip)
  | .atmel | .amd | .span | .kh =>
      (whileLoop (fun s => 0 < s.nbytes) (pageStep k limit) fuel s).map fun s => (int32 (s.pbuf - buf), s.chip)
  | .nx =>
      (whileLoop (fun s => s.nbytes ≠ 0) (nxStep k limit btmp2) fuel (nxStart k p sector offset btmp2 s)).map
        fun s => (int32 (s.pbuf - buf), s.chip)
  | .undefined => some (0, c)

end

/-- The sectors have an even size, and the address bits above the size of the part are those of `FLASH_BASE`. -/
def Part.Regular (p : Part) : Prop := 0 < p.numsector → p.sectorsize % 2 = 0 ∧ p.totalSize ∣ 4194304

theorem Part.Regular.ite {c : Prop} [Decidable c] {p q : Part} (hp : p.Regular) (hq : q.Regular) :
    (if c then p else q).Regular := by
  split_ifs
  · exact hp
  · exact hq

theorem spiFlashInit_regular (deviceId : Nat) : (spiFlashInit deviceId).Regular := by
  rw [spiFlashInit]
  repeat' apply Part.Regular.ite
  all_goals
    rw [Part.Regular]
    decide

section Address

variable {k : Kind} (hsize : k.size ∣ 4194304)

include hsize

theorem address_eq {x : Int} (h0 : 0 ≤ x) (hx : x < k.size) :
    k.address (UInt8.ofNat ((flashBase + x).toNat / 65536)) (UInt8.ofNat ((flashBase + x).toNat / 256))
      (UInt8.ofNat (flashBase + x).toNat) = x := by
  have hsum : (((UInt8.ofNat ((flashBase + x).toNat / 65536)).toNat * 65536 +
      (UInt8.ofNat ((flashBase + x).toNat / 256)).toNat * 256 + (UInt8.ofNat (flashBase + x).toNat).toNat : Nat) : Int) =
      (flashBase + x) % 16777216 := by
    simp only [UInt8.toNat_ofNat', flashBase, imageBase]
    omega
  have hbase : k.size ∣ flashBase := hsize.trans (by decide)
  rw [Kind.address, hsum, Int.emod_emod_of_dvd _ (hsize.trans (by decide)), Int.add_emod, Int.emod_eq_zero_of_dvd hbase,
    Int.zero_add, Int.emod_emod, Int.emod_eq_of_lt h0 hx]

theorem spiRead_eq (c : Chip) {x : Int} {n : Nat} (h0 : 0 ≤ x) (hpos : 0 < n) (hx : x + n ≤ k.size) :
    spiRead k c (flashBase + x) n = readBytes c.mem x n := by
  rw [spiRead, addressBytes]
  dsimp only
  rw [address_eq hsize h0 (by omega), Chip.read]
  exact readBytes_congr fun i hi => congrArg c.mem (Int.emod_eq_of_lt (by omega) (by omega))

theorem uint32_dst {x : Int} (h0 : 0 ≤ x) (hx : x ≤ k.size) : (uint32 (flashBase + x) : Int) = flashBase + x := by
  have := Int.le_of_dvd (by decide) hsize
  exact uint32_of_range (by simp only [flashBase, imageBase]; omega) (by simp only [flashBase, imageBase]; omega)

theorem readLoop_eq (c : Chip) {fuel n : Nat} {x : Int} (h0 : 0 ≤ x) (hx : x + n ≤ k.size) (hfuel : n ≤ fuel) :
    readLoop k c fuel (flashBase + x) n = readBytes c.mem x n := by
  induction fuel generalizing x n with
  | zero =>
      obtain rfl : n = 0 := by omega
      rfl
  | succ fuel ih =>
      rw [readLoop]
      by_cases hpos : 0 < n
      · obtain ⟨r, hr, hr0, hrn⟩ : ∃ r, (if n < 60 then n else 60) = r ∧ 0 < r ∧ r ≤ n :=
          ⟨_, rfl, by split_ifs <;> omega, by split_ifs <;> omega⟩
        have hnext : (uint32 (flashBase + x + r) : Int) = flashBase + (x + r) := by
          rw [Int.add_assoc]
          exact uint32_dst hsize (by omega) (by omega)
        rw [if_pos hpos]
        dsimp only [maxRead]
        rw [hr, hnext, spiRead_eq hsize c h0 hr0 (by omega), ih (by omega) (by omega) (by omega), ← readBytes_append,
          Nat.add_sub_cancel' hrn]
      · obtain rfl : n = 0 := by omega
        rfl

theorem spiFlashReadBuf_eq (p : Part) (sector : Nat) {offset : Int} {n : Nat} (c : Chip)
    (h0 : 0 ≤ p.base sector + offset) (hx : p.base sector + offset + n ≤ k.size) :
    spiFlashReadBuf k p sector offset n c =
      ({ c with wel := false, aai := none }, readBytes c.mem (p.base sector + offset) n) := by
  rw [spiFlashReadBuf, Int.add_assoc, uint32_dst hsize h0 (by omega), readLoop_eq hsize _ h0 hx le_rfl]
  rfl

end Address

section Rounds

variable {k : Kind} (hsize : k.size ∣ 4194304)

structure Done (c c' : Chip) (a : Int) (bs : List UInt8) : Prop where
  mem : c'.mem = patch c.mem a bs
  sound : (∀ cmd ∈ c.log, cmd.Sound) → ∀ cmd ∈ c'.log, cmd.Sound

theorem Done.refl (c : Chip) (a : Int) : Done c c a [] := ⟨(patch_nil c.mem a).symm, id⟩

theorem Done.trans {c c' c'' : Chip} {a : Int} {xs ys : List UInt8} (h : Done c c' a xs) (h' : Done c' c'' (a + xs.length) ys) :
    Done c c'' a (xs ++ ys) :=
  ⟨by rw [h'.mem, h.mem, patch_append], fun hlog => h'.sound (h.sound hlog)⟩

theorem Done.append {c c' c'' : Chip} {a : Int} {host : Mem UInt8} {buf : Int} {w r : Nat} (h : Done c c' a (readBytes host buf w))
    (h' : Done c' c'' (a + w) (readBytes host (buf + w) r)) : Done c c'' a (readBytes host buf (w + r)) := by
  rw [readBytes_append]
  refine h.trans ?_
  rwa [length_readBytes]

theorem Done.behind {c c' : Chip} {a : Int} {host : Mem UInt8} {buf : Int} {w : Nat} (h : Done c c' a (readBytes host buf w))
    {i : Int} (hi : a + w ≤ i) : c'.mem i = c.mem i := by
  rw [h.mem, patch_outside _ _ _ _ (.inr (by rwa [length_readBytes]))]

theorem Done.of_behind {c c' : Chip} {a : Int} {b : UInt8} (h : Done c c' a [b, c.mem (a + 1)]) : Done c c' a [b] := by
  refine ⟨?_, h.sound⟩
  have hsplit : patch c.mem a [b, c.mem (a + 1)] = patch (patch c.mem a [b]) (a + 1) [c.mem (a + 1)] :=
    (patch_append c.mem a [b] [c.mem (a + 1)]).symm
  rw [h.mem, hsplit]
  apply patch_same
  rw [List.length_singleton, readBytes_succ, patch_outside _ _ _ _ (.inr (by simp))]
  rfl

theorem Done.of_front {c c' : Chip} {a : Int} {b : UInt8} (h : Done c c' (a - 1) [c.mem (a - 1), b]) : Done c c' a [b] := by
  refine ⟨?_, h.sound⟩
  have hsplit : patch c.mem (a - 1) [c.mem (a - 1), b] = patch (patch c.mem (a - 1) [c.mem (a - 1)]) (a - 1 + 1) [b] :=
    (patch_append c.mem (a - 1) [c.mem (a - 1)] [b]).symm
  have hsame : patch c.mem (a - 1) [c.mem (a - 1)] = c.mem :=
    patch_same (by rw [List.length_singleton, readBytes_succ]; rfl)
  rw [h.mem, hsplit, Int.sub_add_cancel, hsame]

theorem sound_append {log : List Command} {cmd : Command} (hcmd : cmd.Sound) (hlog : ∀ cmd ∈ log, cmd.Sound) :
    ∀ cmd' ∈ log ++ [cmd], cmd'.Sound := by
  intro cmd' h
  rcases List.mem_append.mp h with h | h
  · exact hlog cmd' h
  · rw [List.mem_singleton] at h
    rwa [h]

include hsize

theorem send_done {s : Call} {a : Int} {data : List UInt8} (hdst : s.dst = flashBase + a) (h0 : 0 ≤ a) (ha : a < k.size)
    (hne : data ≠ []) (hpage : a % 256 + data.length ≤ 256) (hfits : Fits s.chip.mem a data) :
    Done s.chip (s.send k data).chip a data := by
  have hsend : (s.send k data).chip = (spiFlashUb k s.chip).programPage a data := by
    rw [Call.send, hdst]
    exact congrArg (fun a => (spiFlashUb k s.chip).programPage a data) (address_eq hsize h0 ha)
  rw [hsend, Chip.programPage_eq (c := spiFlashUb k s.chip) rfl hfits hpage]
  exact ⟨rfl, sound_append ⟨hne, fun _ => hpage⟩⟩

end Rounds

end AliceModem.SpiFlash
