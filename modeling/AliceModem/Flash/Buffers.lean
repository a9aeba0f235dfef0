import AliceModem.Lib.Ownership
import AliceModem.Flash.Layout
import AliceModem.Flash.ScratchPad
import AliceModem.Flash.ConfigCopies
import AliceModem.Flash.ImageFaults

namespace AliceModem.Buffers

open Words Hwdefs Sectors ByteMemory Device SharedBlks Regions ImageTag Layout ScratchPad ConfigCopies ImageSet
  ImageFaults Ownership

abbrev Heap := Ledger Unit

def retriedKmalloc (h : Heap) : Option Nat × Heap := h.acquire

def retriedKfree (h : Heap) (b : Nat) : Heap := h.dispose b ()

variable (g : Geometry)

def getSharedBlks (h : Heap) (m around : Mem Byte) (startBlk endBlk : Int) : Option (Nat × Mem Byte) × Heap :=
  match retriedKmalloc h with
  | (none, h) => (none, h)
  | (some pTempBuf, h) => (some (pTempBuf, SharedBlks.getSharedBlks g m around startBlk endBlk), h)

/-- The common body of the `kerSys*Get` functions with its buffer. -/
def sharedGet (h : Heap) (m around : Mem Byte) (r : Region) (limit strLen offset : Int) :
    Option (Int × List Byte) × Heap :=
  if limit < strLen then (some (-1, []), h)
  else
    match getSharedBlks g h m around r.startBlk r.endBlk with
    | (none, h) => (some (-1, []), h)
    | (some (b, pBuf), h) =>
        if strLen < 0 then (none, h)
        else (some (0, readBytes pBuf (r.blkOffset + offset) strLen.toNat), retriedKfree h b)

/-- The common body of the `kerSys*Set` functions with its buffer. -/
def sharedSet (h : Heap) (f : Flash) (r : Region) (limit : Int) (string : Mem Byte) (strLen offset : Int) :
    Option Int × Flash × Heap :=
  if limit < strLen then (some (-1), f, h)
  else
    match getSharedBlks g h f.mem (fun _ => 0) r.startBlk r.endBlk with
    | (none, h) => (some (-1), f, h)
    | (some (b, pBuf), h) =>
        if strLen < 0 then (none, f, h)
        else
          let w := setSharedBlks g f r.startBlk r.endBlk
            (patch pBuf (r.blkOffset + offset) (readBytes string 0 strLen.toNat))
          (some (if w.1 ≠ 0 then -1 else 0), w.2, retriedKfree h b)

variable (info : FlashAddrInfo)

def kerSysNvRamGet (h : Heap) (m around : Mem Byte) (strLen offset : Int) : Option (Int × List Byte) × Heap :=
  sharedGet g h m around info.nvram nvramLength strLen offset

def kerSysNvRamSet (h : Heap) (f : Flash) (string : Mem Byte) (strLen offset : Int) : Option Int × Flash × Heap :=
  sharedSet g h f info.nvram nvramLength string strLen offset

def kerSysPersistentGet (h : Heap) (m around : Mem Byte) (strLen offset : Int) : Option (Int × List Byte) × Heap :=
  sharedGet g h m around info.persistent info.persistent.length strLen offset

def kerSysPersistentSet (h : Heap) (f : Flash) (string : Mem Byte) (strLen offset : Int) : Option Int × Flash × Heap :=
  sharedSet g h f info.persistent info.persistent.length string strLen offset

def kerSysDarePersistentGet (h : Heap) (m around : Mem Byte) (strLen offset : Int) : Option (Int × List Byte) × Heap :=
  sharedGet g h m around info.darePersistent info.darePersistent.length strLen offset

def kerSysDarePersistentSet (h : Heap) (f : Flash) (string : Mem Byte) (strLen offset : Int) :
    Option Int × Flash × Heap :=
  sharedSet g h f info.darePersistent info.darePersistent.length string strLen offset

def kerSysScratchPadGet (h : Heap) (m around tokenId : Mem Byte) (bufLen : Int) : Option (Int × List Byte) × Heap :=
  let sp := info.scratchPad
  if sp.length = 0 then (some (-1, []), h)
  else if exceedsPad sp.length bufLen then (some (-1, []), h)
  else
    match getSharedBlks g h m around sp.startBlk sp.endBlk with
    | (none, h) => (some (-1, []), h)
    | (some (b, pShareBuf), h) =>
        let pBuf := view pShareBuf sp.blkOffset
        if readBytes pBuf 0 8 ≠ magicNumber then (some (-1, []), retriedKfree h b)
        else
          match getLoop sp.length pBuf (readBytes tokenId 0 16) bufLen sp.length.toNat spHeaderSize spHeaderSize with
          | none => (none, h)
          | some r => (some r, retriedKfree h b)

def kerSysScratchPadSet (h : Heap) (f : Flash) (around tokenId : Mem Byte) (tokBuf : Option (Mem Byte)) (bufLen : Int) :
    Option Int × Flash × Heap :=
  let sp := info.scratchPad
  if sp.length = 0 then (some (-1), f, h)
  else if exceedsPad sp.length bufLen then (some (-1), f, h)
  else
    match getSharedBlks g h f.mem around sp.startBlk sp.endBlk with
    | (none, h) => (some (-1), f, h)
    | (some (b, pShareBuf), h) =>
        match setBuf sp.length (view pShareBuf sp.blkOffset) (readBytes tokenId 0 16) tokBuf bufLen with
        | none => (none, f, h)
        | some none => (some (-1), f, h)
        | some (some pBuf) =>
            let w := setSharedBlks g f sp.startBlk sp.endBlk (view pBuf (-sp.blkOffset))
            (some w.1, w.2, retriedKfree h b)

def kerSysScratchPadClearAll (h : Heap) (f : Flash) : Option Int × Flash × Heap :=
  let sp := info.scratchPad
  if sp.length = 0 then (some (-1), f, h)
  else
    match getSharedBlks g h f.mem (fun _ => 0) sp.startBlk sp.endBlk with
    | (none, h) => (some (-1), f, h)
    | (some (b, pShareBuf), h) =>
        let w := setSharedBlks g f sp.startBlk sp.endBlk
          (fill pShareBuf 0 (usedBlkSize g sp.startBlk sp.endBlk).toNat 0)
        (some w.1, w.2, retriedKfree h b)

section Image

variable (psi : Region) (whole : Prop) [Decidable whole] (copyFails : Bool)

/-- The round in the sector of the PSI, and what `pTempBuf` points to after it. Without memory for the
buffer the board is reset. -/
def psiRound (h : Heap) (f : Flash) (blk : Int) (string : Mem Byte) (size : Int) :
    Option ((Int × Int) × Option Nat) × Flash × Heap :=
  let sectSize := flashGetSectorSize g blk
  if sectSize - psi.length < size then (some ((blk, size), none), f, h)
  else
    match retriedKmalloc h with
    | (none, h) => (none, f, h)
    | (some pTempBuf, h) =>
        if copyFails ∨ size < 0 then (some ((blk, size), some pTempBuf), f, h)
        else
          let buf := patch (fun _ => 0) 0 (flashReadBuf g f.mem blk 0 sectSize.toNat)
          let buf := patch buf 0 (readBytes string 0 size.toNat)
          let w := flashWriteBuf g (flashSectorEraseInt g f blk) blk 0 buf sectSize
          (some ((blk, if w.1 = sectSize then 0 else size), some pTempBuf), w.2, retriedKfree h pTempBuf)

def imageLoop : Nat → Heap → Flash → Int → Mem Byte → Int → Option ((Int × Int) × Option Nat) × Flash × Heap
  | 0, h, f, _, _, _ => (none, f, h)
  | fuel + 1, h, f, blk, string, size =>
      if ¬ whole ∧ blk = psi.startBlk then psiRound g psi copyFails h f blk string size
      else
        let sectSize := flashGetSectorSize g blk
        let n := chunkLen sectSize size
        let w := flashWriteBuf g (flashSectorEraseInt g f blk) blk 0 string n
        if w.1 ≠ n then (some ((blk, evenSize sectSize size), none), w.2, h)
        else if 0 < evenSize sectSize size - n then
          imageLoop fuel h w.2 (blk + 1) (view string n) (evenSize sectSize size - n)
        else (some ((blk + 1, evenSize sectSize size - n), none), w.2, h)

end Image

/-- `copyFails` is the outcome of `copy_from_user`. -/
def kerSysBcmImageSet (copyFails : Bool) (h : Heap) (f : Flash) (flashStartAddr : Int) (string : Mem Byte)
    (size : Int) : Option Int × Flash × Heap :=
  let blkStart := flashGetBlk g flashStartAddr
  if blkStart < 0 then (some (-1), f, h)
  else
    match imageLoop g info.persistent (wholeImage g info flashStartAddr size) copyFails (maxSectors - blkStart.toNat) h f
      blkStart string size with
    | (none, f, h) => (none, f, h)
    | (some ((blk, left), pTempBuf), f, h) =>
        let h := match pTempBuf with
          | some b => retriedKfree h b
          | none => h
        if wholeImage g info flashStartAddr size then
          (some (if left = 0 then 0 else max blk (flashGetNumsectors g)),
            eraseBlks g f (blkRange blk (flashGetNumsectors g)), h)
        else (some (if left = 0 then 0 else blk), f, h)

variable {g info}

section Agrees

variable {h : Heap} (hf : h.fails.headD false = false)

include hf

theorem getSharedBlks_ok (m around : Mem Byte) (startBlk endBlk : Int) :
    getSharedBlks g h m around startBlk endBlk =
      (some (h.next, SharedBlks.getSharedBlks g m around startBlk endBlk), h.acquire.2) := by
  rw [getSharedBlks, retriedKmalloc, Ledger.acquire_ok hf]

theorem sharedGet_agrees (m around : Mem Byte) (r : Region) (limit strLen offset : Int) :
    (sharedGet g h m around r limit strLen offset).1 = Regions.sharedGet g m around r limit strLen offset := by
  rw [sharedGet, Regions.sharedGet, getSharedBlks_ok hf]
  split_ifs
  · rfl
  · rfl
  · rfl

theorem sharedSet_agrees (f : Flash) (r : Region) (limit : Int) (string : Mem Byte) (strLen offset : Int) :
    ((sharedSet g h f r limit string strLen offset).1, (sharedSet g h f r limit string strLen offset).2.1) =
      Regions.sharedSet g f r limit string strLen offset := by
  rw [sharedSet, Regions.sharedSet, getSharedBlks_ok hf]
  dsimp only
  by_cases hlimit : limit < strLen
  · rw [if_pos hlimit, if_pos hlimit]
  · rw [if_neg hlimit, if_neg hlimit]
    by_cases hneg : strLen < 0
    · rw [if_pos hneg, if_pos hneg]
    · rw [if_neg hneg, if_neg hneg]

theorem scratchPadGet_agrees (m around tokenId : Mem Byte) (bufLen : Int) :
    (kerSysScratchPadGet g info h m around tokenId bufLen).1 =
      ScratchPad.kerSysScratchPadGet g info m around tokenId bufLen := by
  rw [kerSysScratchPadGet, ScratchPad.kerSysScratchPadGet, getSharedBlks_ok hf]
  dsimp only
  split_ifs
  · rfl
  · rfl
  · rfl
  · cases getLoop info.scratchPad.length _ (readBytes tokenId 0 16) bufLen info.scratchPad.length.toNat spHeaderSize
      spHeaderSize <;> rfl

theorem scratchPadSet_agrees (f : Flash) (around tokenId : Mem Byte) (tokBuf : Option (Mem Byte)) (bufLen : Int) :
    ((kerSysScratchPadSet g info h f around tokenId tokBuf bufLen).1,
      (kerSysScratchPadSet g info h f around tokenId tokBuf bufLen).2.1) =
      ScratchPad.kerSysScratchPadSet g info f around tokenId tokBuf bufLen := by
  rw [kerSysScratchPadSet, ScratchPad.kerSysScratchPadSet, getSharedBlks_ok hf]
  dsimp only
  split_ifs
  · rfl
  · rfl
  · rcases setBuf info.scratchPad.length _ (readBytes tokenId 0 16) tokBuf bufLen with _ | _ | _ <;> rfl

theorem scratchPadClearAll_agrees (f : Flash) :
    ((kerSysScratchPadClearAll g info h f).1, (kerSysScratchPadClearAll g info h f).2.1) =
      (some (ScratchPad.kerSysScratchPadClearAll g info f).1, (ScratchPad.kerSysScratchPadClearAll g info f).2) := by
  rw [kerSysScratchPadClearAll, ScratchPad.kerSysScratchPadClearAll, getSharedBlks_ok hf]
  dsimp only
  split_ifs <;> rfl

variable (psi : Region) (whole : Prop) [Decidable whole]

theorem imageLoop_agrees (fuel : Nat) (f : Flash) (blk : Int) (string : Mem Byte) (size : Int) :
    ((imageLoop g psi whole false fuel h f blk string size).1.map Prod.fst,
      (imageLoop g psi whole false fuel h f blk string size).2.1) =
      ImageSet.imageLoop g psi whole fuel f blk string size := by
  induction fuel generalizing f blk string size with
  | zero => rfl
  | succ fuel ih =>
      rw [imageLoop, ImageSet.imageLoop]
      by_cases hhere : ¬ whole ∧ blk = psi.startBlk
      · rw [if_pos hhere, if_pos hhere, psiRound, ImageSet.psiRound, retriedKmalloc, Ledger.acquire_ok hf]
        dsimp only
        by_cases hbig : flashGetSectorSize g blk - psi.length < size
        · rw [if_pos hbig, if_pos (.inl hbig)]
          rfl
        · by_cases hneg : size < 0
          · rw [if_neg hbig, if_pos (.inr hneg), if_pos (.inr hneg)]
            rfl
          · rw [if_neg hbig, if_neg (not_or.mpr ⟨Bool.false_ne_true, hneg⟩), if_neg (not_or.mpr ⟨hbig, hneg⟩)]
            rfl
      · rw [if_neg hhere, if_neg hhere]
        dsimp only
        split_ifs
        · rfl
        · exact ih _ _ _ _
        · rfl

theorem imageSet_agrees (f : Flash) (addr : Int) (string : Mem Byte) (size : Int) :
    ((kerSysBcmImageSet g info false h f addr string size).1, (kerSysBcmImageSet g info false h f addr string size).2.1) =
      ImageSet.kerSysBcmImageSet g info f addr string size := by
  have hloop := imageLoop_agrees (g := g) hf info.persistent (wholeImage g info addr size)
    (maxSectors - (flashGetBlk g addr).toNat) f (flashGetBlk g addr) string size
  rw [kerSysBcmImageSet, ImageSet.kerSysBcmImageSet]
  dsimp only
  by_cases hblk : flashGetBlk g addr < 0
  · rw [if_pos hblk, if_pos hblk]
  rw [if_neg hblk, if_neg hblk, ← hloop]
  rcases imageLoop g info.persistent (wholeImage g info addr size) false (maxSectors - (flashGetBlk g addr).toNat) h f
    (flashGetBlk g addr) string size with ⟨_ | ⟨⟨blk, left⟩, b⟩, f', h'⟩
  · rfl
  · dsimp only [Option.map_some]
    by_cases hw : wholeImage g info addr size
    · rw [if_pos hw, if_pos hw]
    · rw [if_neg hw, if_neg hw]

end Agrees

end AliceModem.Buffers
