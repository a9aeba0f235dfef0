import AliceModem.Board.CopiedNvram
import AliceModem.Flash.ImageTrace
import AliceModem.Flash.ScratchPad

namespace AliceModem.Ioctl

open Words Hwdefs Sectors ByteMemory Device SharedBlks Regions BigEndian Nvram ImageTag ImageSet Upgrade Layout
  ScratchPad ImageFaults ImageResult ImageTrace CompletedUpgrade CopiedNvram

def cString (s : String) : List Byte := s.toList.map (fun c => UInt8.ofNat c.toNat) ++ [0]

def charValue (b : Byte) : Int := if b.toNat < 128 then b.toNat else b.toNat - 256

def bpstrcmp : List Byte → List Byte → Int
  | d :: dest, s :: src =>
      if s ≠ 0 ∧ d ≠ 0 then
        if charValue d < charValue s then -1
        else if charValue d > charValue s then 1
        else bpstrcmp dest src
      else if d ≠ 0 ∧ s = 0 then 1
      else if d = 0 ∧ s ≠ 0 then -1
      else 0
  | [], s :: _ => if s ≠ 0 then -1 else 0
  | d :: _, [] => if d ≠ 0 then 1 else 0
  | [], [] => 0

def boardIds : List (List Byte) :=
  ["96338SV", "96338L-2M-8M", "96338L-65-2M-8M", "96338W", "96338WS2", "96338W-20P2", "96338W2", "96338E",
    "96338E4", "96338E4-20P2", "96332CG", "96338WS", "96338E_E7R", "96338W2_E7T", "96332CG_F4W"].map cString

def bpSetBoardId (pszBoardId : List Byte) : Int :=
  if ∃ id ∈ boardIds, bpstrcmp id pszBoardId = 0 then 0 else 1

def bcmSig1 : List Byte := cString "6338GW2_DLINK"

/-- `signiture_1` of the tag at `offset` is the signature, its end included. -/
def hasSignature (string : Mem Byte) (offset : Int) : Prop :=
  readBytes string (offset + 4) bcmSig1.length = bcmSig1

instance (string : Mem Byte) (offset : Int) : Decidable (hasSignature string offset) :=
  inferInstanceAs (Decidable (_ = _))

def dareVerifyTag (string : Mem Byte) : Int :=
  if ¬ hasSignature string 0 ∧ ¬ hasSignature string flashLengthBootRom then 1 else 0

inductive Action
  | persistent
  | nvram
  | bcmImageCfe
  | bcmImageFs
  | bcmImageKernel
  | bcmImageWhole
  | scratchPad
  | flashSize
  | setCsParam
  | darePersistent
  deriving DecidableEq

structure IoctlParms where
  string : Mem Byte
  buf : Option (Mem Byte)
  strLen : Int
  offset : Int
  action : Action

inductive Outcome
  | returned (ret : Int)
  | reset
  | stuck
  deriving DecidableEq

def Outcome.ofRet : Option Int → Outcome
  | some ret => .returned ret
  | none => .stuck

variable (g : Geometry) (info : FlashAddrInfo)

def checkNvram (f : Flash) (nvramData : NvramData) : Flash :=
  let tmpNvramData := readNvramData g info f.mem
  if tmpNvramData.1 ≠ 0 ∨ bpSetBoardId (szBoardId tmpNvramData.2) ≠ 0 then writeNvramData g info f nvramData else f

def imageAddr (c : IoctlParms) : Int :=
  match c.action with
  | .bcmImageCfe => c.offset + bootOffset g
  | _ => if c.offset = 0 then g.flashBase else c.offset

variable (signatureBypass : Bool)

/-- `BOARD_IOCTL_FLASH_WRITE`. `heap` is the memory around the sector buffer of the scratch pad. -/
def boardIoctlFlashWrite (heap : Mem Byte) (f : Flash) (c : IoctlParms) : Outcome × Flash :=
  let nvramData := (readNvramData g info f.mem).2
  match c.action with
  | .scratchPad =>
      if c.offset = -1 then
        let r := kerSysScratchPadClearAll g info f
        (.returned r.1, r.2)
      else
        let r := kerSysScratchPadSet g info f heap c.string c.buf c.offset
        (.ofRet r.1, r.2)
  | .persistent =>
      let r := kerSysPersistentSet g info f c.string c.strLen c.offset
      (.ofRet r.1, r.2)
  | .darePersistent =>
      let r := kerSysDarePersistentSet g info f c.string c.strLen c.offset
      (.ofRet r.1, r.2)
  | .nvram =>
      let r := kerSysNvRamSet g info f c.string c.strLen c.offset
      (.ofRet r.1, r.2)
  | .bcmImageCfe =>
      if c.strLen ≤ 0 ∨ c.strLen > flashLengthBootRom then (.returned (-1), f)
      else
        let r := kerSysBcmImageSet g info f (imageAddr g c) c.string c.strLen
        match r.1 with
        | none => (.stuck, r.2)
        | some ret => (.returned ret, checkNvram g info r.2 nvramData)
  | .bcmImageFs =>
      if dareVerifyTag c.string = 1 ∧ ¬ signatureBypass then (.returned 1, f)
      else
        let r := flashFsKernelImage g info f c.string
        (if r.1 = some 0 then .reset else .ofRet r.1, r.2)
  | .bcmImageKernel => (.returned 0, f)
  | .bcmImageWhole =>
      if c.strLen ≤ 0 then (.returned (-1), f)
      else if dareVerifyTag c.string = 1 ∧ ¬ signatureBypass then (.returned 1, f)
      else
        let r := kerSysBcmImageSet g info f (imageAddr g c) c.string c.strLen
        match r.1 with
        | none => (.stuck, r.2)
        | some _ => (.reset, checkNvram g info r.2 nvramData)
  | .flashSize | .setCsParam => (.returned (-22), f)

def Accepted (c : IoctlParms) : Prop :=
  (c.action = .bcmImageCfe ∧ ¬ (c.strLen ≤ 0 ∨ c.strLen > flashLengthBootRom)) ∨
  (c.action = .bcmImageFs ∧ ¬ (dareVerifyTag c.string = 1 ∧ ¬ signatureBypass)) ∨
  (c.action = .bcmImageWhole ∧ ¬ c.strLen ≤ 0 ∧ ¬ (dareVerifyTag c.string = 1 ∧ ¬ signatureBypass))

instance (c : IoctlParms) : Decidable (Accepted signatureBypass c) := inferInstanceAs (Decidable (_ ∨ _ ∨ _))

/-- What an image request hands to `kerSysBcmImageSet`. -/
def imagePlan (m : Mem Byte) (c : IoctlParms) : Option Plan :=
  if ¬ Accepted signatureBypass c then none
  else if c.action = .bcmImageFs then plan g info m c.string
  else some ⟨imageAddr g c, c.string, c.strLen⟩

def copyImage (f : Flash) (c : IoctlParms) : Option Int × Flash :=
  match imagePlan g info signatureBypass f.mem c with
  | none => (some (-1), f)
  | some p => kerSysBcmImageSet g info f p.dest p.image p.size

/-- What `readNvramData` makes of the bytes of the block. -/
def readBlock (raw : NvramData) : Int × NvramData :=
  (if ulCheckSum raw ≠ nvramCrc raw then -1 else 0, setCheckSum raw 0)

def Ends (p : Plan) : Prop :=
  flashGetBlk g p.dest < 0 ∨ blkStart g (flashGetBlk g p.dest) + p.size ≤ flashGetTotalSize g ∨
    ¬ wholeImage g info p.dest p.size ∧ flashGetBlk g p.dest ≤ info.persistent.startBlk

instance (p : Plan) : Decidable (Ends g info p) := inferInstanceAs (Decidable (_ ∨ _ ∨ _))

/-- The NVRAM data that an image request writes once the image is in place. -/
def savedCopy (m : Mem Byte) (c : IoctlParms) (p : Plan) : Option NvramData :=
  let nvramData := (readNvramData g info m).2
  let tmpNvramData := readBlock (broughtNvram g info m p)
  if c.action = .bcmImageFs then
    if (kerSysBcmImageSet g info (fresh m) p.dest p.image p.size).1 = some 0 then
      (bootLatest (szBootline nvramData)).map (nvramData.take 4 ++ ·)
    else none
  else if Ends g info p ∧ (tmpNvramData.1 ≠ 0 ∨ bpSetBoardId (szBoardId tmpNvramData.2) ≠ 0) then some nvramData
  else none

/-- A block with a bad checksum has become one with a good checksum whose bytes
are not those that the image put in place. -/
def Laundered (heap m : Mem Byte) (c : IoctlParms) : Prop :=
  let m' := (boardIoctlFlashWrite g info signatureBypass heap (fresh m) c).2.mem
  (readNvramData g info m).1 = -1 ∧ (readNvramData g info m').1 = 0 ∧
    rawNvram m' ≠ rawNvram (copyImage g info signatureBypass (fresh m) c).2.mem

variable {g info signatureBypass}

variable (g info) in
def writeBack (f : Flash) (d : Option NvramData) : Flash := (d.map (writeNvramData g info f)).getD f

theorem copyImage_some {m : Mem Byte} {c : IoctlParms} {p : Plan}
    (hplan : imagePlan g info signatureBypass m c = some p) :
    copyImage g info signatureBypass (fresh m) c = kerSysBcmImageSet g info (fresh m) p.dest p.image p.size := by
  have hmem : imagePlan g info signatureBypass (fresh m).mem c = some p := hplan
  rw [copyImage, hmem]

theorem ends_iff (hpsi : info.persistent.startBlk < g.sec.length) (m : Mem Byte) {p : Plan} (hsize : 0 < p.size) :
    (kerSysBcmImageSet g info (fresh m) p.dest p.image p.size).1 ≠ none ↔ Ends g info p := by
  rw [Ends]
  rcases lt_or_ge (flashGetBlk g p.dest) 0 with hneg | hblk
  · rw [kerSysBcmImageSet]
    dsimp only
    rw [if_pos hneg]
    exact iff_of_true (Option.some_ne_none _) (.inl hneg)
  · have hworks : ∀ k < maxSectors - (flashGetBlk g p.dest).toNat, ¬ Fails (pattern (fresh m)) k := fun k _ => never_fails rfl k
    rw [ne_eq, imageSet_none_iff (fresh m) p.image hblk hsize hpsi, Endless, and_iff_left hworks]
    by_cases hw : wholeImage g info p.dest p.size
    · simp only [hw, true_or, and_true, not_true, false_and, or_false, not_lt.mpr hblk, false_or, not_lt]
    · simp only [hw, false_or, not_false_iff, true_and, not_lt.mpr hblk, not_and_or, not_lt]

theorem checkNvram_copied (hi : Initialised g info) (hpsi : info.persistent.startBlk < g.sec.length) (m : Mem Byte)
    (p : Plan) (hsize : 0 < p.size) {ret : Int}
    (hr : (kerSysBcmImageSet g info (fresh m) p.dest p.image p.size).1 = some ret) {c : IoctlParms}
    (hc : c.action ≠ .bcmImageFs) :
    checkNvram g info (kerSysBcmImageSet g info (fresh m) p.dest p.image p.size).2 (readNvramData g info m).2 =
      writeBack g info (kerSysBcmImageSet g info (fresh m) p.dest p.image p.size).2 (savedCopy g info m c p) := by
  have hends : (kerSysBcmImageSet g info (fresh m) p.dest p.image p.size).1 ≠ none := hr ▸ Option.some_ne_none ret
  have hblock : readNvramData g info (kerSysBcmImageSet g info (fresh m) p.dest p.image p.size).2.mem =
      readBlock (broughtNvram g info m p) := by
    rw [readNvramData_eq hi, broughtNvram_copied hpsi m (fun _ => hsize) hends, readBlock]
  rw [checkNvram, hblock, savedCopy, if_neg hc]
  simp only [(ends_iff hpsi m hsize).mp hends, true_and]
  split <;> rfl

theorem savedCopy_stuck (hpsi : info.persistent.startBlk < g.sec.length) (m : Mem Byte) (p : Plan) (hsize : 0 < p.size)
    (hr : (kerSysBcmImageSet g info (fresh m) p.dest p.image p.size).1 = none) {c : IoctlParms}
    (hc : c.action ≠ .bcmImageFs) : savedCopy g info m c p = none := by
  have hnot : ¬ Ends g info p := fun hends => (ends_iff hpsi m hsize).mpr hends hr
  rw [savedCopy, if_neg hc]
  simp only [hnot, false_and, if_false]

theorem imagePlan_direct {m : Mem Byte} {c : IoctlParms} {p : Plan} (hplan : imagePlan g info signatureBypass m c = some p)
    (hfs : c.action ≠ .bcmImageFs) : p = ⟨imageAddr g c, c.string, c.strLen⟩ ∧ 0 < c.strLen := by
  rw [imagePlan, if_neg hfs] at hplan
  split at hplan
  · cases hplan
  next hacc =>
    rw [not_not, Accepted] at hacc
    simp only [hfs, false_and, false_or] at hacc
    exact ⟨(Option.some.inj hplan).symm, by omega⟩

section Image

variable (hi : Initialised g info) (hpsi : info.persistent.startBlk < g.sec.length) (heap m : Mem Byte)
  {c : IoctlParms} (hc : c.action = .bcmImageCfe ∨ c.action = .bcmImageFs ∨ c.action = .bcmImageWhole)

include hc

theorem boardIoctlFlashWrite_refused (hplan : imagePlan g info signatureBypass m c = none) :
    (boardIoctlFlashWrite g info signatureBypass heap (fresh m) c).2 = fresh m := by
  rw [imagePlan] at hplan
  by_cases hacc : Accepted signatureBypass c
  · rw [if_neg (not_not.mpr hacc)] at hplan
    split at hplan
    next hfs =>
      have hmem : plan g info (fresh m).mem c.string = none := hplan
      simp only [boardIoctlFlashWrite, hfs, flashFsKernelImage, hmem]
      split <;> rfl
    next => cases hplan
  · simp only [Accepted] at hacc
    rcases hc with hc | hc | hc
    · have h : c.strLen ≤ 0 ∨ c.strLen > flashLengthBootRom := by tauto
      simp only [boardIoctlFlashWrite, hc, h, if_true]
    · have h : dareVerifyTag c.string = 1 ∧ ¬ signatureBypass := by tauto
      simp only [boardIoctlFlashWrite, hc, if_pos h]
    · have h : c.strLen ≤ 0 ∨ dareVerifyTag c.string = 1 ∧ ¬ signatureBypass := by tauto
      simp only [boardIoctlFlashWrite, hc]
      rcases h with h | h
      · rw [if_pos h]
      · rw [if_pos h]
        split <;> rfl

include hi hpsi

theorem boardIoctlFlashWrite_image {p : Plan} (hplan : imagePlan g info signatureBypass m c = some p) :
    (boardIoctlFlashWrite g info signatureBypass heap (fresh m) c).2 =
      writeBack g info (kerSysBcmImageSet g info (fresh m) p.dest p.image p.size).2 (savedCopy g info m c p) := by
  have hacc : Accepted signatureBypass c := by
    by_contra hnot
    rw [imagePlan, if_pos hnot] at hplan
    cases hplan
  have hmem : (fresh m).mem = m := rfl
  have hacc' := hacc
  simp only [Accepted] at hacc'
  rcases hc with hc | hc | hc <;> simp only [hc, reduceCtorEq, false_and, true_and, false_or, or_false] at hacc'
  · have hne : c.action ≠ .bcmImageFs := by simp [hc]
    obtain ⟨rfl, hsize⟩ := imagePlan_direct hplan hne
    simp only [boardIoctlFlashWrite, hc, hacc', if_false]
    rcases hr : (kerSysBcmImageSet g info (fresh m) (imageAddr g c) c.string c.strLen).1 with _ | ret
    · rw [savedCopy_stuck hpsi m ⟨imageAddr g c, c.string, c.strLen⟩ hsize hr hne]
      rfl
    · rw [← checkNvram_copied hi hpsi m ⟨imageAddr g c, c.string, c.strLen⟩ hsize hr hne, hmem]
  · rw [imagePlan, if_neg (not_not.mpr hacc), if_pos hc] at hplan
    simp only [boardIoctlFlashWrite, hc, hacc', if_false, flashFsKernelImage, hmem, hplan, savedCopy, if_true]
    split
    next h => simp [writeBack]
    next h =>
      rw [not_not] at h
      simp only [h, if_true]
      rcases bootLatest (szBootline (readNvramData g info m).2) with _ | line <;> rfl
  · have hne : c.action ≠ .bcmImageFs := by simp [hc]
    obtain ⟨rfl, hsize⟩ := imagePlan_direct hplan hne
    simp only [boardIoctlFlashWrite, hc, hacc'.1, hacc'.2, if_false]
    rcases hr : (kerSysBcmImageSet g info (fresh m) (imageAddr g c) c.string c.strLen).1 with _ | ret
    · rw [savedCopy_stuck hpsi m ⟨imageAddr g c, c.string, c.strLen⟩ hsize hr hne]
      rfl
    · rw [← checkNvram_copied hi hpsi m ⟨imageAddr g c, c.string, c.strLen⟩ hsize hr hne, hmem]

omit hpsi hc in
theorem imagePlan_whole {p : Plan} (hplan : imagePlan g info signatureBypass m c = some p)
    (hw : wholeImage g info p.dest p.size) : 0 < p.size := by
  by_cases hfs : c.action = .bcmImageFs
  · rw [imagePlan, if_pos hfs] at hplan
    split at hplan
    · cases hplan
    · exact absurd hw (plan_not_whole hi hplan)
  · obtain ⟨rfl, hsize⟩ := imagePlan_direct hplan hfs
    exact hsize

end Image

theorem savedCopy_spec (hi : Initialised g info) {m : Mem Byte} {c : IoctlParms} {p : Plan} {d : NvramData}
    (h : savedCopy g info m c p = some d) : d.length = nvramDataSize ∧ setCheckSum d 0 = d := by
  obtain ⟨hd, hsum⟩ := readNvramData_data hi m
  rw [savedCopy] at h
  split at h
  · split at h
    · obtain ⟨line, hline, rfl⟩ := Option.map_eq_some_iff.mp h
      obtain ⟨h1, h2, -⟩ := bootLatest_nvram hd hsum hline
      exact ⟨h1, h2⟩
    · cases h
  · split at h
    · obtain rfl := Option.some.inj h
      exact ⟨hd, hsum⟩
    · cases h

theorem savedCopy_ends (hpsi : info.persistent.startBlk < g.sec.length) {m : Mem Byte} {c : IoctlParms} {p : Plan}
    (hplan : imagePlan g info signatureBypass m c = some p) {d : NvramData} (h : savedCopy g info m c p = some d) :
    (kerSysBcmImageSet g info (fresh m) p.dest p.image p.size).1 ≠ none := by
  intro hr
  by_cases hfs : c.action = .bcmImageFs
  · rw [savedCopy, if_pos hfs, hr] at h
    cases h
  · obtain ⟨rfl, hsize⟩ := imagePlan_direct hplan hfs
    rw [savedCopy_stuck hpsi m _ hsize hr hfs] at h
    cases h

theorem write_eq_iff {raw d : NvramData} (hlen : raw.length = nvramDataSize) (hd : d.length = nvramDataSize)
    (hsum : setCheckSum d 0 = d) : setCheckSum d (nvramCrc d) = raw ↔ readBlock raw = (0, d) := by
  rw [readBlock, Prod.mk.injEq]
  constructor
  · intro h
    rw [← h, nvramCrc_setCheckSum hd, ulCheckSum_setCheckSum hd (nvramCrc_lt d), setCheckSum_setCheckSum hd]
    exact ⟨by simp, hsum⟩
  · rintro ⟨hok, rfl⟩
    have hvalid : ulCheckSum raw = nvramCrc raw := by
      by_contra hne
      simp [hne] at hok
    rw [nvramCrc_setCheckSum hlen, ← hvalid, setCheckSum_setCheckSum hlen, setCheckSum_ulCheckSum hlen]

theorem image_written_back (hi : Initialised g info) (hpsi : info.persistent.startBlk < g.sec.length) (heap m : Mem Byte)
    {c : IoctlParms} (hc : c.action = .bcmImageCfe ∨ c.action = .bcmImageFs ∨ c.action = .bcmImageWhole) {p : Plan}
    (hplan : imagePlan g info signatureBypass m c = some p) {d : NvramData} (hsaved : savedCopy g info m c p = some d) :
    (readNvramData g info (boardIoctlFlashWrite g info signatureBypass heap (fresh m) c).2.mem).1 = 0 ∧
    (rawNvram (boardIoctlFlashWrite g info signatureBypass heap (fresh m) c).2.mem = broughtNvram g info m p ↔
      readBlock (broughtNvram g info m p) = (0, d)) := by
  obtain ⟨hd, hsum⟩ := savedCopy_spec hi hsaved
  obtain ⟨-, hmem⟩ := writeNvramData_ok hi (kerSysBcmImageSet g info (fresh m) p.dest p.image p.size).2
    (kerSysBcmImageSet_faults _ rfl _ _ _) hd
  rw [boardIoctlFlashWrite_image hi hpsi heap m hc hplan, hsaved, writeBack, Option.map_some, Option.getD_some, hmem,
    readNvramData_patch hi _ hd, rawNvram_patch _ (length_setCheckSum hd _)]
  exact ⟨rfl, write_eq_iff (length_rawNvram _) hd hsum⟩

/-- A corrupted block is passed off as a good one whenever the copy saved
before is written back over an image that did not bring just that copy. -/
theorem not_laundered_iff {ulPsiSize : Nat} {pTag : Option FileTag} (hinfo : info = kerSysFlashInit g ulPsiSize pTag)
    (heap m : Mem Byte) {c : IoctlParms}
    (hc : c.action = .bcmImageCfe ∨ c.action = .bcmImageFs ∨ c.action = .bcmImageWhole) :
    ¬ Laundered g info signatureBypass heap m c ↔
      (readNvramData g info m).1 ≠ -1 ∨ ∀ p, imagePlan g info signatureBypass m c = some p →
        ∀ d, savedCopy g info m c p = some d → readBlock (broughtNvram g info m p) = (0, d) := by
  have hi : Initialised g info := hinfo ▸ kerSysFlashInit_initialised g ulPsiSize pTag
  have hpsi : info.persistent.startBlk < g.sec.length := hinfo ▸ persistent_lt pTag
  have hmem : (fresh m).mem = m := rfl
  rw [Laundered]
  rcases hplan : imagePlan g info signatureBypass m c with _ | p
  · rw [boardIoctlFlashWrite_refused heap m hc hplan]
    simp [copyImage, hmem, hplan]
  · rcases hsaved : savedCopy g info m c p with _ | d
    · rw [boardIoctlFlashWrite_image hi hpsi heap m hc hplan, hsaved, copyImage_some hplan]
      simp [writeBack, hsaved]
    · obtain ⟨hok, hraw⟩ := image_written_back hi hpsi heap m hc hplan hsaved
      rw [copyImage_some hplan, broughtNvram_copied hpsi m (imagePlan_whole hi m hplan) (savedCopy_ends hpsi hplan hsaved)]
      simp only [hok, hraw, true_and, Option.some.injEq, not_and_or, ne_eq, not_not, forall_eq', hsaved]

theorem cfe_firstSector (m string : Mem Byte) (size : Int) :
    firstSector demoFlash (erasedInfo demoFlash) m ⟨imageBase + bootOffset demoFlash, string, size⟩ =
      patch (fun _ => 0xff) 0 (readBytes string 0 (chunkLen 65536 size).toNat) := by
  have hblk : flashGetBlk demoFlash (imageBase + bootOffset demoFlash) = 0 := by decide
  have hpsi : (erasedInfo demoFlash).persistent.startBlk ≠ 0 := by decide
  have hsect : flashGetSectorSize demoFlash 0 = 65536 := by decide
  rw [firstSector, if_neg (not_not.mpr hblk), if_neg fun hand => hpsi hand.2, hsect]

theorem cfe_plan {c : IoctlParms} (hc : c.action = .bcmImageCfe) (hoff : c.offset = imageBase)
    (hsize : 0 < c.strLen ∧ c.strLen ≤ 65536) (m : Mem Byte) :
    imagePlan demoFlash (erasedInfo demoFlash) false m c =
      some ⟨imageBase + bootOffset demoFlash, c.string, c.strLen⟩ := by
  have hacc : Accepted false c := .inl ⟨hc, by simp only [flashLengthBootRom]; omega⟩
  rw [imagePlan, if_neg (not_not.mpr hacc), if_neg (by rw [hc]; decide), imageAddr, hc, hoff]

theorem erased_invalid : (readBlock (List.replicate 300 0xff)).1 = -1 := by decide +kernel

theorem erased_block :
    (readNvramData demoFlash (erasedInfo demoFlash) fun _ => 0xff) = readBlock (List.replicate 300 0xff) := by
  rw [readNvramData_eq (show Initialised demoFlash (erasedInfo demoFlash) from kerSysFlashInit_initialised _ _ _),
    rawNvram, readBytes_replicate fun _ _ => rfl, readBlock]

def boardData : NvramData := List.replicate 260 0 ++ cString "96338W2" ++ List.replicate 32 0

theorem boardData_facts : boardData.length = nvramDataSize ∧ setCheckSum boardData 0 = boardData ∧
    bpSetBoardId (szBoardId boardData) = 0 := by decide +kernel

def newCfe : IoctlParms :=
  ⟨patch (fun _ => 0) nvramDataOffset (setCheckSum boardData (nvramCrc boardData)), none, 65536, imageBase,
    .bcmImageCfe⟩

theorem newCfe_brought :
    readBlock (broughtNvram demoFlash (erasedInfo demoFlash) (fun _ => 0xff)
      ⟨imageBase + bootOffset demoFlash, newCfe.string, newCfe.strLen⟩) = (0, boardData) := by
  obtain ⟨hlen, hsum, -⟩ := boardData_facts
  have hraw := length_setCheckSum hlen (nvramCrc boardData)
  have hbrought : broughtNvram demoFlash (erasedInfo demoFlash) (fun _ => 0xff)
      ⟨imageBase + bootOffset demoFlash, newCfe.string, newCfe.strLen⟩ = setCheckSum boardData (nvramCrc boardData) := by
    have hchunk : (chunkLen 65536 65536).toNat = 65536 := by decide
    rw [broughtNvram, cfe_firstSector, newCfe, hchunk]
    conv_rhs => rw [← readBytes_patch (fun _ => 0) nvramDataOffset (setCheckSum boardData (nvramCrc boardData)), hraw]
    refine readBytes_congr fun i hi => ?_
    simp only [nvramDataOffset, nvramDataSize] at hi ⊢
    rw [patch_inside _ _ _ _ (by omega) (by rw [length_readBytes]; omega), getD_readBytes _ _ _ _ (by omega)]
    congr 1
    omega
  rw [hbrought, ← write_eq_iff hraw hlen hsum]

theorem newCfe_not_laundered :
    (readNvramData demoFlash (erasedInfo demoFlash) fun _ => 0xff).1 = -1 ∧
    ¬ Laundered demoFlash (erasedInfo demoFlash) false (fun _ => 0) (fun _ => 0xff) newCfe := by
  refine ⟨erased_block ▸ erased_invalid, (not_laundered_iff (show erasedInfo demoFlash = kerSysFlashInit demoFlash 24 none
    from rfl) _ _ (.inl rfl)).mpr (.inr fun p hp d hd => ?_)⟩
  rw [cfe_plan rfl rfl (by decide)] at hp
  obtain rfl := Option.some.inj hp
  rw [savedCopy, if_neg (by decide), newCfe_brought] at hd
  simp [boardData_facts.2.2] at hd

def twoBytes : IoctlParms := ⟨fun _ => 0, none, 2, imageBase, .bcmImageCfe⟩

theorem twoBytes_brought :
    broughtNvram demoFlash (erasedInfo demoFlash) (fun _ => 0xff)
      ⟨imageBase + bootOffset demoFlash, twoBytes.string, twoBytes.strLen⟩ = List.replicate 300 0xff := by
  rw [broughtNvram, cfe_firstSector]
  refine readBytes_replicate fun i _ => patch_outside _ _ _ _ (.inr ?_)
  rw [length_readBytes]
  simp only [nvramDataOffset]
  have hchunk : (chunkLen 65536 twoBytes.strLen).toNat = 2 := by decide
  omega

theorem twoBytes_laundered :
    Laundered demoFlash (erasedInfo demoFlash) false (fun _ => 0) (fun _ => 0xff) twoBytes := by
  have hi : Initialised demoFlash (erasedInfo demoFlash) := kerSysFlashInit_initialised _ _ _
  have hpsi : (erasedInfo demoFlash).persistent.startBlk < demoFlash.sec.length := by decide
  have hplan := cfe_plan (c := twoBytes) rfl rfl (by decide) fun _ => 0xff
  have hends : Ends demoFlash (erasedInfo demoFlash)
    ⟨imageBase + bootOffset demoFlash, twoBytes.string, twoBytes.strLen⟩ := by decide
  have hsaved : savedCopy demoFlash (erasedInfo demoFlash) (fun _ => 0xff) twoBytes
      ⟨imageBase + bootOffset demoFlash, twoBytes.string, twoBytes.strLen⟩ =
        some (readNvramData demoFlash (erasedInfo demoFlash) fun _ => 0xff).2 := by
    have hbad : (-1 : Int) ≠ 0 := by decide
    rw [savedCopy, if_neg (by decide), twoBytes_brought, erased_invalid]
    simp only [hends, hbad, ne_eq, not_false_iff, true_or, and_true, if_true]
  obtain ⟨hok, hraw⟩ := image_written_back hi hpsi (fun _ => 0) (fun _ => 0xff) (.inl rfl) hplan hsaved
  refine ⟨erased_block ▸ erased_invalid, hok, fun hsame => ?_⟩
  rw [copyImage_some hplan, broughtNvram_copied hpsi _ (imagePlan_whole hi _ hplan) (savedCopy_ends hpsi hplan hsaved), hraw,
    twoBytes_brought] at hsame
  have hbad := erased_invalid
  rw [hsame] at hbad
  cases hbad

end AliceModem.Ioctl
