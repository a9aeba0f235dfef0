import AliceModem.Flash.Regions
import AliceModem.Lib.BigEndian

namespace AliceModem.ScratchPad

open Words Hwdefs Sectors ByteMemory Device SharedBlks Regions BigEndian

abbrev spHeaderSize : Int := 32
abbrev spTokenSize : Int := 20

/-- `"gOGoBrCm"` -/
def magicNumber : List Byte := [103, 79, 71, 111, 66, 114, 67, 109]

def spHead : List Byte := magicNumber ++ bytes32 1 ++ List.replicate 20 0

section

variable (p : Mem Byte)

def tokenName (a : Int) : List Byte := readBytes p a 16

def tokenLen (a : Int) : Int := int32 (be32 (readBytes p (a + 16) 4))

def skipLen (a : Int) : Int := int32 (tokenLen p a + 3) / 4 * 4

end

def sameName : List Byte → List Byte → Bool
  | x :: xs, y :: ys => x = y && (x = 0 || sameName xs ys)
  | _, _ => true

variable (length : Int)

def exceedsPad (bufLen : Int) : Prop := uint32 (length - spHeaderSize - spTokenSize) ≤ uint32 bufLen

instance (bufLen : Int) : Decidable (exceedsPad length bufLen) := inferInstanceAs (Decidable (_ ≤ _))

def getLoop (p : Mem Byte) (tokenId : List Byte) (bufLen : Int) : Nat → Int → Int → Option (Int × List Byte)
  | 0, _, _ => none
  | fuel + 1, a, usedLen =>
      if p a ≠ 0 ∧ 0 < tokenLen p a ∧ tokenLen p a < length ∧ usedLen < length then
        if sameName (tokenName p a) tokenId then
          if bufLen < tokenLen p a then some (-1, [])
          else some (tokenLen p a, readBytes p (a + spTokenSize) (tokenLen p a).toNat)
        else getLoop p tokenId bufLen fuel (a + spTokenSize + skipLen p a) (usedLen + skipLen p a)
      else some (-1, [])

/-- The first loop of `kerSysScratchPadSet`. The pointer it moves is always
`usedLen` bytes behind the start of the pad. -/
def usedLoop (p : Mem Byte) : Nat → Int → Option Int
  | 0, _ => none
  | fuel + 1, usedLen =>
      if 65 ≤ p usedLen ∧ p usedLen ≤ 122 ∧ 0 ∈ tokenName p usedLen ∧ 0 < tokenLen p usedLen ∧
          tokenLen p usedLen < length ∧ usedLen < length then
        usedLoop p fuel (usedLen + spTokenSize + skipLen p usedLen)
      else some usedLen

def findLoop (p : Mem Byte) (tokenId : List Byte) (usedLen : Int) : Nat → Int → Option (Option Int)
  | 0, _ => none
  | fuel + 1, curLen =>
      if curLen < usedLen then
        if sameName (tokenName p curLen) tokenId then some (some curLen)
        else findLoop p tokenId usedLen fuel (curLen + spTokenSize + skipLen p curLen)
      else some none

def spToken (tokenId : List Byte) (bufLen : Int) : List Byte :=
  let name := (tokenId.take 15).takeWhile (· ≠ 0)
  name ++ List.replicate (16 - name.length) 0 ++ bytes32 (uint32 bufLen)

def putAtEnd (p : Mem Byte) (usedLen : Int) (tokenId : List Byte) (tokBuf : Option (Mem Byte)) (bufLen : Int) :
    Mem Byte :=
  match tokBuf with
  | some buf =>
      let p := patch p usedLen (spToken tokenId bufLen)
      patch (patch p (usedLen + spTokenSize) (readBytes buf 0 bufLen.toNat)) 0 spHead
  | none => patch p 0 spHead

def shiftOut (p : Mem Byte) (usedLen curLen : Int) : Mem Byte :=
  let next := curLen + spTokenSize + skipLen p curLen
  let copyLen := usedLen - next
  fill (patch p curLen (readBytes p next copyLen.toNat)) (curLen + copyLen) (length - (curLen + copyLen)).toNat 0

/-- The edit of the pad at `p` by `kerSysScratchPadSet`: `some none` is the
return on overflow, `none` a loop that does not end. -/
def setBuf (p : Mem Byte) (tokenId : List Byte) (tokBuf : Option (Mem Byte)) (bufLen : Int) :
    Option (Option (Mem Byte)) :=
  if readBytes p 0 8 ≠ magicNumber then
    let p := patch (patch p 0 spHead) spHeaderSize (spToken tokenId bufLen)
    some (some (match tokBuf with
      | some buf => patch p (spHeaderSize + spTokenSize) (readBytes buf 0 bufLen.toNat)
      | none => p))
  else
    (usedLoop length p length.toNat spHeaderSize).bind fun usedLen =>
      if length < usedLen + bufLen + spTokenSize then some none
      else
        (findLoop p tokenId usedLen length.toNat spHeaderSize).map fun
          | none => some (putAtEnd p usedLen tokenId tokBuf bufLen)
          | some curLen =>
              match tokBuf with
              | some buf =>
                  if tokenLen p curLen = bufLen then
                    some (patch p (curLen + spTokenSize) (readBytes buf 0 bufLen.toNat))
                  else
                    some (putAtEnd (shiftOut length p usedLen curLen)
                      (usedLen - (spTokenSize + skipLen p curLen)) tokenId tokBuf bufLen)
              | none =>
                  some (putAtEnd (shiftOut length p usedLen curLen)
                    (usedLen - (spTokenSize + skipLen p curLen)) tokenId tokBuf bufLen)

variable (g : Geometry) (info : FlashAddrInfo)

/-- `heap` is the memory around the sector buffer, `tokenId` the caller's
name with what follows it. -/
def kerSysScratchPadGet (m heap : Mem Byte) (tokenId : Mem Byte) (bufLen : Int) : Option (Int × List Byte) :=
  let sp := info.scratchPad
  if sp.length = 0 then some (-1, [])
  else if exceedsPad sp.length bufLen then some (-1, [])
  else
    let pBuf := view (getSharedBlks g m heap sp.startBlk sp.endBlk) sp.blkOffset
    if readBytes pBuf 0 8 ≠ magicNumber then some (-1, [])
    else getLoop sp.length pBuf (readBytes tokenId 0 16) bufLen sp.length.toNat spHeaderSize spHeaderSize

def kerSysScratchPadSet (f : Flash) (heap : Mem Byte) (tokenId : Mem Byte) (tokBuf : Option (Mem Byte))
    (bufLen : Int) : Option Int × Flash :=
  let sp := info.scratchPad
  if sp.length = 0 then (some (-1), f)
  else if exceedsPad sp.length bufLen then (some (-1), f)
  else
    let pBuf := view (getSharedBlks g f.mem heap sp.startBlk sp.endBlk) sp.blkOffset
    match setBuf sp.length pBuf (readBytes tokenId 0 16) tokBuf bufLen with
    | none => (none, f)
    | some none => (some (-1), f)
    | some (some pBuf) =>
        let w := setSharedBlks g f sp.startBlk sp.endBlk (view pBuf (-sp.blkOffset))
        (some w.1, w.2)

def kerSysScratchPadClearAll (f : Flash) : Int × Flash :=
  let sp := info.scratchPad
  if sp.length = 0 then (-1, f)
  else
    let pShareBuf := getSharedBlks g f.mem (fun _ => 0) sp.startBlk sp.endBlk
    setSharedBlks g f sp.startBlk sp.endBlk
      (fill pShareBuf 0 (usedBlkSize g sp.startBlk sp.endBlk).toNat 0)

variable {g info}

theorem toNat_pad : Int.toNat 8192 = 8192 := rfl

theorem skipLen_bounds {p : Mem Byte} {a : Int} (hpos : 0 < tokenLen p a) (hlt : tokenLen p a < 8192) :
    tokenLen p a ≤ skipLen p a ∧ 24 ≤ spTokenSize + skipLen p a := by
  rw [skipLen, int32_of_range (by omega) (by omega), spTokenSize]
  omega

theorem length_spToken (tokenId : List Byte) (bufLen : Int) : (spToken tokenId bufLen).length = 20 := by
  have hname : ((tokenId.take 15).takeWhile (· ≠ 0)).length ≤ 15 :=
    (List.takeWhile_sublist _).length_le.trans (List.length_take_le 15 tokenId)
  simp only [spToken, List.length_append, List.length_replicate, length_bytes32]
  omega

section

variable (p : Mem Byte) {usedLen curLen span : Int} (hspan : spTokenSize + skipLen p curLen = span)

include hspan

theorem shiftOut_kept (hend : curLen + span ≤ usedLen) {i : Int} (hi : i < curLen) :
    shiftOut 8192 p usedLen curLen i = p i := by
  rw [shiftOut, add_assoc, hspan, fill_outside _ _ _ _ _ (.inl (by omega)), patch_outside _ _ _ _ (.inl hi)]

theorem shiftOut_moved {i : Int} (hl : curLen ≤ i) (hu : i + span < usedLen) :
    shiftOut 8192 p usedLen curLen i = p (i + span) := by
  rw [shiftOut, add_assoc, hspan, fill_outside _ _ _ _ _ (.inl (by omega)),
    patch_inside _ _ _ _ hl (by rw [length_readBytes]; omega), getD_readBytes _ _ _ _ (by omega)]
  exact congrArg p (by omega)

theorem shiftOut_cleared {i : Int} (hl : usedLen ≤ i + span) (hu : i < 8192) :
    shiftOut 8192 p usedLen curLen i = 0 := by
  rw [shiftOut, add_assoc, hspan]
  exact fill_inside _ _ _ _ _ (by omega) (by omega)

end

theorem kerSysScratchPadSet_runs (f : Flash) (hl : 0 ≤ info.scratchPad.startBlk)
    (hu : info.scratchPad.endBlk ≤ 65536) (heap tokenId : Mem Byte) (tokBuf : Option (Mem Byte)) (bufLen : Int) :
    ∃ ops, Runs g f ops (kerSysScratchPadSet g info f heap tokenId tokBuf bufLen).2 ∧
      ∀ op ∈ ops, Op.Within g info.scratchPad.startBlk info.scratchPad.endBlk op := by
  have hnone : ∃ ops, Runs g f ops f ∧
      ∀ op ∈ ops, Op.Within g info.scratchPad.startBlk info.scratchPad.endBlk op :=
    ⟨[], Runs.refl f, by simp⟩
  rw [kerSysScratchPadSet]
  dsimp only
  split
  · exact hnone
  split
  · exact hnone
  split
  · exact hnone
  · exact hnone
  · exact setSharedBlks_runs f hl hu _

theorem kerSysScratchPadClearAll_runs (f : Flash) (hl : 0 ≤ info.scratchPad.startBlk)
    (hu : info.scratchPad.endBlk ≤ 65536) :
    ∃ ops, Runs g f ops (kerSysScratchPadClearAll g info f).2 ∧
      ∀ op ∈ ops, Op.Within g info.scratchPad.startBlk info.scratchPad.endBlk op := by
  rw [kerSysScratchPadClearAll]
  dsimp only
  split
  · exact ⟨[], Runs.refl f, by simp⟩
  · exact setSharedBlks_runs f hl hu _

end AliceModem.ScratchPad
