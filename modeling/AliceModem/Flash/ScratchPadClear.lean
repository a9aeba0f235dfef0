import AliceModem.Flash.MixedLayout
import AliceModem.Flash.ScratchPadReads

namespace AliceModem.ScratchPadClear

open Words Hwdefs Sectors ByteMemory Device SharedBlks Regions BigEndian ImageTag Layout ConfigCopies ScratchPad
  ScratchPadMap ScratchPadTokens ScratchPadKeep ScratchPadLoss MixedLayout

section Search

variable {p : Mem Byte}

theorem tokenLen_high {a : Int} (h2 : p (a + 18) = 0) (h3 : p (a + 19) = 0) :
    ¬ (0 < tokenLen p a ∧ tokenLen p a < 8192) := by
  have hthird : (readBytes p (a + 16) 4).getD 2 0 = 0 := by
    refine (getD_readBytes p (a + 16) 4 2 (by decide)).trans ?_
    rw [add_assoc]
    exact h2
  have hfourth : (readBytes p (a + 16) 4).getD 3 0 = 0 := by
    refine (getD_readBytes p (a + 16) 4 3 (by decide)).trans ?_
    rw [add_assoc]
    exact h3
  have hzero : (0 : Byte).toNat = 0 := rfl
  rw [tokenLen, be32, hthird, hfourth, hzero, int32]
  omega

theorem getLoop_cleared (hzero : ∀ i, 50 ≤ i → i < 52 → p i = 0) (tokenId : List Byte) (bufLen : Int) :
    getLoop 8192 p tokenId bufLen 8192 32 32 = some (-1, []) := by
  rw [getLoop, if_neg]
  rintro ⟨-, h1, h2, -⟩
  exact tokenLen_high (hzero _ (by decide) (by decide)) (hzero _ (by decide) (by decide)) ⟨h1, h2⟩

end Search

section Device

variable {g : Geometry} {info : FlashAddrInfo} {f : Flash} (h : PadLayout g info.scratchPad)
  (hok : (kerSysScratchPadClearAll g info f).1 = 0)

include h hok

theorem clear_returned (i : Int) : (kerSysScratchPadClearAll g info f).2.mem i =
    if blkStart g info.scratchPad.startBlk ≤ i ∧ i < blkStart g info.scratchPad.endBlk then 0 else f.mem i := by
  have hused := usedBlkSize_eq h.start_nonneg h.mono.le h.inside
  rw [kerSysScratchPadClearAll] at hok ⊢
  dsimp only at hok ⊢
  rw [h.length, if_neg (by decide)] at hok ⊢
  rw [setSharedBlks_returned hok, (setSharedBlks_ok (fresh f.mem) rfl h.start_nonneg h.mono.le h.inside _).2.2]
  split_ifs with hi
  · exact fill_inside _ _ _ _ _ (by omega) (by omega)
  · rfl

theorem pBuf_cleared (heap : Mem Byte) (i : Int) : pBuf g info (kerSysScratchPadClearAll g info f).2.mem heap i =
    if 0 ≤ info.scratchPad.blkOffset + i ∧ info.scratchPad.blkOffset + i <
      blkStart g info.scratchPad.endBlk - blkStart g info.scratchPad.startBlk
    then 0 else heap (info.scratchPad.blkOffset + i) := by
  rw [pBuf, view, getSharedBlks_eq _ heap h.start_nonneg h.mono.le h.inside]
  split_ifs with hi
  · rw [clear_returned h hok, if_pos (by omega)]
  · rfl

theorem get_cleared (hused : 8142 ≤ blkStart g info.scratchPad.endBlk - blkStart g info.scratchPad.startBlk)
    (heap tokenId : Mem Byte) (bufLen : Int) :
    kerSysScratchPadGet g info (kerSysScratchPadClearAll g info f).2.mem heap tokenId bufLen = some (-1, []) := by
  have hwindow := h.window
  have hown := h.own
  rw [kerSysScratchPadGet]
  dsimp only
  rw [h.length, if_neg (by decide), ← pBuf, toNat_pad, getLoop_cleared, ite_self, ite_self]
  intro i h1 h2
  rw [pBuf_cleared h hok, if_pos]
  rcases lt_or_ge info.scratchPad.blkOffset 0 with hneg | hpos
  · have := hown hneg
    omega
  · omega

end Device

section Init

def strayPad : Mem Byte :=
  patch (patch (fun _ => 0) 0 magicNumber) 32 (65 :: List.replicate 15 0 ++ bytes32 256)

theorem strayPad_zero {i : Int} (hi : 51 ≤ i) : strayPad i = 0 := by
  rcases hi.eq_or_lt with rfl | hlt
  · decide
  · have htoken : (65 :: List.replicate 15 0 ++ bytes32 256 : List Byte).length = 20 := rfl
    have hmagic : magicNumber.length = 8 := rfl
    rw [strayPad, patch_outside _ _ _ _ (.inr (by omega)), patch_outside _ _ _ _ (.inr (by omega))]

theorem strayPad_found : getLoop 8192 strayPad (readBytes letterName 0 16) 256 8192 32 32 ≠ some (-1, []) := by
  rw [getLoop, if_pos (by decide), if_pos (by decide), if_neg (by decide)]
  intro h
  have hlen := congrArg Prod.fst (Option.some.inj h)
  exact absurd hlen (by decide)

variable {g : Geometry} {info : FlashAddrInfo} {f : Flash}

theorem used_of_cleared (h : PadLayout g info.scratchPad) (hok : (kerSysScratchPadClearAll g info f).1 = 0)
    (hget : ∀ heap tokenId bufLen,
      kerSysScratchPadGet g info (kerSysScratchPadClearAll g info f).2.mem heap tokenId bufLen = some (-1, [])) :
    8142 ≤ blkStart g info.scratchPad.endBlk - blkStart g info.scratchPad.startBlk := by
  by_contra hshort
  have hwindow := h.window
  have hown := h.own (by omega)
  have hpad : pBuf g info (kerSysScratchPadClearAll g info f).2.mem
      (view strayPad (-info.scratchPad.blkOffset)) = strayPad := by
    funext i
    rw [pBuf_cleared h hok]
    split_ifs with hi
    · exact (strayPad_zero (by omega)).symm
    · exact congrArg strayPad (neg_add_cancel_left _ i)
  have hfound := hget (view strayPad (-info.scratchPad.blkOffset)) letterName 256
  rw [get_accepted h.length (by decide) (by decide) (by rw [hpad]; decide), hpad] at hfound
  exact strayPad_found hfound

variable (g info f) in
def PadCleared : Prop :=
  (∀ i, i < info.scratchPad.first g ∨ info.scratchPad.first g + 8192 ≤ i →
    (kerSysScratchPadClearAll g info f).2.mem i = f.mem i) ∧
  ∀ heap tokenId bufLen,
    kerSysScratchPadGet g info (kerSysScratchPadClearAll g info f).2.mem heap tokenId bufLen = some (-1, [])

variable {ulPsiSize : Nat} {pTag : Option FileTag}

theorem padLayout_init (hpos : 0 < psiLength ulPsiSize) (hroom : psiLength ulPsiSize + 8192 ≤ flashGetTotalSize g)
    (hlen : (kerSysFlashInit g ulPsiSize pTag).scratchPad.length ≠ 0) :
    PadLayout g (kerSysFlashInit g ulPsiSize pTag).scratchPad := by
  cases pTag with
  | none => exact absurd rfl hlen
  | some tag =>
      rw [kerSysFlashInit_some] at hlen ⊢
      exact spRegion_layout hpos hroom hlen

/-- Clearing the pad zeroes all of its sectors, so the rest of them must have been zero before. -/
theorem pad_cleared_iff (hpos : 0 < psiLength ulPsiSize) (hroom : psiLength ulPsiSize + 8192 ≤ flashGetTotalSize g)
    (hinfo : info = kerSysFlashInit g ulPsiSize pTag) (hlen : info.scratchPad.length ≠ 0)
    (hok : (kerSysScratchPadClearAll g info f).1 = 0) :
    PadCleared g info f ↔ 8142 ≤ usedBlkSize g info.scratchPad.startBlk info.scratchPad.endBlk ∧
      ∀ i, blkStart g info.scratchPad.startBlk ≤ i → i < blkStart g info.scratchPad.endBlk →
        i < info.scratchPad.first g ∨ info.scratchPad.first g + 8192 ≤ i → f.mem i = 0 := by
  subst hinfo
  have h := padLayout_init hpos hroom hlen
  rw [usedBlkSize_eq h.start_nonneg h.mono.le h.inside]
  constructor
  · rintro ⟨hframe, hget⟩
    refine ⟨used_of_cleared h hok hget, fun i h1 h2 hout => ?_⟩
    rw [← hframe i hout, clear_returned h hok, if_pos ⟨h1, h2⟩]
  · rintro ⟨hused, hzero⟩
    refine ⟨fun i hout => ?_, get_cleared h hok hused⟩
    rw [clear_returned h hok]
    split_ifs with hi
    · exact (hzero i hi.1 hi.2 hout).symm
    · rfl

end Init

theorem demoInfo_layout : PadLayout demoFlash demoInfo.scratchPad := padLayout_init (by decide) (by decide) (by decide)

theorem demo_clear_ok (m : Mem Byte) : (kerSysScratchPadClearAll demoFlash demoInfo (fresh m)).1 = 0 := by
  rw [kerSysScratchPadClearAll, if_neg (by decide)]
  exact (setSharedBlks_ok _ rfl demoInfo_fits.start_nonneg demoInfo_fits.mono demoInfo_fits.inside _).1

theorem twoTokens_cleared : PadCleared demoFlash demoInfo (fresh (deviceWith (twoTokens 0))) := by
  refine (pad_cleared_iff (by decide) (by decide) (show demoInfo = kerSysFlashInit demoFlash 24 (some blankTag) from rfl)
    (by decide) (demo_clear_ok _)).mpr ⟨by decide, fun i _ _ hout => ?_⟩
  exact twoTokens_outside 0 (by omega)

/-- The configuration shares the sector of the pad and is gone when the pad has been cleared. -/
theorem clear_wipes_psi :
    (kerSysScratchPadClearAll demoFlash demoInfo (fresh fun _ => 7)).1 = 0 ∧
    ∀ i, demoInfo.persistent.first demoFlash ≤ i →
      i < demoInfo.persistent.first demoFlash + demoInfo.persistent.length →
      (kerSysScratchPadClearAll demoFlash demoInfo (fresh fun _ => 7)).2.mem i = 0 := by
  have hstart : blkStart demoFlash demoInfo.scratchPad.startBlk ≤ demoInfo.persistent.first demoFlash := by decide
  have hend : demoInfo.persistent.first demoFlash + demoInfo.persistent.length =
    blkStart demoFlash demoInfo.scratchPad.endBlk := by decide
  refine ⟨demo_clear_ok _, fun i h1 h2 => ?_⟩
  rw [clear_returned demoInfo_layout (demo_clear_ok _), if_pos (by omega)]

end AliceModem.ScratchPadClear
