import AliceModem.Flash.ScratchPadRoom

namespace AliceModem.ScratchPadReads

open Words Sectors ByteMemory Device SharedBlks Regions BigEndian ConfigCopies ScratchPad ScratchPadMap ScratchPadFrame
  ScratchPadTokens ScratchPadKeep ScratchPadLoss ScratchPadRoom

def SamePad (p q : Mem Byte) : Prop := ∀ i, 0 ≤ i → i < 8192 → q i = p i

/-- The search of `kerSysScratchPadGet` comes to its result on bytes of the pad alone. At a token
whose head is not inside, that means it stops there whatever the head is. -/
def searchInside (p : Mem Byte) (tokenId : List Byte) (bufLen : Int) : Nat → Int → Int → Prop
  | 0, _, _ => True
  | fuel + 1, a, usedLen =>
      if a + spTokenSize ≤ 8192 then
        if p a ≠ 0 ∧ 0 < tokenLen p a ∧ tokenLen p a < 8192 ∧ usedLen < 8192 then
          if sameName (tokenName p a) tokenId then bufLen < tokenLen p a ∨ a + spTokenSize + tokenLen p a ≤ 8192
          else searchInside p tokenId bufLen fuel (a + spTokenSize + skipLen p a) (usedLen + skipLen p a)
        else True
      else 8192 ≤ usedLen ∨ a < 8192 ∧ p a = 0

instance decidableSearchInside (p : Mem Byte) (tokenId : List Byte) (bufLen : Int) :
    ∀ fuel a usedLen, Decidable (searchInside p tokenId bufLen fuel a usedLen)
  | 0, _, _ => inferInstanceAs (Decidable True)
  | fuel + 1, _, _ =>
      have := decidableSearchInside p tokenId bufLen fuel
      inferInstanceAs (Decidable (ite _ _ _))

def Inside (p : Mem Byte) (tokenId : List Byte) (bufLen : Int) : Prop :=
  exceedsPad 8192 bufLen ∨ readBytes p 0 8 ≠ magicNumber ∨ bufLen = 0 ∨ tokenId.headD 0 = 0 ∨
    searchInside p tokenId bufLen 8192 32 32

section Search

variable {p q : Mem Byte} {tokenId : List Byte} {bufLen a usedLen : Int} {fuel : Nat}

theorem sameName_self (xs : List Byte) : sameName xs xs = true := by
  induction xs with
  | nil => rfl
  | cons x xs ih => rw [sameName, ih, Bool.or_true, Bool.and_true, decide_eq_true rfl]

theorem SamePad.head (h : SamePad p q) (hl : 0 ≤ a) (hu : a + 20 ≤ 8192) : readBytes q a 20 = readBytes p a 20 :=
  readBytes_congr fun i hi => h _ (by omega) (by omega)

theorem search_head (h : SamePad p q) (hl : 0 ≤ a) (hu : a + 20 ≤ 8192) :
    getLoop 8192 q tokenId bufLen (fuel + 1) a usedLen =
      if p a ≠ 0 ∧ 0 < tokenLen p a ∧ tokenLen p a < 8192 ∧ usedLen < 8192 then
        if sameName (tokenName p a) tokenId then
          if bufLen < tokenLen p a then some (-1, [])
          else some (tokenLen p a, readBytes q (a + 20) (tokenLen p a).toNat)
        else getLoop 8192 q tokenId bufLen fuel (a + 20 + skipLen p a) (usedLen + skipLen p a)
      else some (-1, []) := by
  have hhead := h.head hl hu
  have hskip : skipLen q a = skipLen p a := by rw [skipLen, skipLen, tokenLen_congr hhead]
  rw [getLoop, h a hl (by omega), tokenLen_congr hhead, tokenName_congr hhead, hskip]

theorem searchInside_congr (h : SamePad p q) (hl : 0 ≤ a) (hin : searchInside p tokenId bufLen fuel a usedLen) :
    getLoop 8192 q tokenId bufLen fuel a usedLen = getLoop 8192 p tokenId bufLen fuel a usedLen := by
  have hsize : spTokenSize = 20 := rfl
  induction fuel generalizing a usedLen with
  | zero => rfl
  | succ fuel ih =>
      rw [searchInside] at hin
      by_cases hu : a + 20 ≤ 8192
      · rw [if_pos hu] at hin
        rw [search_head h hl hu, search_head (fun _ _ _ => rfl) hl hu]
        split_ifs at hin ⊢ with hguard hname hshort
        · rfl
        · rw [readBytes_congr fun i hi => h _ (by omega) (by omega)]
        · have hbounds := skipLen_bounds hguard.2.1 hguard.2.2.1
          exact ih (by omega) hin
        · rfl
      · rw [if_neg hu] at hin
        have hstop (r : Mem Byte) (hr : a < 8192 → r a = p a) :
            ¬ (r a ≠ 0 ∧ 0 < tokenLen r a ∧ tokenLen r a < 8192 ∧ usedLen < 8192) := by
          rintro ⟨h1, -, -, h4⟩
          rcases hin with hin | ⟨hin, h0⟩
          · omega
          · exact h1 ((hr hin).trans h0)
        rw [getLoop, getLoop, if_neg (hstop q fun hu => h a hl hu), if_neg (hstop p fun _ => rfl)]

theorem readBytes_inside {b : Int} {n : Nat} (hn : 0 < n)
    (hall : ∀ q, SamePad p q → readBytes q b n = readBytes p b n) : b + n ≤ 8192 := by
  by_contra hout
  have hread := hall (fun i => if i < 8192 then p i else p i + 1) fun i _ hi => if_pos hi
  have hlast := congrArg (fun l : List Byte => l.getD (n - 1) default) hread
  rw [getD_readBytes _ _ _ _ (by omega), getD_readBytes _ _ _ _ (by omega), if_neg (by omega)] at hlast
  exact absurd hlast (by simp)

theorem getLoop_blank (h : tokenLen p a = 0) : getLoop 8192 p tokenId bufLen (fuel + 1) a usedLen = some (-1, []) := by
  rw [getLoop, h, if_neg (by omega)]

theorem getLoop_fails (h : ∀ a, p a ≠ 0 → 0 < tokenLen p a → sameName (tokenName p a) tokenId → bufLen < tokenLen p a)
    (hfuel : 8192 ≤ usedLen + 4 * fuel) : getLoop 8192 p tokenId bufLen (fuel + 1) a usedLen = some (-1, []) := by
  induction fuel generalizing a usedLen with
  | zero => rw [getLoop, if_neg (by omega)]
  | succ fuel ih =>
      rw [getLoop]
      split_ifs with hguard hname hshort
      · rfl
      · exact absurd (h a hguard.1 hguard.2.1 hname) hshort
      · have hbounds := skipLen_bounds hguard.2.1 hguard.2.2.1
        have hsize : spTokenSize = 20 := rfl
        exact ih (by omega)
      · rfl

theorem sameName_nul_first (hid : tokenId.length = 16) (h0 : tokenId.headD 0 = 0)
    (hname : sameName (tokenName p a) tokenId) : p a = 0 := by
  obtain ⟨x, xs, rfl⟩ := List.exists_cons_of_ne_nil (show tokenId ≠ [] by rintro rfl; cases hid)
  obtain ⟨y, ys, hy⟩ := List.exists_cons_of_ne_nil
    (show tokenName p a ≠ [] from fun h => by have := length_tokenName p a; rw [h] at this; cases this)
  rw [hy, sameName, Bool.and_eq_true, decide_eq_true_eq] at hname
  rw [← headD_readBytes p a 15 0, ← tokenName, hy, List.headD_cons, hname.1]
  exact h0

variable (hid : tokenId.length = 16) (hne : tokenId.headD 0 ≠ 0) (hpos : 1 ≤ bufLen)

include hid hne hpos

theorem getLoop_hit (hhead : readBytes p a 20 = tokenId ++ bytes32 1) (hused : usedLen < 8192) :
    ∃ data, getLoop 8192 p tokenId bufLen (fuel + 1) a usedLen = some (1, data) := by
  have hname : tokenName p a = tokenId := by rw [tokenName_eq, hhead, List.take_left' hid]
  have hlen : tokenLen p a = 1 := by
    rw [tokenLen_eq, hhead, List.drop_left' hid]
    decide
  have hfirst : p a ≠ 0 := by
    obtain ⟨x, xs, rfl⟩ := List.exists_cons_of_ne_nil (show tokenId ≠ [] by rintro rfl; cases hid)
    rw [← headD_readBytes p a 19 0, hhead]
    exact hne
  rw [getLoop, hlen, if_pos ⟨hfirst, by decide, by decide, hused⟩, hname, if_pos (sameName_self tokenId),
    if_neg (by omega)]
  exact ⟨_, rfl⟩

theorem search_outside (hl : 8176 ≤ a) (hgap : usedLen + 20 ≤ a) (hused : usedLen < 8192)
    (hfirst : a < 8192 → p a ≠ 0) (hfuel : 8192 ≤ usedLen + 4 * fuel) :
    ∃ q, SamePad p q ∧ ∃ data, getLoop 8192 q tokenId bufLen fuel a usedLen = some (1, data) := by
  have hbytes : (bytes32 1).length = 4 := rfl
  obtain ⟨fuel, rfl⟩ : ∃ k, fuel = k + 1 := ⟨fuel - 1, by omega⟩
  by_cases hin : a < 8192
  · obtain ⟨fuel, rfl⟩ : ∃ k, fuel = k + 1 := ⟨fuel - 1, by omega⟩
    let q := patch (patch p (a + 16) (bytes32 1)) (a + 24) (tokenId ++ bytes32 1)
    have hlength : (tokenId ++ bytes32 1).length = 20 := by rw [List.length_append, hid, hbytes]
    have hlen : tokenLen q a = 1 := by
      rw [tokenLen, readBytes_patch_disjoint _ _ _ _ _ (.inl (by omega)), ← hbytes, readBytes_patch]
      decide
    have hkept (i : Int) (hi : i < a + 16) : q i = p i :=
      (patch_outside _ _ _ _ (.inl (by omega))).trans (patch_outside _ _ _ _ (.inl hi))
    have hskip : skipLen q a = 4 := by
      rw [skipLen, hlen]
      decide
    refine ⟨q, fun i _ hi => hkept i (by omega), ?_⟩
    rw [getLoop, hlen, hkept a (by omega), if_pos ⟨hfirst hin, by decide, by decide, hused⟩]
    split_ifs with hname hshort
    · omega
    · exact ⟨_, rfl⟩
    · rw [hskip, add_assoc]
      refine getLoop_hit hid hne hpos ?_ (by omega)
      exact hlength ▸ readBytes_patch _ _ _
  · refine ⟨patch p a (tokenId ++ bytes32 1), fun i _ hi => patch_outside _ _ _ _ (.inl (by omega)), ?_⟩
    have hlength : (tokenId ++ bytes32 1).length = 20 := by rw [List.length_append, hid, hbytes]
    exact getLoop_hit hid hne hpos (hlength ▸ readBytes_patch _ _ _) hused

theorem searchInside_of_same (hall : ∀ q, SamePad p q →
      getLoop 8192 q tokenId bufLen fuel a usedLen = getLoop 8192 p tokenId bufLen fuel a usedLen)
    (hl : 0 ≤ a) (hmod : a % 4 = 0) (hle : usedLen ≤ a) (hgap : usedLen + 20 ≤ a ∨ a + 20 ≤ 8192)
    (hfuel : 8192 ≤ usedLen + 4 * fuel) : searchInside p tokenId bufLen fuel a usedLen := by
  have hsize : spTokenSize = 20 := rfl
  induction fuel generalizing a usedLen with
  | zero => trivial
  | succ fuel ih =>
      rw [searchInside]
      by_cases hu : a + 20 ≤ 8192
      · rw [if_pos hu]
        have hsame (q : Mem Byte) (hq : SamePad p q) := hall q hq
        simp only [search_head (fun _ _ _ => rfl : SamePad p p) hl hu] at hsame
        split_ifs with hguard hname
        · rw [or_iff_not_imp_left]
          intro hlong
          have hdata : a + 20 + (tokenLen p a).toNat ≤ 8192 := by
            apply readBytes_inside (p := p) (by omega)
            intro q hq
            have hread := hsame q hq
            rw [search_head hq hl hu, if_pos hguard, if_pos hguard, if_pos hname, if_pos hname, if_neg hlong,
              if_neg hlong, Option.some.injEq, Prod.mk.injEq] at hread
            exact hread.2
          omega
        · have hbounds := skipLen_bounds hguard.2.1 hguard.2.2.1
          apply ih
          · intro q hq
            have hstep := hsame q hq
            rwa [search_head hq hl hu, if_pos hguard, if_pos hguard, if_neg hname, if_neg hname] at hstep
          · omega
          · rw [skipLen, hsize]
            omega
          · omega
          · omega
          · omega
      · rw [if_neg hu]
        by_contra hout
        rw [not_or, not_and] at hout
        have hend : usedLen + 20 ≤ a := hgap.resolve_right hu
        obtain ⟨q, hq, data, hfound⟩ := search_outside hid hne hpos (by omega) hend (by omega) hout.2 hfuel
        have hblank : getLoop 8192 (fill p 8192 (a + 20 - 8192).toNat 0) tokenId bufLen (fuel + 1) a usedLen =
            some (-1, []) := by
          apply getLoop_blank
          rw [tokenLen, readBytes_replicate (v := 0) fun i hi => fill_inside _ _ _ _ _ (by omega) (by omega)]
          decide
        rw [hall _ fun i _ hi => fill_outside _ _ _ _ _ (.inl hi), ← hall q hq, hfound] at hblank
        cases hblank

end Search

section Device

variable (g : Geometry) (info : FlashAddrInfo)

/-- The result of a search is the same for all devices with the same pad, whatever is in the rest of
the device and around the buffer. -/
def ReadsInside (m tokenId : Mem Byte) (bufLen : Int) : Prop :=
  ∀ m' heap heap' : Mem Byte, SamePad (padOf g info m) (padOf g info m') →
    kerSysScratchPadGet g info m' heap' tokenId bufLen = kerSysScratchPadGet g info m heap tokenId bufLen

variable {g info} (hfit : info.scratchPad.Fits g) (hlength : info.scratchPad.length = 8192)

include hfit

theorem pBuf_view (q : Mem Byte) :
    pBuf g info (view q (-info.scratchPad.first g)) (view q (-info.scratchPad.blkOffset)) = q := by
  funext i
  rw [pBuf, view, getSharedBlks_eq _ _ hfit.start_nonneg hfit.mono hfit.inside]
  split_ifs
  · rw [view, Region.first]
    exact congrArg q (by omega)
  · exact congrArg q (neg_add_cancel_left _ i)

include hlength

theorem get_no_magic {m : Mem Byte} (hmagic : readBytes (padOf g info m) 0 8 ≠ magicNumber) (heap tokenId : Mem Byte)
    (bufLen : Int) : kerSysScratchPadGet g info m heap tokenId bufLen = some (-1, []) := by
  rw [← magic_pBuf hfit hlength m heap] at hmagic
  rw [kerSysScratchPadGet]
  dsimp only
  rw [hlength, if_neg (by decide), ← pBuf, if_pos hmagic, ite_self]

/-- The search stays inside the pad exactly if no token that it comes to, and no data that it
copies, reaches over the end. -/
theorem reads_inside_iff (m tokenId : Mem Byte) {bufLen : Int} (hl : -2147483648 ≤ bufLen) (hu : bufLen < 2147483648) :
    ReadsInside g info m tokenId bufLen ↔ Inside (padOf g info m) (readBytes tokenId 0 16) bufLen := by
  have hid : (readBytes tokenId 0 16).length = 16 := length_readBytes _ _ _
  by_cases hlen : exceedsPad 8192 bufLen
  · refine iff_of_true (fun m' heap heap' _ => ?_) (.inl hlen)
    rw [get_refused hlength hlen, get_refused hlength hlen]
  by_cases hmagic : readBytes (padOf g info m) 0 8 = magicNumber
  swap
  · refine iff_of_true (fun m' heap heap' hsame => ?_) (.inr (.inl hmagic))
    have hmagic' : readBytes (padOf g info m') 0 8 ≠ magicNumber := by
      rwa [readBytes_congr fun i hi => hsame _ (by omega) (by omega)]
    rw [get_no_magic hfit hlength hmagic, get_no_magic hfit hlength hmagic']
  obtain ⟨h0, h1⟩ := (exceedsPad_iff hl hu).mp hlen
  have hget (m' heap' : Mem Byte) (hsame : SamePad (padOf g info m) (padOf g info m')) :
      kerSysScratchPadGet g info m' heap' tokenId bufLen =
        getLoop 8192 (pBuf g info m' heap') (readBytes tokenId 0 16) bufLen 8192 32 32 := by
    apply get_accepted hlength h0 h1
    rw [magic_pBuf hfit hlength, ← hmagic]
    exact readBytes_congr fun i hi => hsame _ (by omega) (by omega)
  constructor
  · intro hreads
    refine .inr (.inr ?_)
    by_cases hzero : bufLen = 0
    · exact .inl hzero
    by_cases hempty : (readBytes tokenId 0 16).headD 0 = 0
    · exact .inr (.inl hempty)
    refine .inr (.inr (searchInside_of_same hid hempty (by omega) (fun q hq => ?_) (by decide) (by decide) le_rfl
      (.inr (by decide)) (by decide)))
    have hresult (r : Mem Byte) (hr : SamePad (padOf g info m) r) :
        getLoop 8192 r (readBytes tokenId 0 16) bufLen 8192 32 32 =
          kerSysScratchPadGet g info m (fun _ => 0) tokenId bufLen := by
      have hsame : SamePad (padOf g info m) (padOf g info (view r (-info.scratchPad.first g))) := by
        rwa [padOf_view]
      rw [← hreads _ _ (view r (-info.scratchPad.blkOffset)) hsame, hget _ _ hsame, pBuf_view hfit]
    rw [hresult q hq, hresult _ fun _ _ _ => rfl]
  · intro hin m' heap heap' hsame
    have hbuf (m₁ heap₁ : Mem Byte) (h : SamePad (padOf g info m) (padOf g info m₁)) :
        SamePad (padOf g info m) (pBuf g info m₁ heap₁) := fun i hi hi' =>
      (pBuf_window hfit hlength m₁ heap₁ hi hi').trans (h i hi hi')
    rw [hget _ _ hsame, hget m heap fun _ _ _ => rfl]
    rcases hin with hin | hin | rfl | hempty | hin
    · exact absurd hin hlen
    · exact absurd hmagic hin
    · rw [getLoop_fails (fun _ _ hpos _ => hpos) (by decide), getLoop_fails (fun _ _ hpos _ => hpos) (by decide)]
    · have hfails (p : Mem Byte) : getLoop 8192 p (readBytes tokenId 0 16) bufLen 8192 32 32 = some (-1, []) :=
        getLoop_fails (fun a hne _ hname => absurd (sameName_nul_first hid hempty hname) hne) (by decide)
      rw [hfails, hfails]
    · rw [searchInside_congr (hbuf m' heap' hsame) (by decide) hin,
        searchInside_congr (hbuf m heap fun _ _ _ => rfl) (by decide) hin]

end Device

theorem twoTokens_read_inside : ReadsInside demoFlash demoInfo (deviceWith (twoTokens 0xff)) (cString [66, 48]) 16 := by
  refine (reads_inside_iff demoInfo_fits (by decide) _ _ (by decide) (by decide)).mpr (.inr (.inr (.inr (.inr ?_))))
  rw [deviceWith, padOf_view]
  decide

def fullPad : Mem Byte :=
  patch (patch (fun _ => 0xff) 0 spHead) 32 (66 :: List.replicate 15 0 ++ bytes32 8139)

def fullPadThen : Mem Byte := patch fullPad 8192 (65 :: List.replicate 15 0 ++ bytes32 1 ++ [7])

theorem pBuf_deviceWith {q : Mem Byte} (hq : ∀ i, i < 0 ∨ 8213 ≤ i → q i = 0xff) :
    pBuf demoFlash demoInfo (deviceWith q) (fun _ => 0xff) = q := by
  have hend : blkStart demoFlash demoInfo.scratchPad.endBlk - blkStart demoFlash demoInfo.scratchPad.startBlk = 65536 := by
    decide
  have hoffset : demoInfo.scratchPad.blkOffset = 32768 := by decide
  funext i
  rw [pBuf, view, getSharedBlks_eq _ _ demoInfo_fits.start_nonneg demoInfo_fits.mono demoInfo_fits.inside]
  split_ifs with hi
  · rw [deviceWith, view, Region.first]
    exact congrArg q (by omega)
  · exact (hq i (by omega)).symm

theorem search_finds_psi :
    SamePad (padOf demoFlash demoInfo (deviceWith fullPad)) (padOf demoFlash demoInfo (deviceWith fullPadThen)) ∧
    kerSysScratchPadGet demoFlash demoInfo (deviceWith fullPad) (fun _ => 0xff) letterName 1 = some (-1, []) ∧
    kerSysScratchPadGet demoFlash demoInfo (deviceWith fullPadThen) (fun _ => 0xff) letterName 1 = some (1, [7]) := by
  have hfull (i : Int) (hi : i < 0 ∨ 8192 ≤ i) : fullPad i = 0xff := by
    rw [fullPad, patch_outside _ _ _ _ (by simp [bytes32]; omega), patch_outside _ _ _ _ (by simp [spHead, magicNumber, bytes32]; omega)]
  have hthen (i : Int) (hi : i < 0 ∨ 8213 ≤ i) : fullPadThen i = 0xff := by
    rw [fullPadThen, patch_outside _ _ _ _ (by simp [bytes32]; omega), hfull i (by omega)]
  refine ⟨fun i _ hi => ?_, ?_, ?_⟩
  · rw [deviceWith, deviceWith, padOf_view, padOf_view]
    exact patch_outside _ _ _ _ (.inl hi)
  · rw [demo_get (pBuf_deviceWith fun i hi => hfull i (by omega)) (by decide)]
    decide
  · rw [demo_get (pBuf_deviceWith hthen) (by decide)]
    decide

end AliceModem.ScratchPadReads
