import AliceModem.Flash.ScratchPadMap

namespace AliceModem.ScratchPadFrame

open Words Sectors ByteMemory Device SharedBlks Regions BigEndian ConfigCopies ScratchPad ScratchPadTokens ScratchPadMap

structure Copy where
  dest : Int
  len : Int

def Copy.Inside (length : Int) (c : Copy) : Prop := 0 ≤ c.dest ∧ 0 ≤ c.len ∧ c.dest + c.len ≤ length

def putAtEndCopies (usedLen : Int) (tokBuf : Option (Mem Byte)) (bufLen : Int) : List Copy :=
  match tokBuf with
  | some _ => [⟨usedLen, spTokenSize⟩, ⟨usedLen + spTokenSize, bufLen⟩, ⟨0, spHeaderSize⟩]
  | none => [⟨0, spHeaderSize⟩]

def shiftOutCopies (length : Int) (p : Mem Byte) (usedLen curLen : Int) : List Copy :=
  let copyLen := usedLen - (curLen + spTokenSize + skipLen p curLen)
  [⟨curLen, copyLen⟩, ⟨curLen + copyLen, length - (curLen + copyLen)⟩]

/-- The copies of `kerSysScratchPadSet` into the pad at `p`, with the lengths as
they are computed. -/
def setCopies (length : Int) (p : Mem Byte) (tokenId : List Byte) (tokBuf : Option (Mem Byte)) (bufLen : Int) :
    List Copy :=
  if readBytes p 0 8 ≠ magicNumber then
    [⟨0, spHeaderSize⟩, ⟨spHeaderSize, spTokenSize⟩] ++
      (match tokBuf with
      | some _ => [⟨spHeaderSize + spTokenSize, bufLen⟩]
      | none => [])
  else
    match usedLoop length p length.toNat spHeaderSize with
    | none => []
    | some usedLen =>
      if length < usedLen + bufLen + spTokenSize then []
      else
        match findLoop p tokenId usedLen length.toNat spHeaderSize with
        | none => []
        | some none => putAtEndCopies usedLen tokBuf bufLen
        | some (some curLen) =>
          if tokBuf.isSome ∧ tokenLen p curLen = bufLen then [⟨curLen + spTokenSize, bufLen⟩]
          else shiftOutCopies length p usedLen curLen ++
            putAtEndCopies (usedLen - (spTokenSize + skipLen p curLen)) tokBuf bufLen

def Confined (cs : List Copy) (p q : Mem Byte) : Prop :=
  ∀ i, (∀ c ∈ cs, i < c.dest ∨ c.dest + c.len ≤ i) → q i = p i

section Edit

variable {p q r : Mem Byte} {cs ds : List Copy}

theorem Confined.trans (hpq : Confined cs p q) (hqr : Confined ds q r) : Confined (cs ++ ds) p r := by
  intro i hi
  rw [hqr i fun c hc => hi c (List.mem_append_right _ hc), hpq i fun c hc => hi c (List.mem_append_left _ hc)]

theorem confined_patch (p : Mem Byte) (a : Int) {l : List Byte} {n : Int} (hn : l.length = n.toNat) :
    Confined [⟨a, n⟩] p (patch p a l) := by
  intro i hi
  have hout := hi _ List.mem_cons_self
  exact patch_outside _ _ _ _ (by dsimp only at hout; omega)

theorem Confined.outside (h : Confined cs p q) {length : Int} (hcs : ∀ c ∈ cs, c.Inside length) {i : Int}
    (hi : i < 0 ∨ length ≤ i) : q i = p i := by
  refine h i fun c hc => ?_
  obtain ⟨h1, h2, h3⟩ := hcs c hc
  omega

variable {tokenId : List Byte} {tokBuf : Option (Mem Byte)} {bufLen usedLen curLen : Int}

/-- What an edit of the pad must be: if there is one, it changes only what its
copies cover, and they stay inside the pad. -/
def Good (p : Mem Byte) (cs : List Copy) (r : Option (Mem Byte)) : Prop :=
  (∀ q, r = some q → Confined cs p q) ∧ ∀ c ∈ cs, c.Inside 8192

theorem Good.of_confined (hq : Confined cs p q) (hcs : ∀ c ∈ cs, c.Inside 8192) : Good p cs (some q) := by
  refine ⟨fun q' hq' => ?_, hcs⟩
  cases hq'
  exact hq

theorem good_none (p : Mem Byte) : Good p [] none := ⟨nofun, nofun⟩

theorem putAtEnd_confined (p : Mem Byte) (usedLen : Int) (tokenId : List Byte) (tokBuf : Option (Mem Byte))
    (bufLen : Int) :
    Confined (putAtEndCopies usedLen tokBuf bufLen) p (putAtEnd p usedLen tokenId tokBuf bufLen) := by
  cases tokBuf with
  | none => exact confined_patch p 0 rfl
  | some buf =>
      have htoken : Confined [⟨usedLen, spTokenSize⟩] p (patch p usedLen (spToken tokenId bufLen)) :=
        confined_patch p usedLen (length_spToken tokenId bufLen)
      exact (htoken.trans (confined_patch _ _ (length_readBytes _ _ _))).trans (confined_patch _ 0 rfl)

theorem shiftOut_confined (p : Mem Byte) (usedLen curLen : Int) :
    Confined (shiftOutCopies 8192 p usedLen curLen) p (shiftOut 8192 p usedLen curLen) :=
  (confined_patch p curLen (length_readBytes _ _ _)).trans (confined_patch _ _ (List.length_replicate ..))

theorem head_inside : Copy.Inside 8192 ⟨0, 32⟩ := ⟨by decide, by decide, by decide⟩

theorem putAtEndCopies_inside (tokBuf : Option (Mem Byte)) (h0 : 0 ≤ bufLen) (hused : 0 ≤ usedLen)
    (hroom : usedLen + bufLen + 20 ≤ 8192) : ∀ c ∈ putAtEndCopies usedLen tokBuf bufLen, c.Inside 8192 := by
  cases tokBuf with
  | none =>
      intro c hc
      rw [List.mem_singleton.mp hc]
      exact head_inside
  | some buf =>
      have htoken : Copy.Inside 8192 ⟨usedLen, 20⟩ := ⟨hused, by dsimp only; omega, by dsimp only; omega⟩
      have hdata : Copy.Inside 8192 ⟨usedLen + 20, bufLen⟩ := ⟨by dsimp only; omega, h0, by dsimp only; omega⟩
      intro c hc
      simp only [putAtEndCopies, List.mem_cons, List.not_mem_nil, or_false] at hc
      rcases hc with rfl | rfl | rfl
      · exact htoken
      · exact hdata
      · exact head_inside

theorem shiftOutCopies_inside (hcur : 0 ≤ curLen) (hnext : curLen + spTokenSize + skipLen p curLen ≤ usedLen)
    (hskip : 0 ≤ spTokenSize + skipLen p curLen) (hused : usedLen ≤ 8192) :
    ∀ c ∈ shiftOutCopies 8192 p usedLen curLen, c.Inside 8192 := by
  intro c hc
  simp only [shiftOutCopies, List.mem_cons, List.not_mem_nil, or_false] at hc
  rcases hc with rfl | rfl
  · exact ⟨hcur, by dsimp only; omega, by dsimp only; omega⟩
  · exact ⟨by dsimp only; omega, by dsimp only; omega, by dsimp only; omega⟩

theorem good_new (p : Mem Byte) (tokenId : List Byte) (tokBuf : Option (Mem Byte)) (h0 : 0 ≤ bufLen)
    (hlt : bufLen < 8140) (hmagic : readBytes p 0 8 ≠ magicNumber) :
    ∃ r, setBuf 8192 p tokenId tokBuf bufLen = some r ∧ Good p (setCopies 8192 p tokenId tokBuf bufLen) r := by
  have htoken : Copy.Inside 8192 ⟨32, 20⟩ := ⟨by decide, by decide, by decide⟩
  have hdata : Copy.Inside 8192 ⟨spHeaderSize + spTokenSize, bufLen⟩ := by
    have hsize : spHeaderSize + spTokenSize = 52 := rfl
    exact ⟨by dsimp only; omega, h0, by dsimp only; omega⟩
  have hnew : Confined [⟨0, 32⟩, ⟨32, 20⟩] p (patch (patch p 0 spHead) 32 (spToken tokenId bufLen)) :=
    (confined_patch p 0 rfl).trans (confined_patch _ _ (length_spToken tokenId bufLen))
  unfold setBuf setCopies
  rw [if_pos hmagic, if_pos hmagic]
  cases tokBuf with
  | none => exact ⟨_, rfl, Good.of_confined hnew (by simp [head_inside, htoken])⟩
  | some buf =>
      have hall := hnew.trans (confined_patch _ 52 (length_readBytes buf 0 bufLen.toNat))
      exact ⟨_, rfl, Good.of_confined hall (by simp [head_inside, htoken, hdata])⟩

theorem good_found (tokBuf : Option (Mem Byte)) (tokenId : List Byte) (h0 : 0 ≤ bufLen) (hcur : 0 ≤ curLen)
    (hl : Listed p curLen) (hnext : curLen + tokenSpan p curLen ≤ usedLen)
    (hroom : usedLen + bufLen + spTokenSize ≤ 8192) :
    Good p (shiftOutCopies 8192 p usedLen curLen ++ putAtEndCopies (usedLen - tokenSpan p curLen) tokBuf bufLen)
      (some (putAtEnd (shiftOut 8192 p usedLen curLen) (usedLen - tokenSpan p curLen) tokenId tokBuf bufLen)) := by
  have hsize : spTokenSize = 20 := rfl
  have hspan := hl.span
  refine Good.of_confined ((shiftOut_confined p usedLen curLen).trans (putAtEnd_confined _ _ tokenId tokBuf bufLen))
    fun c hc => ?_
  rcases List.mem_append.mp hc with hc | hc
  · rw [tokenSpan] at hspan hnext
    exact shiftOutCopies_inside hcur (by omega) (by omega) (by omega) c hc
  · exact putAtEndCopies_inside tokBuf h0 (by omega) (by omega) c hc

theorem setBuf_good (p : Mem Byte) (tokenId : List Byte) (tokBuf : Option (Mem Byte)) (h0 : 0 ≤ bufLen)
    (hlt : bufLen < 8140) :
    ∃ r, setBuf 8192 p tokenId tokBuf bufLen = some r ∧ Good p (setCopies 8192 p tokenId tokBuf bufLen) r := by
  by_cases hmagic : readBytes p 0 8 ≠ magicNumber
  · exact good_new p tokenId tokBuf h0 hlt hmagic
  obtain ⟨usedLen, hchain, hstop⟩ := chain_tokensFrom (p := p) (a := 32) 8192 (by decide)
  have hle := hchain.le
  unfold setBuf setCopies
  rw [if_neg hmagic, if_neg hmagic, toNat_pad, usedLoop_chain hchain hstop hchain.length_lt, Option.bind_some]
  dsimp only
  rw [findLoop_chain tokenId hchain hchain.length_lt]
  by_cases hover : 8192 < usedLen + bufLen + spTokenSize
  · rw [if_pos hover, if_pos hover]
    exact ⟨none, rfl, good_none p⟩
  rw [if_neg hover, if_neg hover]
  have hsize : spTokenSize = 20 := rfl
  rcases hfound : (tokensFrom p 8192 32).find? (named p tokenId) with _ | curLen
  · exact ⟨_, rfl, Good.of_confined (putAtEnd_confined p usedLen tokenId tokBuf bufLen)
      (putAtEndCopies_inside tokBuf h0 (by omega) (by omega))⟩
  · obtain ⟨hcur, hl, hnext⟩ := hchain.mem (List.mem_of_find?_eq_some hfound)
    have hshift := good_found tokBuf tokenId h0 (by omega) hl hnext (not_lt.mp hover)
    cases tokBuf with
    | none => exact ⟨_, rfl, hshift⟩
    | some buf =>
        dsimp only [Option.map_some]
        by_cases hsame : tokenLen p curLen = bufLen
        · rw [if_pos hsame, if_pos ⟨rfl, hsame⟩]
          have hspan := hl.span
          refine ⟨_, rfl, Good.of_confined (confined_patch p _ (length_readBytes buf 0 bufLen.toNat)) fun c hc => ?_⟩
          rw [List.mem_singleton.mp hc]
          exact ⟨by dsimp only; omega, h0, by dsimp only; omega⟩
        · rw [if_neg hsame, if_neg fun h => hsame h.2]
          exact ⟨_, rfl, hshift⟩

end Edit

variable (g : Geometry) (info : FlashAddrInfo)

def kerSysScratchPadSetCopies (m heap : Mem Byte) (tokenId : Mem Byte) (tokBuf : Option (Mem Byte)) (bufLen : Int) :
    List Copy :=
  let sp := info.scratchPad
  if sp.length = 0 then []
  else if exceedsPad sp.length bufLen then []
  else
    let pBuf := view (getSharedBlks g m heap sp.startBlk sp.endBlk) sp.blkOffset
    setCopies sp.length pBuf (readBytes tokenId 0 16) tokBuf bufLen

variable {g info}

theorem setSharedBlks_window (hfit : info.scratchPad.Fits g) (f : Flash) (hf : f.faults = []) (heap : Mem Byte)
    {q : Mem Byte} (hq : ∀ i, i < 0 ∨ info.scratchPad.length ≤ i → q i =
      view (getSharedBlks g f.mem heap info.scratchPad.startBlk info.scratchPad.endBlk) info.scratchPad.blkOffset i)
    {i : Int} (hi : i < info.scratchPad.first g ∨ info.scratchPad.first g + info.scratchPad.length ≤ i) :
    (setSharedBlks g f info.scratchPad.startBlk info.scratchPad.endBlk
      (view q (-info.scratchPad.blkOffset))).2.mem i = f.mem i := by
  obtain ⟨-, -, hmem⟩ := setSharedBlks_ok f hf hfit.start_nonneg hfit.mono hfit.inside
    (view q (-info.scratchPad.blkOffset))
  rw [hmem]
  split_ifs with hblk
  · rw [Region.first] at hi
    rw [view, hq _ (by omega), view, getSharedBlks_eq f.mem heap hfit.start_nonneg hfit.mono hfit.inside,
      if_pos (by omega)]
    congr 1
    omega
  · rfl

/-- A call ends and changes nothing outside the window of the pad, whatever the
sectors hold, and no copy has a negative length or reaches past the pad. -/
theorem scratchPadSet_confined (hfit : info.scratchPad.Fits g)
    (hlength : info.scratchPad.length = 0 ∨ info.scratchPad.length = 8192) (f : Flash) (hf : f.faults = [])
    (heap tokenId : Mem Byte) (tokBuf : Option (Mem Byte)) (bufLen : Int) (hl : -2147483648 ≤ bufLen)
    (hu : bufLen < 2147483648) :
    (kerSysScratchPadSet g info f heap tokenId tokBuf bufLen).1 ≠ none ∧
    (∀ i, i < info.scratchPad.first g ∨ info.scratchPad.first g + info.scratchPad.length ≤ i →
      (kerSysScratchPadSet g info f heap tokenId tokBuf bufLen).2.mem i = f.mem i) ∧
    ∀ c ∈ kerSysScratchPadSetCopies g info f.mem heap tokenId tokBuf bufLen, c.Inside info.scratchPad.length := by
  rw [kerSysScratchPadSet, kerSysScratchPadSetCopies]
  dsimp only
  rcases hlength with hzero | hpad
  · rw [if_pos hzero, if_pos hzero]
    exact ⟨Option.some_ne_none _, fun _ _ => rfl, fun _ hc => absurd hc List.not_mem_nil⟩
  by_cases hover : exceedsPad info.scratchPad.length bufLen
  · rw [if_neg (by omega), if_pos hover, if_neg (by omega), if_pos hover]
    exact ⟨Option.some_ne_none _, fun _ _ => rfl, fun _ hc => absurd hc List.not_mem_nil⟩
  rw [if_neg (by omega), if_neg hover, if_neg (by omega), if_neg hover]
  rw [hpad] at hover ⊢
  obtain ⟨h0, hlt⟩ := (exceedsPad_iff hl hu).mp hover
  obtain ⟨r, hr, hgood, hcopies⟩ := setBuf_good
    (view (getSharedBlks g f.mem heap info.scratchPad.startBlk info.scratchPad.endBlk) info.scratchPad.blkOffset)
    (readBytes tokenId 0 16) tokBuf h0 hlt
  rw [hr]
  refine ⟨?_, fun i hi => ?_, hcopies⟩
  · cases r <;> exact Option.some_ne_none _
  · cases r with
    | none => rfl
    | some q =>
        rw [← hpad] at hi
        exact setSharedBlks_window hfit f hf heap
          (fun j hj => (hgood q rfl).outside hcopies (by rwa [hpad] at hj)) hi

def corruptPad : Mem Byte :=
  let p := patch (patch (fun _ => 0xff) 0 spHead) 32 (spToken demoName.padded 8)
  view (patch p 60 (spToken otherName.padded (-1))) (-demoInfo.scratchPad.first demoFlash)

theorem scratchPadSet_confined_demo :
    let f := fresh corruptPad
    let set := kerSysScratchPadSet demoFlash demoInfo f (fun _ => 0xff) (cString [65]) (some fun _ => 7) 4
    set.1 ≠ none ∧
    (∀ i, i < demoInfo.scratchPad.first demoFlash ∨
      demoInfo.scratchPad.first demoFlash + demoInfo.scratchPad.length ≤ i → set.2.mem i = f.mem i) ∧
    ∀ c ∈ kerSysScratchPadSetCopies demoFlash demoInfo f.mem (fun _ => 0xff) (cString [65]) (some fun _ => 7) 4,
      c.Inside demoInfo.scratchPad.length :=
  scratchPadSet_confined demoInfo_fits (.inr (by decide)) _ rfl _ _ _ 4 (by decide) (by decide)

end AliceModem.ScratchPadFrame
