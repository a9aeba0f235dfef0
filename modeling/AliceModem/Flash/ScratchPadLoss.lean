import AliceModem.Flash.ScratchPadKeep

namespace AliceModem.ScratchPadLoss

open Words Sectors ByteMemory Device SharedBlks Regions BigEndian ConfigCopies ScratchPad ScratchPadMap ScratchPadFrame
  ScratchPadTokens ScratchPadKeep

section Token

variable {tokenId : Mem Byte} {chars : List Byte} {bufLen : Int} {p : Mem Byte} {a : Int}

theorem spToken_split (id : List Byte) (bufLen : Int) :
    ∃ name : List Byte, name.length = 16 ∧ 0 ∈ name ∧ spToken id bufLen = name ++ bytes32 (uint32 bufLen) ∧
      (id.headD 0 ≠ 0 → name.headD 0 = id.headD 0) := by
  have hlen : ((id.take 15).takeWhile (· ≠ 0)).length ≤ 15 :=
    (List.takeWhile_sublist _).length_le.trans (List.length_take_le 15 id)
  refine ⟨(id.take 15).takeWhile (· ≠ 0) ++ List.replicate (16 - ((id.take 15).takeWhile (· ≠ 0)).length) 0, ?_, ?_, rfl,
    fun h => ?_⟩
  · rw [List.length_append, List.length_replicate]
    omega
  · rw [List.mem_append, List.mem_replicate]
    exact .inr ⟨by omega, rfl⟩
  · cases id with
    | nil => exact absurd rfl h
    | cons x id =>
        rw [List.headD_cons] at h
        simp [h]

variable (hhead : readBytes p a 20 = spToken (readBytes tokenId 0 16) bufLen)

include hhead

theorem tokenLen_spToken (h0 : 0 ≤ bufLen) (hu : bufLen < 2147483648) : tokenLen p a = bufLen := by
  obtain ⟨name, hname, -, hsplit, -⟩ := spToken_split (readBytes tokenId 0 16) bufLen
  have hnat := cast_uint32 bufLen
  rw [tokenLen_eq, hhead, hsplit, List.drop_left' hname, ← List.append_nil (bytes32 _), be32_bytes32 (uint32_lt _),
    int32_of_range (by omega) (by omega)]
  omega

theorem nul_spToken : 0 ∈ tokenName p a := by
  obtain ⟨name, hname, hnul, hsplit, -⟩ := spToken_split (readBytes tokenId 0 16) bufLen
  rwa [tokenName_eq, hhead, hsplit, List.take_left' hname]

theorem first_spToken (hid : Points tokenId chars) (hne : chars ≠ []) : p a = chars.headD 0 := by
  obtain ⟨name, hname, -, hsplit, hfirst⟩ := spToken_split (readBytes tokenId 0 16) bufLen
  obtain ⟨x, xs, rfl⟩ := List.exists_cons_of_ne_nil hne
  have hx : tokenId 0 = x := by
    rw [← headD_readBytes tokenId 0 (x :: xs).length 0, hid.bytes]
    rfl
  have hx0 : x ≠ 0 := fun h => hid.nul_free (h ▸ List.mem_cons_self)
  rw [headD_readBytes tokenId 0 15 0, hx] at hfirst
  obtain ⟨y, ys, rfl⟩ := List.exists_cons_of_ne_nil (show name ≠ [] by rintro rfl; cases hname)
  rw [← headD_readBytes p a 19 0, hhead, hsplit]
  exact hfirst hx0

theorem unnamed_spToken (hid : Points tokenId chars) (hge : 16 ≤ chars.length) :
    named p (readBytes tokenId 0 16) a = false := by
  rw [Bool.eq_false_iff]
  intro hname
  have hnul := nul_spToken hhead
  rw [(named_long hid hge p a).mp hname] at hnul
  exact hid.nul_free (List.mem_of_mem_take hnul)

end Token

def longName : Mem Byte := patch (fun _ => 0) 0 (List.replicate 16 65)

theorem longName_points : Points longName (List.replicate 16 65) := ⟨by decide, by decide⟩

theorem longName_unlisted {p : Mem Byte} {a : Int} (hl : Listed p a) : named p (readBytes longName 0 16) a = false := by
  rw [Bool.eq_false_iff]
  intro hname
  have := (Listed.short longName_points hl hname).1
  simp at this

section PutAtEnd

variable {p q : Mem Byte} {u bufLen : Int} {tokenId : List Byte} {buf : Mem Byte}

theorem putAtEnd_head (hu : 32 ≤ u) : readBytes (putAtEnd p u tokenId (some buf) bufLen) u 20 = spToken tokenId bufLen := by
  have hlen := length_spToken tokenId bufLen
  rw [putAtEnd, readBytes_patch_disjoint _ _ _ _ _ (.inr (show (0 : Int) + 32 ≤ u by omega)),
    readBytes_patch_disjoint _ _ _ _ _ (.inl (by simp only [spTokenSize]; omega)), ← hlen, readBytes_patch]

theorem putAtEnd_congr {i : Int}
    (h : q i = p i ∨ 0 ≤ i ∧ i < 32 ∨ u ≤ i ∧ i < u + 20 + bufLen) :
    putAtEnd q u tokenId (some buf) bufLen i = putAtEnd p u tokenId (some buf) bufLen i := by
  have hlen := length_spToken tokenId bufLen
  have hhead : spHead.length = 32 := rfl
  simp only [putAtEnd, patch, length_readBytes, hlen, hhead, spTokenSize]
  split_ifs
  · rfl
  · rfl
  · rfl
  · exact h.resolve_right (by omega)

theorem putAtEnd_outside {i : Int} (h1 : i < 0 ∨ 32 ≤ i) (h2 : i < u ∨ u + 20 + bufLen ≤ i) (h0 : 0 ≤ bufLen) :
    putAtEnd p u tokenId (some buf) bufLen i = p i := by
  have hlen := length_spToken tokenId bufLen
  have hhead : spHead.length = 32 := rfl
  simp only [putAtEnd, patch, length_readBytes, hlen, hhead, spTokenSize]
  split_ifs
  · omega
  · omega
  · omega
  · rfl

end PutAtEnd

section Get

variable {p q : Mem Byte} {tokenId : List Byte} {bufLen : Int}

/-- The search fails, or it finds all bytes of a token that fits into the buffer. -/
theorem getLoop_answer {fuel : Nat} {a usedLen v : Int} {l : List Byte}
    (h : getLoop 8192 p tokenId bufLen fuel a usedLen = some (v, l)) :
    v = -1 ∨ 0 < v ∧ v ≤ bufLen ∧ (l.length : Int) = v := by
  induction fuel generalizing a usedLen with
  | zero => cases h
  | succ fuel ih =>
      rw [getLoop] at h
      split_ifs at h with hguard hname hshort
      · exact .inl (Prod.mk.inj (Option.some.inj h)).1.symm
      · obtain ⟨rfl, rfl⟩ := Prod.mk.inj (Option.some.inj h)
        rw [length_readBytes]
        exact .inr ⟨hguard.2.1, not_lt.mp hshort, Int.toNat_of_nonneg hguard.2.1.le⟩
      · exact ih h
      · exact .inl (Prod.mk.inj (Option.some.inj h)).1.symm

theorem getLoop_congr {fuel : Nat} {a usedLen : Int} (h : ∀ i, a ≤ i → q i = p i) :
    getLoop 8192 q tokenId bufLen fuel a usedLen = getLoop 8192 p tokenId bufLen fuel a usedLen := by
  induction fuel generalizing a usedLen with
  | zero => rfl
  | succ fuel ih =>
      have hhead : readBytes q a 20 = readBytes p a 20 := readBytes_congr fun i _ => h _ (by omega)
      have hskip : skipLen q a = skipLen p a := by rw [skipLen, skipLen, tokenLen_congr hhead]
      rw [getLoop, getLoop, h a le_rfl, tokenName_congr hhead, tokenLen_congr hhead, hskip]
      split_ifs with hguard hname hshort
      · rfl
      · rw [readBytes_congr fun i _ => h (a + spTokenSize + i) (by simp only [spTokenSize]; omega)]
      · have hbounds := skipLen_bounds hguard.2.1 hguard.2.2.1
        exact ih fun i hi => h i (by omega)
      · rfl

end Get

section Namesakes

variable {p : Mem Byte}

theorem unused_chain (hmagic : readBytes p 0 8 = magicNumber) {cs : List Int} {b : Int}
    (h : Chain p 32 cs b) (hb : ¬ Listed p b) : unused p = 8192 - b := by
  rw [unused, if_neg (not_not.mpr hmagic), usedLoop_chain h hb h.length_lt, Option.getD_some]

/-- A store that gives up the first of several tokens of its name leaves the next one to be found. -/
theorem namesake_found {id : List Byte} {n : Nat} (hdouble : ¬ Replaceable p id n)
    (hroom : n + 20 ≤ unused p) : ∃ data, ∀ buf, ∃ q, setBuf 8192 p id (some buf) n = some (some q) ∧ Holds q id data := by
  rw [Replaceable, not_or, namesakes] at hdouble
  split_ifs at hdouble with hmagic
  swap
  · exact absurd (Nat.zero_le 1) hdouble.1
  obtain ⟨b, hchain, hstop⟩ := chain_tokensFrom (p := p) (a := 32) 8192 (by decide)
  have hunused := unused_chain hmagic hchain hstop
  rw [← tokens] at hchain
  rcases hnames : (tokens p).filter (named p id) with _ | ⟨cur, _ | ⟨c, rest⟩⟩
  · simp [hnames] at hdouble
  · simp [hnames] at hdouble
  rw [hnames, List.headD_cons] at hdouble
  obtain ⟨pre, behind, hsplit, hpre, hcur, hbehind⟩ := List.filter_eq_cons_iff.mp hnames
  obtain ⟨mid, es, rfl, hmid, hc, -⟩ := List.filter_eq_cons_iff.mp hbehind
  rw [hsplit] at hchain
  have hothers (x : Int) (hx : x ∈ pre ++ mid) : named p id x = false :=
    Bool.eq_false_iff.mpr ((List.mem_append.mp hx).elim (hpre x) (hmid x))
  have hfind : (pre ++ cur :: (mid ++ c :: es)).find? (named p id) = some cur := by
    refine List.find?_eq_some_iff_append.mpr ⟨hcur, pre, _, rfl, fun x hx => ?_⟩
    rw [hothers x (List.mem_append_left _ hx)]
    rfl
  obtain ⟨hlow, hl, hend⟩ := hchain.mem (x := c) (by simp)
  have hpos := hl.2.2.2.1
  refine ⟨readBytes p (c + 20) (tokenLen p c).toNat, fun buf => ⟨rewriteToken p b cur id (some buf) n, ?_, ?_, ?_⟩⟩
  · rw [setBuf_chain hmagic hchain hstop, if_neg (by omega), hfind]
  · exact rewriteToken_magic hmagic (hchain.mem (x := cur) (by simp)).1
  · rw [rewriteToken, if_neg hdouble.2]
    refine finds_behind hchain (by omega) hothers hc ?_ ?_
    · rw [length_readBytes]
      omega
    · rw [length_readBytes]

end Namesakes

section Device

variable {g : Geometry} {info : FlashAddrInfo} (hfit : info.scratchPad.Fits g)
  (hlength : info.scratchPad.length = 8192) {m heap tokenId : Mem Byte} {chars : List Byte} {n : Nat}

include hfit hlength

theorem magic_pBuf (m heap : Mem Byte) : readBytes (pBuf g info m heap) 0 8 = readBytes (padOf g info m) 0 8 :=
  readBytes_congr fun i hi => pBuf_window hfit hlength m heap (by omega) (by omega)

theorem chain_pBuf (hmagic : readBytes (padOf g info m) 0 8 = magicNumber) (hroom : 20 ≤ unused (padOf g info m))
    (heap : Mem Byte) : ∃ cs b, b = 8192 - unused (padOf g info m) ∧ Chain (pBuf g info m heap) 32 cs b ∧
      ¬ Listed (pBuf g info m heap) b := by
  obtain ⟨b, hchain, hstop⟩ := chain_tokensFrom (p := padOf g info m) (a := 32) 8192 (by decide)
  have hunused := unused_chain hmagic hchain hstop
  obtain ⟨h1, h2, -⟩ := hchain.window hstop (by omega)
    fun i h1 h2 => pBuf_window hfit hlength m heap h1 h2
  exact ⟨_, b, by omega, h1, h2⟩

theorem store_place (hid : Points tokenId chars)
    (hno : ¬ (chars.length ≤ 15 ∧ (chars ≠ [] → 65 ≤ chars.headD 0 ∧ chars.headD 0 ≤ 122)))
    (hroom : n + 20 ≤ unused (padOf g info m)) (hn : n < 8140) (heap : Mem Byte) :
    ∃ (cs : List Int) (u : Int), u + n + 20 ≤ 8192 ∧ Chain (pBuf g info m heap) 32 cs u ∧
      ∀ buf, setBuf 8192 (pBuf g info m heap) (readBytes tokenId 0 16) (some buf) n =
        some (some (putAtEnd (pBuf g info m heap) u (readBytes tokenId 0 16) (some buf) n)) := by
  by_cases hmagic : readBytes (padOf g info m) 0 8 = magicNumber
  · obtain ⟨cs, b, hb, hchain, hstop⟩ := chain_pBuf hfit hlength hmagic (by omega) heap
    refine ⟨cs, b, by omega, hchain, fun buf => ?_⟩
    have hnone : cs.find? (named (pBuf g info m heap) (readBytes tokenId 0 16)) = none :=
      List.find?_eq_none.mpr fun x hx hname => hno (Listed.short hid (hchain.mem hx).2.1 hname)
    rw [setBuf_chain (by rwa [magic_pBuf hfit hlength]) hchain hstop, if_neg (by omega), hnone]
  · refine ⟨[], 32, by omega, rfl, fun buf => setBuf_new ?_ _ _ _⟩
    rwa [magic_pBuf hfit hlength]

omit hfit hlength in
variable (g info) in
def stored (m heap : Mem Byte) (u : Int) (id : List Byte) (buf : Mem Byte) (n : Nat) : Mem Byte :=
  written g info m (putAtEnd (pBuf g info m heap) u id (some buf) n)

theorem chain_stored (heap' : Mem Byte) {cs : List Int} {u : Int} (hchain : Chain (pBuf g info m heap) 32 cs u)
    (hroom : u + n + 20 ≤ 8192) (id : List Byte) (buf : Mem Byte) :
    readBytes (pBuf g info (stored g info m heap u id buf n) heap') 0 8 = magicNumber ∧
    Chain (pBuf g info (stored g info m heap u id buf n) heap') 32 cs u ∧
    readBytes (pBuf g info (stored g info m heap u id buf n) heap') u 20 = spToken id n := by
  have hlow := hchain.le
  have hsame (i : Int) (h1 : 0 ≤ i) (h2 : i < 8192) : pBuf g info (stored g info m heap u id buf n) heap' i =
      putAtEnd (pBuf g info m heap) u id (some buf) n i := by
    rw [stored, pBuf_window hfit hlength _ heap' h1 h2, padOf_written hfit hlength _ _ h1 h2]
  refine ⟨?_, hchain.congr fun x hx => ?_, ?_⟩
  · rw [readBytes_congr fun i hi => hsame _ (by omega) (by omega)]
    exact putAtEnd_magic _ _ _ _ _
  · obtain ⟨h1, h2, h3⟩ := hchain.mem hx
    have := h2.span
    apply readBytes_congr
    intro i hi
    rw [hsame _ (by omega) (by omega)]
    exact putAtEnd_below _ _ _ _ (by omega) (by omega)
  · rw [readBytes_congr fun i hi => hsame _ (by omega) (by omega)]
    exact putAtEnd_head (by omega)

omit hlength in
theorem stored_behind (heap' : Mem Byte) {u : Int} (hu : 32 ≤ u) (id : List Byte) (buf buf' : Mem Byte) {i : Int}
    (hi : u + 20 + n ≤ i) : pBuf g info (stored g info m heap u id buf n) heap' i =
      pBuf g info (stored g info m heap u id buf' n) heap' i := by
  rw [stored, stored, pBuf_written hfit, pBuf_written hfit, putAtEnd_outside (.inr (by omega)) (.inr hi) (by omega),
    putAtEnd_outside (.inr (by omega)) (.inr hi) (by omega)]

theorem get_stored_long (hid : Points tokenId chars) (hge : 16 ≤ chars.length) (hpos : 1 ≤ n) (hn : n < 8140)
    (heap' : Mem Byte) {cs : List Int} {u : Int} (hchain : Chain (pBuf g info m heap) 32 cs u)
    (hroom : u + n + 20 ≤ 8192) {fuel : Nat} (hfuel : 8192 = cs.length + (fuel + 1)) {len : Int} (hl : 0 ≤ len)
    (hu : len < 8140) (buf : Mem Byte) :
    kerSysScratchPadGet g info (stored g info m heap u (readBytes tokenId 0 16) buf n) heap' tokenId len =
      getLoop 8192 (pBuf g info (stored g info m heap u (readBytes tokenId 0 16) buf n) heap') (readBytes tokenId 0 16)
        len fuel (u + 20 + int32 (n + 3) / 4 * 4) (u - 20 * cs.length + int32 (n + 3) / 4 * 4) := by
  obtain ⟨hmagic, hchain', hhead⟩ := chain_stored hfit hlength heap' hchain hroom (readBytes tokenId 0 16) buf
  set p := pBuf g info (stored g info m heap u (readBytes tokenId 0 16) buf n) heap' with hp
  have hothers (x : Int) (hx : x ∈ cs) : named p (readBytes tokenId 0 16) x = false := by
    rw [Bool.eq_false_iff]
    intro hname
    have := (Listed.short hid (hchain'.mem hx).2.1 hname).1
    omega
  have hne : chars ≠ [] := by
    rintro rfl
    cases hge
  have hfirst : p u ≠ 0 := by
    rw [first_spToken hhead hid hne]
    obtain ⟨x, xs, rfl⟩ := List.exists_cons_of_ne_nil hne
    exact fun h => hid.nul_free (h ▸ List.mem_cons_self)
  have hlen := tokenLen_spToken hhead (by omega) (by omega)
  have hskip : skipLen p u = int32 (n + 3) / 4 * 4 := by rw [skipLen, hlen]
  have hname := unnamed_spToken hhead hid hge
  rw [named] at hname
  have hget := getLoop_chain hchain' hothers len le_rfl (fuel + 1)
  have hle := hchain.le
  rw [← hfuel] at hget
  rw [get_accepted hlength hl hu hmagic, ← hp, hget, getLoop,
    if_pos ⟨hfirst, by omega, by omega, by omega⟩, hname, if_neg (by decide), hskip]
  exact congrArg _ (by ring)

theorem long_lost (hid : Points tokenId chars) (hge : 16 ≤ chars.length) (hpos : 1 ≤ n) (hn : n < 8140)
    (heap' : Mem Byte) {cs : List Int} {u : Int} (hchain : Chain (pBuf g info m heap) 32 cs u)
    (hroom : u + n + 20 ≤ 8192) {len : Int} (hl : 0 ≤ len) (hu : len < 8140) (buf buf' : Mem Byte) :
    kerSysScratchPadGet g info (stored g info m heap u (readBytes tokenId 0 16) buf n) heap' tokenId len =
      kerSysScratchPadGet g info (stored g info m heap u (readBytes tokenId 0 16) buf' n) heap' tokenId len := by
  have hcount := hchain.length_lt
  have hlow := hchain.le
  obtain ⟨fuel, hfuel⟩ : ∃ fuel, 8192 = cs.length + (fuel + 1) := ⟨8191 - cs.length, by omega⟩
  rw [get_stored_long hfit hlength hid hge hpos hn heap' hchain hroom hfuel hl hu,
    get_stored_long hfit hlength hid hge hpos hn heap' hchain hroom hfuel hl hu]
  apply getLoop_congr
  intro i hi
  have hround : (n : Int) ≤ int32 (n + 3) / 4 * 4 := by
    rw [int32_of_range (by omega) (by omega)]
    omega
  exact stored_behind hfit heap' (by omega) _ _ _ (by omega)

omit hfit hlength in
theorem written_written (m q q' : Mem Byte) : written g info (written g info m q) q' = written g info m q' := by
  funext i
  by_cases hi : blkStart g info.scratchPad.startBlk ≤ i ∧ i < blkStart g info.scratchPad.endBlk
  · rw [written, if_pos hi, written, if_pos hi]
  · rw [written, if_neg hi, written, if_neg hi, written, if_neg hi]

omit hlength in
theorem stored_stored (heap' : Mem Byte) (u : Int) (id id' : List Byte) (buf buf₁ buf₂ : Mem Byte) :
    stored g info (stored g info m heap u id buf₁ n) heap' u id' buf n =
      stored g info (stored g info m heap u id buf₂ n) heap' u id' buf n := by
  have houter (buf' : Mem Byte) : stored g info (stored g info m heap u id buf' n) heap' u id' buf n =
      written g info m (putAtEnd (pBuf g info (stored g info m heap u id buf' n) heap') u id' (some buf) n) :=
    written_written _ _ _
  rw [houter, houter]
  funext i
  rw [written, written]
  split_ifs with hi
  · apply putAtEnd_congr
    rw [Region.first, stored, stored, pBuf_written hfit, pBuf_written hfit, if_pos (by omega), if_pos (by omega)]
    by_cases hin : 0 ≤ i - (blkStart g info.scratchPad.startBlk + info.scratchPad.blkOffset) ∧
        i - (blkStart g info.scratchPad.startBlk + info.scratchPad.blkOffset) < 32 ∨
        u ≤ i - (blkStart g info.scratchPad.startBlk + info.scratchPad.blkOffset) ∧
        i - (blkStart g info.scratchPad.startBlk + info.scratchPad.blkOffset) < u + 20 + n
    · exact .inr hin
    · left
      rw [putAtEnd_outside (by omega) (by omega) (by omega), putAtEnd_outside (by omega) (by omega) (by omega)]
  · rfl

theorem stored_ok {f : Flash} (hf : f.faults = []) (hn : n < 8140) {id buf q : Mem Byte}
    (hset : setBuf 8192 (pBuf g info f.mem heap) (readBytes id 0 16) (some buf) n = some (some q)) :
    (kerSysScratchPadSet g info f heap id (some buf) n).1 = some 0 ∧
    (kerSysScratchPadSet g info f heap id (some buf) n).2.faults = [] ∧
    (kerSysScratchPadSet g info f heap id (some buf) n).2.mem = written g info f.mem q := by
  have hlen : ¬ exceedsPad 8192 (n : Int) := (exceedsPad_iff (by omega) (by omega)).mpr (by omega)
  obtain ⟨hok, hfaults, -⟩ := (kerSysScratchPadSet_eq hfit hlength f hf heap id (some buf) hlen).2 q hset
  obtain ⟨-, q', hset', hmem⟩ := set_returned hfit hlength hok
  rw [hset, Option.some.injEq, Option.some.injEq] at hset'
  exact ⟨hok, hfaults, hset' ▸ hmem⟩

theorem unlisted_lost (hid : Points tokenId chars) (hne : chars ≠ [])
    (hfirst : ¬ (65 ≤ chars.headD 0 ∧ chars.headD 0 ≤ 122)) (hn : n < 8140) (heap' : Mem Byte) {cs : List Int} {u : Int}
    (hchain : Chain (pBuf g info m heap) 32 cs u) (hroom : u + n + 20 ≤ 8192) (buf : Mem Byte) :
    After g info chars (stored g info m heap u (readBytes tokenId 0 16) buf n)
      (stored g info (stored g info m heap u (readBytes tokenId 0 16) buf n) heap' u (readBytes longName 0 16)
        (fun _ => 0) n) := by
  obtain ⟨hmagic, hchain', hhead⟩ := chain_stored hfit hlength heap' hchain hroom (readBytes tokenId 0 16) buf
  set m₁ := stored g info m heap u (readBytes tokenId 0 16) buf n with hm₁
  have hstop : ¬ Listed (pBuf g info m₁ heap') u := by
    rintro ⟨h1, h2, -⟩
    rw [first_spToken hhead hid hne] at h1 h2
    exact hfirst ⟨h1, h2⟩
  have hnone : cs.find? (named (pBuf g info m₁ heap') (readBytes longName 0 16)) = none := by
    rw [List.find?_eq_none]
    exact fun x hx => by simp [longName_unlisted (hchain'.mem hx).2.1]
  have hset := setBuf_chain hmagic hchain' hstop (readBytes longName 0 16) (some fun _ => 0) n
  rw [if_neg (by omega), hnone] at hset
  obtain ⟨hok, -, hmem⟩ := stored_ok hfit hlength (f := fresh m₁) rfl hn hset
  rw [stored, ← show _ = written g info m₁ _ from hmem]
  have hother : List.replicate 16 65 ≠ chars := by
    rintro rfl
    exact hfirst (by decide)
  exact After.set .start hother longName_points _ _ _ (by omega) (by omega) hok

theorem set_room {f : Flash} {tokBuf : Option (Mem Byte)} (hn : n < 2147483648)
    (hok : (kerSysScratchPadSet g info f heap tokenId tokBuf n).1 = some 0) :
    n < 8140 ∧ n + 20 ≤ unused (padOf g info f.mem) := by
  obtain ⟨hlen, q, hset, -⟩ := set_returned hfit hlength hok
  have hrange := (exceedsPad_iff (by omega) (by omega)).mp hlen
  refine ⟨by omega, ?_⟩
  by_cases hmagic : readBytes (padOf g info f.mem) 0 8 = magicNumber
  · obtain ⟨b, hchain, hstop⟩ := chain_tokensFrom (p := pBuf g info f.mem heap) (a := 32) 8192 (by decide)
    rw [setBuf_chain (by rwa [magic_pBuf hfit hlength]) hchain hstop, Option.some.injEq] at hset
    split_ifs at hset with hover
    obtain ⟨hchain', hstop', -⟩ := hchain.window hstop (by omega)
      fun i h1 h2 => (pBuf_window hfit hlength f.mem heap h1 h2).symm
    rw [unused_chain hmagic hchain' hstop']
    omega
  · rw [unused, if_pos hmagic]
    omega

theorem setBuf_accepted (hroom : n + 20 ≤ unused (padOf g info m)) (hn : n < 8140) (heap : Mem Byte) (id : List Byte)
    (buf : Mem Byte) : ∃ q, setBuf 8192 (pBuf g info m heap) id (some buf) n = some (some q) := by
  by_cases hmagic : readBytes (pBuf g info m heap) 0 8 = magicNumber
  · obtain ⟨cs, b, hb, hchain, hstop⟩ := chain_pBuf hfit hlength (by rwa [← magic_pBuf hfit hlength m heap]) (by omega) heap
    rw [setBuf_chain hmagic hchain hstop, if_neg (by omega)]
    exact ⟨_, rfl⟩
  · exact ⟨_, setBuf_new hmagic _ _ _⟩

omit hfit in
theorem get_refused {heap' : Mem Byte} {len : Int} (hlen : exceedsPad 8192 len) :
    kerSysScratchPadGet g info m heap' tokenId len = some (-1, []) := by
  rw [kerSysScratchPadGet, hlength, if_neg (by decide), if_pos hlen]

omit hfit in
theorem get_found {heap' : Mem Byte} {len v : Int} {l : List Byte}
    (h : kerSysScratchPadGet g info m heap' tokenId len = some (v, l)) :
    v = -1 ∨ readBytes (pBuf g info m heap') 0 8 = magicNumber ∧
      getLoop 8192 (pBuf g info m heap') (readBytes tokenId 0 16) len 8192 32 32 = some (v, l) := by
  rw [kerSysScratchPadGet] at h
  dsimp only at h
  rw [hlength, if_neg (by decide)] at h
  split_ifs at h with hlen hmagic
  · exact .inl (Prod.mk.inj (Option.some.inj h)).1.symm
  · exact .inl (Prod.mk.inj (Option.some.inj h)).1.symm
  · exact .inr ⟨not_not.mp hmagic, h⟩

omit hfit in
theorem get_answer {heap' : Mem Byte} {len v : Int} {l : List Byte}
    (h : kerSysScratchPadGet g info m heap' tokenId len = some (v, l)) :
    v = -1 ∨ 0 < v ∧ v ≤ len ∧ (l.length : Int) = v :=
  (get_found hlength h).elim .inl fun h => getLoop_answer h.2

omit hfit in
theorem get_bounds {heap' : Mem Byte} {len : Int} {l : List Byte} (hl : 0 ≤ len) (hlu : len < 2147483648)
    (h : kerSysScratchPadGet g info m heap' tokenId len = some ((n : Int), l)) : 1 ≤ n ∧ len < 8140 := by
  constructor
  · have := get_answer hlength h
    omega
  · by_cases hlen : exceedsPad 8192 len
    · rw [get_refused hlength hlen, Option.some.injEq, Prod.mk.injEq] at h
      omega
    · exact ((exceedsPad_iff (by omega) hlu).mp hlen).2

variable (g info) in
omit hfit hlength in
/-- Data of length `n` stored under a name is what a search into a buffer of length `len` gives,
now and after any calls on other names. -/
def Kept (m heap tokenId : Mem Byte) (chars : List Byte) (n : Nat) (len : Int) : Prop :=
  ∀ (f : Flash) (buf : Mem Byte), f.mem = m → (kerSysScratchPadSet g info f heap tokenId (some buf) n).1 = some 0 →
    ∀ m', After g info chars (kerSysScratchPadSet g info f heap tokenId (some buf) n).2.mem m' →
      ∀ heap', kerSysScratchPadGet g info m' heap' tokenId len = some ((n : Int), readBytes buf 0 n)

theorem Kept.get {len : Int} (h : Kept g info m heap tokenId chars n len) (hn : n < 8140) {buf q m' : Mem Byte}
    (hset : setBuf 8192 (pBuf g info m heap) (readBytes tokenId 0 16) (some buf) n = some (some q))
    (hafter : After g info chars (written g info m q) m') (heap' : Mem Byte) :
    kerSysScratchPadGet g info m' heap' tokenId len = some ((n : Int), readBytes buf 0 n) := by
  obtain ⟨hok, -, hmem⟩ := stored_ok hfit hlength (f := fresh m) rfl hn hset
  exact h (fresh m) buf rfl hok m' (hmem ▸ hafter) heap'

omit hfit hlength in
theorem answer_differs (hpos : 1 ≤ n) {r : Option (Int × List Byte)}
    (hall : ∀ buf : Mem Byte, r = some ((n : Int), readBytes buf 0 n)) : False := by
  have h1 := (hall fun _ => 0).symm.trans (hall fun _ => 1)
  rw [Option.some.injEq, Prod.mk.injEq] at h1
  obtain ⟨k, rfl⟩ := Nat.exists_eq_add_of_le' hpos
  have hfirst := congrArg (fun l : List Byte => l.headD 0) h1.2
  rw [headD_readBytes, headD_readBytes] at hfirst
  cases hfirst

theorem Kept.differ {len : Int} (h : Kept g info m heap tokenId chars n len) (hpos : 1 ≤ n) (hn : n < 8140)
    (heap' : Mem Byte) (r : Option (Int × List Byte))
    (hget : ∀ buf, ∃ q m', setBuf 8192 (pBuf g info m heap) (readBytes tokenId 0 16) (some buf) n = some (some q) ∧
      After g info chars (written g info m q) m' ∧ kerSysScratchPadGet g info m' heap' tokenId len = r) : False := by
  refine answer_differs hpos (r := r) fun buf => ?_
  obtain ⟨q, m', hset, hafter, hq⟩ := hget buf
  rw [← hq]
  exact h.get hfit hlength hn hset hafter heap'

theorem replaceable_of_get (hn : n < 8140) (hroom : n + 20 ≤ unused (padOf g info m)) {len : Int} (hl : 0 ≤ len)
    (hlu : len < 2147483648) (hget : ∀ buf q : Mem Byte,
      setBuf 8192 (pBuf g info m heap) (readBytes tokenId 0 16) (some buf) n = some (some q) →
        kerSysScratchPadGet g info (written g info m q) heap tokenId len = some ((n : Int), readBytes buf 0 n)) :
    1 ≤ n ∧ len < 8140 ∧ Replaceable (padOf g info m) (readBytes tokenId 0 16) n := by
  obtain ⟨q, hset⟩ := setBuf_accepted hfit hlength hroom hn heap (readBytes tokenId 0 16) fun _ => 0
  obtain ⟨hpos, hu⟩ := get_bounds hlength hl hlu (hget _ q hset)
  refine ⟨hpos, hu, ?_⟩
  by_cases hmagic : readBytes (padOf g info m) 0 8 = magicNumber
  swap
  · rw [Replaceable, namesakes, if_neg hmagic]
    exact .inl (Nat.zero_le 1)
  obtain ⟨cs, b, hb, hchain, hstop⟩ := chain_pBuf hfit hlength hmagic (by omega) heap
  obtain ⟨hchain', hstop', -⟩ := hchain.window hstop (by omega)
    fun i h1 h2 => (pBuf_window hfit hlength m heap h1 h2).symm
  by_contra hdouble
  have hdouble' : ¬ Replaceable (pBuf g info m heap) (readBytes tokenId 0 16) n := fun h =>
    hdouble (h.congr (fun i h1 h2 => (pBuf_window hfit hlength m heap h1 h2).symm) hchain' hstop' (by omega))
  have hunused := unused_chain ((magic_pBuf hfit hlength m heap).trans hmagic) hchain hstop
  obtain ⟨data, hdata⟩ := namesake_found hdouble' (by omega)
  refine answer_differs hpos (r := if len < data.length then some (-1, []) else some ((data.length : Int), data)) fun buf => ?_
  obtain ⟨q, hset, hholds⟩ := hdata buf
  have hpad : Holds (pBuf g info (written g info m q) heap) (readBytes tokenId 0 16) data :=
    hholds.congr fun i h1 h2 => (pBuf_window hfit hlength _ heap h1 h2).trans (padOf_written hfit hlength m q h1 h2)
  obtain ⟨ds, c, hfinds⟩ := hpad.found
  rw [← hget buf q hset, get_accepted hlength hl hu hpad.magic, hfinds.get len]

section Needed

variable {len : Int} (hkept : Kept g info m heap tokenId chars n len) (hid : Points tokenId chars) (hpos : 1 ≤ n)
  (hn : n < 8140) (hroom : n + 20 ≤ unused (padOf g info m)) (hl : 0 ≤ len) (hu : len < 8140)

include hkept hid hpos hn hroom hl hu

theorem Kept.short : chars.length ≤ 15 := by
  by_contra hge
  obtain ⟨cs, u, hend, hchain, hset⟩ := store_place hfit hlength hid (fun h => hge h.1) hroom hn heap
  exact hkept.differ hfit hlength hpos hn heap _ fun buf => ⟨_, _, hset buf, .start,
    long_lost hfit hlength hid (by omega) hpos hn heap hchain hend hl hu buf fun _ => 0⟩

omit hl hu in
theorem Kept.first (hne : chars ≠ []) : 65 ≤ chars.headD 0 ∧ chars.headD 0 ≤ 122 := by
  by_contra hfirst
  obtain ⟨cs, u, hend, hchain, hset⟩ := store_place hfit hlength hid (fun h => hfirst (h.2 hne)) hroom hn heap
  exact hkept.differ hfit hlength hpos hn heap _ fun buf => ⟨_, _, hset buf,
    unlisted_lost hfit hlength hid hne hfirst hn heap hchain hend buf,
    congrArg (kerSysScratchPadGet g info · heap tokenId len) (stored_stored hfit heap u _ _ _ buf fun _ => 0)⟩

end Needed

theorem store_kept_named (hid : Points tokenId chars) (hne : chars ≠ []) (hle : chars.length ≤ 15)
    (hfirst : 65 ≤ chars.headD 0 ∧ chars.headD 0 ≤ 122) (hpos : 1 ≤ n) (hn : n < 2147483648) {f : Flash} {buf m' : Mem Byte}
    (hone : Replaceable (padOf g info f.mem) (readBytes tokenId 0 16) n)
    (hok : (kerSysScratchPadSet g info f heap tokenId (some buf) n).1 = some 0)
    (hafter : After g info chars (kerSysScratchPadSet g info f heap tokenId (some buf) n).2.mem m') (heap' : Mem Byte)
    {len : Int} (hlen : n ≤ len) (hu : len < 8140) :
    kerSysScratchPadGet g info m' heap' tokenId len = some ((n : Int), readBytes buf 0 n) := by
  have hsmall := (set_room hfit hlength hn hok).1
  let t : Token := ⟨⟨chars, List.length_pos_iff.mpr hne, hle, hid.nul_free, hfirst⟩, readBytes buf 0 n,
    by simpa using hpos, by simpa using hsmall⟩
  have hlength' : t.data.length = n := length_readBytes _ _ _
  rw [← hlength'] at hok hafter hone
  have hdata := store_kept hfit hlength (t := t) hid.bytes (by rw [hlength']) hone hok hafter heap' (by omega) hu
  rwa [hlength'] at hdata

/-- Data that was stored stays there if the call was refused, or else if the name fits, is one that the
pad lists and has no second token, and the length is neither zero nor more than a search may ask for. -/
theorem store_kept_iff (hid : Points tokenId chars) (hne : chars ≠ []) (hn : n < 2147483648) {len : Int} (hlen : n ≤ len)
    (hlu : len < 2147483648) :
    Kept g info m heap tokenId chars n len ↔ 8140 ≤ n ∨ unused (padOf g info m) < n + 20 ∨
      (1 ≤ n ∧ len < 8140 ∧ chars.length ≤ 15 ∧ (65 ≤ chars.headD 0 ∧ chars.headD 0 ≤ 122) ∧
        Replaceable (padOf g info m) (readBytes tokenId 0 16) n) := by
  constructor
  · intro hkept
    by_cases hbig : 8140 ≤ n
    · exact .inl hbig
    by_cases hroom : unused (padOf g info m) < n + 20
    · exact .inr (.inl hroom)
    right
    right
    obtain ⟨hpos, hu, hone⟩ := replaceable_of_get hfit hlength (by omega) (by omega) (by omega) hlu
      fun _ _ hset => hkept.get hfit hlength (by omega) hset .start heap
    exact ⟨hpos, hu, hkept.short hfit hlength hid hpos (by omega) (by omega) (by omega) hu,
      hkept.first hfit hlength hid hpos (by omega) (by omega) hne, hone⟩
  · rintro hcond f buf rfl hok m' hafter heap'
    obtain ⟨hsmall, hroom⟩ := set_room hfit hlength hn hok
    rcases hcond with hbig | hfull | ⟨hpos, hu, hle, hfirst, hone⟩
    · omega
    · omega
    · exact store_kept_named hfit hlength hid hne hle hfirst hpos hn hone hok hafter heap' hlen hu

end Device

def digitName : Mem Byte := patch (fun _ => 0) 0 [57]

def letterName : Mem Byte := patch (fun _ => 0) 0 [65]

def digitPad : Mem Byte := putAtEnd (fun _ => 0xff) 32 (readBytes digitName 0 16) (some fun _ => 7) 1

def letterPad : Mem Byte := putAtEnd digitPad 32 (readBytes letterName 0 16) (some fun _ => 8) 1

theorem putAtEnd_bounds {p : Mem Byte} {id : List Byte} {buf : Mem Byte} {i : Int} (hi : i < 0 ∨ 8192 ≤ i) :
    putAtEnd p 32 id (some buf) (1 : Nat) i = p i :=
  putAtEnd_outside (by omega) (by omega) (by decide)

theorem pBuf_erased : pBuf demoFlash demoInfo (fun _ => 0xff) (fun _ => 0xff) = fun _ => 0xff := by
  funext i
  rw [pBuf, view, getSharedBlks_eq _ _ demoInfo_fits.start_nonneg demoInfo_fits.mono demoInfo_fits.inside]
  split_ifs <;> rfl

theorem pBuf_demo {q : Mem Byte} (m : Mem Byte) (hq : ∀ i, i < 0 ∨ 8192 ≤ i → q i = 0xff) :
    pBuf demoFlash demoInfo (written demoFlash demoInfo m q) (fun _ => 0xff) = q := by
  funext i
  have hwindow := demoInfo_fits.window
  have hoffset := demoInfo_fits.offset_nonneg
  rw [show demoInfo.scratchPad.length = 8192 by decide] at hwindow
  rw [pBuf_written demoInfo_fits]
  split_ifs with hi
  · rfl
  · exact (hq i (by omega)).symm

theorem demo_store {f : Flash} (hf : f.faults = []) {id buf p q : Mem Byte}
    (hp : pBuf demoFlash demoInfo f.mem (fun _ => 0xff) = p)
    (hset : setBuf 8192 p (readBytes id 0 16) (some buf) (1 : Nat) = some (some q))
    (hq : ∀ i, i < 0 ∨ 8192 ≤ i → q i = 0xff) :
    (kerSysScratchPadSet demoFlash demoInfo f (fun _ => 0xff) id (some buf) (1 : Nat)).1 = some 0 ∧
    (kerSysScratchPadSet demoFlash demoInfo f (fun _ => 0xff) id (some buf) (1 : Nat)).2.faults = [] ∧
    pBuf demoFlash demoInfo
      (kerSysScratchPadSet demoFlash demoInfo f (fun _ => 0xff) id (some buf) (1 : Nat)).2.mem (fun _ => 0xff) = q := by
  subst hp
  obtain ⟨hok, hfaults, hmem⟩ := stored_ok demoInfo_fits (by decide) hf (by decide) hset
  refine ⟨hok, hfaults, ?_⟩
  rw [hmem]
  exact pBuf_demo _ hq

theorem demo_get {m p : Mem Byte} (hp : pBuf demoFlash demoInfo m (fun _ => 0xff) = p)
    (hmagic : readBytes p 0 8 = magicNumber) (tokenId : Mem Byte) :
    kerSysScratchPadGet demoFlash demoInfo m (fun _ => 0xff) tokenId 1 =
      getLoop 8192 p (readBytes tokenId 0 16) 1 8192 32 32 := by
  subst hp
  exact get_accepted (by decide) (by decide) (by decide) hmagic

/-- A byte is stored under the name "9", then another one under the name "A": the first one is gone. -/
theorem digit_token_lost :
    let first := kerSysScratchPadSet demoFlash demoInfo (fresh fun _ => 0xff) (fun _ => 0xff) digitName
      (some fun _ => 7) (1 : Nat)
    let second := kerSysScratchPadSet demoFlash demoInfo first.2 (fun _ => 0xff) letterName (some fun _ => 8) (1 : Nat)
    first.1 = some 0 ∧ second.1 = some 0 ∧
    kerSysScratchPadGet demoFlash demoInfo first.2.mem (fun _ => 0xff) digitName 1 = some (1, [7]) ∧
    kerSysScratchPadGet demoFlash demoInfo second.2.mem (fun _ => 0xff) digitName 1 = some (-1, []) := by
  have hdigit (i : Int) (hi : i < 0 ∨ 8192 ≤ i) : digitPad i = 0xff := putAtEnd_bounds hi
  have hset : setBuf 8192 digitPad (readBytes letterName 0 16) (some fun _ => 8) (1 : Nat) = some (some letterPad) := by
    rw [setBuf_chain (by decide) (show Chain digitPad 32 [] 32 from rfl) (by decide), if_neg (by decide)]
    rfl
  obtain ⟨hok, hfaults, hpad⟩ := demo_store (f := fresh fun _ => 0xff) rfl pBuf_erased
    (setBuf_new (by decide) (readBytes digitName 0 16) (fun _ => 7) _) hdigit
  obtain ⟨hok', -, hpad'⟩ := demo_store hfaults hpad hset fun i hi => (putAtEnd_bounds hi).trans (hdigit i hi)
  refine ⟨hok, hok', ?_, ?_⟩
  · rw [demo_get hpad (by decide)]
    decide
  · rw [demo_get hpad' (by decide)]
    decide

def deviceWith (q : Mem Byte) : Mem Byte := view q (-demoInfo.scratchPad.first demoFlash)

def twoTokens (c : Byte) : Mem Byte :=
  patch (patch (patch (fun _ => c) 0 spHead) 32 firstToken.bytes) (32 + firstToken.span) otherToken.bytes

theorem twoTokens_outside (c : Byte) {i : Int} (hi : i < 0 ∨ 84 ≤ i) : twoTokens c i = c := by
  have hfirst : firstToken.bytes.length = 25 := rfl
  have hother : otherToken.bytes.length = 21 := rfl
  have hspan : firstToken.span = 28 := rfl
  have hhead : spHead.length = 32 := rfl
  rw [twoTokens, patch_outside _ _ _ _ (by omega), patch_outside _ _ _ _ (by omega), patch_outside _ _ _ _ (by omega)]

theorem twoTokens_packed {c : Byte} (hc : c = 0 ∨ c = 0xff) : Packed (twoTokens c) [firstToken, otherToken] c where
  magic := by rcases hc with rfl | rfl <;> decide
  stored := by rcases hc with rfl | rfl <;> exact ⟨by decide, by decide, trivial⟩
  nodup := by decide
  fits := by decide
  rest i hi _ := twoTokens_outside c (.inr hi)
  fill := hc

theorem letterName_points : Points letterName [65] := ⟨by decide, by decide⟩

theorem twoTokens_replaceable (n : Nat) :
    Replaceable (padOf demoFlash demoInfo (deviceWith (twoTokens 0xff))) (readBytes letterName 0 16) n := by
  rw [deviceWith, padOf_view]
  exact .inl (by decide)

theorem letter_token_kept : Kept demoFlash demoInfo (deviceWith (twoTokens 0xff)) (fun _ => 0xff) letterName [65] 3 16 :=
  (store_kept_iff demoInfo_fits (by decide) letterName_points (by decide) (by decide) (by decide) (by decide)).mpr
    (.inr (.inr ⟨by decide, by decide, by decide, by decide, twoTokens_replaceable 3⟩))

end AliceModem.ScratchPadLoss
