import AliceModem.Flash.Buffers

namespace AliceModem.Buffers

open Words Hwdefs Sectors ByteMemory Device SharedBlks Regions ImageTag Layout ScratchPad ConfigCopies ImageSet
  ImageFaults Ownership

variable {g : Geometry} {info : FlashAddrInfo}

def Released {α : Type} (r : Option α) (h : Heap) : Prop := ∀ x, r = some x → h.Settled

theorem released_of_owes {α : Type} {r : Option α} {h : Heap} (ho : h.Owes []) : Released r h := fun _ _ => ho.settled

theorem released_some {α : Type} {x : α} {h : Heap} : Released (some x) h ↔ h.Settled := ⟨fun hr => hr x rfl, fun hs _ _ => hs⟩

theorem released_none {α : Type} {h : Heap} : Released (none : Option α) h := fun _ hx => absurd hx (Option.some_ne_none _).symm

section

variable {h : Heap} (ho : h.Owes [])

include ho

theorem getSharedBlks_cases (m around : Mem Byte) (startBlk endBlk : Int) :
    (h.fails.headD false = true ∧ ∃ h', getSharedBlks g h m around startBlk endBlk = (none, h') ∧ h'.Owes []) ∨
    (h.fails.headD false = false ∧ ∃ b h',
      getSharedBlks g h m around startBlk endBlk = (some (b, SharedBlks.getSharedBlks g m around startBlk endBlk), h') ∧
      h'.Owes [b]) := by
  rcases hf : h.fails.headD false with _ | _
  · refine .inr ⟨rfl, h.next, _, ?_, ho.acquired⟩
    rw [getSharedBlks, retriedKmalloc, Ledger.acquire_ok hf]
  · refine .inl ⟨rfl, _, ?_, ho.refused⟩
    rw [getSharedBlks, retriedKmalloc, Ledger.acquire_fails hf]

theorem sharedGet_released (m around : Mem Byte) (r : Region) (limit strLen offset : Int) :
    Released (sharedGet g h m around r limit strLen offset).1 (sharedGet g h m around r limit strLen offset).2 := by
  rw [sharedGet]
  by_cases hlimit : limit < strLen
  · rw [if_pos hlimit]
    exact released_of_owes ho
  rw [if_neg hlimit]
  rcases getSharedBlks_cases (g := g) ho m around r.startBlk r.endBlk with ⟨-, h', he, ho'⟩ | ⟨-, b, h', he, ho'⟩ <;>
    rw [he] <;> dsimp only
  · exact released_of_owes ho'
  · split_ifs
    · exact released_none
    · exact released_of_owes (ho'.disposed ())

theorem sharedSet_released (f : Flash) (r : Region) (limit : Int) (string : Mem Byte) (strLen offset : Int) :
    Released (sharedSet g h f r limit string strLen offset).1 (sharedSet g h f r limit string strLen offset).2.2 := by
  rw [sharedSet]
  by_cases hlimit : limit < strLen
  · rw [if_pos hlimit]
    exact released_of_owes ho
  rw [if_neg hlimit]
  rcases getSharedBlks_cases (g := g) ho f.mem (fun _ => 0) r.startBlk r.endBlk with
    ⟨-, h', he, ho'⟩ | ⟨-, b, h', he, ho'⟩ <;> rw [he] <;> dsimp only
  · exact released_of_owes ho'
  · by_cases hneg : strLen < 0
    · rw [if_pos hneg]
      exact released_none
    · rw [if_neg hneg]
      exact released_of_owes (ho'.disposed ())

theorem scratchPadGet_released (m around tokenId : Mem Byte) (bufLen : Int) :
    Released (kerSysScratchPadGet g info h m around tokenId bufLen).1
      (kerSysScratchPadGet g info h m around tokenId bufLen).2 := by
  rw [kerSysScratchPadGet]
  dsimp only
  by_cases hnone : info.scratchPad.length = 0
  · rw [if_pos hnone]
    exact released_of_owes ho
  by_cases hlong : exceedsPad info.scratchPad.length bufLen
  · rw [if_neg hnone, if_pos hlong]
    exact released_of_owes ho
  rw [if_neg hnone, if_neg hlong]
  rcases getSharedBlks_cases (g := g) ho m around info.scratchPad.startBlk info.scratchPad.endBlk with
    ⟨-, h', he, ho'⟩ | ⟨-, b, h', he, ho'⟩ <;> rw [he] <;> dsimp only
  · exact released_of_owes ho'
  · split_ifs
    · exact released_of_owes (ho'.disposed ())
    · split
      · exact released_none
      · exact released_of_owes (ho'.disposed ())

theorem scratchPadClearAll_released (f : Flash) :
    Released (kerSysScratchPadClearAll g info h f).1 (kerSysScratchPadClearAll g info h f).2.2 := by
  rw [kerSysScratchPadClearAll]
  dsimp only
  by_cases hnone : info.scratchPad.length = 0
  · rw [if_pos hnone]
    exact released_of_owes ho
  rw [if_neg hnone]
  rcases getSharedBlks_cases (g := g) ho f.mem (fun _ => 0) info.scratchPad.startBlk info.scratchPad.endBlk with
    ⟨-, h', he, ho'⟩ | ⟨-, b, h', he, ho'⟩ <;> rw [he] <;> dsimp only
  · exact released_of_owes ho'
  · exact released_of_owes (ho'.disposed ())

end

theorem setBuf_full_iff (length : Int) (p : Mem Byte) (tokenId : List Byte) (tokBuf : Option (Mem Byte)) (bufLen : Int) :
    setBuf length p tokenId tokBuf bufLen = some none ↔ readBytes p 0 8 = magicNumber ∧
      ∃ usedLen, usedLoop length p length.toNat spHeaderSize = some usedLen ∧
        length < usedLen + bufLen + spTokenSize := by
  rw [setBuf]
  by_cases hmagic : readBytes p 0 8 = magicNumber
  swap
  · rw [if_pos hmagic]
    exact iff_of_false (fun h => Option.some_ne_none _ (Option.some.inj h)) fun h => hmagic h.1
  rw [if_neg (not_not.mpr hmagic), and_iff_right hmagic, Option.bind_eq_some_iff]
  refine exists_congr fun usedLen => and_congr_right fun _ => ?_
  by_cases hroom : length < usedLen + bufLen + spTokenSize
  · rw [if_pos hroom]
    exact iff_of_true rfl hroom
  · rw [if_neg hroom, Option.map_eq_some_iff]
    refine iff_of_false ?_ hroom
    rintro ⟨_ | curLen, -, hfound⟩
    · exact Option.some_ne_none _ hfound
    · rcases tokBuf with _ | buf
      · exact Option.some_ne_none _ hfound
      · dsimp only at hfound
        split_ifs at hfound

variable (g info) in
def PadFull (f : Flash) (around : Mem Byte) (bufLen : Int) : Prop :=
  let sp := info.scratchPad
  let pBuf := view (SharedBlks.getSharedBlks g f.mem around sp.startBlk sp.endBlk) sp.blkOffset
  sp.length ≠ 0 ∧ ¬ exceedsPad sp.length bufLen ∧ readBytes pBuf 0 8 = magicNumber ∧
    ∃ usedLen, usedLoop sp.length pBuf sp.length.toNat spHeaderSize = some usedLen ∧
      sp.length < usedLen + bufLen + spTokenSize

theorem scratchPadSet_released_iff {h : Heap} (ho : h.Owes []) (f : Flash) (around tokenId : Mem Byte)
    (tokBuf : Option (Mem Byte)) (bufLen : Int) :
    Released (kerSysScratchPadSet g info h f around tokenId tokBuf bufLen).1
      (kerSysScratchPadSet g info h f around tokenId tokBuf bufLen).2.2 ↔
        ¬ (h.fails.headD false = false ∧ PadFull g info f around bufLen) := by
  rw [kerSysScratchPadSet, PadFull]
  dsimp only
  by_cases hnone : info.scratchPad.length = 0
  · rw [if_pos hnone]
    exact iff_of_true (released_of_owes ho) fun hfull => hfull.2.1 hnone
  by_cases hlong : exceedsPad info.scratchPad.length bufLen
  · rw [if_neg hnone, if_pos hlong]
    exact iff_of_true (released_of_owes ho) fun hfull => hfull.2.2.1 hlong
  rw [if_neg hnone, if_neg hlong]
  rcases getSharedBlks_cases (g := g) ho f.mem around info.scratchPad.startBlk info.scratchPad.endBlk with
    ⟨hf, h', he, ho'⟩ | ⟨hf, b, h', he, ho'⟩ <;> rw [he, hf] <;> dsimp only
  · exact iff_of_true (released_of_owes ho') fun hfull => absurd hfull.1 (by decide)
  have hfull := setBuf_full_iff info.scratchPad.length (view (SharedBlks.getSharedBlks g f.mem around
    info.scratchPad.startBlk info.scratchPad.endBlk) info.scratchPad.blkOffset) (readBytes tokenId 0 16) tokBuf bufLen
  rcases hset : setBuf info.scratchPad.length (view (SharedBlks.getSharedBlks g f.mem around info.scratchPad.startBlk
    info.scratchPad.endBlk) info.scratchPad.blkOffset) (readBytes tokenId 0 16) tokBuf bufLen with _ | _ | pBuf <;>
    rw [hset] at hfull
  · refine iff_of_true released_none fun hall => ?_
    exact Option.some_ne_none _ (hfull.mpr hall.2.2.2).symm
  · refine iff_of_false (fun hrel => ?_) (not_not.mpr ⟨rfl, hnone, hlong, hfull.mp rfl⟩)
    exact List.cons_ne_nil _ _ (ho'.settled_iff.mp (hrel _ rfl))
  · refine iff_of_true (released_of_owes (ho'.disposed ())) fun hall => ?_
    exact Option.some_ne_none _ (Option.some.inj (hfull.mpr hall.2.2.2))

section Image

variable {psi : Region} {whole : Prop} [Decidable whole] {copyFails : Bool}

variable (g psi whole) in
/-- The loop gets to the sector of the PSI, and what is then left of the image leaves the PSI alone. -/
def Reaches (p : List Bool) (blk size : Int) : Prop :=
  ¬ whole ∧ blk ≤ psi.startBlk ∧ (blk = psi.startBlk ∨ blkStart g psi.startBlk < blkStart g blk + size) ∧
    (∀ k : Nat, blk + k < psi.startBlk → ¬ Fails p k) ∧
    blkStart g blk + size ≤ blkStart g psi.startBlk + flashGetSectorSize g psi.startBlk - psi.length

variable (copyFails) in
theorem loop_cases (fuel : Nat) (h : Heap) (f : Flash) {blk : Int} (hskip : whole ∨ blk ≠ psi.startBlk)
    (string : Mem Byte) (size : Int) :
    ((size ≤ flashGetSectorSize g blk ∨ Fails (pattern f) 0) ∧ ∃ x f',
      imageLoop g psi whole copyFails (fuel + 1) h f blk string size = (some (x, none), f', h)) ∨
    (flashGetSectorSize g blk < size ∧ ¬ Fails (pattern f) 0 ∧ ∃ f', pattern f' = (pattern f).tail ∧
      imageLoop g psi whole copyFails (fuel + 1) h f blk string size =
        imageLoop g psi whole copyFails fuel h f' (blk + 1) (view string (flashGetSectorSize g blk))
          (size - flashGetSectorSize g blk)) := by
  have hnot : ¬ (¬ whole ∧ blk = psi.startBlk) := by tauto
  have hsect := flashGetSectorSize_nonneg (g := g) blk
  rw [imageLoop, if_neg hnot]
  dsimp only
  by_cases hmore : flashGetSectorSize g blk < size
  · have hchunk := chunkLen_nonneg hsect (show 0 < size by omega)
    rcases erase_write_cases (g := g) f blk string hchunk with ⟨h0, left, -, hret, -⟩ | ⟨h0, hret, hf', -⟩
    · rw [hret, if_pos (by omega)]
      exact .inl ⟨.inr h0, _, _, rfl⟩
    · rw [hret, if_neg (not_not.mpr rfl), if_pos ((rest_pos_iff _ _).mpr hmore), (rest_of_lt hmore).1]
      rw [(rest_of_lt hmore).2] at hf' ⊢
      exact .inr ⟨hmore, h0, _, pattern_tail hf', rfl⟩
  · refine .inl ⟨.inl (not_lt.mp hmore), ?_⟩
    rw [if_neg (show ¬ 0 < evenSize _ size - chunkLen _ size by rwa [rest_pos_iff])]
    split_ifs
    · exact ⟨_, _, rfl⟩
    · exact ⟨_, _, rfl⟩

omit [Decidable whole] in
theorem reaches_next {p : List Bool} {blk size : Int} (hskip : whole ∨ blk ≠ psi.startBlk) (h0 : ¬ Fails p 0)
    (hnext : blkStart g (blk + 1) = blkStart g blk + flashGetSectorSize g blk)
    (hmore : flashGetSectorSize g blk < size) :
    Reaches g psi whole p.tail (blk + 1) (size - flashGetSectorSize g blk) ↔ Reaches g psi whole p blk size := by
  have hsum : blkStart g (blk + 1) + (size - flashGetSectorSize g blk) = blkStart g blk + size := by omega
  have hfails : (∀ k : Nat, blk + 1 + k < psi.startBlk → ¬ Fails p.tail k) ↔
      ∀ k : Nat, blk + k < psi.startBlk → ¬ Fails p k := by
    constructor
    · intro h k hk
      cases k with
      | zero => exact h0
      | succ k =>
          rw [← fails_tail]
          exact h k (by push_cast at hk; omega)
    · intro h k hk
      rw [fails_tail]
      exact h (k + 1) (by push_cast; omega)
  rw [Reaches, Reaches, hsum, hfails]
  refine and_congr_right fun hnot => ?_
  have hne := hskip.resolve_left hnot
  constructor
  · rintro ⟨h1, h2, h3⟩
    refine ⟨by omega, .inr ?_, h3⟩
    rcases h2 with h2 | h2
    · rw [← h2]
      omega
    · exact h2
  · rintro ⟨h1, h2, h3⟩
    exact ⟨by omega, .inr (h2.resolve_left hne), h3⟩

variable (g psi whole copyFails) in
theorem loop_ends (fuel : Nat) (h : Heap) (f : Flash) {blk : Int} (hl : 0 ≤ blk) (hfuel : psi.startBlk < blk + fuel)
    (hu : blk + fuel ≤ 65536) (string : Mem Byte) (size : Int) :
    (Reaches g psi whole (pattern f) blk size ∧ ∃ f' string',
      imageLoop g psi whole copyFails fuel h f blk string size =
        psiRound g psi copyFails h f' psi.startBlk string' (blkStart g blk + size - blkStart g psi.startBlk)) ∨
    (¬ Reaches g psi whole (pattern f) blk size ∧ ∃ r f',
      imageLoop g psi whole copyFails fuel h f blk string size = (r, f', h) ∧ ∀ x, r = some x → x.2 = none) := by
  induction fuel generalizing f blk string size with
  | zero =>
      refine .inr ⟨fun hr => ?_, none, f, rfl, fun x hx => absurd hx (Option.some_ne_none x).symm⟩
      have := hr.2.1
      omega
  | succ fuel ih =>
      push_cast at hfuel hu
      by_cases hhere : ¬ whole ∧ blk = psi.startBlk
      · rw [imageLoop, if_pos hhere]
        obtain ⟨hw, rfl⟩ := hhere
        by_cases hbig : flashGetSectorSize g psi.startBlk - psi.length < size
        · refine .inr ⟨fun hr => ?_, _, f, by rw [psiRound]; exact if_pos hbig, fun x hx => by rw [← Option.some.inj hx]⟩
          have := hr.2.2.2.2
          omega
        · rw [add_sub_cancel_left]
          exact .inl ⟨⟨hw, le_rfl, .inl rfl, fun k hk => by omega, by omega⟩, f, string, rfl⟩
      · have hskip : whole ∨ blk ≠ psi.startBlk := by tauto
        have hnext := blkStart_next (g := g) hl (by omega)
        rcases loop_cases (g := g) copyFails fuel h f hskip string size with
          ⟨hend, x, f', he⟩ | ⟨hmore, h0, f', hf', he⟩ <;> rw [he]
        · refine .inr ⟨?_, _, f', rfl, fun x hx => by rw [← Option.some.inj hx]⟩
          rintro ⟨hw, hle, hlong, hok, -⟩
          have hne := hskip.resolve_left hw
          have hbefore := blkStart_mono (g := g) (show blk + 1 ≤ psi.startBlk by omega)
          have hpast := hlong.resolve_left hne
          rcases hend with hend | hfail
          · omega
          · exact hok 0 (by omega) hfail
        · have hsum : blkStart g (blk + 1) + (size - flashGetSectorSize g blk) = blkStart g blk + size := by omega
          rw [← reaches_next hskip h0 hnext hmore, ← hf', ← hsum]
          exact ih f' (by omega) (by omega) (by omega) _ _

end Image

theorem kfree_kmalloc {h : Heap} (ho : h.Owes []) (hf : h.fails.headD false = false) :
    (retriedKfree h.acquire.2 h.next).Owes [] ∧ h.next < h.acquire.2.next := by
  rw [Ledger.acquire_ok hf]
  exact ⟨ho.acquired.disposed (), Nat.lt_succ_self _⟩

variable (g info) in
def FreedTwice (copyFails : Bool) (p : List Bool) (flashStartAddr size : Int) : Prop :=
  let blk := flashGetBlk g flashStartAddr
  0 ≤ blk ∧ Reaches g info.persistent (wholeImage g info flashStartAddr size) p blk size ∧
    ¬ (copyFails ∨ blkStart g blk + size < blkStart g info.persistent.startBlk)

theorem imageSet_released_iff {h : Heap} (ho : h.Owes []) (hpsi : info.persistent.startBlk < g.sec.length)
    (copyFails : Bool) (f : Flash) (addr : Int) (string : Mem Byte) (size : Int) :
    Released (kerSysBcmImageSet g info copyFails h f addr string size).1
      (kerSysBcmImageSet g info copyFails h f addr string size).2.2 ↔
        ¬ (h.fails.headD false = false ∧ FreedTwice g info copyFails (pattern f) addr size) := by
  have hlt := flashGetBlk_lt (g := g) addr
  have hle := g.nsect_le
  rw [kerSysBcmImageSet, FreedTwice]
  dsimp only
  by_cases hblk : flashGetBlk g addr < 0
  · rw [if_pos hblk]
    exact iff_of_true (released_of_owes ho) fun hall => by omega
  rw [if_neg hblk]
  rcases loop_ends g info.persistent (wholeImage g info addr size) copyFails
    (maxSectors - (flashGetBlk g addr).toNat) h f (not_lt.mp hblk) (by simp only [maxSectors] at hle ⊢; omega)
    (by simp only [maxSectors] at hle ⊢; omega) string size with ⟨hreach, f', string', he⟩ | ⟨hreach, r, f', he, hb⟩ <;>
    rw [he]
  · rw [psiRound, and_iff_right (not_lt.mp hblk), and_iff_right hreach, retriedKmalloc,
      ← sub_neg (a := blkStart g (flashGetBlk g addr) + size)]
    dsimp only
    rw [if_neg (by have := hreach.2.2.2.2; omega)]
    rcases hf : h.fails.headD false with _ | _
    · rw [and_iff_right rfl, not_not]
      obtain ⟨ho', hnext⟩ := kfree_kmalloc ho hf
      rw [Ledger.acquire_ok hf] at ho' hnext ⊢
      dsimp only
      by_cases hcopy : copyFails = true ∨ blkStart g (flashGetBlk g addr) + size - blkStart g info.persistent.startBlk < 0
      · rw [if_pos hcopy]
        dsimp only
        rw [if_neg hreach.1]
        exact iff_of_true (released_of_owes ho') hcopy
      · rw [if_neg hcopy]
        dsimp only
        rw [if_neg hreach.1, released_some]
        exact iff_of_false (ho'.twice hnext List.not_mem_nil ()) hcopy
    · rw [Ledger.acquire_fails hf]
      exact iff_of_true released_none fun hall => Bool.false_ne_true hall.1.symm
  · refine iff_of_true ?_ fun hall => hreach hall.2.2.1
    rcases r with _ | ⟨⟨blk, left⟩, b⟩
    · exact released_none
    · obtain rfl : b = none := hb _ rfl
      dsimp only
      split_ifs <;> exact released_of_owes ho

inductive Call
  | nvRamGet (strLen offset : Int)
  | nvRamSet (string : Mem Byte) (strLen offset : Int)
  | persistentGet (strLen offset : Int)
  | persistentSet (string : Mem Byte) (strLen offset : Int)
  | darePersistentGet (strLen offset : Int)
  | darePersistentSet (string : Mem Byte) (strLen offset : Int)
  | scratchPadGet (tokenId : Mem Byte) (bufLen : Int)
  | scratchPadSet (tokenId : Mem Byte) (tokBuf : Option (Mem Byte)) (bufLen : Int)
  | scratchPadClearAll
  | bcmImageSet (flashStartAddr : Int) (string : Mem Byte) (size : Int)

def ofGet (r : Option (Int × List Byte) × Heap) : Option Int × Heap := (r.1.map Prod.fst, r.2)

def ofSet (r : Option Int × Flash × Heap) : Option Int × Heap := (r.1, r.2.2)

variable (g info) in
/-- What the call returns, if it does, and the buffers after it. `around` is the memory around a buffer,
and `f` tells which flash writes fail. -/
def Call.run (copyFails : Bool) (f : Flash) (around : Mem Byte) (h : Heap) : Call → Option Int × Heap
  | .nvRamGet strLen offset => ofGet (kerSysNvRamGet g info h f.mem around strLen offset)
  | .nvRamSet string strLen offset => ofSet (kerSysNvRamSet g info h f string strLen offset)
  | .persistentGet strLen offset => ofGet (kerSysPersistentGet g info h f.mem around strLen offset)
  | .persistentSet string strLen offset => ofSet (kerSysPersistentSet g info h f string strLen offset)
  | .darePersistentGet strLen offset => ofGet (kerSysDarePersistentGet g info h f.mem around strLen offset)
  | .darePersistentSet string strLen offset => ofSet (kerSysDarePersistentSet g info h f string strLen offset)
  | .scratchPadGet tokenId bufLen => ofGet (kerSysScratchPadGet g info h f.mem around tokenId bufLen)
  | .scratchPadSet tokenId tokBuf bufLen => ofSet (kerSysScratchPadSet g info h f around tokenId tokBuf bufLen)
  | .scratchPadClearAll => ofSet (kerSysScratchPadClearAll g info h f)
  | .bcmImageSet addr string size => ofSet (kerSysBcmImageSet g info copyFails h f addr string size)

variable (g info) in
def Call.result (f : Flash) (around : Mem Byte) : Call → Option Int
  | .nvRamGet strLen offset => (Regions.kerSysNvRamGet g info f.mem around strLen offset).map Prod.fst
  | .nvRamSet string strLen offset => (Regions.kerSysNvRamSet g info f string strLen offset).1
  | .persistentGet strLen offset => (Regions.kerSysPersistentGet g info f.mem around strLen offset).map Prod.fst
  | .persistentSet string strLen offset => (Regions.kerSysPersistentSet g info f string strLen offset).1
  | .darePersistentGet strLen offset => (Regions.kerSysDarePersistentGet g info f.mem around strLen offset).map Prod.fst
  | .darePersistentSet string strLen offset => (Regions.kerSysDarePersistentSet g info f string strLen offset).1
  | .scratchPadGet tokenId bufLen => (ScratchPad.kerSysScratchPadGet g info f.mem around tokenId bufLen).map Prod.fst
  | .scratchPadSet tokenId tokBuf bufLen => (ScratchPad.kerSysScratchPadSet g info f around tokenId tokBuf bufLen).1
  | .scratchPadClearAll => some (ScratchPad.kerSysScratchPadClearAll g info f).1
  | .bcmImageSet addr string size => (ImageSet.kerSysBcmImageSet g info f addr string size).1

theorem run_agrees {h : Heap} (hf : h.fails.headD false = false) (c : Call) (f : Flash) (around : Mem Byte) :
    (c.run g info false f around h).1 = c.result g info f around := by
  cases c with
  | nvRamGet strLen offset | persistentGet strLen offset | darePersistentGet strLen offset =>
      exact congrArg (Option.map Prod.fst) (sharedGet_agrees hf _ _ _ _ _ _)
  | nvRamSet string strLen offset | persistentSet string strLen offset | darePersistentSet string strLen offset =>
      exact congrArg Prod.fst (sharedSet_agrees hf _ _ _ _ _ _)
  | scratchPadGet tokenId bufLen => exact congrArg (Option.map Prod.fst) (scratchPadGet_agrees hf _ _ _ _)
  | scratchPadSet tokenId tokBuf bufLen => exact congrArg Prod.fst (scratchPadSet_agrees hf _ _ _ _ _)
  | scratchPadClearAll => exact congrArg Prod.fst (scratchPadClearAll_agrees hf f)
  | bcmImageSet addr string size => exact congrArg Prod.fst (imageSet_agrees hf f addr string size)

variable (g info) in
def Call.Mishandles (copyFails : Bool) (f : Flash) (around : Mem Byte) : Call → Prop
  | .scratchPadSet _ _ bufLen => PadFull g info f around bufLen
  | .bcmImageSet addr _ size => FreedTwice g info copyFails (pattern f) addr size
  | _ => False

variable (g info) in
/-- `fInfo` has been filled in by one of the two functions that do so. -/
def Initialised : Prop :=
  info = kerSysEarlyFlashInit g ∨ ∃ ulPsiSize pTag, info = kerSysFlashInit g ulPsiSize pTag

theorem Initialised.psi_lt (h : Initialised g info) : info.persistent.startBlk < g.sec.length := by
  rcases h with rfl | ⟨ulPsiSize, pTag, rfl⟩
  · exact Int.natCast_pos.mpr g.nsect_pos
  · exact persistent_lt pTag

theorem released_get {r : Option (Int × List Byte) × Heap} (h : Released r.1 r.2) : Released (ofGet r).1 (ofGet r).2 := by
  intro x hx
  obtain ⟨y, hy, -⟩ := Option.map_eq_some_iff.mp hx
  exact h y hy

/-- The buffers of a call that returns have been given back exactly once, unless there was memory for
one and the pad was full or the image was written into the sector of the PSI. -/
theorem buffers_released_iff (hinfo : Initialised g info) (c : Call) (copyFails : Bool) (f : Flash) (around : Mem Byte)
    (fails : List Bool) :
    Released (c.run g info copyFails f around (Ledger.fresh fails)).1
      (c.run g info copyFails f around (Ledger.fresh fails)).2 ↔
        ¬ (fails.headD false = false ∧ c.Mishandles g info copyFails f around) := by
  have ho : (Ledger.fresh fails : Heap).Owes [] := Ledger.fresh_owes fails
  cases c with
  | scratchPadSet tokenId tokBuf bufLen => exact scratchPadSet_released_iff ho f around tokenId tokBuf bufLen
  | bcmImageSet addr string size => exact imageSet_released_iff ho hinfo.psi_lt copyFails f addr string size
  | nvRamGet strLen offset | persistentGet strLen offset | darePersistentGet strLen offset =>
      exact iff_of_true (released_get (sharedGet_released ho _ _ _ _ _ _)) fun h => h.2
  | nvRamSet string strLen offset | persistentSet string strLen offset | darePersistentSet string strLen offset =>
      exact iff_of_true (sharedSet_released ho _ _ _ _ _ _) fun h => h.2
  | scratchPadGet tokenId bufLen => exact iff_of_true (released_get (scratchPadGet_released ho _ _ _ _)) fun h => h.2
  | scratchPadClearAll => exact iff_of_true (scratchPadClearAll_released ho f) fun h => h.2

theorem failed_copy_released :
    let r := (Call.bcmImageSet (63 * 65536 + demoFlash.flashBase) (fun _ => 7) 1).run demoFlash
      (kerSysFlashInit demoFlash 24 (some blankTag)) true (fresh fun _ => 0xff) (fun _ => 0) (Ledger.fresh [])
    Released r.1 r.2 :=
  (buffers_released_iff (.inr ⟨24, some blankTag, rfl⟩) _ true _ _ []).mpr fun h => h.2.2.2 (.inl rfl)

theorem image_freed_twice :
    let r := (Call.bcmImageSet (63 * 65536 + demoFlash.flashBase) (fun _ => 7) 1).run demoFlash
      (kerSysFlashInit demoFlash 24 (some blankTag)) false (fresh fun _ => 0xff) (fun _ => 0) (Ledger.fresh [])
    ¬ Released r.1 r.2 := by
  have hblk : flashGetBlk demoFlash (63 * 65536 + demoFlash.flashBase) = 63 := by decide
  have hpsi : (kerSysFlashInit demoFlash 24 (some blankTag)).persistent.startBlk = 63 := by decide
  refine (imageSet_released_iff (Ledger.fresh_owes []) (by decide) false _ _ _ 1).not.mpr (not_not.mpr ⟨rfl, ?_⟩)
  refine ⟨by decide, ⟨by decide, by decide, .inl (hblk.trans hpsi.symm), fun k hk => ?_, by decide⟩, by decide⟩
  rw [hblk, hpsi] at hk
  omega

end AliceModem.Buffers
