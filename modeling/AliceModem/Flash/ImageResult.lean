import AliceModem.Flash.ConfigCopies
import AliceModem.Flash.ImageFaults
import AliceModem.Flash.MixedLayout

namespace AliceModem.ImageResult

open Words Hwdefs Sectors ByteMemory Device SharedBlks Regions ImageTag Layout ConfigCopies ImageSet ImageFaults
  MixedLayout

variable {g : Geometry} {psi : Region} {whole : Prop} [Decidable whole]

section Outcome

variable (g psi whole)

/-- The loop comes to the `n`th sector after `blk` with a part of the image left. -/
structure Reaches (p : List Bool) (blk size : Int) (n : Nat) : Prop where
  rest : n = 0 ∨ blkStart g (blk + n) < blkStart g blk + size
  free : ¬ whole → ∀ k < n, blk + k ≠ psi.startBlk
  works : ∀ k < n, ¬ Fails p k

def TooBig (blk size : Int) (n : Nat) : Prop :=
  ¬ whole ∧ blk + n = psi.startBlk ∧ blkStart g (blk + n + 1) - psi.length < blkStart g blk + size

structure Completes (p : List Bool) (blk size : Int) (n : Nat) : Prop where
  works : ¬ Fails p n
  fits : ¬ TooBig g psi whole blk size n
  last : ¬ whole ∧ blk + n = psi.startBlk ∨ blkStart g blk + size ≤ blkStart g (blk + n + 1)

def Stops (faults : List (Option (Mem Byte))) (blk size : Int) (n : Nat) (junk : Option (Mem Byte)) : Prop :=
  TooBig g psi whole blk size n ∧ junk = none ∨
    ¬ TooBig g psi whole blk size n ∧ ∃ left, faults[n]? = some (some left) ∧ junk = some left

variable (f : Flash) (string : Mem Byte) (blk size : Int) (n : Nat)

/-- What is in the flash from `blk` on after a complete image: behind it the rest of its sector is erased, except for
the byte that makes the length even, and a whole image erases all sectors that follow. -/
def completedByte : Mem Byte := fun i =>
  if i < blkStart g blk + size ∧ i < blkStart g (blk + n + 1) then string (i - blkStart g blk)
  else if ¬ whole ∧ blk + n = psi.startBlk then f.mem i
  else if i < blkStart g (blk + n + 1) then
    if i = blkStart g blk + size ∧ (blkStart g blk + size - blkStart g (blk + n)) % 2 = 1 then string size else 0xff
  else if whole then 0xff
  else f.mem i

def stoppedByte (junk : Option (Mem Byte)) : Mem Byte := fun i =>
  if i < blkStart g (blk + n) then string (i - blkStart g blk)
  else if whole then 0xff
  else if i < blkStart g (blk + n + 1) then junk.elim (f.mem i) fun left => left (i - blkStart g (blk + n))
  else f.mem i

end Outcome

section Loop

variable {f : Flash} {string : Mem Byte} {blk size : Int} {n : Nat}

omit [Decidable whole] in
theorem Reaches.rest_pos {p : List Bool} (h : Reaches g psi whole p blk size n) (hsize : 0 < size) :
    0 < blkStart g blk + size - blkStart g (blk + n) := by
  rcases h.rest with rfl | h
  · simpa using hsize
  · omega

omit [Decidable whole] in
theorem reaches_zero (p : List Bool) : Reaches g psi whole p blk size 0 :=
  ⟨.inl rfl, fun _ k hk => absurd hk (Nat.not_lt_zero k), fun k hk => absurd hk (Nat.not_lt_zero k)⟩

theorem pair_sector {s : Nat} {x : Op} (hx : x.sector = s) {op : Op} (hop : op ∈ [Op.erase s, x]) : op.sector = s := by
  rcases List.mem_pair.mp hop with rfl | rfl
  · rfl
  · exact hx

theorem imageLoop_advance (m : Nat) (f : Flash) (hl : 0 ≤ blk) (hu : blk + n + m ≤ 65536) (string : Mem Byte)
    (hsize : 0 < size) (h : Reaches g psi whole (pattern f) blk size n) :
    ∃ f' ops, Runs g f ops f' ∧ (∀ op ∈ ops, op.sector < blk + n) ∧ f'.faults = f.faults.drop n ∧
      imageLoop g psi whole (n + m) f blk string size = imageLoop g psi whole m f' (blk + n)
        (view string (blkStart g (blk + n) - blkStart g blk)) (size - (blkStart g (blk + n) - blkStart g blk)) ∧
      (blk + n ≤ g.sec.length → ∀ i, f'.mem i =
        if blkStart g blk ≤ i ∧ i < blkStart g (blk + n) then string (i - blkStart g blk) else f.mem i) := by
  induction n generalizing f blk string size with
  | zero =>
      refine ⟨f, [], Runs.refl f, by simp, rfl, ?_, fun _ i => ?_⟩
      · have hview : view string 0 = string := funext fun i => congrArg string (zero_add i)
        simp [hview]
      · rw [if_neg (by simp)]
  | succ n ih =>
      push_cast at hu
      have hnext := blkStart_next (g := g) hl (by omega)
      have hmono := blkStart_mono (g := g) (show blk + 1 ≤ blk + (n + 1 : Nat) by push_cast; omega)
      have hrest := h.rest.resolve_left (Nat.succ_ne_zero n)
      have hskip : whole ∨ blk ≠ psi.startBlk := by
        by_cases hw : whole
        · exact .inl hw
        · exact .inr (by simpa using h.free hw 0 (Nat.succ_pos n))
      rcases round_cases (g := g) (n + m) f hskip string hsize with ⟨h0, -⟩ | ⟨-, f₁, hf₁, hruns, he⟩
      · exact absurd h0 (h.works 0 (Nat.succ_pos n))
      have hadd : blk + 1 + (n : Int) = blk + ((n + 1 : Nat) : Int) := by push_cast; omega
      have hreach : Reaches g psi whole (pattern f₁) (blk + 1) (size - flashGetSectorSize g blk) n := by
        refine ⟨.inr (by rw [hadd]; omega), fun hw k hk => ?_, fun k hk => ?_⟩
        · have := h.free hw (k + 1) (Nat.succ_lt_succ hk)
          push_cast at this
          omega
        · rw [pattern_tail hf₁, fails_tail]
          exact h.works (k + 1) (Nat.succ_lt_succ hk)
      obtain ⟨f', ops, hruns', hops, hf', hloop, hmem⟩ := ih f₁ (show 0 ≤ blk + 1 by omega) (by omega)
        (view string (flashGetSectorSize g blk)) (by omega) hreach
      rw [hadd] at hloop hmem
      refine ⟨f', _, hruns.trans hruns', fun op hop => ?_, by rw [hf', hf₁, List.drop_tail], ?_, fun hend i => ?_⟩
      · rcases List.mem_append.mp hop with hop | hop
        · have := uint16_of_range hl (by omega)
          have := pair_sector (s := uint16 blk) rfl hop
          push_cast
          omega
        · have := hops op hop
          omega
      · rw [show n + 1 + m = n + m + 1 by omega, he, if_pos (by omega), hloop]
        congr 1
        · funext i
          simp only [view]
          exact congrArg string (by omega)
        · omega
      · push_cast at hend
        have hblk : blk < g.sec.length := by omega
        have hchunk := (rest_of_lt (show flashGetSectorSize g blk < size by omega)).2
        have hsect := flashGetSectorSize_nonneg (g := g) blk
        rw [hmem (by push_cast; omega), hruns.mem, hchunk,
          replay_sector _ hl hblk (by rw [length_readBytes]; omega), length_readBytes, view]
        by_cases h1 : blkStart g (blk + 1) ≤ i ∧ i < blkStart g (blk + (n + 1 : Nat))
        · rw [if_pos h1, if_pos (by omega)]
          exact congrArg string (by omega)
        rw [if_neg h1]
        by_cases h2 : blkStart g blk ≤ i ∧ i < blkStart g blk + flashGetSectorSize g blk
        · rw [if_pos (by omega), if_pos (by omega), getD_readBytes _ _ _ _ (by omega)]
          exact congrArg string (by omega)
        · rw [if_neg (by omega), if_neg (by omega), if_neg (by omega)]

theorem replay_spoil (m left : Mem Byte) (hl : 0 ≤ blk) (hblk : blk < g.sec.length) (i : Int) :
    replay g m [.erase (uint16 blk), .spoil (uint16 blk) left] i =
      if blkStart g blk ≤ i ∧ i < blkStart g (blk + 1) then left (i - blkStart g blk) else m i := by
  have hnext := blkStart_succ (g := g) hl hblk
  have hlen := sectorLength_eq (g := g) hl hblk
  change patch (fill m (sectorBase g (uint16 blk)) (sectorLength g (uint16 blk)) 0xff) (sectorBase g (uint16 blk))
    (readBytes left 0 (sectorLength g (uint16 blk))) i = _
  rw [sectorBase_eq hl hblk]
  split_ifs with hi
  · rw [patch_inside _ _ _ _ hi.1 (by rw [length_readBytes]; omega), getD_readBytes _ _ _ _ (by omega)]
    exact congrArg left (by omega)
  · rw [patch_outside _ _ _ _ (by rw [length_readBytes]; omega), fill_outside _ _ _ _ _ (by omega)]

theorem psi_round (f : Flash) (hl : 0 ≤ blk) (hblk : blk < g.sec.length) (string : Mem Byte) (size i : Int) :
    replay g f.mem [.erase (uint16 blk), .write (uint16 blk) 0
        (readBytes (psiBuf g f blk string size) 0 (flashGetSectorSize g blk).toNat)] i =
      if blkStart g blk ≤ i ∧ i < blkStart g blk + size ∧ i < blkStart g (blk + 1) then string (i - blkStart g blk)
      else f.mem i := by
  have hnext := blkStart_succ (g := g) hl hblk
  have hsect := flashGetSectorSize_nonneg (g := g) blk
  rw [replay_sector _ hl hblk (by rw [length_readBytes]; omega), length_readBytes]
  by_cases hin : blkStart g blk ≤ i ∧ i < blkStart g (blk + 1)
  · rw [if_pos (by omega), getD_readBytes _ _ _ _ (by omega), psiBuf]
    by_cases hi : i < blkStart g blk + size
    · rw [if_pos (by omega), patch_inside _ _ _ _ (by omega) (by rw [length_readBytes]; omega),
        getD_readBytes _ _ _ _ (by omega)]
      exact congrArg string (by omega)
    · rw [if_neg (by omega), patch_outside _ _ _ _ (by rw [length_readBytes]; omega), flashReadBuf,
        patch_inside _ _ _ _ (by omega) (by rw [length_readBytes]; omega), getD_readBytes _ _ _ _ (by omega),
        sectorBase_eq hl hblk]
      exact congrArg f.mem (by omega)
  · rw [if_neg (by omega), if_neg (by omega), if_neg (by omega)]

theorem last_round (m : Mem Byte) (hl : 0 ≤ blk) (hblk : blk < g.sec.length) (string : Mem Byte) (hsize : 0 < size)
    (hend : blkStart g blk + size ≤ blkStart g (blk + 1)) (i : Int) :
    replay g m [.erase (uint16 blk), .write (uint16 blk) 0
        (readBytes string 0 (chunkLen (flashGetSectorSize g blk) size).toNat)] i =
      if blkStart g blk ≤ i ∧ i < blkStart g blk + size then string (i - blkStart g blk)
      else if blkStart g blk ≤ i ∧ i < blkStart g (blk + 1) then
        if i = blkStart g blk + size ∧ size % 2 = 1 then string size else 0xff
      else m i := by
  have hnext := blkStart_succ (g := g) hl hblk
  have hchunk := chunkLen_le (flashGetSectorSize g blk) size
  have hcover := rest_of_ge (show size ≤ flashGetSectorSize g blk by omega)
  have hlen : chunkLen (flashGetSectorSize g blk) size =
      if size < flashGetSectorSize g blk ∧ size % 2 = 1 then size + 1 else size := by
    rw [chunkLen, evenSize]
    split_ifs <;> omega
  rw [replay_sector _ hl hblk (by rw [length_readBytes]; omega), length_readBytes]
  by_cases hin : blkStart g blk ≤ i ∧ i < blkStart g blk + size
  · rw [if_pos (by omega), if_pos hin, getD_readBytes _ _ _ _ (by omega)]
    exact congrArg string (by omega)
  rw [if_neg hin]
  by_cases hrest : blkStart g blk ≤ i ∧ i < blkStart g (blk + 1)
  · rw [if_pos hrest]
    by_cases hodd : i = blkStart g blk + size ∧ size % 2 = 1
    · rw [if_pos (by rw [hlen, if_pos (by omega)]; omega), if_pos hodd, getD_readBytes _ _ _ _
        (by rw [hlen, if_pos (by omega)]; omega)]
      exact congrArg string (by omega)
    · rw [if_neg hodd, if_neg (by split_ifs at hlen <;> omega), if_pos (by omega)]
  · rw [if_neg (by omega), if_neg hrest, if_neg (by omega)]

theorem last_ops (hl : 0 ≤ blk + n) (hu : blk + n < 65536) {ops : List Op} (hops : ∀ op ∈ ops, op.sector < blk + n) {x : Op}
    (hx : x.sector = uint16 (blk + n)) : ∀ op ∈ ops ++ [Op.erase (uint16 (blk + n)), x], op.sector ≤ blk + n := by
  intro op hop
  rcases List.mem_append.mp hop with hop | hop
  · exact (hops op hop).le
  · rw [pair_sector hx hop]
    exact (uint16_of_range hl hu).le

theorem imageLoop_completes (m : Nat) (f : Flash) (hl : 0 ≤ blk) (hu : blk + n + (m + 1) ≤ 65536) (string : Mem Byte)
    (hsize : 0 < size) (hr : Reaches g psi whole (pattern f) blk size n)
    (hc : Completes g psi whole (pattern f) blk size n) :
    (imageLoop g psi whole (n + (m + 1)) f blk string size).1 =
      some (if ¬ whole ∧ blk + n = psi.startBlk then blk + n else blk + n + 1, 0) ∧
    (∃ ops, Runs g f ops (imageLoop g psi whole (n + (m + 1)) f blk string size).2 ∧ ∀ op ∈ ops, op.sector ≤ blk + n) ∧
    (blk + n < g.sec.length → ∀ i, blkStart g blk ≤ i → ¬ whole ∨ i < blkStart g (blk + n + 1) →
      (imageLoop g psi whole (n + (m + 1)) f blk string size).2.mem i =
        completedByte g psi whole f string blk size n i) := by
  have hpos := hr.rest_pos hsize
  have hnext := blkStart_next (g := g) (a := blk + n) (by omega) (by omega)
  obtain ⟨f₁, ops, hruns₁, hops, hf₁, hloop, hmem⟩ := imageLoop_advance (m + 1) f hl (by push_cast; omega) string hsize hr
  have hall {x : Op} (hx : x.sector = uint16 (blk + n)) (op : Op) (hop : op ∈ ops ++ [Op.erase (uint16 (blk + n)), x]) :
      op.sector ≤ blk + n := last_ops (by omega) (by omega) hops hx op hop
  have h0 : ¬ Fails (pattern f₁) 0 := by
    have := hc.works
    rwa [Fails, pattern, hf₁, List.map_drop, List.getElem?_drop]
  have hmono := blkStart_mono (g := g) (show blk ≤ blk + n by omega)
  have hrest : 0 < size - (blkStart g (blk + n) - blkStart g blk) := by omega
  rw [hloop]
  by_cases hhere : ¬ whole ∧ blk + n = psi.startBlk
  · obtain ⟨hnot, hb⟩ := hhere
    have hfits : ¬ blkStart g (blk + n + 1) - psi.length < blkStart g blk + size := fun h => hc.fits ⟨hnot, hb, h⟩
    rw [hb] at hnext hmem hmono hrest hfits hall ⊢
    rcases psi_cases (g := g) psi m f₁ hnot (view string (blkStart g psi.startBlk - blkStart g blk)) hrest with
      ⟨hbig, -⟩ | ⟨-, hfail, -⟩ | ⟨-, -, f₂, hruns, he⟩
    · omega
    · exact absurd hfail h0
    have hsect := flashGetSectorSize_nonneg (g := g) psi.startBlk
    rw [he, if_pos ⟨hnot, rfl⟩]
    refine ⟨rfl, ⟨_, hruns₁.trans hruns, hall rfl⟩, fun hblk i hi _ => ?_⟩
    rw [hruns.mem, psi_round f₁ (by omega) hblk, hmem hblk.le, completedByte, hb]
    by_cases hin : i < blkStart g blk + size ∧ i < blkStart g (psi.startBlk + 1)
    · rw [if_pos hin]
      by_cases hlow : i < blkStart g psi.startBlk
      · rw [if_neg (by omega), if_pos ⟨hi, hlow⟩]
      · rw [if_pos (by omega), view]
        exact congrArg string (by omega)
    · rw [if_neg hin, if_pos (show ¬ whole ∧ psi.startBlk = psi.startBlk from ⟨hnot, rfl⟩), if_neg (by omega),
        if_neg (by omega)]
  · have hskip : whole ∨ blk + n ≠ psi.startBlk := by tauto
    have hend := hc.last.resolve_left hhere
    rcases round_cases (g := g) m f₁ hskip (view string (blkStart g (blk + n) - blkStart g blk)) hrest with
      ⟨hfail, -⟩ | ⟨-, f₂, -, hruns, he⟩
    · exact absurd hfail h0
    rw [he, if_neg (by omega), if_neg hhere]
    refine ⟨rfl, ⟨_, hruns₁.trans hruns, hall rfl⟩, fun hblk i hi hbefore => ?_⟩
    rw [hruns.mem, last_round _ (by omega) hblk _ hrest (by omega), hmem hblk.le, completedByte]
    by_cases hin : i < blkStart g blk + size ∧ i < blkStart g (blk + n + 1)
    · rw [if_pos hin]
      by_cases hlow : i < blkStart g (blk + n)
      · rw [if_neg (by omega), if_neg (by omega), if_pos ⟨hi, hlow⟩]
      · rw [if_pos (by omega), view]
        exact congrArg string (by omega)
    rw [if_neg hin, if_neg hhere, if_neg (by omega)]
    by_cases hsect : i < blkStart g (blk + n + 1)
    · rw [if_pos (by omega), if_pos hsect]
      refine if_congr (by omega) ?_ rfl
      rw [view]
      exact congrArg string (by omega)
    · rw [if_neg (by omega), if_neg hsect, if_neg (by omega), if_neg (hbefore.resolve_right hsect)]

omit [Decidable whole] in
theorem Completes.lt {p : List Bool} (h : Completes g psi whole p blk size n) (hl : 0 ≤ blk) (hu : blk + n < 65536)
    (hr : Reaches g psi whole p blk size n) (hsize : 0 < size) (hpsi : psi.startBlk < g.sec.length ∨ 0 ≤ psi.length) :
    blk + n < g.sec.length := by
  have hnext := blkStart_next (g := g) (a := blk + n) (by omega) hu
  refine (lt_or_ge (blk + n) g.sec.length).resolve_right fun hge => absurd (blk_lt_of_end (g := g) (by omega) hu
    (hr.rest_pos hsize) ?_) (not_lt.mpr hge)
  rcases h.last with ⟨hnot, hb⟩ | h'
  · have hfits : ¬ blkStart g (blk + n + 1) - psi.length < blkStart g blk + size := fun hbig => h.fits ⟨hnot, hb, hbig⟩
    omega
  · omega

theorem imageLoop_stops (m : Nat) (f : Flash) (hl : 0 ≤ blk) (hu : blk + n + (m + 1) ≤ 65536) (string : Mem Byte)
    (hsize : 0 < size) (hr : Reaches g psi whole (pattern f) blk size n) {junk : Option (Mem Byte)}
    (hs : Stops g psi whole f.faults blk size n junk) :
    (∃ left, left ≠ 0 ∧ (imageLoop g psi whole (n + (m + 1)) f blk string size).1 = some (blk + n, left)) ∧
    (∃ ops, Runs g f ops (imageLoop g psi whole (n + (m + 1)) f blk string size).2 ∧ ∀ op ∈ ops, op.sector ≤ blk + n) ∧
    (blk + n < g.sec.length → ∀ i, blkStart g blk ≤ i → ¬ whole ∨ i < blkStart g (blk + n) →
      (imageLoop g psi whole (n + (m + 1)) f blk string size).2.mem i =
        stoppedByte g whole f string blk n junk i) := by
  have hpos := hr.rest_pos hsize
  have hnext := blkStart_next (g := g) (a := blk + n) (by omega) (by omega)
  obtain ⟨f₁, ops, hruns₁, hops, hf₁, hloop, hmem⟩ := imageLoop_advance (m + 1) f hl (by push_cast; omega) string hsize hr
  have hmono := blkStart_mono (g := g) (show blk ≤ blk + n by omega)
  have hrest : 0 < size - (blkStart g (blk + n) - blkStart g blk) := by omega
  have hkept (i : Int) (hi : blkStart g blk ≤ i) (hb : blk + n < g.sec.length) : f₁.mem i =
      if i < blkStart g (blk + n) then string (i - blkStart g blk) else f.mem i := by
    rw [hmem hb.le]
    exact if_congr (and_iff_right hi) rfl rfl
  rw [hloop]
  rcases hs with ⟨⟨hnot, hb, hbig⟩, rfl⟩ | ⟨hfits, left, hleft, rfl⟩
  · rw [hb] at hnext hrest hbig hkept ⊢
    rcases psi_cases (g := g) psi m f₁ hnot (view string (blkStart g psi.startBlk - blkStart g blk)) hrest with
      ⟨-, he⟩ | ⟨hfit, -⟩ | ⟨hfit, -⟩
    · rw [he]
      refine ⟨⟨_, hrest.ne', rfl⟩, ⟨ops, hruns₁, fun op hop => by have := hops op hop; omega⟩, fun hblk i hi _ => ?_⟩
      rw [hkept i hi hblk, stoppedByte, hb]
      simp [hnot]
    · omega
    · omega
  · have hfail : Fails (pattern f₁) 0 := by
      rw [Fails, pattern, hf₁, List.map_drop, List.getElem?_drop, List.getElem?_map, Nat.add_zero, hleft]
      rfl
    have hhead : f₁.faults.head? = some (some left) := by
      rw [hf₁, List.head?_drop, hleft]
    have hall (left : Mem Byte) (op : Op)
        (hop : op ∈ ops ++ [Op.erase (uint16 (blk + n)), .spoil (uint16 (blk + n)) left]) : op.sector ≤ blk + n :=
      last_ops (by omega) (by omega) hops rfl op hop
    have hspoiled {f₂ : Flash} {left' : Mem Byte} (hleft' : f₁.faults.head? = some (some left'))
        (hruns : Runs g f₁ [.erase (uint16 (blk + n)), .spoil (uint16 (blk + n)) left'] f₂)
        (hblk : blk + n < g.sec.length) (i : Int) (hi : blkStart g blk ≤ i)
        (hbefore : ¬ whole ∨ i < blkStart g (blk + n)) :
        f₂.mem i = stoppedByte g whole f string blk n (some left) i := by
      obtain rfl : left' = left := Option.some.inj (Option.some.inj (hleft'.symm.trans hhead))
      rw [hruns.mem, replay_spoil _ _ (by omega) hblk, hkept i hi hblk, stoppedByte]
      by_cases hlow : i < blkStart g (blk + n)
      · rw [if_neg (by omega), if_pos hlow, if_pos hlow]
      · rw [if_neg hlow, if_neg hlow, if_neg (hbefore.resolve_right hlow)]
        exact if_congr (by omega) rfl rfl
    by_cases hhere : ¬ whole ∧ blk + n = psi.startBlk
    · obtain ⟨hnot, hb⟩ := hhere
      have hfits : ¬ blkStart g (blk + n + 1) - psi.length < blkStart g blk + size := fun h => hfits ⟨hnot, hb, h⟩
      rw [hb] at hnext hrest hfits hspoiled hall ⊢
      rcases psi_cases (g := g) psi m f₁ hnot (view string (blkStart g psi.startBlk - blkStart g blk)) hrest with
        ⟨hbig, -⟩ | ⟨-, -, left', f₂, hleft', hruns, he⟩ | ⟨-, h0, -⟩
      · omega
      · rw [he]
        exact ⟨⟨_, hrest.ne', rfl⟩, ⟨_, hruns₁.trans hruns, hall left'⟩, hspoiled hleft' hruns⟩
      · exact absurd hfail h0
    · have hskip : whole ∨ blk + n ≠ psi.startBlk := by tauto
      rcases round_cases (g := g) m f₁ hskip (view string (blkStart g (blk + n) - blkStart g blk)) hrest with
        ⟨-, left', f₂, hleft', hruns, he⟩ | ⟨h0, -⟩
      · rw [he]
        refine ⟨⟨_, ?_, rfl⟩, ⟨_, hruns₁.trans hruns, hall left'⟩, hspoiled hleft' hruns⟩
        rw [evenSize]
        split_ifs <;> omega
      · exact absurd hfail h0

end Loop

variable (g psi whole) in
/-- The loop ends at the first sector that fails, holds the PSI or takes the last byte; without one it runs on. -/
theorem reaches_or_ends (faults : List (Option (Mem Byte))) (blk size : Int) (fuel : Nat) :
    Reaches g psi whole (faults.map Option.isSome) blk size fuel ∨
    ∃ n < fuel, Reaches g psi whole (faults.map Option.isSome) blk size n ∧
      (Completes g psi whole (faults.map Option.isSome) blk size n ∨ ∃ junk, Stops g psi whole faults blk size n junk) := by
  induction fuel with
  | zero => exact .inl (reaches_zero _)
  | succ n ih =>
      rcases ih with hr | ⟨k, hk, h⟩
      swap
      · exact .inr ⟨k, hk.trans n.lt_succ_self, h⟩
      by_cases hbig : TooBig g psi whole blk size n
      · exact .inr ⟨n, n.lt_succ_self, hr, .inr ⟨none, .inl ⟨hbig, rfl⟩⟩⟩
      by_cases hfail : Fails (faults.map Option.isSome) n
      · rw [Fails, List.getElem?_map, Option.map_eq_some_iff] at hfail
        obtain ⟨fault, hfault, hsome⟩ := hfail
        obtain ⟨left, rfl⟩ := Option.isSome_iff_exists.mp hsome
        exact .inr ⟨n, n.lt_succ_self, hr, .inr ⟨some left, .inr ⟨hbig, left, hfault, rfl⟩⟩⟩
      by_cases hlast : ¬ whole ∧ blk + n = psi.startBlk ∨ blkStart g blk + size ≤ blkStart g (blk + n + 1)
      · exact .inr ⟨n, n.lt_succ_self, hr, .inl ⟨hfail, hbig, hlast⟩⟩
      rw [not_or, not_le, add_assoc] at hlast
      refine .inl ⟨.inr (by exact_mod_cast hlast.2), fun hw k hk => ?_, fun k hk => ?_⟩
      · rcases (Nat.lt_succ_iff.mp hk).lt_or_eq with hk | rfl
        · exact hr.free hw k hk
        · exact fun h => hlast.1 ⟨hw, h⟩
      · rcases (Nat.lt_succ_iff.mp hk).lt_or_eq with hk | rfl
        · exact hr.works k hk
        · exact hfail

section Endless

variable {blk size : Int} {fuel : Nat} (hsize : 0 < size)

include hsize

omit [Decidable whole] in
theorem reaches_fuel_iff (hfuel : g.sec.length ≤ blk + fuel) (hpsi : psi.startBlk < g.sec.length) (p : List Bool) :
    Reaches g psi whole p blk size fuel ↔
      flashGetTotalSize g < blkStart g blk + size ∧ (whole ∨ psi.startBlk < blk) ∧ ∀ k < fuel, ¬ Fails p k := by
  have hend := blkStart_length (g := g) hfuel
  constructor
  · intro h
    have hpos := h.rest_pos hsize
    refine ⟨by omega, ?_, h.works⟩
    by_contra hnot
    rw [not_or, not_lt] at hnot
    exact h.free hnot.1 (psi.startBlk - blk).toNat (by omega) (by omega)
  · rintro ⟨hlong, hfree, hworks⟩
    exact ⟨.inr (by omega), fun hw k _ => by have := hfree.resolve_left hw; omega, hworks⟩

theorem imageLoop_none_iff (f : Flash) (hl : 0 ≤ blk) (hu : blk + fuel ≤ 65536) (string : Mem Byte) :
    (imageLoop g psi whole fuel f blk string size).1 = none ↔ Reaches g psi whole (pattern f) blk size fuel := by
  constructor
  · intro hnone
    rcases reaches_or_ends g psi whole f.faults blk size fuel with h | ⟨n, hn, hr, hc | ⟨junk, hs⟩⟩
    · exact h
    all_goals obtain ⟨m, rfl⟩ := Nat.exists_eq_add_of_lt hn
    · rw [add_assoc, (imageLoop_completes m f hl (by push_cast at hu; omega) string hsize hr hc).1] at hnone
      cases hnone
    · obtain ⟨left, -, hret⟩ := (imageLoop_stops m f hl (by push_cast at hu; omega) string hsize hr hs).1
      rw [add_assoc, hret] at hnone
      cases hnone
  · intro h
    obtain ⟨f', -, -, -, -, hloop, -⟩ := imageLoop_advance 0 f hl (by simpa using hu) string hsize h
    rw [← Nat.add_zero fuel, hloop]
    rfl

end Endless

section Set

variable {info : FlashAddrInfo} {addr size : Int}

variable (g) in
def Coincides (addr size : Int) (string content : Mem Byte) : Prop :=
  int32 (addr - g.flashBase) + size ≤ flashGetTotalSize g ∧
    ∀ k, 0 ≤ k → k < size → content (int32 (addr - g.flashBase) + k) = string k

variable (g) in
def Truthful (info : FlashAddrInfo) (f : Flash) (addr : Int) (string : Mem Byte) (size : Int) : Prop :=
  ∀ r, (kerSysBcmImageSet g info f addr string size).1 = some r →
    (r = 0 ↔ Coincides g addr size string (kerSysBcmImageSet g info f addr string size).2.mem)

theorem coincides_congr {string content content' : Mem Byte}
    (h : ∀ i, int32 (addr - g.flashBase) ≤ i → i < flashGetTotalSize g → content i = content' i) :
    Coincides g addr size string content ↔ Coincides g addr size string content' := by
  refine and_congr_right fun hend => forall_congr' fun k => ?_
  refine forall₂_congr fun h1 h2 => ?_
  rw [h _ (by omega) (by omega)]

theorem eraseBlks_erased (f : Flash) {blks : List Int} {c i : Int} (hc : c ∈ blks) (h0 : 0 ≤ c) (hn : c < g.sec.length)
    (h1 : blkStart g c ≤ i) (h2 : i < blkStart g (c + 1)) : (eraseBlks g f blks).mem i = 0xff := by
  have hnext := blkStart_succ (g := g) h0 hn
  have hlen := sectorLength_eq (g := g) h0 hn
  have hstep (f : Flash) (b : Int) (hb : f.mem i = 0xff ∨ b = c) : (flashSectorEraseInt g f b).mem i = 0xff := by
    change fill f.mem (sectorBase g (uint16 b)) (sectorLength g (uint16 b)) 0xff i = 0xff
    by_cases hin : sectorBase g (uint16 b) ≤ i ∧ i < sectorBase g (uint16 b) + sectorLength g (uint16 b)
    · exact fill_inside _ _ _ _ _ hin.1 hin.2
    · rw [fill_outside _ _ _ _ _ (by omega)]
      refine hb.resolve_right ?_
      rintro rfl
      rw [sectorBase_eq h0 hn] at hin
      omega
  have hkeep (f : Flash) (blks : List Int) (hf : f.mem i = 0xff) : (eraseBlks g f blks).mem i = 0xff := by
    induction blks generalizing f with
    | nil => exact hf
    | cons b blks ih => exact ih _ (hstep f b (.inl hf))
  induction blks generalizing f with
  | nil => cases hc
  | cons b blks ih =>
      rcases List.mem_cons.mp hc with rfl | hc
      · exact hkeep _ blks (hstep f c (.inr rfl))
      · exact ih _ hc

theorem erased_tail (f : Flash) {b i : Int} (hb : 0 ≤ b) (h0 : 0 ≤ i) (hi : i < flashGetTotalSize g) :
    (eraseBlks g f (if whole then blkRange b (flashGetNumsectors g) else [])).mem i =
      if whole ∧ blkStart g b ≤ i then 0xff else f.mem i := by
  by_cases hw : whole
  swap
  · rw [if_neg hw, if_neg fun h => hw h.1]
    rfl
  rw [if_pos hw]
  by_cases hlow : i < blkStart g b
  · rw [eraseBlks_outside f hb hlow, if_neg fun h => absurd h.2 (not_le.mpr hlow)]
  · obtain ⟨h1, h2, h3⟩ := flashGetBlk_offset (g := g) i h0 hi
    have hlt := flashGetBlk_lt (g := g) (g.flashBase + i)
    have hafter : b ≤ flashGetBlk g (g.flashBase + i) := by
      by_contra hbefore
      have hmono := blkStart_mono (g := g) (show flashGetBlk g (g.flashBase + i) + 1 ≤ b by omega)
      omega
    rw [if_pos ⟨hw, not_lt.mp hlow⟩]
    exact eraseBlks_erased f (mem_blkRange.mpr ⟨hafter, hlt⟩) h1 hlt h2 h3

theorem start_le_addr (hl : 0 ≤ int32 (addr - g.flashBase)) (hu : int32 (addr - g.flashBase) < flashGetTotalSize g) :
    0 ≤ flashGetBlk g addr ∧ blkStart g (flashGetBlk g addr) ≤ int32 (addr - g.flashBase) := by
  obtain ⟨s, hs, he, h1, -⟩ := flashGetBlk_inside addr hl hu
  have hbase := (sector_span (g := g) (s := s) (by omega)).1
  rw [he]
  exact ⟨by omega, by omega⟩

section Ends

variable (g info) (f : Flash) (addr size : Int) (n : Nat)

def Endless : Prop :=
  flashGetTotalSize g < blkStart g (flashGetBlk g addr) + size ∧
    (wholeImage g info addr size ∨ info.persistent.startBlk < flashGetBlk g addr) ∧
    ∀ k < maxSectors - (flashGetBlk g addr).toNat, ¬ Fails (pattern f) k

def Written : Prop :=
  n < maxSectors - (flashGetBlk g addr).toNat ∧
    Reaches g info.persistent (wholeImage g info addr size) (pattern f) (flashGetBlk g addr) size n ∧
    Completes g info.persistent (wholeImage g info addr size) (pattern f) (flashGetBlk g addr) size n

/-- The write of the `n`th sector fails, or it is the PSI's and too small. -/
def LeftAt (junk : Option (Mem Byte)) : Prop :=
  n < maxSectors - (flashGetBlk g addr).toNat ∧
    Reaches g info.persistent (wholeImage g info addr size) (pattern f) (flashGetBlk g addr) size n ∧
    Stops g info.persistent (wholeImage g info addr size) f.faults (flashGetBlk g addr) size n junk

end Ends

section Ends

variable {n : Nat} (f : Flash) (string : Mem Byte) (hblk : 0 ≤ flashGetBlk g addr) (hsize : 0 < size)

include hblk hsize

theorem imageSet_stuck_iff : (kerSysBcmImageSet g info f addr string size).1 = none ↔
    Reaches g info.persistent (wholeImage g info addr size) (pattern f) (flashGetBlk g addr) size
      (maxSectors - (flashGetBlk g addr).toNat) := by
  have hlt := flashGetBlk_lt (g := g) addr
  have hle := g.nsect_le
  simp only [maxSectors] at hle
  rw [← imageLoop_none_iff hsize f hblk (by simp only [maxSectors]; omega) string]
  rcases hr : (imageLoop g info.persistent (wholeImage g info addr size) (maxSectors - (flashGetBlk g addr).toNat) f
    (flashGetBlk g addr) string size).1 with _ | ⟨b, left⟩
  · rw [imageSet_none f string hblk hr]
    exact iff_of_true rfl rfl
  · rw [imageSet_some f string hblk hr]
    exact iff_of_false (Option.some_ne_none _) (Option.some_ne_none _)

theorem imageSet_none_iff (hpsi : info.persistent.startBlk < g.sec.length) :
    (kerSysBcmImageSet g info f addr string size).1 = none ↔ Endless g info f addr size := by
  have hle := g.nsect_le
  rw [imageSet_stuck_iff f string hblk hsize, Endless,
    reaches_fuel_iff hsize (by simp only [maxSectors] at hle ⊢; omega) hpsi]

theorem imageSet_ends : (kerSysBcmImageSet g info f addr string size).1 = none ∨
    (∃ n, Written g info f addr size n) ∨ ∃ n junk, LeftAt g info f addr size n junk := by
  rcases reaches_or_ends g info.persistent (wholeImage g info addr size) f.faults (flashGetBlk g addr) size
    (maxSectors - (flashGetBlk g addr).toNat) with h | ⟨n, hn, hr, hc | ⟨junk, hs⟩⟩
  · exact .inl ((imageSet_stuck_iff f string hblk hsize).mpr h)
  · exact .inr (.inl ⟨n, hn, hr, hc⟩)
  · exact .inr (.inr ⟨n, junk, hn, hr, hs⟩)

theorem imageSet_written (h : Written g info f addr size n) :
    (kerSysBcmImageSet g info f addr string size).1 = some 0 ∧
    (info.persistent.startBlk < g.sec.length ∨ 0 ≤ info.persistent.length → ∀ i, blkStart g (flashGetBlk g addr) ≤ i → i < flashGetTotalSize g →
      (kerSysBcmImageSet g info f addr string size).2.mem i =
        completedByte g info.persistent (wholeImage g info addr size) f string (flashGetBlk g addr) size n i) := by
  obtain ⟨hn, hr, hc⟩ := h
  simp only [maxSectors] at hn
  obtain ⟨hret, -, hmem⟩ := imageLoop_completes (1024 - (flashGetBlk g addr).toNat - n - 1) f hblk (by omega) string hsize
    hr hc
  rw [show n + (1024 - (flashGetBlk g addr).toNat - n - 1 + 1) = maxSectors - (flashGetBlk g addr).toNat by
    simp only [maxSectors]; omega] at hret hmem
  rw [imageSet_some f string hblk hret]
  refine ⟨by rw [if_pos rfl], fun hpsi i h1 h2 => ?_⟩
  have hin := hc.lt hblk (by omega) hr hsize hpsi
  have hstart := blkStart_mono (g := g) hblk
  rw [blkStart_zero] at hstart
  dsimp only
  rw [erased_tail _ (by split_ifs <;> omega) (by omega) h2]
  by_cases hlate : wholeImage g info addr size ∧ blkStart g (flashGetBlk g addr + n + 1) ≤ i
  · obtain ⟨hw, hlate⟩ := hlate
    rw [if_pos ⟨hw, by rwa [if_neg fun h => h.1 hw]⟩, completedByte, if_neg (by omega), if_neg fun h => h.1 hw,
      if_neg (by omega), if_pos hw]
  · rw [← hmem hin i h1 (by rwa [not_and_or, not_le] at hlate)]
    refine if_neg fun ⟨hw, hle⟩ => hlate ⟨hw, ?_⟩
    rwa [if_neg fun h => h.1 hw] at hle

theorem imageSet_leftAt {junk : Option (Mem Byte)} (h : LeftAt g info f addr size n junk) :
    (∃ r, (kerSysBcmImageSet g info f addr string size).1 = some r ∧
      (r = 0 ↔ ¬ wholeImage g info addr size ∧ flashGetBlk g addr + n = 0)) ∧
    (flashGetBlk g addr + n < g.sec.length → ∀ i, blkStart g (flashGetBlk g addr) ≤ i → i < flashGetTotalSize g →
      (kerSysBcmImageSet g info f addr string size).2.mem i =
        stoppedByte g (wholeImage g info addr size) f string (flashGetBlk g addr) n junk i) := by
  obtain ⟨hn, hr, hs⟩ := h
  simp only [maxSectors] at hn
  obtain ⟨⟨left, hleft, hret⟩, -, hmem⟩ := imageLoop_stops (1024 - (flashGetBlk g addr).toNat - n - 1) f hblk (by omega)
    string hsize hr hs
  rw [show n + (1024 - (flashGetBlk g addr).toNat - n - 1 + 1) = maxSectors - (flashGetBlk g addr).toNat by
    simp only [maxSectors]; omega] at hret hmem
  rw [imageSet_some f string hblk hret]
  refine ⟨⟨_, rfl, ?_⟩, fun hlt i h1 h2 => ?_⟩
  · have hpos := g.nsect_pos
    rw [if_neg hleft]
    by_cases hw : wholeImage g info addr size
    · rw [if_pos hw]
      refine iff_of_false (fun h => ?_) fun h => h.1 hw
      have := le_max_right (flashGetBlk g addr + n) (flashGetNumsectors g)
      rw [h, flashGetNumsectors] at this
      omega
    · rw [if_neg hw]
      exact (and_iff_right hw).symm
  · have hstart := blkStart_mono (g := g) hblk
    rw [blkStart_zero] at hstart
    dsimp only
    rw [erased_tail _ (by omega) (by omega) h2]
    by_cases hlate : wholeImage g info addr size ∧ blkStart g (flashGetBlk g addr + n) ≤ i
    · rw [if_pos hlate, stoppedByte, if_neg (not_lt.mpr hlate.2), if_pos hlate.1]
    · rw [if_neg hlate]
      exact hmem hlt i h1 (by rwa [not_and_or, not_le] at hlate)

theorem truthful_written (hstart : blkStart g (flashGetBlk g addr) ≤ int32 (addr - g.flashBase))
    (hpsi : info.persistent.startBlk < g.sec.length) (h : Written g info f addr size n) :
    Truthful g info f addr string size ↔ Coincides g addr size string (completedByte g info.persistent
      (wholeImage g info addr size) f string (flashGetBlk g addr) size n) := by
  obtain ⟨hret, hmem⟩ := imageSet_written f string hblk hsize h
  rw [Truthful, hret, coincides_congr fun i h1 h2 => hmem (.inl hpsi) i (hstart.trans h1) h2]
  simp

theorem truthful_leftAt (hstart : blkStart g (flashGetBlk g addr) ≤ int32 (addr - g.flashBase))
    {junk : Option (Mem Byte)} (h : LeftAt g info f addr size n junk) :
    Truthful g info f addr string size ↔ (¬ wholeImage g info addr size ∧ flashGetBlk g addr + n = 0 ↔
      Coincides g addr size string
        (stoppedByte g (wholeImage g info addr size) f string (flashGetBlk g addr) n junk)) := by
  obtain ⟨⟨r, hret, hzero⟩, hmem⟩ := imageSet_leftAt f string hblk hsize h
  have hsame : Coincides g addr size string (kerSysBcmImageSet g info f addr string size).2.mem ↔
      Coincides g addr size string
        (stoppedByte g (wholeImage g info addr size) f string (flashGetBlk g addr) n junk) := by
    by_cases hin : flashGetBlk g addr + n < g.sec.length
    · exact coincides_congr fun i h1 h2 => hmem hin i (hstart.trans h1) h2
    · -- the image ends behind the device
      have hpos := h.2.1.rest_pos hsize
      rw [blkStart_length (not_lt.mp hin)] at hpos
      exact iff_of_false (fun h => absurd h.1 (by omega)) fun h => absurd h.1 (by omega)
  rw [Truthful, hret, hsame]
  simp only [Option.some.injEq, forall_eq', hzero]

end Ends

/-- The result tells whether the image is in the flash exactly if the call never returns; or the image was written, and
starts at the start of a sector or happens to be the same there; or the call was left at a sector whose number it
returns, and what is in the flash then is the image just if that number is 0. -/
theorem image_result_iff {ulPsiSize : Nat} {pTag : Option FileTag} (hinfo : info = kerSysFlashInit g ulPsiSize pTag)
    (hl : 0 ≤ int32 (addr - g.flashBase)) (hu : int32 (addr - g.flashBase) < flashGetTotalSize g) (hsize : 1 ≤ size)
    (f : Flash) (string : Mem Byte) :
    Truthful g info f addr string size ↔
      Endless g info f addr size ∨
      (∃ n, Written g info f addr size n ∧
        (blkStart g (flashGetBlk g addr) = int32 (addr - g.flashBase) ∧
            blkStart g (flashGetBlk g addr) + size ≤ blkStart g (flashGetBlk g addr + n + 1) ∨
          Coincides g addr size string (completedByte g info.persistent (wholeImage g info addr size) f string
            (flashGetBlk g addr) size n))) ∨
      ∃ n junk, LeftAt g info f addr size n junk ∧
        (¬ wholeImage g info addr size ∧ flashGetBlk g addr + n = 0 ↔
          Coincides g addr size string
            (stoppedByte g (wholeImage g info addr size) f string (flashGetBlk g addr) n junk)) := by
  obtain ⟨hblk, hstart⟩ := start_le_addr hl hu
  have hpsi : info.persistent.startBlk < g.sec.length := hinfo ▸ persistent_lt pTag
  constructor
  · intro htrue
    rcases imageSet_ends f string hblk hsize with hend | ⟨n, hw⟩ | ⟨n, junk, hleft⟩
    · exact .inl ((imageSet_none_iff f string hblk hsize hpsi).mp hend)
    · exact .inr (.inl ⟨n, hw, .inr ((truthful_written f string hblk hsize hstart hpsi hw).mp htrue)⟩)
    · exact .inr (.inr ⟨n, junk, hleft, (truthful_leftAt f string hblk hsize hstart hleft).mp htrue⟩)
  · rintro (hend | ⟨n, hw, hcases⟩ | ⟨n, junk, hleft, hiff⟩)
    · intro r hret
      rw [(imageSet_none_iff f string hblk hsize hpsi).mpr hend] at hret
      cases hret
    · refine (truthful_written f string hblk hsize hstart hpsi hw).mpr ?_
      rcases hcases with ⟨haligned, hfit⟩ | hsame
      · have htotal := blkStart_le_total (g := g) (flashGetBlk g addr + n + 1)
        refine ⟨by omega, fun k h1 h2 => ?_⟩
        rw [completedByte, if_pos (by omega)]
        exact congrArg string (by omega)
      · exact hsame
    · exact (truthful_leftAt f string hblk hsize hstart hleft).mpr hiff

theorem second_sector_fails :
    Truthful demoFlash (kerSysFlashInit demoFlash 24 (some blankTag))
      ⟨fun _ => 0, [none, some fun _ => 0xff], []⟩ (65536 + demoFlash.flashBase) (fun _ => 7) 100000 := by
  have hblk : flashGetBlk demoFlash (65536 + demoFlash.flashBase) = 1 := by decide
  have hpsi : (kerSysFlashInit demoFlash 24 (some blankTag)).persistent.startBlk = 63 := by decide
  refine (image_result_iff rfl (by decide) (by decide) (by decide) _ _).mpr (.inr (.inr ⟨1, some fun _ => 0xff, ?_, ?_⟩))
  · rw [LeftAt, hblk]
    refine ⟨by decide, ⟨.inr (by decide), fun _ k hk => ?_, fun k hk => ?_⟩, .inr ⟨fun h => ?_, _, rfl, rfl⟩⟩
    · obtain rfl : k = 0 := by omega
      rw [hpsi]
      decide
    · obtain rfl : k = 0 := by omega
      decide
    · exact absurd (h.2.1.trans hpsi) (by decide)
  · rw [hblk]
    refine iff_of_false (fun h => absurd h.2 (by decide)) fun h => ?_
    have hbyte := h.2 65536 (by decide) (by decide)
    revert hbyte
    decide

theorem first_sector_fails_with_zero :
    let info := kerSysFlashInit demoFlash 24 (some blankTag)
    let failed := kerSysBcmImageSet demoFlash info ⟨fun _ => 0xff, [some fun _ => 0xff], []⟩ demoFlash.flashBase
      (fun _ => 7) 1
    let moved := kerSysBcmImageSet demoFlash info (fresh fun _ => 0xff) (65552 + demoFlash.flashBase) (fun _ => 7) 8
    (failed.1 = some 0 ∧ failed.2.mem 0 = 0xff) ∧ moved.1 = some 0 ∧ moved.2.mem 65552 = 0xff := by
  have hpsi : (kerSysFlashInit demoFlash 24 (some blankTag)).persistent.startBlk = 63 := by decide
  have hin : (kerSysFlashInit demoFlash 24 (some blankTag)).persistent.startBlk < demoFlash.sec.length := by decide
  have hfirst : flashGetBlk demoFlash demoFlash.flashBase = 0 := by decide
  have hsecond : flashGetBlk demoFlash (65552 + demoFlash.flashBase) = 1 := by decide
  have hleft : LeftAt demoFlash (kerSysFlashInit demoFlash 24 (some blankTag))
      ⟨fun _ => 0xff, [some fun _ => 0xff], []⟩ demoFlash.flashBase 1 0 (some fun _ => 0xff) := by
    rw [LeftAt, hfirst]
    exact ⟨by decide, reaches_zero _, .inr ⟨fun h => absurd (h.2.1.trans hpsi) (by decide), _, rfl, rfl⟩⟩
  have hwritten : Written demoFlash (kerSysFlashInit demoFlash 24 (some blankTag)) (fresh fun _ => 0xff)
      (65552 + demoFlash.flashBase) 8 0 := by
    rw [Written, hsecond]
    exact ⟨by decide, reaches_zero _, by decide, fun h => absurd (h.2.1.trans hpsi) (by decide), .inr (by decide)⟩
  obtain ⟨⟨r, hret, hzero⟩, hmem⟩ := imageSet_leftAt _ (fun _ => 7) hfirst.ge Int.one_pos hleft
  obtain ⟨hret', hmem'⟩ := imageSet_written _ (fun _ => 7) (show 0 ≤ flashGetBlk demoFlash (65552 + demoFlash.flashBase) by
    rw [hsecond]; decide) (by decide) hwritten
  refine ⟨⟨?_, ?_⟩, hret', ?_⟩
  · rw [hret, hzero.mpr ⟨by decide, by rw [hfirst]; rfl⟩]
  · rw [hmem (by rw [hfirst]; decide) 0 (by rw [hfirst]; decide) (by decide), hfirst]
    decide
  · rw [hmem' (.inl hin) 65552 (by rw [hsecond]; decide) (by decide), hsecond]
    decide

end Set

end AliceModem.ImageResult
