import AliceModem.Board.CompletedUpgrade

namespace AliceModem.InterruptedUpgrade

open Words Hwdefs Sectors ByteMemory Device SharedBlks Regions Nvram ImageTag ImageSet ImageTrace Upgrade Layout
  CompletedUpgrade Vsprintf

variable (g : Geometry) (info : FlashAddrInfo)

def upgradeOps (m : Mem Byte) (p : Plan) : List Op :=
  (kerSysBcmImageSet g info (fresh m) p.dest p.image p.size).2.trace

/-- With the power lost after `k` accesses, the old image is booted, or the new
one once all of it has been written. -/
def SafeAfter (m : Mem Byte) (p : Plan) (k : Nat) : Prop :=
  let m' := replay g m ((upgradeOps g info m p).take k)
  getBootImageTag g info m' = getBootImageTag g info m ∨
  getBootImageTag g info m' = some (tagOf p.image) ∧
    ∀ i, blkStart g (flashGetBlk g p.dest) ≤ i → i < blkStart g (flashGetBlk g p.dest) + p.size →
      Written g ((upgradeOps g info m p).take k) i

/-- An image is booted from the partition `q`, and the upgrade goes to `r`. -/
structure Target (m imagePtr : Mem Byte) (p : Plan) (q r : Nat) : Prop where
  plan : plan g info m imagePtr = some p
  boot : bootImage g info m = q
  other : q = 1 ∧ r = 2 ∨ q = 2 ∧ r = 1
  dest : flashGetBlk g p.dest = partitionBlk g info r
  size : 256 ≤ p.size

variable {g info}

theorem apply_erase (m : Mem Byte) {c : Int} (hl : 0 ≤ c) (hu : c < g.sec.length) {i : Int} (h1 : blkStart g c ≤ i)
    (h2 : i < blkStart g c + flashGetSectorSize g c) : Op.apply g m (.erase (uint16 c)) i = 0xff := by
  have hlen := sectorLength_eq hl hu
  rw [Op.apply, sectorBase_eq hl hu]
  exact fill_inside _ _ _ _ _ h1 (by omega)

theorem bootImage_previous {m : Mem Byte} {q r : Nat} (hqr : q = 1 ∧ r = 2 ∨ q = 2 ∧ r = 1) {t u : FileTag}
    (ht : getTagFromPartition g info m q = some t) (hu : getTagFromPartition g info m r = some u)
    (hlt : sequence t < sequence u)
    (hprev : bootPartition (szBootline (readNvramData g info m).2) ≠ bootLatestImage) :
    bootImage g info m = q := by
  rcases hqr with ⟨rfl, rfl⟩ | ⟨rfl, rfl⟩
  · simp only [bootImage, ht, hu, if_neg hprev]
    rw [if_neg (by omega)]
  · simp only [bootImage, ht, hu, if_neg hprev]
    rw [if_pos hlt]

section

variable {m imagePtr : Mem Byte} {p : Plan} {q r : Nat} (ht : Target g info m imagePtr p q r)

include ht

theorem Target.booted :
    ∃ t, getTagFromPartition g info m q = some t ∧ getBootImageTag g info m = some t := by
  have hother := ht.other
  rw [getBootImageTag, ht.boot]
  rcases bootImage_cases g info m with ⟨-, -, hb⟩ | ⟨t, h, hb⟩ | ⟨t, h, hb, -⟩ <;> rw [ht.boot] at hb
  · omega
  · subst hb
    exact ⟨t, h, h⟩
  · subst hb
    exact ⟨t, h, h⟩

variable (hi : Initialised g info) (hseq : SequencesBelow g info m) {t : FileTag}
  (hold : getTagFromPartition g info m q = some t)

include hi hseq hold

theorem Target.newer : sequence t < sequence (tagOf p.image) := by
  have hother := ht.other
  rw [plan_sequence hi ht.plan hseq]
  exact (updateImageSequenceNumber_gt hseq).2.2 q t hold (by omega)

theorem Target.new_ne_old : tagOf p.image ≠ t := by
  have hlt := ht.newer hi hseq hold
  intro he
  rw [he] at hlt
  exact lt_irrefl _ hlt

theorem Target.complete {k : Nat} (hsafe : SafeAfter g info m p k)
    (hnow : bootImage g info (replay g m ((upgradeOps g info m p).take k)) = r)
    (hnew : getTagFromPartition g info (replay g m ((upgradeOps g info m p).take k)) r = some (tagOf p.image)) {i : Int}
    (hl : blkStart g (partitionBlk g info r) ≤ i) (hu : i < blkStart g (partitionBlk g info r) + p.size) :
    Written g ((upgradeOps g info m p).take k) i := by
  obtain ⟨t', hold', hboot⟩ := ht.booted
  obtain rfl := Option.some.inj (hold.symm.trans hold')
  rw [SafeAfter, getBootImageTag, hnow, hnew, hboot, ht.dest] at hsafe
  rcases hsafe with h | ⟨-, h⟩
  · exact absurd (Option.some.inj h) (ht.new_ne_old hi hseq hold)
  · exact h i hl hu

end

structure Starts (g : Geometry) (blk : Int) (p : Plan) (ops : List Op) (bs : List Byte) (rest : List Op) :
    Prop where
  eq : ops = .erase (uint16 blk) :: .write (uint16 blk) 0 bs :: rest
  len : bs.length ≤ flashGetSectorSize g blk
  bytes : ∀ i : Nat, i < p.size → i < flashGetSectorSize g blk → i < bs.length ∧ bs.getD i default = p.image i
  later : ∀ op ∈ rest, Reached g blk p.size op ∧ blk < op.sector
  single : p.size ≤ flashGetSectorSize g blk → rest = []

section

variable {m imagePtr : Mem Byte} {p : Plan} {q r : Nat} (hi : Initialised g info) (hp : Partitioned g info)
  (ht : Target g info m imagePtr p q r)

include hi hp ht

theorem Target.blk_pos : 0 < partitionBlk g info q ∧ 0 < partitionBlk g info r := by
  have hother := ht.other
  exact ⟨hp.blk_pos hi (by omega), hp.blk_pos hi (by omega)⟩

theorem Target.reached : ∀ op ∈ upgradeOps g info m p, Reached g (partitionBlk g info r) p.size op := by
  have hpos := (ht.blk_pos hi hp).2
  obtain ⟨ops, hruns, hop⟩ := kerSysBcmImageSet_runs (fresh m) (plan_not_whole hi ht.plan)
    (by rw [ht.dest]; omega) p.image
  rw [upgradeOps, hruns.trace, ← ht.dest]
  exact fun op h => (hop op h).1

theorem Target.starts : upgradeOps g info m p = [] ∧ partitionBlk g info r = info.persistent.startBlk ∨
    ∃ bs rest, Starts g (partitionBlk g info r) p (upgradeOps g info m p) bs rest := by
  have hpos := (ht.blk_pos hi hp).2
  have hsize := ht.size
  rw [upgradeOps, ← ht.dest]
  rcases kerSysBcmImageSet_first (fresh m) rfl (plan_not_whole hi ht.plan) p.image (by omega)
    (by rw [ht.dest]; omega) with ⟨h, hblk⟩ | ⟨bs, rest, hruns, h1, h2, h3, h4⟩
  · rw [h]
    exact .inl ⟨rfl, hblk⟩
  · exact .inr ⟨bs, rest, hruns.trace, h1, h2, h3, h4⟩

theorem Target.erased {ops : List Op} {bs : List Byte} {rest : List Op}
    (hs : Starts g (partitionBlk g info r) p ops bs rest) :
    getTagFromPartition g info (replay g m (ops.take 1)) r = none := by
  obtain ⟨-, hr⟩ := ht.blk_pos hi hp
  have hsect := flashGetSectorSize_ge (g := g) hr.le (partitionBlk_lt r)
  apply erased_tag_invalid hr.le
  intro i h
  rw [hs.eq]
  exact apply_erase m hr.le (partitionBlk_lt r) (by omega) (by omega)

variable (hfit : blkStart g (partitionBlk g info r) + p.size ≤ flashGetTotalSize g)

include hfit

theorem Target.nvram {ops : List Op} (hops : ∀ op ∈ ops, Reached g (partitionBlk g info r) p.size op) :
    readNvramData g info (replay g m ops) = readNvramData g info m := by
  have hpos := (ht.blk_pos hi hp).2
  have hfirst := blkStart_mono (g := g) (show 1 ≤ partitionBlk g info r by omega)
  apply readNvramData_congr hi
  intro i h
  exact replay_outside (fun op hop => (hops op hop).inside) m
    (fun op hop => (hops op hop).outside (partitionBlk_lt r) hfit (.inl (by omega)))

theorem Target.new_tag {ops : List Op} {bs : List Byte} {rest : List Op}
    (hs : Starts g (partitionBlk g info r) p ops bs rest) (k : Nat) :
    getTagFromPartition g info (replay g m (ops.take (k + 2))) r = some (tagOf p.image) := by
  obtain ⟨-, hr⟩ := ht.blk_pos hi hp
  have hsize := ht.size
  have hsect := flashGetSectorSize_ge (g := g) hr.le (partitionBlk_lt r)
  have hnext := blkStart_succ (g := g) hr.le (partitionBlk_lt r)
  apply getTagFromPartition_copied hr (partitionBlk_lt r) (plan_valid hi ht.plan)
  intro i h
  obtain ⟨hlen, hbyte⟩ := hs.bytes i (by omega) (by omega)
  have hops : ops.take (k + 2) = [.erase (uint16 (partitionBlk g info r)),
      .write (uint16 (partitionBlk g info r)) 0 bs] ++ rest.take k := by
    rw [hs.eq]
    rfl
  have hmem (op : Op) (hop : op ∈ rest.take k) := hs.later op (List.mem_of_mem_take hop)
  rw [hops, replay_append, replay_outside (fun op hop => (hmem op hop).1.inside)]
  · rw [replay_sector m hr.le (partitionBlk_lt r) hs.len, if_pos (by omega), add_sub_cancel_left, Int.toNat_natCast,
      hbyte]
  · intro op hop
    obtain ⟨hreach, hlt⟩ := hmem op hop
    have hsec := Reached.sector_lt hreach (partitionBlk_lt r) hfit
    have hbase := (sector_span hsec).1
    have hmono := blkStart_mono (g := g) (show partitionBlk g info r + 1 ≤ op.sector by omega)
    exact .inl (by omega)

variable (hclear : partitionBlk g info q < partitionBlk g info r ∨
  blkStart g (partitionBlk g info r) + p.size ≤ blkStart g (partitionBlk g info q))

include hclear

theorem Target.booted_kept {ops : List Op} (hops : ∀ op ∈ ops, Reached g (partitionBlk g info r) p.size op) :
    getTagFromPartition g info (replay g m ops) q = getTagFromPartition g info m q := by
  obtain ⟨hq, hr⟩ := ht.blk_pos hi hp
  have hsize := ht.size
  apply getTagFromPartition_kept hq.le (partitionBlk_lt q)
  intro i h1 h2
  refine replay_outside (fun op hop => (hops op hop).inside) m
    (fun op hop => (hops op hop).outside (partitionBlk_lt r) hfit ?_)
  rcases hclear with hlt | hend
  · have hsect := flashGetSectorSize_ge (g := g) hq.le (partitionBlk_lt q)
    have hnext := blkStart_succ (g := g) hq.le (partitionBlk_lt q)
    have hmono := blkStart_mono (g := g) (show partitionBlk g info q + 1 ≤ partitionBlk g info r by omega)
    exact .inl (by omega)
  · have hlt : partitionBlk g info r < partitionBlk g info q := by
      by_contra hge
      have hmono := blkStart_mono (g := g) (not_lt.mp hge)
      omega
    exact .inr ⟨_, hlt, (partitionBlk_lt q).le, hend, h1⟩

variable (hseq : SequencesBelow g info m)

include hseq

theorem Target.newest (hlatest : bootPartition (szBootline (readNvramData g info m).2) = bootLatestImage) {ops : List Op}
    (hops : ∀ op ∈ ops, Reached g (partitionBlk g info r) p.size op)
    (hnew : getTagFromPartition g info (replay g m ops) r = some (tagOf p.image)) :
    bootImage g info (replay g m ops) = r := by
  have hother := ht.other
  refine bootImage_newest (k := r) (j := q) (by omega) hnew (fun u hu => ?_) (by rw [ht.nvram hi hp hfit hops, hlatest])
  rw [ht.booted_kept hi hp hfit hclear hops] at hu
  exact ht.newer hi hseq hu

theorem Target.safe (hone : p.size ≤ flashGetSectorSize g (partitionBlk g info r) ∨
      bootPartition (szBootline (readNvramData g info m).2) ≠ bootLatestImage) (k : Nat) :
    SafeAfter g info m p k := by
  have hops := ht.reached hi hp
  have htake (op : Op) (h : op ∈ (upgradeOps g info m p).take k) := hops op (List.mem_of_mem_take h)
  have hqr := ht.other
  obtain ⟨t, hold, hboot⟩ := ht.booted
  have hnvram := ht.nvram hi hp hfit htake
  have hkept := ht.booted_kept hi hp hfit hclear htake
  rw [SafeAfter, hboot]
  rcases ht.starts hi hp with ⟨hnil, -⟩ | ⟨bs, rest, hs⟩
  · left
    rw [hnil, List.take_nil]
    exact hboot
  -- the booted tag is still there, so only the new one can change the outcome
  have hstays (h : bootImage g info (replay g m ((upgradeOps g info m p).take k)) = q) :
      getBootImageTag g info (replay g m ((upgradeOps g info m p).take k)) = some t := by
    rw [getBootImageTag, h, hkept, hold]
  rcases k with _ | _ | k
  · exact .inl hboot
  · exact .inl (hstays (bootImage_only hqr (hkept.trans hold) (ht.erased hi hp hs)))
  · have hnew := ht.new_tag hi hp hfit hs k
    by_cases hprev : bootPartition (szBootline (readNvramData g info m).2) = bootLatestImage
    · right
      have hsmall := hone.resolve_right (not_not.mpr hprev)
      have hlatest := ht.newest hi hp hfit hclear hseq hprev htake hnew
      refine ⟨by rw [getBootImageTag, hlatest, hnew], fun i h1 h2 => ?_⟩
      rw [ht.dest] at h1 h2
      obtain ⟨hr0, hr⟩ := ht.blk_pos hi hp
      obtain ⟨hlen, -⟩ := hs.bytes (i - blkStart g (partitionBlk g info r)).toNat (by omega) (by omega)
      refine ⟨uint16 (partitionBlk g info r), 0, bs, ?_, ?_, ?_⟩
      · rw [hs.eq]
        simp
      · rw [sectorBase_eq hr.le (partitionBlk_lt r)]
        omega
      · rw [sectorBase_eq hr.le (partitionBlk_lt r)]
        omega
    · exact .inl (hstays (bootImage_previous hqr (hkept.trans hold) hnew
        (ht.newer hi hseq hold) (by rwa [hnvram])))

omit hclear in
theorem Target.unsafe_reach {bs : List Byte} {rest : List Op}
    (hs : Starts g (partitionBlk g info r) p (upgradeOps g info m p) bs rest)
    (hlt : partitionBlk g info r < partitionBlk g info q)
    (hreach : blkStart g (partitionBlk g info q) < blkStart g (partitionBlk g info r) + p.size)
    (hpsi : partitionBlk g info q < info.persistent.startBlk) : ∃ k, ¬ SafeAfter g info m p k := by
  obtain ⟨hq, hr⟩ := ht.blk_pos hi hp
  have hsize := ht.size
  obtain ⟨t, hold, -⟩ := ht.booted
  have hqn : partitionBlk g info q < g.sec.length := partitionBlk_lt q
  have hr16 := uint16_sector hr.le (partitionBlk_lt r).le
  have hq16 := uint16_sector hq.le hqn.le
  obtain ⟨pre, post, hruns, hpre⟩ := kerSysBcmImageSet_reaches (fresh m) rfl (plan_not_whole hi ht.plan) p.image
    (by omega) (c := partitionBlk g info q) (by rw [ht.dest]; omega) (by rw [ht.dest]; omega) hqn
    (by rw [ht.dest]; exact hreach) (.inr (.inl hpsi))
  have hops : upgradeOps g info m p = pre ++ .erase (uint16 (partitionBlk g info q)) :: post := hruns.trace
  rw [ht.dest] at hpre
  -- the sector of the new tag comes first
  obtain ⟨pre', rfl⟩ : ∃ pre', pre = .erase (uint16 (partitionBlk g info r)) ::
      .write (uint16 (partitionBlk g info r)) 0 bs :: pre' := by
    rw [hs.eq] at hops
    rcases pre with _ | ⟨a, _ | ⟨b, pre'⟩⟩
    · simp only [List.nil_append, List.cons.injEq, Op.erase.injEq] at hops
      omega
    · simp at hops
    · simp only [List.cons_append, List.cons.injEq] at hops
      exact ⟨pre', by rw [← hops.1, ← hops.2.1]⟩
  refine ⟨pre'.length + 1 + 2, ?_⟩
  have htake : (upgradeOps g info m p).take (pre'.length + 1 + 2) =
      (.erase (uint16 (partitionBlk g info r)) :: .write (uint16 (partitionBlk g info r)) 0 bs :: pre') ++
        [.erase (uint16 (partitionBlk g info q))] := by
    rw [hops]
    simp [List.take_append, List.take_of_length_le]
  have hnew := ht.new_tag hi hp hfit hs (pre'.length + 1)
  have hgone : getTagFromPartition g info
      (replay g m ((upgradeOps g info m p).take (pre'.length + 1 + 2))) q = none := by
    have hsect := flashGetSectorSize_ge (g := g) hq.le hqn
    apply erased_tag_invalid hq.le
    intro i h
    rw [htake, replay_append]
    exact apply_erase _ hq.le hqn (by omega) (by omega)
  have hother := ht.other
  have hnow := bootImage_only (q := r) (r := q) (by omega) hnew hgone
  intro hsafe
  obtain ⟨s, offset, cs, hmem, h1, h2⟩ := ht.complete hi hseq hold hsafe hnow hnew (blkStart_mono hlt.le) hreach
  rw [htake, List.mem_append, List.mem_singleton] at hmem
  obtain ⟨⟨-, hin⟩, h3, h4⟩ := hpre _ (hmem.resolve_right (by simp))
  simp only [Op.sector] at h3 h4
  have hend := (sector_span (g := g) (s := s) (by omega)).2
  have hmono := blkStart_mono (g := g) (show (s : Int) + 1 ≤ partitionBlk g info q by omega)
  omega

theorem Target.unsafe_latest {bs : List Byte} {rest : List Op}
    (hs : Starts g (partitionBlk g info r) p (upgradeOps g info m p) bs rest)
    (hlong : flashGetSectorSize g (partitionBlk g info r) < p.size)
    (hlatest : bootPartition (szBootline (readNvramData g info m).2) = bootLatestImage) :
    ¬ SafeAfter g info m p 2 := by
  obtain ⟨-, hr⟩ := ht.blk_pos hi hp
  obtain ⟨t, hold, -⟩ := ht.booted
  have hnew := ht.new_tag hi hp hfit hs 0
  have hnow := ht.newest hi hp hfit hclear hseq hlatest
    (fun op h => ht.reached hi hp op (List.mem_of_mem_take h)) hnew
  intro hsafe
  have hsect := flashGetSectorSize_nonneg (g := g) (partitionBlk g info r)
  obtain ⟨s, offset, cs, hmem, h1, h2⟩ := ht.complete hi hseq hold hsafe hnow hnew
    (show _ ≤ blkStart g (partitionBlk g info r) + flashGetSectorSize g (partitionBlk g info r) by omega) (by omega)
  have hwrite : Op.write s offset cs = .write (uint16 (partitionBlk g info r)) 0 bs := by
    rw [hs.eq] at hmem
    simpa using hmem
  obtain ⟨rfl, rfl, rfl⟩ := Op.write.inj hwrite
  have hlen := hs.len
  rw [sectorBase_eq hr.le (partitionBlk_lt r)] at h2
  omega

end

/-- An upgrade of the partition that is not booted survives the loss of power
after any access if it stays off the booted tag and either fits into one sector
or the boot line does not ask for the latest image. For an image that ends
before the PSI this is needed as well: the tag is written first. -/
theorem interrupted_upgrade {m imagePtr : Mem Byte} {p : Plan} {q r : Nat} (hi : Initialised g info)
    (hp : Partitioned g info) (ht : Target g info m imagePtr p q r) (hseq : SequencesBelow g info m)
    (hfit : blkStart g (partitionBlk g info r) + p.size ≤ flashGetTotalSize g) :
    ((partitionBlk g info q < partitionBlk g info r ∨
        blkStart g (partitionBlk g info r) + p.size ≤ blkStart g (partitionBlk g info q)) ∧
      (p.size ≤ flashGetSectorSize g (partitionBlk g info r) ∨
        bootPartition (szBootline (readNvramData g info m).2) ≠ bootLatestImage) →
      ∀ k, SafeAfter g info m p k) ∧
    (blkStart g (partitionBlk g info r) + p.size ≤ blkStart g info.persistent.startBlk →
      (∀ k, SafeAfter g info m p k) →
      (partitionBlk g info q < partitionBlk g info r ∨
        blkStart g (partitionBlk g info r) + p.size ≤ blkStart g (partitionBlk g info q)) ∧
      (p.size ≤ flashGetSectorSize g (partitionBlk g info r) ∨
        bootPartition (szBootline (readNvramData g info m).2) ≠ bootLatestImage)) := by
  refine ⟨fun ⟨hclear, hone⟩ k => ht.safe hi hp hfit hclear hseq hone k, fun hpsi hsafe => ?_⟩
  have hsize := ht.size
  obtain ⟨bs, rest, hs⟩ : ∃ bs rest, Starts g (partitionBlk g info r) p (upgradeOps g info m p) bs rest := by
    rcases ht.starts hi hp with ⟨-, hblk⟩ | h
    · rw [← hblk] at hpsi
      omega
    · exact h
  have hclear : partitionBlk g info q < partitionBlk g info r ∨
      blkStart g (partitionBlk g info r) + p.size ≤ blkStart g (partitionBlk g info q) := by
    by_contra hnot
    push Not at hnot
    have hne := hp.distinct
    have hother := ht.other
    have hlt : partitionBlk g info r < partitionBlk g info q := by
      rcases hother with ⟨rfl, rfl⟩ | ⟨rfl, rfl⟩ <;> omega
    have hbefore : partitionBlk g info q < info.persistent.startBlk := by
      by_contra hge
      have hmono := blkStart_mono (g := g) (not_lt.mp hge)
      omega
    obtain ⟨k, hk⟩ := ht.unsafe_reach hi hp hfit hseq hs hlt hnot.2 hbefore
    exact hk (hsafe k)
  refine ⟨hclear, ?_⟩
  by_contra hnot
  push Not at hnot
  exact ht.unsafe_latest hi hp hfit hclear hseq hs hnot.1 hnot.2 (hsafe 2)

theorem bootedDemo_target {imagePtr : Mem Byte} {len : Nat} (himg : imgSize (tagOf imagePtr) = len)
    (hone : len ≤ availableSizeOneImg demoFlash (erasedInfo demoFlash) (tagOf imagePtr))
    (htwo : len ≤ availableSizeTwoImgs demoFlash (erasedInfo demoFlash)) (hlen : len < 2147483392)
    (hoff : rootfsOffset (tagOf imagePtr) ≤ (erasedInfo demoFlash).rootfsStartOffset) :
    ∃ p, Target demoFlash (erasedInfo demoFlash) bootedDemo imagePtr p 1 2 ∧ p.size = 256 + len := by
  obtain ⟨p, hp, hblk, hsize⟩ := bootedDemo_plan himg hone htwo hlen hoff
  exact ⟨p, ⟨hp, bootedDemo_boot, .inl ⟨rfl, rfl⟩, hblk, by omega⟩, hsize⟩

theorem longImage_target : ∃ p, Target demoFlash (erasedInfo demoFlash) bootedDemo longImage p 1 2 ∧
    p.size = 65792 :=
  bootedDemo_target (show imgSize (tagOf longImage) = 65536 by decide) (by decide)
    (by decide) (by decide) (by decide)

theorem bootedDemo_latest :
    bootPartition (szBootline (readNvramData demoFlash (erasedInfo demoFlash) bootedDemo).2) = bootLatestImage := by
  have hi : Initialised demoFlash (erasedInfo demoFlash) := kerSysFlashInit_initialised _ _ _
  have hraw : rawNvram bootedDemo = List.replicate nvramDataSize 0xff := by
    apply readBytes_replicate
    intro i h
    simp only [nvramDataSize] at h
    exact patch_outside _ _ _ _ (.inl (by simp only [nvramDataOffset]; omega))
  rw [readNvramData_eq hi, hraw]
  dsimp only
  decide +kernel

theorem longImage_fits :
    blkStart demoFlash (partitionBlk demoFlash (erasedInfo demoFlash) 2) + 65792 ≤ flashGetTotalSize demoFlash ∧
    flashGetSectorSize demoFlash (partitionBlk demoFlash (erasedInfo demoFlash) 2) < 65792 ∧
    partitionBlk demoFlash (erasedInfo demoFlash) 1 < partitionBlk demoFlash (erasedInfo demoFlash) 2 ∧
    partitionBlk demoFlash (erasedInfo demoFlash) 2 ≠ (erasedInfo demoFlash).persistent.startBlk := by
  decide

def sectorImage : Mem Byte := patch demoImage 106 (sprintfLu 65280)

theorem sectorImage_target : ∃ p, Target demoFlash (erasedInfo demoFlash) bootedDemo sectorImage p 1 2 ∧
    p.size = 65536 :=
  bootedDemo_target (show imgSize (tagOf sectorImage) = 65280 by decide) (by decide)
    (by decide) (by decide) (by decide)

theorem sectorImage_fits :
    blkStart demoFlash (partitionBlk demoFlash (erasedInfo demoFlash) 2) + 65536 ≤ flashGetTotalSize demoFlash ∧
    65536 ≤ flashGetSectorSize demoFlash (partitionBlk demoFlash (erasedInfo demoFlash) 2) := by
  decide

theorem interrupted_upgrade_sector :
    ∃ p, Target demoFlash (erasedInfo demoFlash) bootedDemo sectorImage p 1 2 ∧ p.size = 65536 ∧
      ∀ k, SafeAfter demoFlash (erasedInfo demoFlash) bootedDemo p k := by
  obtain ⟨p, ht, hsize⟩ := sectorImage_target
  obtain ⟨hfit, hone⟩ := sectorImage_fits
  obtain ⟨hsafe, -⟩ := interrupted_upgrade (kerSysFlashInit_initialised _ _ _) demoFlash_blks.2.2 ht
    bootedDemo_sequences (by rw [hsize]; exact hfit)
  exact ⟨p, ht, hsize, hsafe ⟨.inl longImage_fits.2.2.1, .inl (by rw [hsize]; exact hone)⟩⟩

theorem interrupted_upgrade_boots_part :
    ∃ p, Target demoFlash (erasedInfo demoFlash) bootedDemo longImage p 1 2 ∧
      (∃ t, getBootImageTag demoFlash (erasedInfo demoFlash) bootedDemo = some t) ∧
      ¬ SafeAfter demoFlash (erasedInfo demoFlash) bootedDemo p 2 := by
  have hi : Initialised demoFlash (erasedInfo demoFlash) := kerSysFlashInit_initialised _ _ _
  obtain ⟨p, ht, hsize⟩ := longImage_target
  obtain ⟨hfit, hlong, hlt, hpsi⟩ := longImage_fits
  obtain ⟨t, -, hboot⟩ := ht.booted
  refine ⟨p, ht, ⟨t, hboot⟩, ?_⟩
  rcases ht.starts hi demoFlash_blks.2.2 with ⟨-, h⟩ | ⟨bs, rest, hs⟩
  · exact absurd h hpsi
  · exact ht.unsafe_latest hi demoFlash_blks.2.2 (by rw [hsize]; exact hfit) (.inl hlt) bootedDemo_sequences hs
      (by rw [hsize]; exact hlong) bootedDemo_latest

end AliceModem.InterruptedUpgrade
