import AliceModem.Flash.SpiFlash

namespace AliceModem.SpiWrite

open Words Hwdefs ByteMemory SerialFlash Transition SpiFlash

section Even

variable {k : Kind} (hsize : k.size ∣ 4194304)

theorem even_maxwrite {s : Call} {a limit : Int} {r : Nat} (hlimit : 2 ≤ limit) (hn : s.nbytes = r) (hr : 2 ≤ r)
    (hr' : r < 2147483648) (hdst : s.dst = flashBase + a) (heven : a % 2 = 0) :
    ∃ w : Nat, (if maxwrite limit s % 2 = 1 then maxwrite limit s - 1 else maxwrite limit s) = w ∧
      2 ≤ w ∧ w ≤ r ∧ w % 2 = 0 ∧ a % 256 + w ≤ 256 := by
  have hlow : s.dst % 256 = a % 256 := by
    simp only [hdst, flashBase, imageBase]
    omega
  obtain ⟨m, hm, h2, hr, hpage⟩ : ∃ m, maxwrite limit s = m ∧ 2 ≤ m ∧ m ≤ r ∧ a % 256 + m ≤ 256 := by
    refine ⟨_, maxwrite_eq limit hn hr', ?_⟩
    omega
  rw [hm]
  by_cases hodd : m % 2 = 1
  · exact ⟨(m - 1).toNat, by rw [if_pos hodd]; omega, by omega⟩
  · exact ⟨m.toNat, by rw [if_neg hodd]; omega, by omega⟩

include hsize

theorem evenStep_done {s : Call} {a limit : Int} {r : Nat} (hlimit : 2 ≤ limit) (hn : s.nbytes = r) (hr : 2 ≤ r)
    (hr' : r < 2147483648) (hdst : s.dst = flashBase + a) (heven : a % 2 = 0) (h0 : 0 ≤ a) (ha : a + r ≤ k.size)
    (hfits : Fits s.chip.mem a (readBytes s.host s.pbuf r)) :
    ∃ w : Nat, 2 ≤ w ∧ w ≤ r ∧ w % 2 = 0 ∧
      Done s.chip (evenStep k limit s).chip a (readBytes s.host s.pbuf w) ∧
      (evenStep k limit s).host = s.host ∧ (evenStep k limit s).pbuf = s.pbuf + w ∧
      (evenStep k limit s).nbytes = ((r - w : Nat) : Int) ∧ (evenStep k limit s).dst = flashBase + (a + w) := by
  obtain ⟨w, hw, h2, hwr, hweven, hpage⟩ := even_maxwrite hlimit hn hr hr' hdst heven
  refine ⟨w, h2, hwr, hweven, ?_⟩
  rw [evenStep, hw, Int.toNat_natCast]
  refine ⟨?_, rfl, rfl, ?_, ?_⟩
  · refine send_done hsize hdst h0 (by omega) ?_ (by rwa [length_readBytes]) (hfits.take hwr)
    exact List.ne_nil_of_length_pos (by rw [length_readBytes]; omega)
  · rw [Call.advance, Call.send, hn]
    dsimp only
    rw [int32_of_range (by omega) (by omega)]
    omega
  · rw [Call.advance, Call.send, hdst]
    dsimp only
    rw [Int.add_assoc, uint32_dst hsize (by omega) (by omega)]

theorem lastStep_done {s : Call} {a limit btmp2 : Int} (hlimit : 2 ≤ limit) (hn : s.nbytes = 1) (hdst : s.dst = flashBase + a)
    (heven : a % 2 = 0) (h0 : 0 ≤ a) (ha : a + 2 ≤ k.size) (herased : s.chip.mem a = 0xff)
    (hlast : s.host (btmp2 + 1) = s.chip.mem (a + 1)) :
    Done s.chip (nxStep k limit btmp2 s).chip a [s.host s.pbuf] ∧ (nxStep k limit btmp2 s).nbytes = 0 ∧
      (nxStep k limit btmp2 s).pbuf = btmp2 + 2 := by
  have hredirect : redirect btmp2 s =
      { s with host := patch s.host btmp2 [s.host s.pbuf], pbuf := btmp2, nbytes := 2 } := if_pos hn
  have hbytes : readBytes (patch s.host btmp2 [s.host s.pbuf]) btmp2 2 = [s.host s.pbuf, s.chip.mem (a + 1)] := by
    rw [readBytes_succ, readBytes_succ, patch_inside _ _ _ _ le_rfl (by simp), patch_outside _ _ _ _ (.inr (by simp)),
      hlast, Int.sub_self]
    rfl
  have hfits : Fits s.chip.mem a [s.host s.pbuf, s.chip.mem (a + 1)] :=
    fits_pair (by rw [herased]; exact UInt8.neg_one_and) UInt8.and_self
  obtain ⟨w, h2, hw2, -, hdone, -, hpbuf, hnbytes, -⟩ := evenStep_done hsize (s := redirect btmp2 s) (r := 2) hlimit
    (by rw [hredirect]; rfl) le_rfl (by decide) (by rw [hredirect]; exact hdst) heven h0 ha
    (by rw [hredirect]; dsimp only; rwa [hbytes])
  obtain rfl : w = 2 := Nat.le_antisymm hw2 h2
  rw [← nxStep] at hdone hpbuf hnbytes
  rw [hredirect] at hdone hpbuf
  dsimp only at hdone hpbuf
  rw [hbytes] at hdone
  exact ⟨hdone.of_behind, hnbytes, hpbuf⟩

theorem nxLoop_ends {s : Call} {a limit btmp2 : Int} {r : Nat} (hlimit : 2 ≤ limit) (hn : s.nbytes = r) (hr : r < 2147483648)
    (hdst : s.dst = flashBase + a) (heven : a % 2 = 0) (h0 : 0 ≤ a) (ha : a + r + r % 2 ≤ k.size)
    (herased : ∀ i, a ≤ i → i < a + r → s.chip.mem i = 0xff)
    (hlast : r % 2 = 1 → s.host (btmp2 + 1) = s.chip.mem (a + r)) :
    ∃ s', Ends (fun s : Call => s.nbytes ≠ 0) (nxStep k limit btmp2) s s' ∧
      Done s.chip s'.chip a (readBytes s.host s.pbuf r) ∧ s'.pbuf = if r % 2 = 1 then btmp2 + 2 else s.pbuf + r := by
  induction r using Nat.strong_induction_on generalizing s a with
  | _ r ih =>
      obtain rfl | rfl | hlong : r = 0 ∨ r = 1 ∨ 2 ≤ r := by omega
      · exact ⟨s, .stop (by rw [hn]; rfl), Done.refl _ _, by simp⟩
      · obtain ⟨hdone, hzero, hpbuf⟩ := lastStep_done hsize hlimit hn hdst heven h0 (by omega)
          (herased a le_rfl (by omega)) (hlast rfl)
        refine ⟨_, .round (by rw [hn]; rfl) (.stop (by rw [hzero]; rfl)), ?_, hpbuf⟩
        rwa [readBytes_succ]
      · have hfits : Fits s.chip.mem a (readBytes s.host s.pbuf r) :=
          fits_erased fun i h1 h2 => herased i h1 (by rwa [length_readBytes] at h2)
        have hstep : nxStep k limit btmp2 s = evenStep k limit s := by
          rw [nxStep, redirect, if_neg (by omega)]
        obtain ⟨w, h2, hwr, hweven, hdone, hhost, hpbuf, hnbytes, hdst'⟩ :=
          evenStep_done hsize hlimit hn hlong hr hdst heven h0 (by omega) hfits
        obtain ⟨s', hends, hrest, hptr⟩ := ih (r - w) (by omega) hnbytes (by omega) hdst' (by omega) (by omega) (by omega)
          (fun i h1 h2 => (hdone.behind h1).trans (herased i (by omega) (by omega)))
          (fun hodd => by rw [hhost, hdone.behind (by omega), hlast (by omega)]; exact congrArg _ (by omega))
        refine ⟨s', .round (by rw [hn]; exact decide_eq_true (by omega)) (hstep ▸ hends), ?_, ?_⟩
        · rw [hhost, hpbuf] at hrest
          rw [← Nat.add_sub_cancel' hwr]
          exact hdone.append hrest
        · rw [hptr, hpbuf, show (r - w) % 2 = r % 2 by omega]
          split_ifs
          · rfl
          · omega

end Even

/-- `n` bytes at an offset of a sector are inside of the part, with the byte behind them if they end at an odd address. -/
structure Inside (k : Kind) (p : Part) (sector offset n : Nat) : Prop where
  size : k.size ∣ 4194304
  base_nonneg : 0 ≤ p.base sector
  base_even : p.base sector % 2 = 0
  room : p.base sector + offset + n + (offset + n) % 2 ≤ k.size

/-- The buffer and the array `btmp2` on the stack are at different addresses. -/
structure Apart (buf btmp2 : Int) (n : Nat) : Prop where
  buf_nonneg : 0 ≤ buf
  buf_end : buf + n ≤ 4294967296
  btmp2_nonneg : 0 ≤ btmp2
  btmp2_end : btmp2 + 2 ≤ 4294967296
  apart : buf + n ≤ btmp2 ∨ btmp2 + 2 ≤ buf

section NexFlash

variable {k : Kind} {p : Part} {sector offset n : Nat} (hin : Inside k p sector offset n) (c : Chip) (host : Mem UInt8)
  (buf btmp2 : Int)

variable (k p sector offset n) in
def nxInit (c : Chip) (host : Mem UInt8) (buf btmp2 : Int) : Call :=
  nxStart k p sector offset btmp2 ⟨c, host, buf, n, uint32 (flashBase + p.base sector + offset)⟩

include hin

theorem Inside.dst : (uint32 (flashBase + p.base sector + offset) : Int) = flashBase + (p.base sector + offset) := by
  have := hin.room
  have := hin.base_nonneg
  rw [Int.add_assoc]
  exact uint32_dst hin.size (by omega) (by omega)

theorem nxTail_eq (pbuf dst : Int) : ∃ wel aai host',
    nxTail k p sector offset btmp2 ⟨c, host, pbuf, n, dst⟩ = ⟨{ c with wel := wel, aai := aai }, host', pbuf, n, dst⟩ ∧
    (∀ i, i ≠ btmp2 + 1 → host' i = host i) ∧
    ((offset + n) % 2 = 1 → host' (btmp2 + 1) = c.mem (p.base sector + offset + n)) := by
  have := hin.room
  have := hin.base_nonneg
  rw [nxTail]
  dsimp only
  by_cases hodd : (offset + n) % 2 = 1
  · have hread : spiFlashReadBuf k p sector (offset + n) 1 c =
        ({ c with wel := false, aai := none }, [c.mem (p.base sector + offset + n)]) := by
      rw [spiFlashReadBuf_eq hin.size _ _ _ (by omega) (by omega), readBytes_succ, ← Int.add_assoc]
      rfl
    rw [if_pos (by omega), hread]
    refine ⟨_, _, _, rfl, fun i hi => patch_outside _ _ _ _ ?_, fun _ => ?_⟩
    · rw [List.length_singleton]
      omega
    · rw [patch_inside _ _ _ _ le_rfl (by simp), Int.sub_self]
      rfl
  · rw [if_neg (by omega)]
    exact ⟨_, _, _, rfl, fun _ _ => rfl, fun h => absurd h hodd⟩

theorem nxHead_eq (hodd : offset % 2 = 1) :
    nxHead k p sector offset ⟨c, host, buf, n, uint32 (flashBase + p.base sector + offset)⟩ =
      ([c.mem (p.base sector + offset - 1), host buf],
        ⟨{ c with wel := false, aai := none }, host, buf + 1, n, flashBase + (p.base sector + offset - 1)⟩) := by
  have := hin.room
  have := hin.base_nonneg
  have hread : spiFlashReadBuf k p sector (offset - 1) 1 c =
      ({ c with wel := false, aai := none }, [c.mem (p.base sector + offset - 1)]) := by
    rw [spiFlashReadBuf_eq hin.size _ _ _ (by omega) (by omega), readBytes_succ, ← Int.add_sub_assoc]
    rfl
  have hdst : (uint32 (flashBase + (p.base sector + offset) - 1) : Int) = flashBase + (p.base sector + offset - 1) := by
    rw [Int.add_sub_assoc]
    exact uint32_dst hin.size (by omega) (by omega)
  rw [nxHead, if_pos hodd]
  dsimp only
  rw [hread, hin.dst, hdst]
  rfl

variable (offset n) in
omit hin in
structure Started (a : Int) (s : Call) : Prop where
  done : Done c s.chip a (readBytes host buf (offset % 2))
  pbuf : s.pbuf = buf + (offset % 2 : Nat)
  nbytes : s.nbytes = int32 (n - (offset % 2 : Nat))
  dst : s.dst = flashBase + (a + (offset % 2 : Nat))
  host : ∀ i, i ≠ btmp2 + 1 → s.host i = host i
  last : (offset + n) % 2 = 1 → s.host (btmp2 + 1) = c.mem (a + n)

theorem nxInit_even (heven : offset % 2 = 0) :
    Started offset n c host buf btmp2 (p.base sector + offset) (nxInit k p sector offset n c host buf btmp2) := by
  have hroom := hin.room
  have := hin.base_nonneg
  have hsmall := Int.le_of_dvd (by decide) hin.size
  obtain ⟨wel, aai, host', htail, hhost, hlast⟩ :=
    nxTail_eq hin c host btmp2 buf (uint32 (flashBase + p.base sector + offset))
  have hinit : nxInit k p sector offset n c host buf btmp2 =
      ⟨{ c with wel := wel, aai := aai }, host', buf, n, uint32 (flashBase + p.base sector + offset)⟩ := by
    rw [nxInit, nxStart, nxHead, if_neg (by omega)]
    dsimp only
    rw [htail]
    exact if_neg (by omega)
  rw [hinit]
  refine ⟨?_, ?_, ?_, ?_, hhost, hlast⟩
  · rw [heven]
    exact ⟨(patch_nil _ _).symm, id⟩
  · rw [heven, Int.natCast_zero, Int.add_zero]
  · rw [heven, Int.natCast_zero, Int.sub_zero, int32_of_range (by omega) (by omega)]
  · rw [heven, Int.natCast_zero, Int.add_zero]
    exact hin.dst

theorem nxInit_odd (hodd : offset % 2 = 1) (herased : c.mem (p.base sector + offset) = 0xff) :
    Started offset n c host buf btmp2 (p.base sector + offset) (nxInit k p sector offset n c host buf btmp2) := by
  have hroom := hin.room
  have := hin.base_nonneg
  have := hin.base_even
  obtain ⟨wel, aai, host', htail, hhost, hlast⟩ := nxTail_eq hin { c with wel := false, aai := none } host btmp2 (buf + 1)
    (flashBase + (p.base sector + offset - 1))
  have hinit : nxInit k p sector offset n c host buf btmp2 = nxWriteHead k offset
      [c.mem (p.base sector + offset - 1), host buf]
      ⟨{ c with wel := wel, aai := aai }, host', buf + 1, n, flashBase + (p.base sector + offset - 1)⟩ := by
    rw [nxInit, nxStart, nxHead_eq hin c host buf hodd]
    dsimp only
    rw [htail]
  have hfits : Fits c.mem (p.base sector + offset - 1) [c.mem (p.base sector + offset - 1), host buf] :=
    fits_pair UInt8.and_self (by rw [Int.sub_add_cancel, herased]; exact UInt8.neg_one_and)
  have hsent := send_done hin.size
    (s := ⟨{ c with wel := wel, aai := aai }, host', buf + 1, n, flashBase + (p.base sector + offset - 1)⟩) rfl (by omega)
    (by omega) (List.cons_ne_nil _ _) (by rw [List.length_cons, List.length_singleton]; omega) hfits
  have hdst : (uint32 (flashBase + (p.base sector + offset - 1) + 2) : Int) = flashBase + (p.base sector + offset + 1) := by
    rw [Int.add_assoc, show p.base sector + offset - 1 + 2 = p.base sector + offset + 1 by omega]
    exact uint32_dst hin.size (by omega) (by omega)
  rw [hinit, nxWriteHead, if_pos hodd]
  refine ⟨?_, ?_, ?_, ?_, hhost, hlast⟩
  · rw [hodd, readBytes_succ]
    exact Done.of_front ⟨hsent.mem, hsent.sound⟩
  · rw [hodd]
    rfl
  · rw [hodd]
    rfl
  · rw [hodd]
    exact hdst

theorem nxInit_started (herased : offset % 2 = 1 → c.mem (p.base sector + offset) = 0xff) :
    Started offset n c host buf btmp2 (p.base sector + offset) (nxInit k p sector offset n c host buf btmp2) := by
  rcases Nat.mod_two_eq_zero_or_one offset with heven | hodd
  · exact nxInit_even hin c host buf btmp2 heven
  · exact nxInit_odd hin c host buf btmp2 hodd (herased hodd)

theorem nx_ends (hcase : offset % 2 = 0 ∨ 1 ≤ n) (hapart : Apart buf btmp2 n)
    (herased : ∀ i, p.base sector + offset ≤ i → i < p.base sector + offset + n → c.mem i = 0xff) :
    ∃ s', Ends (fun s : Call => s.nbytes ≠ 0) (nxStep k (spiMsgData - cmdLen4) btmp2)
        (nxInit k p sector offset n c host buf btmp2) s' ∧
      Done c s'.chip (p.base sector + offset) (readBytes host buf n) ∧
      s'.pbuf = if (offset + n) % 2 = 1 then btmp2 + 2 else buf + n := by
  have hroom := hin.room
  have := hin.base_nonneg
  have := hin.base_even
  have hsmall := Int.le_of_dvd (by decide) hin.size
  have hstarted := nxInit_started hin c host buf btmp2 fun hodd => herased _ le_rfl (by omega)
  set s := nxInit k p sector offset n c host buf btmp2
  obtain ⟨r, hr⟩ : ∃ r, offset % 2 + r = n := ⟨n - offset % 2, by omega⟩
  have hnbytes : s.nbytes = r := by
    rw [hstarted.nbytes, int32_of_range (by omega) (by omega)]
    omega
  obtain ⟨s', hends, hdone, hpbuf⟩ := nxLoop_ends hin.size (s := s) (a := p.base sector + offset + (offset % 2 : Nat))
    (show 2 ≤ spiMsgData - cmdLen4 by decide) hnbytes (by omega) hstarted.dst (by omega) (by omega) (by omega)
    (fun i h1 h2 => (hstarted.done.behind h1).trans (herased i (by omega) (by omega)))
    (fun hodd => by rw [hstarted.last (by omega), hstarted.done.behind (by omega)]; exact congrArg _ (by omega))
  have hdata : readBytes s.host s.pbuf r = readBytes host (buf + (offset % 2 : Nat)) r := by
    rw [hstarted.pbuf]
    have := hapart.apart
    exact readBytes_congr fun i hi => hstarted.host _ (by omega)
  refine ⟨s', hends, ?_, ?_⟩
  · rw [hdata] at hdone
    rw [← hr]
    exact hstarted.done.append hdone
  · rw [hpbuf, hstarted.pbuf, show r % 2 = (offset + n) % 2 by omega]
    split_ifs
    · rfl
    · omega

end NexFlash

section AutoIncrement

variable (k : Kind) (first : Int → Int)

def Points (buf : Int) (s : Call) (a : Int) : Prop :=
  if s.pbuf = buf then s.chip.aai = none ∧ ∃ x, s.dst = flashBase + x ∧ 0 ≤ x ∧ x < k.size ∧ first x = a
  else s.chip.aai = some a

variable {k first} {op : UInt8} {width : Nat} {buf : Int} (hsize : k.size ∣ 4194304)
  (hop : ∀ (c : Chip) (args : List UInt8), c.receive k (op :: args) = c.auto k first args)

include hsize hop

variable (width) in
theorem aaiStep_chip {s : Call} {a : Int} (hpoints : Points k first buf s a) (hwel : s.chip.wel = true)
    (ha : a + width ≤ k.size) (herased : ∀ i, a ≤ i → i < a + width → s.chip.mem i = 0xff) :
    (aaiStep k op width buf s).chip = { s.chip with
      mem := patch s.chip.mem a (readBytes s.host s.pbuf width)
      aai := some (k.next^[width] a)
      log := s.chip.log ++ [⟨false, a, readBytes s.host s.pbuf width⟩] } := by
  have hfits : Fits s.chip.mem a (readBytes s.host s.pbuf width) :=
    fits_erased fun i h1 h2 => herased i h1 (by rwa [length_readBytes] at h2)
  have hinc : (aaiStep k op width buf s).chip = s.chip.increment k a (readBytes s.host s.pbuf width) := by
    rw [aaiStep]
    dsimp only
    rw [hop]
    rw [Points] at hpoints
    split_ifs at hpoints ⊢
    · obtain ⟨hnone, x, hdst, h0, hx, rfl⟩ := hpoints
      rw [hdst, addressBytes, List.cons_append, List.cons_append, List.cons_append, List.nil_append, Chip.auto_start hnone,
        address_eq hsize h0 hx]
    · exact Chip.auto_next hpoints _ _
  rw [hinc, Chip.increment_eq hwel hfits (by rwa [length_readBytes]), length_readBytes]

theorem aaiLoop_ends (hwidth : 0 < width) {s : Call} {a : Int} {r : Nat} (hn : s.nbytes = (r * width : Nat))
    (hsmall : r * width < 2147483648) (hpbuf : buf ≤ s.pbuf) (hpoints : r ≠ 0 → Points k first buf s a)
    (hwel : s.chip.wel = true) (ha : a + (r * width : Nat) ≤ k.size)
    (herased : ∀ i, a ≤ i → i < a + (r * width : Nat) → s.chip.mem i = 0xff) :
    ∃ s', Ends (fun s : Call => s.nbytes ≠ 0) (aaiStep k op width buf) s s' ∧
      Done s.chip s'.chip a (readBytes s.host s.pbuf (r * width)) ∧ s'.pbuf = s.pbuf + (r * width : Nat) := by
  induction r generalizing s a with
  | zero =>
      rw [Nat.zero_mul] at hn ⊢
      exact ⟨s, .stop (by rw [hn]; rfl), Done.refl _ _, by simp⟩
  | succ r ih =>
      rw [Nat.add_mul, Nat.one_mul, Nat.add_comm] at hn hsmall ha herased ⊢
      have hchip := aaiStep_chip width hsize hop (hpoints (Nat.succ_ne_zero r)) hwel (by omega)
        fun i h1 h2 => herased i h1 (by omega)
      have hdone : Done s.chip (aaiStep k op width buf s).chip a (readBytes s.host s.pbuf width) := by
        rw [hchip]
        refine ⟨rfl, sound_append ⟨List.ne_nil_of_length_pos ?_, fun h => nomatch h⟩⟩
        rwa [length_readBytes]
      have hpbuf' : (aaiStep k op width buf s).pbuf = s.pbuf + width := rfl
      have hn' : (aaiStep k op width buf s).nbytes = (r * width : Nat) := by
        rw [aaiStep]
        dsimp only
        rw [hn, int32_of_range (by omega) (by omega)]
        omega
      have hpoints' (hr : r ≠ 0) : Points k first buf (aaiStep k op width buf s) (a + width) := by
        have hpos : 0 < r * width := Nat.mul_pos (Nat.pos_of_ne_zero hr) hwidth
        rw [Points, if_neg (by omega), hchip, Kind.iterate_next (by omega)]
      obtain ⟨s', hends, hrest, hptr⟩ := ih hn' (by omega) (by omega) hpoints' (by rw [hchip]; exact hwel) (by omega)
        fun i h1 h2 => (hdone.behind h1).trans (herased i (by omega) (by omega))
      exact ⟨s', .round (by rw [hn]; exact decide_eq_true (by omega)) hends, hdone.append hrest, by omega⟩

omit hsize hop in
theorem word_never_ends {s s' : Call} (hodd : s.nbytes % 2 = 1) :
    ¬ Ends (fun s : Call => s.nbytes ≠ 0) (aaiStep k op 2 buf) s s' := by
  intro h
  obtain ⟨hodd', hstop⟩ := h.invariant (I := fun s => s.nbytes % 2 = 1)
    (fun s hs _ => by rw [aaiStep]; dsimp only; unfold int32; omega) hodd
  have hzero := of_decide_eq_false hstop
  omega

end AutoIncrement

section Writes

variable (p : Part) (evenWords : Bool) (sector offset n : Nat)

/-- The call returns `n`, the bytes are in the sector and nowhere else, and all commands were sound, if the
bytes there were erased. -/
def Writes : Prop :=
  ∀ (c : Chip) (host : Mem UInt8) (buf btmp2 : Int), c.aai = none → c.log = [] → Apart buf btmp2 n →
    (∀ i, p.base sector + offset ≤ i → i < p.base sector + offset + n → c.mem i = 0xff) →
      ∃ c', (∃ fuel, spiFlashWrite ⟨p.totalSize, evenWords⟩ p fuel sector offset host buf btmp2 n c = some ((n : Int), c')) ∧
        c'.mem = patch c.mem (p.base sector + offset) (readBytes host buf n) ∧ ∀ cmd ∈ c'.log, cmd.Sound

variable {p evenWords sector offset n}

theorem Apart.small (h : n ≤ 4194304) : Apart 4096 (4096 + n) n := by
  constructor <;> omega

def erasedChip : Chip := ⟨fun _ => 0xff, false, none, []⟩

theorem write_nx {k : Kind} (hfamily : p.family = .nx) {c : Chip} {host : Mem UInt8} {buf btmp2 : Int} {r : Int × Chip} :
    (∃ fuel, spiFlashWrite k p fuel sector offset host buf btmp2 n c = some r) ↔
      ∃ s', Ends (fun s : Call => s.nbytes ≠ 0) (nxStep k (spiMsgData - cmdLen4) btmp2)
        (nxInit k p sector offset n c host buf btmp2) s' ∧ (int32 (s'.pbuf - buf), s'.chip) = r := by
  simp only [spiFlashWrite, hfamily]
  exact ends_map

theorem nx_keeps_zero {k : Kind} {limit btmp2 i : Int} {s : Call} (h : s.chip.mem i = 0) :
    (nxStep k limit btmp2 s).chip.mem i = 0 := by
  have hredirect : (redirect btmp2 s).chip.mem i = 0 := by
    rw [redirect]
    split_ifs <;> exact h
  rw [nxStep, evenStep, Call.advance, Call.send, spiFlashUb]
  dsimp only
  exact Chip.receive_zero (Chip.receive_zero hredirect _) _

theorem not_writes_head (hfamily : p.family = .nx) (hin : Inside ⟨p.totalSize, evenWords⟩ p sector offset 0)
    (hodd : offset % 2 = 1) : ¬ Writes p evenWords sector offset 0 := by
  intro h
  obtain ⟨c', hrun, hmem, -⟩ := h erasedChip (fun _ => 0) 4096 4096 rfl rfl (Apart.small (Nat.zero_le _)) fun _ _ _ => rfl
  obtain ⟨s', hends, hresult⟩ := (write_nx hfamily).mp hrun
  have hstart := (nxInit_started hin erasedChip (fun _ => 0) 4096 4096 fun _ => rfl).done.mem
  rw [hodd] at hstart
  have hzero := (hends.invariant (I := fun s => s.chip.mem (p.base sector + offset) = 0) (fun s hs _ => nx_keeps_zero hs)
    (by rw [hstart, patch_inside _ _ _ _ le_rfl (by simp), Int.sub_self]; rfl)).1
  rw [← (Prod.mk.inj hresult).2] at hmem
  rw [hmem, patch_outside _ _ _ _ (.inr (by simp))] at hzero
  exact absurd hzero (show (0xff : UInt8) ≠ 0 by decide)

theorem writes_nx_iff (hfamily : p.family = .nx) (hin : Inside ⟨p.totalSize, evenWords⟩ p sector offset n) :
    Writes p evenWords sector offset n ↔ (offset + n) % 2 = 0 := by
  have hroom := hin.room
  have := hin.base_nonneg
  have hsmall := Int.le_of_dvd (by decide) hin.size
  constructor
  · intro h
    by_contra hne
    have hodd : (offset + n) % 2 = 1 := by omega
    rcases Nat.eq_zero_or_pos n with rfl | hpos
    · exact not_writes_head hfamily hin hodd h
    · have hapart : Apart 4096 (4096 + n) n := Apart.small (by omega)
      obtain ⟨c', hrun, -, -⟩ := h erasedChip (fun _ => 0) 4096 (4096 + n) rfl rfl hapart fun _ _ _ => rfl
      obtain ⟨s', hends, hresult⟩ := (write_nx hfamily).mp hrun
      obtain ⟨s'', hends', -, hpbuf⟩ := nx_ends hin erasedChip (fun _ => 0) 4096 (4096 + n) (.inr hpos) hapart fun _ _ _ => rfl
      obtain rfl := hends.unique hends'
      have hlen := (Prod.mk.inj hresult).1
      rw [hpbuf, if_pos hodd, int32_of_range (by omega) (by omega)] at hlen
      omega
  · intro heven c host buf btmp2 haai hlog hapart herased
    obtain ⟨s', hends, hdone, hpbuf⟩ := nx_ends hin c host buf btmp2 (by omega) hapart herased
    rw [if_neg (by omega)] at hpbuf
    refine ⟨s'.chip, (write_nx hfamily).mpr ⟨s', hends, ?_⟩, hdone.mem, hdone.sound ?_⟩
    · rw [hpbuf, add_sub_cancel_left, int32_of_range (by omega) (by omega)]
    · rw [hlog]
      exact fun _ h => nomatch h

end Writes

section SstWrites

variable {p : Part} {evenWords : Bool} {sector offset n : Nat} {k : Kind} {op : UInt8} {first : Int → Int} {width : Nat}

def sstInit (k : Kind) (p : Part) (sector offset n : Nat) (c : Chip) (host : Mem UInt8) (buf : Int) : Call :=
  ⟨spiFlashUb k c, host, buf, n, uint32 (flashBase + p.base sector + offset)⟩

theorem write_sst (hfamily : p.family = .sst) {buf : Int}
    (hstep : (if p.sstAaiWordProgram then aaiStep k aaiWord 2 buf else aaiStep k aaiByte 1 buf) = aaiStep k op width buf)
    {c : Chip} {host : Mem UInt8} {btmp2 : Int} {r : Int × Chip} :
    (∃ fuel, spiFlashWrite k p fuel sector offset host buf btmp2 n c = some r) ↔
      ∃ s', Ends (fun s : Call => s.nbytes ≠ 0) (aaiStep k op width buf) (sstInit k p sector offset n c host buf) s' ∧
        (int32 (s'.pbuf - buf), spiFlashResetUb k s'.chip) = r := by
  simp only [spiFlashWrite, hfamily, hstep]
  exact ends_map

variable (op first width) in
theorem sst_writes (hfamily : p.family = .sst) (hin : Inside k p sector offset n)
    (hstep : ∀ buf, (if p.sstAaiWordProgram then aaiStep k aaiWord 2 buf else aaiStep k aaiByte 1 buf) = aaiStep k op width buf)
    (hop : ∀ (c : Chip) (args : List UInt8), c.receive k (op :: args) = c.auto k first args) (hwidth : 0 < width)
    (hdvd : width ∣ n) {a : Int} (hfirst : n ≠ 0 → first (p.base sector + offset) = a) (ha : a + n ≤ k.size) {c : Chip}
    (haai : c.aai = none) (host : Mem UInt8) (buf btmp2 : Int) (herased : ∀ i, a ≤ i → i < a + n → c.mem i = 0xff) :
    ∃ c', (∃ fuel, spiFlashWrite k p fuel sector offset host buf btmp2 n c = some ((n : Int), c')) ∧
      Done c c' a (readBytes host buf n) := by
  have hroom := hin.room
  have hbase := hin.base_nonneg
  have hsmall := Int.le_of_dvd (by decide) hin.size
  obtain ⟨r, rfl⟩ : ∃ r, n = r * width := hdvd.imp fun r hr => hr.trans (Nat.mul_comm _ _)
  have hpoints (hr : r ≠ 0) : Points k first buf (sstInit k p sector offset (r * width) c host buf) a := by
    have hpos : 0 < r * width := Nat.mul_pos (Nat.pos_of_ne_zero hr) hwidth
    refine (if_pos rfl).mpr ⟨haai, _, hin.dst, by omega, by omega, hfirst (by omega)⟩
  obtain ⟨s', hends, hdone, hpbuf⟩ := aaiLoop_ends hin.size hop hwidth
    (s := sstInit k p sector offset (r * width) c host buf) rfl (by omega) le_rfl hpoints rfl ha herased
  refine ⟨spiFlashResetUb k s'.chip, (write_sst hfamily (hstep buf)).mpr ⟨s', hends, ?_⟩, hdone.mem, hdone.sound⟩
  rw [hpbuf, sstInit, add_sub_cancel_left, int32_of_range (by omega) (by omega)]

theorem writes_byte (hfamily : p.family = .sst) (hbyte : p.sstAaiWordProgram = false)
    (hin : Inside ⟨p.totalSize, evenWords⟩ p sector offset n) : Writes p evenWords sector offset n := by
  intro c host buf btmp2 haai hlog _ herased
  have hroom := hin.room
  obtain ⟨c', hrun, hdone⟩ := sst_writes aaiByte id 1 hfamily hin (fun buf => by rw [hbyte]; rfl) (fun _ _ => rfl)
    Nat.one_pos (Nat.one_dvd n) (a := p.base sector + offset) (fun _ => rfl) (by omega) haai host buf btmp2 herased
  exact ⟨c', hrun, hdone.mem, hdone.sound (by rw [hlog]; exact fun _ h => nomatch h)⟩

section Word

variable (hfamily : p.family = .sst) (hword : p.sstAaiWordProgram = true) (hin : Inside k p sector offset n)

omit hin in
include hword in
theorem word_step (buf : Int) :
    (if p.sstAaiWordProgram then aaiStep k aaiWord 2 buf else aaiStep k aaiByte 1 buf) = aaiStep k aaiWord 2 buf := if_pos hword

include hfamily hword hin

theorem word_writes (heven : n % 2 = 0) {a : Int} (hfirst : n ≠ 0 → k.wordAddress (p.base sector + offset) = a)
    (ha : a + n ≤ k.size) {c : Chip} (haai : c.aai = none) (host : Mem UInt8) (buf btmp2 : Int)
    (herased : ∀ i, a ≤ i → i < a + n → c.mem i = 0xff) :
    ∃ c', (∃ fuel, spiFlashWrite k p fuel sector offset host buf btmp2 n c = some ((n : Int), c')) ∧
      Done c c' a (readBytes host buf n) :=
  sst_writes aaiWord k.wordAddress 2 hfamily hin (word_step hword) (fun _ _ => rfl) Nat.two_pos
    (Nat.dvd_of_mod_eq_zero heven) hfirst ha haai host buf btmp2 herased

omit hin in
theorem word_unique {c : Chip} {host : Mem UInt8} {buf btmp2 : Int} {r r' : Int × Chip}
    (h : ∃ fuel, spiFlashWrite k p fuel sector offset host buf btmp2 n c = some r)
    (h' : ∃ fuel, spiFlashWrite k p fuel sector offset host buf btmp2 n c = some r') : r = r' := by
  obtain ⟨s, hends, hr⟩ := (write_sst hfamily (word_step hword buf)).mp h
  obtain ⟨s', hends', hr'⟩ := (write_sst hfamily (word_step hword buf)).mp h'
  rw [← hr, ← hr', hends.unique hends']

end Word

theorem writes_word_iff (hfamily : p.family = .sst) (hword : p.sstAaiWordProgram = true)
    (hin : Inside ⟨p.totalSize, evenWords⟩ p sector offset n) :
    Writes p evenWords sector offset n ↔ n % 2 = 0 ∧ (evenWords = true → n = 0 ∨ offset % 2 = 0) := by
  have hroom := hin.room
  have hbase := hin.base_nonneg
  have hbase' := hin.base_even
  have hsmall := Int.le_of_dvd (by decide) hin.size
  constructor
  · intro h
    obtain ⟨c', hrun, hmem, -⟩ := h erasedChip (fun _ => 0) 4096 (4096 + n) rfl rfl (Apart.small (by omega)) fun _ _ _ => rfl
    have heven : n % 2 = 0 := by
      by_contra hodd
      obtain ⟨s', hends, -⟩ := (write_sst hfamily (word_step hword _)).mp hrun
      exact word_never_ends (show (n : Int) % 2 = 1 by omega) hends
    refine ⟨heven, fun hwords => ?_⟩
    by_contra hne
    have hfirst (_ : n ≠ 0) :
        Kind.wordAddress ⟨p.totalSize, evenWords⟩ (p.base sector + offset) = p.base sector + offset - 1 := by
      rw [Kind.wordAddress, if_pos hwords]
      omega
    obtain ⟨c'', hrun', hdone⟩ := word_writes hfamily hword hin heven hfirst (by omega) (c := erasedChip) rfl (fun _ => 0) 4096
      (4096 + n) fun _ _ _ => rfl
    -- the byte in front of the data is programmed
    have hfront := congrFun hdone.mem (p.base sector + offset - 1)
    rw [← (Prod.mk.inj (word_unique hfamily hword hrun hrun')).2, hmem, patch_outside _ _ _ _ (.inl (by omega)),
      patch_inside _ _ _ _ le_rfl (by rw [length_readBytes]; omega), Int.sub_self, Int.toNat_zero,
      getD_readBytes _ _ _ _ (by omega)] at hfront
    exact absurd hfront (show (0xff : UInt8) ≠ 0 by decide)
  · rintro ⟨heven, hoffset⟩ c host buf btmp2 haai hlog _ herased
    have hfirst (hn : n ≠ 0) : Kind.wordAddress ⟨p.totalSize, evenWords⟩ (p.base sector + offset) = p.base sector + offset := by
      rw [Kind.wordAddress]
      dsimp only
      split_ifs with hwords
      · have := (hoffset hwords).resolve_left hn
        omega
      · rfl
    obtain ⟨c', hrun, hdone⟩ := word_writes hfamily hword hin heven hfirst (by omega) haai host buf btmp2 herased
    exact ⟨c', hrun, hdone.mem, hdone.sound (by rw [hlog]; exact fun _ h => nomatch h)⟩

end SstWrites

theorem spiFlashInit_inside {deviceId sector offset n : Nat} {evenWords : Bool}
    (hsector : sector < (spiFlashInit deviceId).numsector) (hend : offset + n ≤ (spiFlashInit deviceId).sectorsize) :
    Inside ⟨(spiFlashInit deviceId).totalSize, evenWords⟩ (spiFlashInit deviceId) sector offset n := by
  obtain ⟨heven, hsize⟩ := spiFlashInit_regular deviceId (Nat.zero_lt_of_lt hsector)
  have hbase : (spiFlashInit deviceId).base sector = (sector * (spiFlashInit deviceId).sectorsize : Nat) := if_pos hsector
  have hlast : sector * (spiFlashInit deviceId).sectorsize + (spiFlashInit deviceId).sectorsize ≤
      (spiFlashInit deviceId).totalSize := by
    rw [← Nat.succ_mul]
    exact Nat.mul_le_mul_right _ hsector
  have hbase' : sector * (spiFlashInit deviceId).sectorsize % 2 = 0 := by
    rw [Nat.mul_mod, heven, Nat.mul_zero, Nat.zero_mod]
  refine ⟨Int.natCast_dvd_natCast.mpr hsize, ?_, ?_, ?_⟩ <;> rw [hbase]
  · omega
  · omega
  · dsimp only
    omega

def Suits (p : Part) (evenWords : Bool) (offset n : Nat) : Prop :=
  if p.family = .nx then (offset + n) % 2 = 0
  else p.sstAaiWordProgram = true → n % 2 = 0 ∧ (evenWords = true → n = 0 ∨ offset % 2 = 0)

instance (p : Part) (evenWords : Bool) (offset n : Nat) : Decidable (Suits p evenWords offset n) :=
  inferInstanceAs (Decidable (if p.family = .nx then (offset + n) % 2 = 0
    else p.sstAaiWordProgram = true → n % 2 = 0 ∧ (evenWords = true → n = 0 ∨ offset % 2 = 0)))

/-- A write to these families is right if and only if it suits the part. -/
theorem spi_word_write_iff {deviceId sector offset n : Nat} {evenWords : Bool}
    (hfamily : (spiFlashInit deviceId).family = .sst ∨ (spiFlashInit deviceId).family = .nx)
    (hsector : sector < (spiFlashInit deviceId).numsector) (hend : offset + n ≤ (spiFlashInit deviceId).sectorsize) :
    Writes (spiFlashInit deviceId) evenWords sector offset n ↔ Suits (spiFlashInit deviceId) evenWords offset n := by
  have hin : Inside ⟨(spiFlashInit deviceId).totalSize, evenWords⟩ (spiFlashInit deviceId) sector offset n :=
    spiFlashInit_inside hsector hend
  rcases hfamily with hsst | hnx
  · rw [Suits, if_neg (by rw [hsst]; decide)]
    cases hword : (spiFlashInit deviceId).sstAaiWordProgram with
    | false => exact iff_of_true (writes_byte hsst hword hin) fun h => nomatch h
    | true =>
        rw [writes_word_iff hsst hword hin]
        exact ⟨fun h _ => h, fun h => h rfl⟩
  · rw [Suits, if_pos hnx]
    exact writes_nx_iff hnx hin

theorem odd_write_right : Writes (spiFlashInit 0xef12) false 0 1 3 :=
  (spi_word_write_iff (.inr (by decide)) (by decide) (by decide)).mpr (by decide)

theorem single_byte_fails :
    (∀ fuel evenWords, spiFlashWrite ⟨2097152, evenWords⟩ (spiFlashInit 0xbf41) fuel 0 0 (fun _ => 0) 4096 8192 1 erasedChip =
      none) ∧
    (spiFlashWrite ⟨524288, false⟩ (spiFlashInit 0xef12) 2 0 0 (fun _ => 0) 4096 8192 1 erasedChip).map Prod.fst =
      some 4098 := by
  refine ⟨fun fuel evenWords => ?_, by decide⟩
  cases hrun : spiFlashWrite ⟨2097152, evenWords⟩ (spiFlashInit 0xbf41) fuel 0 0 (fun _ => 0) 4096 8192 1 erasedChip with
  | none => rfl
  | some r =>
      obtain ⟨s', hends, -⟩ := (write_sst (n := 1) (by decide) rfl).mp ⟨fuel, hrun⟩
      exact absurd hends (word_never_ends (show ((1 : Nat) : Int) % 2 = 1 by decide))

end AliceModem.SpiWrite
