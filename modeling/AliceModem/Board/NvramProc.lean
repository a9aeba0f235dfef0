import AliceModem.Board.Nvram
import AliceModem.Kernel.Vsprintf

namespace AliceModem.NvramProc

open Words Hwdefs Sectors ByteMemory Device SharedBlks Regions BigEndian Nvram Vsprintf

/-- The loop that removes what is not a digit, with `n = r - i`. -/
def removeLoop : Nat → Mem Byte → Int → Mem Byte
  | 0, input, _ => input
  | n + 1, input, i =>
      if isxdigit (input i) then removeLoop n input (i + 1)
      else removeLoop n (patch input i (readBytes input (i + 1) n)) i

def nibble (c : Byte) : Byte :=
  if 48 ≤ c ∧ c ≤ 57 then c - 48
  else if 97 ≤ c ∧ c ≤ 102 then c - 97 + 10
  else if 65 ≤ c ∧ c ≤ 70 then c - 65 + 10
  else 0

/-- The loop of `str_to_num` from round `i` on, with the byte that is under construction. -/
def strToNumLoop (input : Mem Byte) : Nat → Nat → Byte → List Byte
  | 0, _, _ => []
  | n + 1, i, out =>
      let out := out + nibble (input i)
      if i % 2 = 0 then strToNumLoop input n (i + 1) (out * 16)
      else out :: strToNumLoop input n (i + 1) 0

def strToNum (input : Mem Byte) (len : Nat) : List Byte := strToNumLoop input (len * 2) 0 0

def splice (d : NvramData) (offset : Nat) (bs : List Byte) : NvramData :=
  d.take offset ++ (bs ++ d.drop (offset + bs.length))

variable (g : Geometry) (info : FlashAddrInfo)

def procGetParam (m : Mem Byte) (offset length : Nat) (cnt : Int) : Int × List Byte :=
  if nvramDataSize < offset + length then (0, [])
  else
    let r := readNvramData g info m
    let bytes := if r.1 = 0 then (r.2.drop offset).take length else []
    let page := bytes.flatMap (fun b => sprintf02x b ++ [32]) ++ [10]
    (if (page.length : Int) < cnt then page.length else 0, page)

/-- A write of `buf`, with `fault` if the copy from user space fails. The array
`input` and what lies behind it are on the `stack`. -/
def procSetParam (f : Flash) (stack : Mem Byte) (offset length : Nat) (buf : List Byte) (fault : Bool) : Int × Flash :=
  if nvramDataSize < offset + length then (0, f)
  else if 32 < buf.length ∨ fault then (-14, f)
  else
    let input := removeLoop buf.length (patch stack 0 buf) 0
    let r := readNvramData g info f.mem
    if r.1 = 0 then (buf.length, writeNvramData g info f (splice r.2 offset (strToNum input length)))
    else (0, f)

section Loops

theorem removeLoop_outside (n : Nat) (input : Mem Byte) (i : Int) {k : Int} (hk : k < i ∨ i + n ≤ k) :
    removeLoop n input i k = input k := by
  induction n generalizing input i with
  | zero => rfl
  | succ n ih =>
      rw [removeLoop]
      split
      · exact ih input (i + 1) (by omega)
      · rw [ih _ i (by omega), patch_outside]
        rw [length_readBytes]
        omega

theorem readBytes_moved (input : Mem Byte) (i : Int) (n : Nat) :
    readBytes (patch input i (readBytes input (i + 1) n)) i n = readBytes input (i + 1) n := by
  have h := readBytes_patch input i (readBytes input (i + 1) n)
  rwa [length_readBytes] at h

theorem removeLoop_digits (n : Nat) (input : Mem Byte) (i : Int) :
    readBytes (removeLoop n input i) i ((readBytes input i n).filter isxdigit).length =
      (readBytes input i n).filter isxdigit := by
  induction n generalizing input i with
  | zero => rfl
  | succ n ih =>
      rw [removeLoop, readBytes_succ]
      cases hdigit : isxdigit (input i) with
      | true =>
          rw [if_pos rfl, List.filter_cons_of_pos hdigit, List.length_cons, readBytes_succ, ih input (i + 1),
            removeLoop_outside n input (i + 1) (.inl (by omega))]
      | false =>
          have hmoved := ih (patch input i (readBytes input (i + 1) n)) i
          rw [readBytes_moved] at hmoved
          rwa [if_neg Bool.false_ne_true, List.filter_cons_of_neg (by rw [hdigit]; exact Bool.false_ne_true)]

theorem removeLoop_congr (n : Nat) {input input' : Mem Byte} {i : Int} (h : readBytes input i n = readBytes input' i n) :
    readBytes (removeLoop n input i) i n = readBytes (removeLoop n input' i) i n := by
  induction n generalizing input input' i with
  | zero => rfl
  | succ n ih =>
      have hsplit := h
      rw [readBytes_succ, readBytes_succ, List.cons.injEq] at hsplit
      obtain ⟨hhead, htail⟩ := hsplit
      rw [removeLoop, removeLoop, ← hhead]
      split
      · rw [readBytes_succ, readBytes_succ, ih htail, removeLoop_outside n input (i + 1) (.inl (by omega)),
          removeLoop_outside n input' (i + 1) (.inl (by omega)), hhead]
      · have hlast : input (i + n) = input' (i + n) := by
          rw [readBytes_append, readBytes_append] at h
          simpa [readBytes] using List.append_inj_right h (by simp)
        have hmoved : readBytes (patch input i (readBytes input (i + 1) n)) i n =
            readBytes (patch input' i (readBytes input' (i + 1) n)) i n := by
          rw [readBytes_moved, readBytes_moved, htail]
        have hkept (m : Mem Byte) : removeLoop n (patch m i (readBytes m (i + 1) n)) i (i + n) = m (i + n) := by
          rw [removeLoop_outside n _ i (.inr le_rfl), patch_outside _ _ _ _ (.inr (by rw [length_readBytes]))]
        rw [readBytes_append, readBytes_append, ih hmoved, readBytes_succ, readBytes_succ, hkept, hkept, hlast]
        rfl

def pairByte (input : Mem Byte) (j : Nat) : Byte := nibble (input (2 * j : Nat)) * 16 + nibble (input (2 * j + 1 : Nat))

theorem strToNumLoop_eq (input : Mem Byte) (len j : Nat) :
    strToNumLoop input (len * 2) (2 * j) 0 = (List.range len).map fun k => pairByte input (j + k) := by
  induction len generalizing j with
  | zero => rfl
  | succ len ih =>
      have hrest := ih (j + 1)
      rw [Nat.succ_mul, strToNumLoop, if_pos (by omega), strToNumLoop, if_neg (by omega), UInt8.zero_add,
        List.range_succ_eq_map, List.map_cons, List.map_map]
      refine congrArg₂ List.cons rfl (hrest.trans (List.map_congr_left fun k _ => congrArg (pairByte input) ?_))
      omega

theorem strToNum_eq (input : Mem Byte) (len : Nat) : strToNum input len = (List.range len).map (pairByte input) := by
  rw [strToNum]
  simpa using strToNumLoop_eq input len 0

theorem length_strToNum (input : Mem Byte) (len : Nat) : (strToNum input len).length = len := by
  rw [strToNum_eq, List.length_map, List.length_range]

end Loops

section Stored

/-- The structure as `writeNvramData` stores it. -/
def stored (d : NvramData) : NvramData := setCheckSum d (nvramCrc d)

variable {d d' : NvramData} {offset k : Nat} {bs : List Byte}

theorem length_splice (h : offset + bs.length ≤ d.length) : (splice d offset bs).length = d.length := by
  rw [splice, List.length_append, List.length_append, List.length_take, List.length_drop]
  omega

theorem splice_inside (h : offset + bs.length ≤ d.length) (hk : k < bs.length) :
    (splice d offset bs)[offset + k]? = bs[k]? := by
  have hlen : (d.take offset).length = offset := by rw [List.length_take]; omega
  rw [splice, List.getElem?_append_right (by omega), hlen, Nat.add_sub_cancel_left, List.getElem?_append_left hk]

theorem splice_outside (h : offset + bs.length ≤ d.length) (hk : ¬ (offset ≤ k ∧ k < offset + bs.length)) :
    (splice d offset bs)[k]? = d[k]? := by
  have hlen : (d.take offset).length = offset := by rw [List.length_take]; omega
  rw [splice]
  by_cases hlt : k < offset
  · rw [List.getElem?_append_left (by omega), List.getElem?_take_of_lt hlt]
  · rw [List.getElem?_append_right (by omega), List.getElem?_append_right (by omega), List.getElem?_drop, hlen]
    congr 1
    omega

theorem setCheckSum_getElem? (crc : Nat) (hk : k < 296) (hd : d.length = nvramDataSize) :
    (setCheckSum d crc)[k]? = d[k]? := by
  rw [setCheckSum, List.getElem?_append_left (by rw [List.length_take, hd]; exact hk), List.getElem?_take_of_lt hk]

theorem stored_congr (h : ∀ k < 296, d[k]? = d'[k]?) : stored d = stored d' := by
  have htake : d.take 296 = d'.take 296 := by
    apply List.ext_getElem?
    intro k
    by_cases hk : k < 296
    · rw [List.getElem?_take_of_lt hk, List.getElem?_take_of_lt hk, h k hk]
    · rw [List.getElem?_take_eq_none (Nat.le_of_not_lt hk), List.getElem?_take_eq_none (Nat.le_of_not_lt hk)]
  rw [stored, stored, nvramCrc, nvramCrc, setCheckSum, setCheckSum, setCheckSum, setCheckSum, htake]

theorem stored_valid {d : NvramData} (hd : d.length = nvramDataSize) (hvalid : ulCheckSum d = nvramCrc d) :
    stored (setCheckSum d 0) = d := by
  rw [stored, setCheckSum_setCheckSum hd, nvramCrc_setCheckSum hd, ← hvalid, setCheckSum_ulCheckSum hd]

end Stored

section Set

variable {g : Geometry} {info : FlashAddrInfo}

theorem rawNvram_getElem? (m : Mem Byte) {k : Nat} (hk : k < nvramDataSize) :
    (rawNvram m)[k]? = some (m (nvramDataOffset + k)) := by
  simp [rawNvram, readBytes, hk]

def digitsOf (stack : Mem Byte) (buf : List Byte) : Mem Byte := removeLoop buf.length (patch stack 0 buf) 0

def written (m stack : Mem Byte) (offset length : Nat) (buf : List Byte) : NvramData :=
  splice (setCheckSum (rawNvram m) 0) offset (strToNum (digitsOf stack buf) length)

variable {f : Flash} {offset length : Nat} {buf : List Byte} {stack : Mem Byte}

theorem digitsOf_behind (stack : Mem Byte) {k : Int} (hk : buf.length ≤ k) : digitsOf stack buf k = stack k := by
  rw [digitsOf, removeLoop_outside _ _ _ (.inr (by omega)), patch_outside _ _ _ _ (.inr (by omega))]

theorem digitsOf_congr (stack stack' : Mem Byte) {k : Nat} (hk : k < buf.length) :
    digitsOf stack buf k = digitsOf stack' buf k := by
  have hbuf : readBytes (patch stack 0 buf) 0 buf.length = readBytes (patch stack' 0 buf) 0 buf.length := by
    rw [readBytes_patch, readBytes_patch]
  have hget (m : Mem Byte) := getD_readBytes m 0 buf.length k hk
  have h := congrArg (fun bs : List Byte => bs.getD k default) (removeLoop_congr buf.length hbuf)
  rwa [hget, hget, Int.zero_add] at h

theorem digitsOf_digits (stack : Mem Byte) (buf : List Byte) :
    readBytes (digitsOf stack buf) 0 (buf.filter isxdigit).length = buf.filter isxdigit := by
  have h := removeLoop_digits buf.length (patch stack 0 buf) 0
  rwa [readBytes_patch] at h

theorem pairByte_congr (stack stack' : Mem Byte) {j : Nat} (hj : 2 * j + 1 < buf.length) :
    pairByte (digitsOf stack buf) j = pairByte (digitsOf stack' buf) j := by
  rw [pairByte, pairByte, digitsOf_congr stack stack' (by omega : 2 * j < buf.length), digitsOf_congr stack stack' hj]

theorem pairByte_ne {j : Nat} (hj : buf.length ≤ 2 * j + 1) :
    pairByte (digitsOf (fun _ => 48) buf) j ≠ pairByte (digitsOf (fun _ => 49) buf) j := by
  have hlow (c : Byte) : digitsOf (fun _ => c) buf (2 * j + 1 : Nat) = c := digitsOf_behind _ (by omega)
  rw [pairByte, pairByte, hlow, hlow]
  by_cases hhigh : 2 * j < buf.length
  · rw [digitsOf_congr (fun _ => 48) (fun _ => 49) hhigh]
    intro h
    exact absurd ((UInt8.add_right_inj _).mp h) (by decide)
  · have hhigh (c : Byte) : digitsOf (fun _ => c) buf (2 * j : Nat) = c := digitsOf_behind _ (by omega)
    rw [hhigh, hhigh]
    decide

section

variable (hwindow : offset + length ≤ nvramDataSize)

include hwindow

theorem length_written (m stack : Mem Byte) (buf : List Byte) :
    (written m stack offset length buf).length = nvramDataSize := by
  have hlen := length_setCheckSum (length_rawNvram m) 0
  rw [written, length_splice (by rw [length_strToNum, hlen]; exact hwindow), hlen]

theorem written_inside {j : Nat} (hj : j < length) (m : Mem Byte) :
    (written m stack offset length buf)[offset + j]? = some (pairByte (digitsOf stack buf) j) := by
  have hlen := length_setCheckSum (length_rawNvram m) 0
  rw [written, splice_inside (by rw [length_strToNum, hlen]; exact hwindow) (by rwa [length_strToNum]), strToNum_eq]
  simp [hj]

theorem written_outside {k : Nat} (hk : k < 296)
    (hout : ¬ (offset ≤ k ∧ k < offset + length)) (m : Mem Byte) :
    (written m stack offset length buf)[k]? = (rawNvram m)[k]? := by
  have hlen := length_setCheckSum (length_rawNvram m) 0
  rw [written, splice_outside (by rw [length_strToNum, hlen]; exact hwindow) (by rwa [length_strToNum]),
    setCheckSum_getElem? 0 hk (length_rawNvram m)]

theorem stored_written_congr (m stack stack' : Mem Byte)
    (hcond : length ≤ buf.length / 2 ∨ 296 ≤ offset + buf.length / 2) :
    stored (written m stack offset length buf) = stored (written m stack' offset length buf) := by
  apply stored_congr
  intro k hk
  by_cases hin : offset ≤ k ∧ k < offset + length
  · obtain ⟨j, rfl⟩ := Nat.exists_eq_add_of_le hin.1
    have hj : j < length := by omega
    rw [written_inside hwindow hj, written_inside hwindow hj, pairByte_congr stack stack' (by omega)]
  · rw [written_outside hwindow hk hin, written_outside hwindow hk hin]

end

section

variable (hi : Initialised g info) (hf : f.faults = [])
  (hvalid : ulCheckSum (rawNvram f.mem) = nvramCrc (rawNvram f.mem)) (hwindow : offset + length ≤ nvramDataSize)
  (hbuf : buf.length ≤ 32) (stack : Mem Byte)

include hi hf hvalid hwindow hbuf

theorem procSetParam_mem : (procSetParam g info f stack offset length buf false).2.mem =
    patch f.mem nvramDataOffset (stored (written f.mem stack offset length buf)) := by
  have hcopied : ¬ (32 < buf.length ∨ false = true) := by simpa using hbuf
  rw [procSetParam, if_neg (Nat.not_lt.mpr hwindow), if_neg hcopied, readNvramData_eq hi, if_neg (not_not_intro hvalid)]
  exact (writeNvramData_ok hi f hf (length_written hwindow f.mem stack buf)).2

theorem procSetParam_raw : rawNvram (procSetParam g info f stack offset length buf false).2.mem =
    stored (written f.mem stack offset length buf) := by
  rw [procSetParam_mem hi hf hvalid hwindow hbuf]
  exact rawNvram_patch _ (length_setCheckSum (length_written hwindow f.mem stack buf) _)

theorem procSetParam_getElem? {k : Nat} (hk : k < 296) :
    some ((procSetParam g info f stack offset length buf false).2.mem (nvramDataOffset + k)) =
      (written f.mem stack offset length buf)[k]? := by
  have hlt : k < nvramDataSize := by simp only [nvramDataSize]; omega
  rw [← rawNvram_getElem? _ hlt, procSetParam_raw hi hf hvalid hwindow hbuf, stored,
    setCheckSum_getElem? _ hk (length_written hwindow f.mem stack buf)]

theorem procSetParam_differs (hj : buf.length / 2 < length) (hk : offset + buf.length / 2 < 296) :
    (procSetParam g info f (fun _ => 48) offset length buf false).2.mem ≠
      (procSetParam g info f (fun _ => 49) offset length buf false).2.mem := by
  intro hsame
  have hbyte (stack : Mem Byte) := procSetParam_getElem? hi hf hvalid hwindow hbuf stack hk
  have h48 := hbyte fun _ => 48
  have h49 := hbyte fun _ => 49
  rw [written_inside hwindow hj] at h48 h49
  rw [hsame, h49, Option.some.injEq] at h48
  exact pairByte_ne (by omega) h48.symm

end

/-- What a write stores depends on nothing but the input if and only if the input
is long enough for the window, or for the part of it in front of the checksum. -/
theorem nvram_write_depends_on_input_iff (hi : Initialised g info) (f : Flash) (hf : f.faults = [])
    (hvalid : ulCheckSum (rawNvram f.mem) = nvramCrc (rawNvram f.mem)) (offset length : Nat)
    (hwindow : offset + length ≤ nvramDataSize) (buf : List Byte) (hbuf : buf.length ≤ 32) :
    ((∀ stack stack' : Mem Byte, (procSetParam g info f stack offset length buf false).2.mem =
          (procSetParam g info f stack' offset length buf false).2.mem) ∧
        ∀ (stack : Mem Byte) (k : Nat), k < 296 → ¬ (offset ≤ k ∧ k < offset + length) →
          (procSetParam g info f stack offset length buf false).2.mem (nvramDataOffset + k) =
            f.mem (nvramDataOffset + k)) ↔
      length ≤ buf.length / 2 ∨ 296 ≤ offset + buf.length / 2 := by
  constructor
  · rintro ⟨hsame, -⟩
    by_contra hcond
    rw [not_or] at hcond
    exact procSetParam_differs hi hf hvalid hwindow hbuf (by omega) (by omega) (hsame _ _)
  · intro hcond
    refine ⟨fun stack stack' => ?_, fun stack k hk hout => ?_⟩
    · rw [procSetParam_mem hi hf hvalid hwindow hbuf, procSetParam_mem hi hf hvalid hwindow hbuf,
        stored_written_congr hwindow f.mem stack stack' hcond]
    · have hbyte := procSetParam_getElem? hi hf hvalid hwindow hbuf stack hk
      rw [written_outside hwindow hk hout, rawNvram_getElem? _ (by simp only [nvramDataSize]; omega)] at hbyte
      exact Option.some.inj hbyte

theorem stored_isValid {d : NvramData} (hd : d.length = nvramDataSize) : ulCheckSum (stored d) = nvramCrc (stored d) := by
  rw [stored, nvramCrc_setCheckSum hd, ulCheckSum_setCheckSum hd (nvramCrc_lt d)]

def zeroNvram : Flash := fresh (patch (fun _ => 0xff) nvramDataOffset (stored (List.replicate nvramDataSize 0)))

theorem zeroNvram_valid : ulCheckSum (rawNvram zeroNvram.mem) = nvramCrc (rawNvram zeroNvram.mem) := by
  have hzero : (List.replicate nvramDataSize (0 : Byte)).length = nvramDataSize := List.length_replicate
  have hraw : rawNvram zeroNvram.mem = stored (List.replicate nvramDataSize 0) :=
    rawNvram_patch _ (length_setCheckSum hzero _)
  rw [hraw]
  exact stored_isValid hzero

theorem mac_address_write_depends_on_input :
    ulCheckSum (rawNvram zeroNvram.mem) = nvramCrc (rawNvram zeroNvram.mem) ∧
      (procSetParam demoFlash (kerSysEarlyFlashInit demoFlash) zeroNvram (fun _ => 48) 288 6 (List.replicate 12 97)
          false).2.mem =
        (procSetParam demoFlash (kerSysEarlyFlashInit demoFlash) zeroNvram (fun _ => 49) 288 6 (List.replicate 12 97)
          false).2.mem := by
  have hi : Initialised demoFlash (kerSysEarlyFlashInit demoFlash) := ⟨rfl, rfl⟩
  have h := nvram_write_depends_on_input_iff hi zeroNvram rfl zeroNvram_valid 288 6 (by decide) (List.replicate 12 97) (by decide)
  exact ⟨zeroNvram_valid, (h.mpr (.inl (by decide))).1 _ _⟩

theorem mac_address_from_stack :
    ∃ stack stack' : Mem Byte,
      (procSetParam demoFlash (kerSysEarlyFlashInit demoFlash) zeroNvram stack 288 6 [] false).2.mem ≠
        (procSetParam demoFlash (kerSysEarlyFlashInit demoFlash) zeroNvram stack' 288 6 [] false).2.mem :=
  ⟨_, _, procSetParam_differs ⟨rfl, rfl⟩ rfl zeroNvram_valid (by decide) (by decide) (by decide) (by decide)⟩

end Set

section Inverse

def digitValue (c : Byte) : Nat := if c ≤ 57 then c.toNat - 48 else c.toNat % 32 + 9

def denoted : List Byte → List Byte
  | a :: b :: ds => UInt8.ofNat (16 * digitValue a + digitValue b) :: denoted ds
  | _ => []

theorem nibble_eq : ∀ i : Fin 256, isxdigit (UInt8.ofNat i) = true →
    nibble (UInt8.ofNat i) = UInt8.ofNat (digitValue (UInt8.ofNat i)) := by
  decide +kernel

theorem hexDigit_eq : ∀ d : Fin 16, isxdigit (hexDigit d) = true ∧ digitValue (hexDigit d) = d := by
  decide

theorem nibble_digit {c : Byte} (h : isxdigit c = true) : nibble c = UInt8.ofNat (digitValue c) := by
  have hc := nibble_eq ⟨c.toNat, c.toNat_lt⟩
  rw [UInt8.ofNat_toNat] at hc
  exact hc h

theorem pairByte_digits {input : Mem Byte} {j : Nat} (hhigh : isxdigit (input (2 * j : Nat)) = true)
    (hlow : isxdigit (input (2 * j + 1 : Nat)) = true) : pairByte input j =
      UInt8.ofNat (16 * digitValue (input (2 * j : Nat)) + digitValue (input (2 * j + 1 : Nat))) := by
  rw [pairByte, nibble_digit hhigh, nibble_digit hlow, UInt8.ofNat_add, UInt8.ofNat_mul, UInt8.mul_comm]
  rfl

theorem denoted_readBytes (input : Mem Byte) (len j : Nat)
    (hdigits : ∀ c ∈ readBytes input (2 * j : Nat) (2 * len), isxdigit c = true) :
    denoted (readBytes input (2 * j : Nat) (2 * len)) = (List.range len).map fun k => pairByte input (j + k) := by
  induction len generalizing j with
  | zero => rfl
  | succ len ih =>
      have hread : readBytes input (2 * j : Nat) (2 * (len + 1)) =
          input (2 * j : Nat) :: input (2 * j + 1 : Nat) :: readBytes input (2 * (j + 1) : Nat) (2 * len) := by
        rw [Nat.mul_succ, readBytes_succ, readBytes_succ]
        congr 3
      rw [hread] at hdigits ⊢
      have hhigh := hdigits _ List.mem_cons_self
      have hlow := hdigits _ (List.mem_cons_of_mem _ List.mem_cons_self)
      have hrest := ih (j + 1) fun c hc => hdigits c (List.mem_cons_of_mem _ (List.mem_cons_of_mem _ hc))
      rw [denoted, ← pairByte_digits hhigh hlow, hrest, List.range_succ_eq_map, List.map_cons, List.map_map]
      refine congrArg₂ List.cons rfl (List.map_congr_left fun k _ => congrArg (pairByte input) ?_)
      omega

theorem strToNum_digits (stack : Mem Byte) {buf : List Byte} {len : Nat} (hlen : (buf.filter isxdigit).length = 2 * len) :
    strToNum (digitsOf stack buf) len = denoted (buf.filter isxdigit) := by
  have hread := digitsOf_digits stack buf
  have hdigits : ∀ c ∈ readBytes (digitsOf stack buf) (2 * 0 : Nat) (2 * len), isxdigit c = true := by
    rw [hlen] at hread
    intro c hc
    exact List.of_mem_filter (hread ▸ hc)
  rw [strToNum_eq]
  have hdenoted := denoted_readBytes (digitsOf stack buf) len 0 hdigits
  simp only [Nat.zero_add] at hdenoted
  rw [← hdenoted, ← hread, hlen]
  rfl

theorem sprintf02x_digits (bs : List Byte) :
    (bs.flatMap fun b => sprintf02x b ++ [32]).filter isxdigit = bs.flatMap sprintf02x := by
  induction bs with
  | nil => rfl
  | cons b bs ih =>
      have hhigh := (hexDigit_eq ⟨b.toNat / 16, by have := b.toNat_lt; omega⟩).1
      have hlow := (hexDigit_eq ⟨b.toNat % 16, by omega⟩).1
      rw [List.flatMap_cons, List.flatMap_cons, List.filter_append, ih]
      refine congrArg (· ++ bs.flatMap sprintf02x) ?_
      simp only [sprintf02x, List.cons_append, List.nil_append]
      rw [List.filter_cons_of_pos hhigh, List.filter_cons_of_pos hlow]
      rfl

theorem denoted_sprintf02x (bs : List Byte) : denoted (bs.flatMap sprintf02x) = bs := by
  induction bs with
  | nil => rfl
  | cons b bs ih =>
      have hhigh := (hexDigit_eq ⟨b.toNat / 16, by have := b.toNat_lt; omega⟩).2
      have hlow := (hexDigit_eq ⟨b.toNat % 16, by omega⟩).2
      rw [List.flatMap_cons, sprintf02x, List.cons_append, List.cons_append, List.nil_append, denoted, ih]
      dsimp only at hhigh hlow
      rw [hhigh, hlow, Nat.div_add_mod, UInt8.ofNat_toNat]

theorem length_sprintf02x (bs : List Byte) : (bs.flatMap sprintf02x).length = 2 * bs.length := by
  induction bs with
  | nil => rfl
  | cons b bs ih =>
      rw [List.flatMap_cons, List.length_append, ih, List.length_cons]
      simp only [sprintf02x, List.length_cons, List.length_nil]
      omega

theorem length_page (bs : List Byte) : (bs.flatMap fun b => sprintf02x b ++ [32]).length = 3 * bs.length := by
  induction bs with
  | nil => rfl
  | cons b bs ih =>
      rw [List.flatMap_cons, List.length_append, ih, List.length_cons]
      simp only [sprintf02x, List.length_cons, List.length_nil, List.cons_append, List.nil_append]
      omega

def window (d : NvramData) (offset length : Nat) : List Byte := (d.drop offset).take length

theorem length_window {d : NvramData} {offset length : Nat} (h : offset + length ≤ d.length) :
    (window d offset length).length = length := by
  rw [window, List.length_take, List.length_drop]
  omega

theorem splice_window {d : NvramData} {offset length : Nat} (h : offset + length ≤ d.length) :
    splice d offset (window d offset length) = d := by
  rw [splice, length_window h, window, ← List.drop_drop, List.take_append_drop, List.take_append_drop]

variable {g : Geometry} {info : FlashAddrInfo} {f : Flash} {offset length : Nat}

theorem procGetParam_page (hi : Initialised g info) (hvalid : ulCheckSum (rawNvram f.mem) = nvramCrc (rawNvram f.mem))
    (hwindow : offset + length ≤ nvramDataSize) (cnt : Int) : (procGetParam g info f.mem offset length cnt).2 =
      (window (setCheckSum (rawNvram f.mem) 0) offset length).flatMap (fun b => sprintf02x b ++ [32]) ++ [10] := by
  rw [procGetParam, if_neg (Nat.not_lt.mpr hwindow), readNvramData_eq hi, if_neg (not_not_intro hvalid)]
  rfl

theorem procSetParam_same (hi : Initialised g info) (hf : f.faults = [])
    (hvalid : ulCheckSum (rawNvram f.mem) = nvramCrc (rawNvram f.mem)) (hwindow : offset + length ≤ nvramDataSize)
    {buf : List Byte} (hbuf : buf.length ≤ 32)
    (hdigits : buf.filter isxdigit = (window (setCheckSum (rawNvram f.mem) 0) offset length).flatMap sprintf02x)
    (stack : Mem Byte) : (procSetParam g info f stack offset length buf false).2.mem = f.mem := by
  have hraw := length_rawNvram f.mem
  have hinside : offset + length ≤ (setCheckSum (rawNvram f.mem) 0).length := by rwa [length_setCheckSum hraw]
  have hlen : (buf.filter isxdigit).length = 2 * length := by rw [hdigits, length_sprintf02x, length_window hinside]
  have hwritten : written f.mem stack offset length buf = setCheckSum (rawNvram f.mem) 0 := by
    rw [written, strToNum_digits stack hlen, hdigits, denoted_sprintf02x, splice_window hinside]
  rw [procSetParam_mem hi hf hvalid hwindow hbuf, hwritten, stored_valid hraw hvalid]
  exact patch_same (by rw [hraw]; rfl)

/-- What `proc_get_param` has written is stored by `proc_set_param` without a
change, and digits are stored as the bytes they denote, the checksum aside. -/
theorem nvram_proc_read_write_inverse (hi : Initialised g info) (f : Flash) (hf : f.faults = [])
    (hvalid : ulCheckSum (rawNvram f.mem) = nvramCrc (rawNvram f.mem)) (offset length : Nat)
    (hwindow : offset + length ≤ nvramDataSize) (hlength : 3 * length + 1 ≤ 32) (stack : Mem Byte) :
    (∀ cnt : Int, (procSetParam g info f stack offset length (procGetParam g info f.mem offset length cnt).2 false).2.mem =
        f.mem) ∧
      ∀ buf : List Byte, buf.length ≤ 32 → (buf.filter isxdigit).length = 2 * length →
        ∀ j : Nat, j < length → offset + j < 296 →
          (denoted (buf.filter isxdigit))[j]? =
            some ((procSetParam g info f stack offset length buf false).2.mem (nvramDataOffset + (offset + j : Nat))) := by
  have hinside : offset + length ≤ (setCheckSum (rawNvram f.mem) 0).length := by
    rwa [length_setCheckSum (length_rawNvram f.mem)]
  constructor
  · intro cnt
    have hpage := procGetParam_page hi hvalid hwindow cnt
    refine procSetParam_same hi hf hvalid hwindow ?_ ?_ stack
    · rw [hpage, List.length_append, length_page, length_window hinside]
      exact hlength
    · rw [hpage, List.filter_append, sprintf02x_digits]
      exact List.append_nil _
  · intro buf hbuf hdigits j hj hk
    rw [procSetParam_getElem? hi hf hvalid hwindow hbuf stack hk, written, strToNum_digits stack hdigits,
      splice_inside]
    · rw [← strToNum_digits stack hdigits, length_strToNum]
      exact hinside
    · rwa [← strToNum_digits stack hdigits, length_strToNum]

theorem mac_address_read_write :
    ulCheckSum (rawNvram zeroNvram.mem) = nvramCrc (rawNvram zeroNvram.mem) ∧
      (procSetParam demoFlash (kerSysEarlyFlashInit demoFlash) zeroNvram (fun _ => 0) 288 6
        (procGetParam demoFlash (kerSysEarlyFlashInit demoFlash) zeroNvram.mem 288 6 4096).2 false).2.mem =
          zeroNvram.mem := by
  have hi : Initialised demoFlash (kerSysEarlyFlashInit demoFlash) := ⟨rfl, rfl⟩
  have h := nvram_proc_read_write_inverse hi zeroNvram rfl zeroNvram_valid 288 6 (by decide) (by decide) fun _ => 0
  exact ⟨zeroNvram_valid, h.1 4096⟩

theorem checksum_not_stored :
    ∃ buf : List Byte, buf.length ≤ 32 ∧ (buf.filter isxdigit).length = 2 * 4 ∧
      (rawNvram (procSetParam demoFlash (kerSysEarlyFlashInit demoFlash) zeroNvram (fun _ => 0) 296 4 buf false).2.mem).drop
        296 ≠ denoted (buf.filter isxdigit) := by
  by_contra! hall
  -- the same checksum is stored for all digits
  have hsame (buf buf' : List Byte) : stored (written zeroNvram.mem (fun _ => 0) 296 4 buf) =
      stored (written zeroNvram.mem (fun _ => 0) 296 4 buf') := by
    refine stored_congr fun k hk => ?_
    rw [written_outside (by decide) hk (by omega), written_outside (by decide) hk (by omega)]
  have hraw (buf : List Byte) (hbuf : buf.length ≤ 32) :
      rawNvram (procSetParam demoFlash (kerSysEarlyFlashInit demoFlash) zeroNvram (fun _ => 0) 296 4 buf false).2.mem =
        stored (written zeroNvram.mem (fun _ => 0) 296 4 buf) :=
    procSetParam_raw ⟨rfl, rfl⟩ rfl zeroNvram_valid (by decide) hbuf _
  have hzeros := hall (List.replicate 8 48) (by decide) (by decide)
  have hones := hall (List.replicate 8 49) (by decide) (by decide)
  rw [hraw _ (by decide)] at hzeros hones
  rw [hsame (List.replicate 8 48) (List.replicate 8 49), hones] at hzeros
  exact absurd hzeros (by decide)

end Inverse

end AliceModem.NvramProc
