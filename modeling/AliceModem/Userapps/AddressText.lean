import AliceModem.Kernel.Vsprintf
import AliceModem.Lib.CString
import AliceModem.Lib.TextScan
import AliceModem.Lib.Transition
import Mathlib.Tactic.IntervalCases

namespace AliceModem.AddressText

open TextScan Transition
open Vsprintf (digits sprintf02x)

def printD (i : BitVec 32) : List UInt8 :=
  if i.toInt < 0 then 45 :: digits 10 i.toInt.natAbs else digits 10 i.toInt.natAbs

def writeIpB (ip : BitVec 32) : List UInt8 :=
  printD (0xff &&& ip.sshiftRight 24) ++ 46 :: (printD (0xff &&& ip.sshiftRight 16) ++
    46 :: (printD (0xff &&& ip.sshiftRight 8) ++ 46 :: printD (0xff &&& ip)))

structure Reader where
  n : Nat
  res : BitVec 32
  ip : List UInt8

def readMore (s : Reader) : Bool := s.n < 4 ∧ s.ip ≠ []

def readRound (s : Reader) : Reader :=
  if s.ip.head?.any isdigit then
    ⟨s.n + 1, (s.res <<< 8) ||| BitVec.ofInt 32 (atoi s.ip), s.ip.dropWhile isdigit⟩
  else { s with ip := s.ip.tail }

def readIp (ip : List UInt8) : Option (BitVec 32) :=
  (whileLoop readMore readRound (ip.length + 1) ⟨0, 0, ip⟩).map Reader.res

def macText (bytes : List UInt8) : List UInt8 := [58].intercalate (bytes.map sprintf02x)

/-- The result and the text at `str`, where a pointer without an object is `NULL`. -/
def bcmMacNumToStr (macAddr str : Option (List UInt8)) : Int × Option (List UInt8) :=
  match macAddr, str with
  | some m, some _ => (1, some (macText ((List.range 6).map fun i => m.getD i 0)))
  | _, _ => (0, str)

def storeTokens : Nat → Nat → List UInt8 → List UInt8 → List UInt8
  | 0, _, _, macAddr => macAddr
  | k + 1, i, last, macAddr =>
      match strtokR 58 last with
      | none => macAddr
      | some (token, last) => storeTokens k (i + 1) last (macAddr.set i (UInt8.ofInt (strtol 16 token)))

def macBuf (str : List UInt8) : List UInt8 :=
  let len := min (str.length + 1) 20
  (CString.strncpy (len - 1) str ++ [0]).takeWhile (· != 0)

/-- The result and the bytes at `macAddr`. The buffer is allocated. -/
def bcmMacStrToNum (macAddr str : Option (List UInt8)) : Int × Option (List UInt8) :=
  match macAddr, str with
  | some m, some str => (1, some (storeTokens 6 0 (macBuf str) m))
  | _, _ => (0, macAddr)

theorem digits_ne_nil (fuel num : Nat) : digits (fuel + 1) num ≠ [] := by simp [digits]

theorem digit_isdigit {d : Nat} (h : d < 10) : isdigit (UInt8.ofNat (48 + d)) = true := by
  interval_cases d <;> rfl

theorem digitValue_digit {d : Nat} (h : d < 10) : digitValue (UInt8.ofNat (48 + d)) = some d := by
  interval_cases d <;> rfl

theorem isdigit_digits (fuel num : Nat) : ∀ c ∈ digits fuel num, isdigit c = true := by
  induction fuel generalizing num with
  | zero => simp [digits]
  | succ fuel ih =>
      intro c hc
      rw [digits, List.mem_append, List.mem_singleton] at hc
      cases hc with
      | inl hc =>
          split at hc
          · cases hc
          · exact ih (num / 10) c hc
      | inr hc => exact hc ▸ digit_isdigit (Nat.mod_lt num (by decide))

theorem number_digits {fuel num : Nat} (h : num < 10 ^ (fuel + 1)) : number 10 (digits (fuel + 1) num) = num := by
  induction fuel generalizing num with
  | zero =>
      have hnum : num < 10 := by simpa using h
      rw [digits, number_concat, if_pos hnum, digitValue_digit (Nat.mod_lt num (by decide))]
      simp [number, Nat.mod_eq_of_lt hnum]
  | succ fuel ih =>
      rw [digits, number_concat, digitValue_digit (Nat.mod_lt num (by decide))]
      split
      next hnum => simp [number, Nat.mod_eq_of_lt hnum]
      next =>
          rw [ih (Nat.div_lt_of_lt_mul (Nat.pow_succ' ▸ h))]
          exact Nat.div_add_mod' num 10

theorem printD_octet {a : BitVec 32} (h : a.toNat < 256) : printD a = digits 10 a.toNat := by
  have hint : a.toInt = a.toNat := BitVec.toInt_eq_toNat_of_lt (by omega)
  rw [printD, hint, if_neg (by omega), Int.natAbs_natCast]

theorem octet_lt (a : BitVec 32) : (0xff &&& a).toNat < 256 := by
  rw [BitVec.toNat_and]
  exact Nat.lt_of_le_of_lt Nat.and_le_left (by decide)

theorem readRound_octet (n : Nat) (res : BitVec 32) {a : BitVec 32} (h : a.toNat < 256) {rest : List UInt8}
    (hrest : ∀ c ∈ rest.head?, isdigit c = false) :
    readRound ⟨n, res, printD a ++ rest⟩ = ⟨n + 1, (res <<< 8) ||| a, rest⟩ := by
  have hnum : number 10 (digits 10 a.toNat) = a.toNat := number_digits (by omega)
  have hall := isdigit_digits 10 a.toNat
  have hne : digits 10 a.toNat ≠ [] := digits_ne_nil 9 a.toNat
  have hatoi : atoi (digits 10 a.toNat ++ rest) = a.toNat := by
    rw [atoi_digits hne hall hrest (by omega), hnum]
  have hhead : (digits 10 a.toNat ++ rest).head?.any isdigit = true := by
    obtain ⟨c, ds, hds⟩ := List.exists_cons_of_ne_nil hne
    rw [hds]
    exact hall c (hds ▸ List.mem_cons_self)
  rw [printD_octet h, readRound, if_pos hhead, hatoi, dropWhile_until hall hrest, BitVec.ofInt_natCast,
    BitVec.ofNat_toNat, BitVec.setWidth_eq]

theorem readMore_octet {n : Nat} (hn : n < 4) (res : BitVec 32) {a : BitVec 32} (h : a.toNat < 256) (rest : List UInt8) :
    readMore ⟨n, res, printD a ++ rest⟩ = true := by
  have hne : digits 10 a.toNat ≠ [] := digits_ne_nil 9 a.toNat
  simp [readMore, hn, printD_octet h, hne]

theorem ends_octet {n : Nat} (hn : n + 1 < 4) (res : BitVec 32) {a : BitVec 32} (h : a.toNat < 256) {rest : List UInt8}
    {s : Reader} (hrest : Ends readMore readRound ⟨n + 1, (res <<< 8) ||| a, rest⟩ s) :
    Ends readMore readRound ⟨n, res, printD a ++ 46 :: rest⟩ s := by
  apply Ends.round (readMore_octet (Nat.lt_of_succ_lt hn) res h _)
  rw [readRound_octet n res h (by rintro c ⟨⟩; rfl)]
  have hdot : readRound ⟨n + 1, (res <<< 8) ||| a, 46 :: rest⟩ = ⟨n + 1, (res <<< 8) ||| a, rest⟩ := rfl
  apply Ends.round
  · simp [readMore, hn]
  · rwa [hdot]

theorem readRound_less {s : Reader} (h : readMore s = true) : (readRound s).ip.length < s.ip.length := by
  obtain ⟨n, res, ip⟩ := s
  cases ip with
  | nil => simp [readMore] at h
  | cons c ip =>
      rw [readRound]
      split
      next hc =>
          have hdigit : isdigit c = true := hc
          have hle := (List.dropWhile_suffix (l := ip) isdigit).length_le
          simp only [List.dropWhile_cons, hdigit, if_true, List.length_cons]
          omega
      next => simp

theorem octets_join (ip : BitVec 32) :
    ((((0#32 <<< 8 ||| (0xff &&& ip.sshiftRight 24)) <<< 8 ||| (0xff &&& ip.sshiftRight 16)) <<< 8 |||
      (0xff &&& ip.sshiftRight 8)) <<< 8 ||| (0xff &&& ip)) = ip := by
  ext i hi
  simp only [BitVec.getElem_or, BitVec.getElem_shiftLeft, BitVec.getElem_and, BitVec.getElem_sshiftRight]
  interval_cases i <;> simp

theorem ends_last (res : BitVec 32) {a : BitVec 32} (h : a.toNat < 256) :
    Ends readMore readRound ⟨3, res, printD a⟩ ⟨4, (res <<< 8) ||| a, []⟩ := by
  rw [← List.append_nil (printD a)]
  apply Ends.round (readMore_octet (by decide) res h [])
  have hend : ∀ c ∈ ([] : List UInt8).head?, isdigit c = false := by simp
  rw [readRound_octet 3 res h hend]
  exact Ends.stop rfl

theorem readIp_writeIpB (ip : BitVec 32) : readIp (writeIpB ip) = some ip := by
  have hends : Ends readMore readRound ⟨0, 0, writeIpB ip⟩ ⟨4, ip, []⟩ := by
    have hlast := ends_last (((0#32 <<< 8 ||| (0xff &&& ip.sshiftRight 24)) <<< 8 ||| (0xff &&& ip.sshiftRight 16)) <<< 8 |||
      (0xff &&& ip.sshiftRight 8)) (octet_lt ip)
    rw [octets_join] at hlast
    apply ends_octet (by decide) _ (octet_lt _)
    apply ends_octet (by decide) _ (octet_lt _)
    exact ends_octet (by decide) _ (octet_lt _) hlast
  rw [readIp, hends.within (m := fun s => s.ip.length) (fun s => readRound_less) (Nat.lt_succ_self _), Option.map_some]

theorem macText_cons (b : UInt8) (bs : List UInt8) :
    macText (b :: bs) = sprintf02x b ++ (if bs = [] then [] else 58 :: macText bs) := by
  cases bs with
  | nil => simp [macText, List.intercalate]
  | cons b' bs => simp [macText, List.intercalate]

theorem sprintf02x_token (b : UInt8) :
    58 ∉ sprintf02x b ∧ 0 ∉ sprintf02x b ∧ UInt8.ofInt (strtol 16 (sprintf02x b)) = b :=
  forall_byte (P := fun b => 58 ∉ sprintf02x b ∧ 0 ∉ sprintf02x b ∧ UInt8.ofInt (strtol 16 (sprintf02x b)) = b)
    (by decide +kernel) b

theorem strtokR_macText (b : UInt8) (bs : List UInt8) :
    strtokR 58 (macText (b :: bs)) = some (sprintf02x b, macText bs) := by
  rw [macText_cons, strtokR_append (by simp [sprintf02x]) (sprintf02x_token b).1]
  · cases bs with
    | nil => rfl
    | cons b' bs => rfl
  · cases bs with
    | nil => simp
    | cons b' bs => simp

theorem storeTokens_macText (bs : List UInt8) {i : Nat} {macAddr : List UInt8} (h : i + bs.length ≤ macAddr.length) :
    storeTokens bs.length i (macText bs) macAddr = macAddr.take i ++ bs ++ macAddr.drop (i + bs.length) := by
  induction bs generalizing i macAddr with
  | nil => simp [storeTokens]
  | cons b bs ih =>
      have hi : i < macAddr.length := by
        rw [List.length_cons] at h
        omega
      rw [List.length_cons, storeTokens, strtokR_macText]
      simp only [(sprintf02x_token b).2.2]
      have hfit : i + 1 + bs.length ≤ (macAddr.set i b).length := by
        rw [List.length_set]
        rw [List.length_cons] at h
        omega
      rw [ih hfit, take_set_succ hi, List.drop_set_of_lt (by omega)]
      simp [Nat.add_assoc, Nat.add_comm 1]

theorem length_macText (bs : List UInt8) : (macText bs).length ≤ 3 * bs.length - 1 := by
  induction bs with
  | nil => simp [macText]
  | cons b bs ih =>
      rw [macText_cons, List.length_append]
      have hlen : (sprintf02x b).length = 2 := rfl
      split
      next h => simp [hlen, h]
      next h =>
          have hpos := List.length_pos_iff.mpr h
          simp only [List.length_cons, hlen]
          omega

theorem zero_notMem_macText (bs : List UInt8) : 0 ∉ macText bs := by
  induction bs with
  | nil => simp [macText]
  | cons b bs ih =>
      rw [macText_cons, List.mem_append, not_or]
      refine ⟨(sprintf02x_token b).2.1, ?_⟩
      split
      · simp
      · simp [ih]

theorem macBuf_eq {str : List UInt8} (hlen : str.length < 20) (hnul : 0 ∉ str) : macBuf str = str := by
  have hcopy : CString.strncpy (min (str.length + 1) 20 - 1) str = str := by
    have hmin : min (str.length + 1) 20 - 1 = str.length := by omega
    rw [hmin, CString.strncpy, List.take_length, Nat.sub_self, List.replicate_zero, List.append_nil]
  rw [macBuf, hcopy]
  apply takeWhile_until
  · intro c hc
    exact bne_iff_ne.mpr (ne_of_mem_of_not_mem hc hnul)
  · simp

theorem bcmMacStrToNum_text {m old : List UInt8} (hm : m.length = 6) (hold : old.length = 6) :
    bcmMacStrToNum (some old) (some (macText m)) = (1, some m) := by
  have hlen := length_macText m
  have hfit : 0 + m.length ≤ old.length := by omega
  have hstore := storeTokens_macText m hfit
  rw [hm] at hstore
  rw [bcmMacStrToNum, macBuf_eq (by omega) (zero_notMem_macText m), hstore]
  simp [hold]

/-- An address that is written as text is read back, whatever was stored at
the place where it is read to. -/
theorem address_text_round_trip :
    (∀ ip : BitVec 32, readIp (writeIpB ip) = some ip) ∧
      ∀ (m old : Vector UInt8 6) (str : List UInt8), ∃ text, bcmMacNumToStr (some m.toList) (some str) = (1, some text) ∧
        bcmMacStrToNum (some old.toList) (some text) = (1, some m.toList) := by
  refine ⟨readIp_writeIpB, fun m old str => ⟨macText m.toList, ?_, bcmMacStrToNum_text m.length_toList old.length_toList⟩⟩
  have hbytes : (List.range 6).map (fun i => m.toList.getD i 0) = m.toList := by
    apply List.ext_getElem
    · simp
    · intro i h h'
      simp at h
      simp [h]
  rw [bcmMacNumToStr, hbytes]

end AliceModem.AddressText
