import AliceModem.Board.Nvram
import AliceModem.Lib.Transition
import Mathlib.Data.List.Perm.Subperm

namespace AliceModem.MacPool

open Words ByteMemory Device BigEndian Nvram Transition

structure MacAddrInfo where
  ulId : UInt32
  chInUse : Byte
  deriving DecidableEq

structure MacInfo where
  ucaBaseMacAddr : List Byte
  macAddrs : List MacAddrInfo
  length_base : ucaBaseMacAddr.length = 6

abbrev macAddressAny : UInt32 := 0xffffffff
abbrev nvramMacCountMax : Nat := 32

def ulNumMacAddrs (d : NvramData) : Nat := be32 (d.drop 284)
def baseMacAddr (d : NvramData) : List Byte := readBytes (patch (fun _ => 0) 0 (d.drop 288)) 0 6

/-- The entry at an index of `MacAddrs`, which starts at byte 12 of `MAC_INFO`. -/
def entryAt (m : Mem Byte) (i : Nat) : MacAddrInfo :=
  ⟨UInt32.ofNat (be32 (readBytes m (12 + 8 * i) 4)), m (16 + 8 * i)⟩

def macInfoMem (heap : Mem Byte) (d : NvramData) : Mem Byte :=
  let ulMacInfoSize := 20 + 7 * ulNumMacAddrs d
  patch (fill heap 0 ulMacInfoSize 0) 0 (bytes32 (ulNumMacAddrs d) ++ baseMacAddr d)

def setMacInfo (heap : Mem Byte) (d : NvramData) : Option MacInfo :=
  if 0 < ulNumMacAddrs d ∧ ulNumMacAddrs d ≤ nvramMacCountMax then
    some ⟨baseMacAddr d, (List.range (ulNumMacAddrs d)).map (entryAt (macInfoMem heap d)), by simp [baseMacAddr]⟩
  else none

def low24 (mac : List Byte) : Nat := be32 ((mac.drop 3).take 3 ++ [0]) / 256

def macAddr (p : MacInfo) (i : Nat) : List Byte :=
  p.ucaBaseMacAddr.take 3 ++ (bytes32 ((low24 p.ucaBaseMacAddr + i) * 256)).take 3

structure Candidates where
  found : Option Nat
  freeNoId : Option Nat
  freeId : Option Nat

def scan (ulId : UInt32) : List MacAddrInfo → Nat → Option Nat → Option Nat → Candidates
  | [], _, noId, freeId => ⟨none, noId, freeId⟩
  | pMai :: rest, i, noId, freeId =>
      if ulId = pMai.ulId ∨ ulId = macAddressAny then ⟨some i, none, none⟩
      else if pMai.chInUse = 0 then
        if pMai.ulId = 0 ∧ noId = none then scan ulId rest (i + 1) (some i) freeId
        else if pMai.ulId ≠ 0 ∧ freeId = none then scan ulId rest (i + 1) noId (some i)
        else scan ulId rest (i + 1) noId freeId
      else scan ulId rest (i + 1) noId freeId

def claim (p : MacInfo) (i : Nat) (ulId : UInt32) : MacInfo := { p with macAddrs := p.macAddrs.set i ⟨ulId, 1⟩ }

/-- No address stands for `-EADDRNOTAVAIL`. -/
def kerSysGetMacAddress (p : MacInfo) (ulId : UInt32) : Option (List Byte) × MacInfo :=
  let c := scan ulId p.macAddrs 0 none none
  match c.found with
  | some i => (some (macAddr p i), { p with macAddrs := p.macAddrs.modify i fun pMai => { pMai with chInUse := 1 } })
  | none =>
      match c.freeNoId, c.freeId with
      | some i, _ => (some (macAddr p i), claim p i ulId)
      | none, some i => (some (macAddr p i), claim p i ulId)
      | none, none => (none, p)

abbrev einval : Int := 22

/-- `ulIdx` of a release; the first three bytes of the address do not matter. -/
def releaseIdx (p : MacInfo) (mac : List Byte) : Nat := uint32 ((low24 mac : Int) - low24 p.ucaBaseMacAddr)

def unclaim (p : MacInfo) (i : Nat) : MacInfo :=
  { p with macAddrs := p.macAddrs.modify i fun pMai => { pMai with chInUse := 0 } }

def kerSysReleaseMacAddress (p : MacInfo) (mac : List Byte) : Int × MacInfo :=
  if (p.macAddrs[releaseIdx p mac]?).map MacAddrInfo.chInUse = some 1 then (0, unclaim p (releaseIdx p mac))
  else (-einval, p)

def Free (l : List MacAddrInfo) (k : Nat) (before after : Option Nat) : Prop :=
  ∀ i, after = some i → before = some i ∨ ∃ j e, i = k + j ∧ l[j]? = some e ∧ e.chInUse = 0

theorem Free.cons {l : List MacAddrInfo} {k : Nat} {b b' after : Option Nat} {e : MacAddrInfo}
    (h : Free l (k + 1) b' after) (hb : b' = b ∨ b' = some k ∧ e.chInUse = 0) : Free (e :: l) k b after := by
  intro i hi
  rcases h i hi with h | ⟨j, e', rfl, hj, he'⟩
  · rcases hb with rfl | ⟨rfl, he⟩
    · exact .inl h
    · exact .inr ⟨0, e, (Option.some.inj h).symm, rfl, he⟩
  · exact .inr ⟨j + 1, e', by omega, hj, he'⟩

def Scanned (ulId : UInt32) (l : List MacAddrInfo) (k : Nat) (noId freeId : Option Nat) (c : Candidates) : Prop :=
  (∃ i e, l[i]? = some e ∧ e.ulId = ulId ∧ (∀ j e', j < i → l[j]? = some e' → e'.ulId ≠ ulId) ∧
    c.found = some (k + i)) ∨
  (∀ e ∈ l, e.ulId ≠ ulId) ∧ c.found = none ∧ Free l k noId c.freeNoId ∧ Free l k freeId c.freeId ∧
    (c.freeNoId = none → c.freeId = none → noId = none ∧ freeId = none ∧ ∀ e ∈ l, e.chInUse ≠ 0)

theorem Scanned.cons {ulId : UInt32} {l : List MacAddrInfo} {k : Nat} {noId freeId b b' : Option Nat}
    {c : Candidates} {e : MacAddrInfo} (h : Scanned ulId l (k + 1) b b' c) (hne : e.ulId ≠ ulId)
    (hb : b = noId ∨ b = some k ∧ e.chInUse = 0) (hb' : b' = freeId ∨ b' = some k ∧ e.chInUse = 0)
    (hnone : b = none → b' = none → noId = none ∧ freeId = none ∧ e.chInUse ≠ 0) :
    Scanned ulId (e :: l) k noId freeId c := by
  rcases h with ⟨i, e', hi, he', hfirst, hfound⟩ | ⟨hother, hfound, hno, hfree, hall⟩
  · refine .inl ⟨i + 1, e', hi, he', ?_, by rw [hfound]; congr 1; omega⟩
    intro j e'' hj hj'
    cases j with
    | zero => rwa [← Option.some.inj hj']
    | succ j => exact hfirst j e'' (by omega) hj'
  · refine .inr ⟨List.forall_mem_cons.mpr ⟨hne, hother⟩, hfound, hno.cons hb, hfree.cons hb', fun h h' => ?_⟩
    obtain ⟨hb0, hb0', hl⟩ := hall h h'
    obtain ⟨h1, h2, h3⟩ := hnone hb0 hb0'
    exact ⟨h1, h2, List.forall_mem_cons.mpr ⟨h3, hl⟩⟩

theorem scan_spec {ulId : UInt32} (hid : ulId ≠ macAddressAny) (l : List MacAddrInfo) (k : Nat)
    (noId freeId : Option Nat) : Scanned ulId l k noId freeId (scan ulId l k noId freeId) := by
  induction l generalizing k noId freeId with
  | nil => exact .inr ⟨by simp, rfl, fun i h => .inl h, fun i h => .inl h, fun h h' => ⟨h, h', by simp⟩⟩
  | cons e l ih =>
      by_cases hmatch : ulId = e.ulId
      · refine .inl ⟨0, e, rfl, hmatch.symm, by simp, ?_⟩
        simp [scan, hmatch]
      · have hne : e.ulId ≠ ulId := fun h => hmatch h.symm
        have hnot : ¬ (ulId = e.ulId ∨ ulId = macAddressAny) := by tauto
        by_cases huse : e.chInUse = 0
        · by_cases h1 : e.ulId = 0 ∧ noId = none
          · simp only [scan, hnot, huse, if_pos h1, if_true, if_false]
            exact (ih _ _ _).cons hne (.inr ⟨rfl, huse⟩) (.inl rfl) nofun
          · by_cases h2 : e.ulId ≠ 0 ∧ freeId = none
            · simp only [scan, hnot, huse, if_neg h1, if_pos h2, if_true, if_false]
              exact (ih _ _ _).cons hne (.inl rfl) (.inr ⟨rfl, huse⟩) nofun
            · simp only [scan, hnot, huse, if_neg h1, if_neg h2, if_true, if_false]
              exact (ih _ _ _).cons hne (.inl rfl) (.inl rfl) (by tauto)
        · simp only [scan, hnot, huse, if_false]
          exact (ih _ _ _).cons hne (.inl rfl) (.inl rfl) fun h h' => ⟨h, h', huse⟩

theorem kerSysGetMacAddress_cases (p : MacInfo) {ulId : UInt32} (hid : ulId ≠ macAddressAny) :
    (∃ i e, p.macAddrs[i]? = some e ∧
      (e.ulId = ulId ∧ (∀ j e', j < i → p.macAddrs[j]? = some e' → e'.ulId ≠ ulId) ∨
        (∀ e ∈ p.macAddrs, e.ulId ≠ ulId) ∧ e.chInUse = 0) ∧
      kerSysGetMacAddress p ulId = (some (macAddr p i), claim p i ulId)) ∨
    (∀ e ∈ p.macAddrs, e.ulId ≠ ulId ∧ e.chInUse ≠ 0) ∧ kerSysGetMacAddress p ulId = (none, p) := by
  rcases scan_spec hid p.macAddrs 0 none none with ⟨i, e, hi, he, hfirst, hfound⟩ | ⟨hne, hfound, hno, hfree, hall⟩
  · refine .inl ⟨i, e, hi, .inl ⟨he, hfirst⟩, ?_⟩
    have hmod : (p.macAddrs.modify i fun pMai => { pMai with chInUse := 1 }) = p.macAddrs.set i ⟨ulId, 1⟩ := by
      rw [List.modify_eq_set_getElem?, hi, ← he]
      rfl
    rw [zero_add] at hfound
    simp only [kerSysGetMacAddress, hfound, claim, hmod]
  · rcases hn : (scan ulId p.macAddrs 0 none none).freeNoId with _ | i
    · rcases hf : (scan ulId p.macAddrs 0 none none).freeId with _ | i
      · obtain ⟨-, -, huse⟩ := hall hn hf
        refine .inr ⟨fun e he => ⟨hne e he, huse e he⟩, ?_⟩
        simp only [kerSysGetMacAddress, hfound, hn, hf]
      · obtain ⟨j, e, rfl, hj, he⟩ := (hfree i hf).resolve_left nofun
        refine .inl ⟨j, e, hj, .inr ⟨hne, he⟩, ?_⟩
        simp only [kerSysGetMacAddress, hfound, hn, hf, zero_add]
    · obtain ⟨j, e, rfl, hj, he⟩ := (hno i hn).resolve_left nofun
      refine .inl ⟨j, e, hj, .inr ⟨hne, he⟩, ?_⟩
      simp only [kerSysGetMacAddress, hfound, hn, zero_add]

theorem low24_macAddr (p : MacInfo) {i : Nat} (h : low24 p.ucaBaseMacAddr + i < 16777216) :
    low24 (macAddr p i) = low24 p.ucaBaseMacAddr + i := by
  have htake : (p.ucaBaseMacAddr.take 3).length = 3 := by rw [List.length_take, p.length_base]; rfl
  have hzero (n : Nat) (hn : n < 16777216) : (bytes32 (n * 256)).take 3 ++ [0] = bytes32 (n * 256) := by
    have h0 : UInt8.ofNat (n * 256) = 0 := by
      rw [← UInt8.toNat_inj, UInt8.toNat_ofNat']
      simp
    simp only [bytes32, List.take_succ_cons, List.take_zero, List.cons_append, List.nil_append, h0]
  have hbe := be32_bytes32 (n := (low24 p.ucaBaseMacAddr + i) * 256) (by omega) []
  rw [List.append_nil] at hbe
  rw [low24, macAddr, List.drop_left' htake, List.take_take, Nat.min_self, hzero _ h, hbe]
  omega

/-- A range of addresses that does not wrap around in its last three bytes. -/
def InRange (p : MacInfo) : Prop := low24 p.ucaBaseMacAddr + p.macAddrs.length ≤ 16777216

theorem releaseIdx_macAddr {p : MacInfo} (hp : InRange p) {i : Nat} (h : i < p.macAddrs.length) :
    releaseIdx p (macAddr p i) = i := by
  rw [InRange] at hp
  rw [releaseIdx, low24_macAddr p (by omega)]
  have := uint32_natCast (show i < 4294967296 by omega)
  rwa [show ((low24 p.ucaBaseMacAddr + i : Nat) : Int) - low24 p.ucaBaseMacAddr = (i : Nat) by push_cast; ring]

theorem macAddr_injective {p : MacInfo} (hp : InRange p) {i j : Nat} (hi : i < p.macAddrs.length)
    (hj : j < p.macAddrs.length) (h : macAddr p i = macAddr p j) : i = j := by
  rw [← releaseIdx_macAddr hp hi, h, releaseIdx_macAddr hp hj]

/-- The table together with a record of the requests: which id was last given
the address of an entry that has not been released since. -/
structure Pool where
  info : MacInfo
  held : Nat → Option UInt32

def Pool.get (s : Pool) (ulId : UInt32) : Pool :=
  let r := kerSysGetMacAddress s.info ulId
  ⟨r.2, fun i => if i < s.info.macAddrs.length ∧ r.1 = some (macAddr s.info i) then some ulId else s.held i⟩

def Pool.release (s : Pool) (mac : List Byte) : Pool :=
  let r := kerSysReleaseMacAddress s.info mac
  ⟨r.2, fun i => if r.1 = 0 ∧ releaseIdx s.info mac = i then none else s.held i⟩

inductive PoolStep : Pool → Pool → Prop
  | get (s : Pool) (ulId : UInt32) (h : ulId ≠ macAddressAny) : PoolStep s (s.get ulId)
  | release (s : Pool) (mac : List Byte) : PoolStep s (s.release mac)

def DistinctIds (l : List MacAddrInfo) : Prop :=
  ∀ (i j : Nat) (e e' : MacAddrInfo), l[i]? = some e → l[j]? = some e' → e.ulId ≠ 0 → e.ulId = e'.ulId → i = j

structure Exclusive (s : Pool) : Prop where
  distinct : DistinctIds s.info.macAddrs
  returned : ∀ ulId mac i ulId', ulId ≠ macAddressAny → (kerSysGetMacAddress s.info ulId).1 = some mac →
    i < s.info.macAddrs.length → mac = macAddr s.info i → s.held i = some ulId' → ulId' = ulId
  repeated : ∀ ulId i, ulId ≠ macAddressAny → s.held i = some ulId →
    (kerSysGetMacAddress s.info ulId).1 = some (macAddr s.info i)
  unavailable : ∀ ulId i, ulId ≠ macAddressAny → (kerSysGetMacAddress s.info ulId).1 = none →
    i < s.info.macAddrs.length → ∃ ulId', ulId' ≠ ulId ∧ s.held i = some ulId'
  released : ∀ ulId i, s.held i = some ulId →
    kerSysReleaseMacAddress s.info (macAddr s.info i) = (0, unclaim s.info i)

structure Consistent (s : Pool) : Prop where
  inRange : InRange s.info
  distinct : DistinctIds s.info.macAddrs
  held : ∀ (i : Nat) (ulId : UInt32), s.held i = some ulId ↔ s.info.macAddrs[i]? = some ⟨ulId, 1⟩
  used : ∀ (i : Nat) (e : MacAddrInfo), s.info.macAddrs[i]? = some e → e.chInUse = 0 ∨ e.chInUse = 1
  first : ∀ (i j : Nat) (e e' : MacAddrInfo), s.info.macAddrs[j]? = some e' → e'.ulId = 0 → e'.chInUse = 1 → i < j →
    s.info.macAddrs[i]? = some e → e.ulId ≠ 0

theorem lt_of_getElem? {l : List MacAddrInfo} {i : Nat} {e : MacAddrInfo} (h : l[i]? = some e) : i < l.length :=
  (List.getElem?_eq_some_iff.mp h).1

theorem getElem?_set_cases {l : List MacAddrInfo} {i j : Nat} {a e : MacAddrInfo} (h : (l.set i a)[j]? = some e) :
    (j = i ∧ e = a) ∨ (j ≠ i ∧ l[j]? = some e) := by
  rw [List.getElem?_set] at h
  split at h
  next hij =>
    split at h
    next => exact .inl ⟨hij.symm, (Option.some.inj h).symm⟩
    next => cases h
  next hij => exact .inr ⟨fun h => hij h.symm, h⟩

theorem Pool.get_found {s : Pool} (hr : InRange s.info) {ulId : UInt32} {i : Nat} (hi : i < s.info.macAddrs.length)
    (hget : kerSysGetMacAddress s.info ulId = (some (macAddr s.info i), claim s.info i ulId)) :
    s.get ulId = ⟨claim s.info i ulId, Function.update s.held i (some ulId)⟩ := by
  simp only [Pool.get, hget, Option.some.injEq, Pool.mk.injEq, true_and]
  funext k
  rw [Function.update_apply]
  refine if_congr ⟨fun ⟨hk, he⟩ => (macAddr_injective hr hi hk he).symm, ?_⟩ rfl rfl
  rintro rfl
  exact ⟨hi, rfl⟩

theorem Consistent.get {s : Pool} (h : Consistent s) {ulId : UInt32} (hid : ulId ≠ macAddressAny) :
    Consistent (s.get ulId) := by
  rcases kerSysGetMacAddress_cases s.info hid with ⟨i, e, hi, hcase, hget⟩ | ⟨-, hget⟩
  · have hlt := lt_of_getElem? hi
    have hother (j : Nat) (e' : MacAddrInfo) (hj : s.info.macAddrs[j]? = some e') (hne : j ≠ i) (h0 : ulId ≠ 0) :
        e'.ulId ≠ ulId := by
      rintro rfl
      rcases hcase with ⟨he, -⟩ | ⟨hnone, -⟩
      · exact hne (h.distinct j i e' e hj hi h0 he.symm)
      · exact hnone e' (List.mem_of_getElem? hj) rfl
    rw [Pool.get_found h.inRange hlt hget]
    refine ⟨?_, ?_, ?_, ?_, ?_⟩
    · have := h.inRange
      simpa [InRange, claim] using this
    · intro a b ea eb ha hb h0 heq
      rcases getElem?_set_cases ha with ⟨rfl, rfl⟩ | ⟨hai, ha'⟩ <;>
        rcases getElem?_set_cases hb with ⟨rfl, rfl⟩ | ⟨hbi, hb'⟩
      · rfl
      · exact absurd heq.symm (hother b eb hb' hbi h0)
      · rw [heq] at h0
        exact absurd heq (hother a ea ha' hai h0)
      · exact h.distinct a b ea eb ha' hb' h0 heq
    · intro k id
      dsimp only [claim]
      rw [List.getElem?_set]
      by_cases hk : k = i
      · subst hk
        simp [hlt]
      · rw [Function.update_of_ne hk, if_neg fun h => hk h.symm]
        exact h.held k id
    · intro j e' hj
      rcases getElem?_set_cases hj with ⟨-, rfl⟩ | ⟨-, hj⟩
      · exact .inr rfl
      · exact h.used j e' hj
    · intro a b ea eb hb hb0 hb1 hab ha
      rcases getElem?_set_cases hb with ⟨rfl, rfl⟩ | ⟨hbi, hb'⟩ <;>
        rcases getElem?_set_cases ha with ⟨rfl, rfl⟩ | ⟨hai, ha'⟩
      · omega
      · obtain rfl : ulId = 0 := hb0
        rcases hcase with ⟨-, hfirst⟩ | ⟨hnone, -⟩
        · exact hfirst a ea hab ha'
        · exact hnone ea (List.mem_of_getElem? ha')
      · rintro rfl
        rcases hcase with ⟨he, -⟩ | ⟨hnone, -⟩
        · exact h.first a b e eb hb' hb0 hb1 hab hi he
        · exact hnone eb (List.mem_of_getElem? hb') hb0
      · exact h.first a b ea eb hb' hb0 hb1 hab ha'
  · have : s.get ulId = s := by simp only [Pool.get, hget]; simp
    rwa [this]

theorem kerSysReleaseMacAddress_cases (p : MacInfo) (mac : List Byte) :
    (∃ e, p.macAddrs[releaseIdx p mac]? = some e ∧ e.chInUse = 1 ∧
      kerSysReleaseMacAddress p mac = (0, unclaim p (releaseIdx p mac))) ∨
    kerSysReleaseMacAddress p mac = (-einval, p) := by
  rw [kerSysReleaseMacAddress]
  split
  next h =>
    obtain ⟨e, he, h1⟩ := Option.map_eq_some_iff.mp h
    exact .inl ⟨e, he, h1, rfl⟩
  next => exact .inr rfl

theorem getElem?_modify_cases {l : List MacAddrInfo} {i j : Nat} {e : MacAddrInfo}
    (h : (l.modify i fun pMai => { pMai with chInUse := 0 })[j]? = some e) :
    ∃ e', l[j]? = some e' ∧ e.ulId = e'.ulId ∧ e.chInUse = if j = i then 0 else e'.chInUse := by
  rw [List.getElem?_modify] at h
  obtain ⟨e', he', rfl⟩ := Option.map_eq_some_iff.mp h
  refine ⟨e', he', ?_⟩
  by_cases hij : i = j
  · simp [hij]
  · rw [if_neg hij, if_neg fun h => hij h.symm]
    exact ⟨rfl, rfl⟩

theorem Consistent.release {s : Pool} (h : Consistent s) (mac : List Byte) : Consistent (s.release mac) := by
  rcases kerSysReleaseMacAddress_cases s.info mac with ⟨e, he, huse, hrel⟩ | hrel
  · set k := releaseIdx s.info mac with hk
    have hheld (i : Nat) : (s.release mac).held i = if k = i then none else s.held i := by
      simp only [Pool.release, hrel, true_and, hk]
    have htable : (s.release mac).info.macAddrs =
        s.info.macAddrs.modify k fun pMai => { pMai with chInUse := 0 } := by simp only [Pool.release, hrel, unclaim]
    have hbase : (s.release mac).info.ucaBaseMacAddr = s.info.ucaBaseMacAddr := by
      simp only [Pool.release, hrel, unclaim]
    refine ⟨?_, ?_, ?_, ?_, ?_⟩
    · have := h.inRange
      rw [InRange, htable, hbase, List.length_modify]
      exact this
    · rw [htable]
      intro a b ea eb ha hb h0 heq
      obtain ⟨ea', ha', hida, -⟩ := getElem?_modify_cases ha
      obtain ⟨eb', hb', hidb, -⟩ := getElem?_modify_cases hb
      rw [hida] at h0
      exact h.distinct a b ea' eb' ha' hb' h0 (by rw [← hida, heq, hidb])
    · intro i ulId
      rw [hheld, htable, List.getElem?_modify]
      by_cases hi : k = i
      · subst hi
        simp [he]
      · have := h.held i ulId
        simpa [hi] using this
    · rw [htable]
      intro i ei hi
      obtain ⟨ei', hi', -, huse'⟩ := getElem?_modify_cases hi
      rw [huse']
      split
      · exact .inl rfl
      · exact h.used i ei' hi'
    · rw [htable]
      intro a b ea eb hb hb0 hb1 hab ha
      obtain ⟨ea', ha', hida, -⟩ := getElem?_modify_cases ha
      obtain ⟨eb', hb', hidb, hub⟩ := getElem?_modify_cases hb
      rw [hida]
      have hbk : b ≠ k := by
        rintro rfl
        simp [hb1] at hub
      rw [if_neg hbk, hb1] at hub
      exact h.first a b ea' eb' hb' (by rw [← hidb, hb0]) hub.symm hab ha'
  · have : s.release mac = s := by simp only [Pool.release, hrel]; simp
    rwa [this]

theorem Consistent.exclusive {s : Pool} (h : Consistent s) : Exclusive s := by
  refine ⟨h.distinct, ?_, ?_, ?_, ?_⟩
  · intro ulId mac i ulId' hid hget hi hmac hheld
    rw [h.held] at hheld
    rcases kerSysGetMacAddress_cases s.info hid with ⟨j, e, hj, hcase, hres⟩ | ⟨-, hres⟩
    · rw [hres, Option.some.injEq] at hget
      obtain rfl := macAddr_injective h.inRange (lt_of_getElem? hj) hi (hget.trans hmac)
      obtain rfl := Option.some.inj (hj.symm.trans hheld)
      rcases hcase with ⟨he, -⟩ | ⟨-, hfree⟩
      · exact he
      · cases hfree
    · rw [hres] at hget
      cases hget
  · intro ulId i hid hheld
    rw [h.held] at hheld
    rcases kerSysGetMacAddress_cases s.info hid with ⟨j, e, hj, hcase, hres⟩ | ⟨hall, -⟩
    · rw [hres]
      rcases hcase with ⟨rfl, hfirst⟩ | ⟨hnone, -⟩
      · -- the match is not behind the entry, and before it only if the id is 0
        have hle : j ≤ i := by
          by_contra hlt
          exact hfirst i _ (not_le.mp hlt) hheld rfl
        by_cases h0 : e.ulId = 0
        · have hge : ¬ j < i := fun hlt => h.first j i e _ hheld h0 rfl hlt hj h0
          obtain rfl : j = i := by omega
          rfl
        · obtain rfl := h.distinct j i e _ hj hheld h0 rfl
          rfl
      · exact absurd rfl (hnone _ (List.mem_of_getElem? hheld))
    · exact absurd rfl (hall _ (List.mem_of_getElem? hheld)).1
  · intro ulId i hid hget hi
    rcases kerSysGetMacAddress_cases s.info hid with ⟨j, e, hj, hcase, hres⟩ | ⟨hall, -⟩
    · rw [hres] at hget
      cases hget
    · obtain ⟨e, he⟩ : ∃ e, s.info.macAddrs[i]? = some e := ⟨_, List.getElem?_eq_getElem hi⟩
      obtain ⟨hne, huse⟩ := hall e (List.mem_of_getElem? he)
      have h1 : e.chInUse = 1 := (h.used i e he).resolve_left huse
      refine ⟨e.ulId, hne, (h.held i e.ulId).mpr ?_⟩
      rw [he, ← h1]
  · intro ulId i hheld
    rw [h.held] at hheld
    rw [kerSysReleaseMacAddress, releaseIdx_macAddr h.inRange (lt_of_getElem? hheld), hheld]
    exact if_pos rfl

def Pool.start (p : MacInfo) : Pool := ⟨p, fun _ => none⟩

/-- No entry is in use, and the ids left in the table are different. -/
def Clean (p : MacInfo) : Prop := (∀ e ∈ p.macAddrs, e.chInUse = 0) ∧ DistinctIds p.macAddrs

theorem Clean.consistent {p : MacInfo} (h : Clean p) (hp : InRange p) : Consistent (Pool.start p) := by
  have hfree (i : Nat) (e : MacAddrInfo) (he : p.macAddrs[i]? = some e) : e.chInUse = 0 :=
    h.1 e (List.mem_of_getElem? he)
  refine ⟨hp, h.2, fun i ulId => ⟨nofun, fun he => ?_⟩, fun i e he => .inl (hfree i e he), ?_⟩
  · cases hfree i _ he
  · intro i j e e' hj _ h1
    rw [hfree j e' hj] at h1
    cases h1

theorem reach_consistent {p : MacInfo} (h : Clean p) (hp : InRange p) {s : Pool}
    (hs : Reach (· = Pool.start p) PoolStep s) : Consistent s := by
  refine hs.invariant ?_ ?_
  · rintro _ rfl
    exact h.consistent hp
  · intro s s' hc hstep
    cases hstep with
    | get ulId hid => exact hc.get hid
    | release mac => exact hc.release mac

theorem exists_fresh (l : List UInt32) (hl : l.length ≤ 32) : ∃ x, x ∉ l ∧ x ≠ macAddressAny := by
  by_contra hall
  simp only [not_exists, not_and, not_not] at hall
  -- 34 different ids do not fit into the list and the one exception
  have hsub : (List.range 34).map UInt32.ofNat ⊆ macAddressAny :: l := by
    intro x _
    by_cases hx : x ∈ l
    · exact List.mem_cons_of_mem _ hx
    · rw [hall x hx]
      exact List.mem_cons_self
  have hnodup : ((List.range 34).map UInt32.ofNat).Nodup := by decide
  have := (List.subperm_of_subset hnodup hsub).length_le
  simp only [List.length_map, List.length_range, List.length_cons] at this
  omega

theorem unrequested_entry {p : MacInfo} (hall : ∀ s, Reach (· = Pool.start p) PoolStep s → Exclusive s) {s : Pool}
    (hs : Reach (· = Pool.start p) PoolStep s) (hr : InRange s.info)
    (hlen : s.info.macAddrs.length ≤ 32) {i : Nat} {e : MacAddrInfo}
    (hi : s.info.macAddrs[i]? = some e) (huse : e.chInUse ≠ 0) : s.held i ≠ none := by
  intro hheld
  obtain ⟨k, hk⟩ : ∃ k, s.info.macAddrs.countP (·.chInUse = 0) = k := ⟨_, rfl⟩
  induction k using Nat.strong_induction_on generalizing s with
  | _ k ih =>
      obtain ⟨ulId, hnew, hid⟩ := exists_fresh (s.info.macAddrs.map MacAddrInfo.ulId) (by simpa using hlen)
      have hne (e' : MacAddrInfo) (he' : e' ∈ s.info.macAddrs) : e'.ulId ≠ ulId :=
        fun h => hnew (List.mem_map.mpr ⟨e', he', h⟩)
      rcases kerSysGetMacAddress_cases s.info hid with ⟨j, e', hj, hcase, hres⟩ | ⟨-, hres⟩
      · have hfree : e'.chInUse = 0 := by
          rcases hcase with ⟨he, -⟩ | ⟨-, he⟩
          · exact absurd he (hne e' (List.mem_of_getElem? hj))
          · exact he
        have hlt := lt_of_getElem? hj
        have hij : j ≠ i := by
          rintro rfl
          rw [hj, Option.some.injEq] at hi
          exact huse (hi ▸ hfree)
        have hcount : (s.info.macAddrs.set j ⟨ulId, 1⟩).countP (·.chInUse = 0) < k := by
          have hpos : 0 < s.info.macAddrs.countP (·.chInUse = 0) :=
            List.countP_pos_iff.mpr ⟨e', List.mem_of_getElem? hj, by simp [hfree]⟩
          have helem : s.info.macAddrs[j] = e' := by
            rw [List.getElem?_eq_getElem hlt, Option.some.injEq] at hj
            exact hj
          rw [List.countP_set hlt, helem]
          simp only [hfree, decide_true, if_true]
          have : (decide ((1 : Byte) = 0)) = false := rfl
          simp only [this, Bool.false_eq_true, if_false]
          omega
        have hnext := hs.next (.get s ulId hid)
        rw [Pool.get_found hr hlt hres] at hnext
        refine ih _ hcount hnext ?_ ?_ ?_ ?_ rfl
        · simpa [InRange, claim] using hr
        · rwa [claim, List.length_set]
        · rw [claim, List.getElem?_set_ne hij, hi]
        · exact (Function.update_of_ne hij.symm ..).trans hheld
      · obtain ⟨_, -, h⟩ := (hall s hs).unavailable ulId i hid (by rw [hres]) (lt_of_getElem? hi)
        cases hheld.symm.trans h

theorem exclusive_iff {p : MacInfo} (hp : InRange p) (hlen : p.macAddrs.length ≤ 32) :
    (∀ s, Reach (· = Pool.start p) PoolStep s → Exclusive s) ↔ Clean p := by
  constructor
  · intro hall
    refine ⟨fun e he => ?_, (hall _ (.start rfl)).distinct⟩
    by_contra huse
    obtain ⟨i, hi⟩ := List.mem_iff_getElem?.mp he
    exact unrequested_entry hall (.start rfl) hp hlen hi huse rfl
  · intro hclean s hs
    exact (reach_consistent hclean hp hs).exclusive

section

variable {heap : Mem Byte} {d : NvramData} {p : MacInfo}

theorem setMacInfo_eq (h : setMacInfo heap d = some p) :
    (0 < ulNumMacAddrs d ∧ ulNumMacAddrs d ≤ nvramMacCountMax) ∧
      p.macAddrs = (List.range (ulNumMacAddrs d)).map (entryAt (macInfoMem heap d)) := by
  rw [setMacInfo] at h
  split at h
  next hn =>
    obtain rfl := Option.some.inj h
    exact ⟨hn, rfl⟩
  next => cases h

theorem clean_of_le (h : setMacInfo heap d = some p) (hn : ulNumMacAddrs d ≤ 11) : Clean p := by
  obtain ⟨-, hp⟩ := setMacInfo_eq h
  have hzero (i : Int) (hl : 10 ≤ i) (hu : i < 20 + 7 * ulNumMacAddrs d) : macInfoMem heap d i = 0 := by
    rw [macInfoMem, patch_outside _ _ _ _ (by simp [baseMacAddr]; omega), fill_inside _ _ _ _ _ (by omega) (by
      push_cast
      omega)]
  have hentry (e : MacAddrInfo) (he : e ∈ p.macAddrs) : e = ⟨0, 0⟩ := by
    rw [hp] at he
    obtain ⟨i, hi, rfl⟩ := List.mem_map.mp he
    rw [List.mem_range] at hi
    have hread : readBytes (macInfoMem heap d) (12 + 8 * i) 4 = List.replicate 4 0 :=
      readBytes_replicate fun k hk => hzero _ (by omega) (by omega)
    rw [entryAt, hread, hzero (16 + 8 * i) (by omega) (by omega)]
    rfl
  refine ⟨fun e he => by rw [hentry e he], fun i j e e' hi _ h0 _ => absurd ?_ h0⟩
  rw [hentry e (List.mem_of_getElem? hi)]

/-- The addresses are handed out exclusively if and only if the table, of which
`set_mac_info` clears too little, happens to start clean; up to eleven entries it does. -/
theorem mac_pool_exclusive_iff (h : setMacInfo heap d = some p) (hp : InRange p) :
    ((∀ s, Reach (· = Pool.start p) PoolStep s → Exclusive s) ↔ Clean p) ∧ (ulNumMacAddrs d ≤ 11 → Clean p) := by
  obtain ⟨⟨-, hn⟩, hmacs⟩ := setMacInfo_eq h
  refine ⟨exclusive_iff hp ?_, clean_of_le h⟩
  rwa [hmacs, List.length_map, List.length_range]

end

/-- NVRAM data with room for `n` addresses from 02:10:18:00:00:00 on. -/
def demoNvram (n : Nat) : NvramData :=
  List.replicate 284 0 ++ bytes32 n ++ [2, 16, 24, 0, 0, 0] ++ List.replicate 6 0

theorem demoNvram_pool (heap : Mem Byte) :
    ∃ p, setMacInfo heap (demoNvram 32) = some p ∧ InRange p := by
  have hn : ulNumMacAddrs (demoNvram 32) = 32 := by decide
  have hlow : low24 (baseMacAddr (demoNvram 32)) = 0 := by decide
  refine ⟨⟨baseMacAddr (demoNvram 32), (List.range (ulNumMacAddrs (demoNvram 32))).map
    (entryAt (macInfoMem heap (demoNvram 32))), by simp [baseMacAddr]⟩, if_pos (by rw [hn]; decide), ?_⟩
  rw [InRange, List.length_map, List.length_range, hn, hlow]
  decide

theorem mac_pool_exclusive_iff_demo :
    ∃ p, setMacInfo (fun _ => 0) (demoNvram 32) = some p ∧ InRange p ∧
      ((∀ s, Reach (· = Pool.start p) PoolStep s → Exclusive s) ↔ Clean p) := by
  obtain ⟨p, hset, hp⟩ := demoNvram_pool fun _ => 0
  exact ⟨p, hset, hp, (mac_pool_exclusive_iff hset hp).1⟩

theorem same_id_twice :
    ∃ p, setMacInfo (fun _ => 1) (demoNvram 32) = some p ∧ InRange p ∧ ¬ Exclusive (Pool.start p) := by
  obtain ⟨p, hset, hp⟩ := demoNvram_pool fun _ => 1
  obtain ⟨-, hmacs⟩ := setMacInfo_eq hset
  have hentry (i : Nat) (hi : i = 30 ∨ i = 31) : p.macAddrs[i]? = some ⟨0x01010101, 1⟩ := by
    rw [hmacs]
    rcases hi with rfl | rfl <;> decide +kernel
  refine ⟨p, hset, hp, fun h => ?_⟩
  have := h.distinct 30 31 _ _ (hentry 30 (.inl rfl)) (hentry 31 (.inr rfl)) (by decide) rfl
  omega

end AliceModem.MacPool
