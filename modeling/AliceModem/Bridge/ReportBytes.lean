import AliceModem.Bridge.Changes
import AliceModem.Bridge.Reception

namespace AliceModem.ReportBytes

open ByteMemory BigEndian Snooping Changes Reception

def position (m : Mem UInt8) : Nat → Int
  | 0 => 8
  | k + 1 => position m k + grecSize (grecAt m (position m k))

/-- Where the record `k` is in the layout of RFC 3376. -/
def wirePosition (m : Mem UInt8) : Nat → Int
  | 0 => 8
  | k + 1 =>
    wirePosition m k + grecSize (grecAt m (wirePosition m k)) + 4 * (grecAt m (wirePosition m k)).grecAuxwords.toNat

def FollowsLayout (m : Mem UInt8) : Prop := ∀ k < be16At m 6, position m k = wirePosition m k

/-- The memories agree on the bytes of the report that are in the frame, which ends before `frameEnd`. -/
def Agree (frameEnd : Int) (m m' : Mem UInt8) : Prop := ∀ i, 0 ≤ i → i < frameEnd → m i = m' i

variable {Port : Type} [DecidableEq Port]

def SameTable (jiffies : UInt32) (prt : Option Port) (host : Mac) (m : Mem UInt8) (frameEnd : Int) : Prop :=
  ∀ m', Agree frameEnd m m' → ∀ br : Bridge Port,
    (brProcessIgmpv3 jiffies prt host br m).mcList = (brProcessIgmpv3 jiffies prt host br m').mcList

def NoAux (m : Mem UInt8) : Prop := ∀ k, k + 1 < be16At m 6 → (grecAt m (wirePosition m k)).grecAuxwords = 0

/-- The frame holds the number of records and, laid out without auxiliary data, the records; of the last one it holds
at least the type, which then is not a known one. -/
def InFrame (m : Mem UInt8) (frameEnd : Int) : Prop :=
  8 ≤ frameEnd ∧ ∀ k, k + 1 = be16At m 6 → position m k < frameEnd ∧
    (Known (grecAt m (position m k)) → position m k + grecSize (grecAt m (position m k)) ≤ frameEnd)

section Layout

variable {m m' : Mem UInt8} {a : Int} {k : Nat}

theorem followsLayout_iff : FollowsLayout m ↔ NoAux m := by
  constructor
  · intro h k hk
    have hnext := h (k + 1) hk
    have hthis := h k (by omega)
    rw [position, wirePosition, hthis] at hnext
    have hzero : (grecAt m (wirePosition m k)).grecAuxwords.toNat = 0 := by omega
    exact UInt8.toNat_inj.mp hzero
  · intro h k hk
    induction k with
    | zero => rfl
    | succ k ih =>
        rw [position, wirePosition, ih (by omega), h k hk, UInt8.toNat_zero]
        omega

theorem grecType_grecAt : (grecAt m a).grecType = m a := rfl

theorem grecSize_grecAt : grecSize (grecAt m a) = 8 + 4 * be16At m (a + 2) := by
  simp [grecSize, grecAt]

theorem be16At_congr (h : m a = m' a) (h' : m (a + 1) = m' (a + 1)) : be16At m a = be16At m' a := by
  rw [be16At, be16At, h, h']

theorem ipAt_congr (h : ∀ i, a ≤ i → i < a + 4 → m i = m' i) : ipAt m a = ipAt m' a := by
  rw [ipAt, ipAt, readBytes_congr fun i hi => h (a + i) (by omega) (by omega)]

theorem grecAt_congr (h : ∀ i, a ≤ i → i < a + grecSize (grecAt m a) → m i = m' i) : grecAt m a = grecAt m' a := by
  rw [grecSize_grecAt] at h
  have hcount : be16At m (a + 2) = be16At m' (a + 2) :=
    be16At_congr (h _ (by omega) (by omega)) (h _ (by omega) (by omega))
  have hmca : ipAt m (a + 4) = ipAt m' (a + 4) := ipAt_congr fun i _ _ => h i (by omega) (by omega)
  have hsrc : ((List.range (be16At m (a + 2))).map fun i : Nat => ipAt m (a + 8 + 4 * i)) =
      (List.range (be16At m (a + 2))).map fun i : Nat => ipAt m' (a + 8 + 4 * i) := by
    refine List.map_congr_left fun i hi => ipAt_congr fun c _ _ => h c (by omega) ?_
    have hi := List.mem_range.mp hi
    omega
  rw [grecAt, grecAt, ← hcount, h a (by omega) (by omega), h (a + 1) (by omega) (by omega), hmca, hsrc]

theorem position_add_le (m : Mem UInt8) (k : Nat) : position m k + 8 ≤ position m (k + 1) := by
  rw [position, grecSize_grecAt]
  omega

theorem position_mono (m : Mem UInt8) {j k : Nat} (h : j ≤ k) : position m j ≤ position m k := by
  induction h with
  | refl => exact le_rfl
  | @step k _ ih =>
      have hnext : position m k + 8 ≤ position m k.succ := position_add_le m k
      omega

theorem le_position (m : Mem UInt8) (k : Nat) : 8 ≤ position m k := position_mono m (Nat.zero_le k)

theorem position_congr (h : ∀ i, 8 ≤ i → i < position m k → m i = m' i) : position m k = position m' k := by
  induction k with
  | zero => rfl
  | succ k ih =>
      have hle := le_position m k
      have hnext := position_add_le m k
      have hsame := ih fun i _ _ => h i (by omega) (by omega)
      rw [position] at h
      rw [position, position, ← hsame, grecAt_congr fun i _ hi => h i (by omega) hi]

end Layout

section Reported

variable {m m' : Mem UInt8} {frameEnd : Int} {j : Nat}

def reported (m : Mem UInt8) (n : Nat) : List Change :=
  (List.range n).flatMap fun k => changesOf (grecAt m (position m k))

theorem grecsAt_position (m : Mem UInt8) (n k : Nat) :
    grecsAt m n (position m k) = (List.range' k n).map fun i => grecAt m (position m i) := by
  induction n generalizing k with
  | zero => rfl
  | succ n ih =>
      have hnext := ih (k + 1)
      rw [position] at hnext
      rw [grecsAt, hnext, List.range'_succ, List.map_cons]

theorem brProcessIgmpv3_eq (jiffies : UInt32) (prt : Option Port) (host : Mac) (br : Bridge Port) (m : Mem UInt8) :
    brProcessIgmpv3 jiffies prt host br m =
      (reported m (be16At m 6)).foldl (Change.apply jiffies prt host) br := by
  have hrecords := grecsAt_position m (be16At m 6) 0
  rw [position, ← List.range_eq_range'] at hrecords
  rw [brProcessIgmpv3, hrecords, foldl_processGrec, List.flatMap_map, reported]

theorem changesOf_unknown {r : GroupRecord} (h : ¬ Known r) : changesOf r = [] := by
  simp only [Known, List.mem_cons, List.not_mem_nil, or_false, not_or] at h
  simp [changesOf, h]

theorem reported_congr (h : ∀ i, 8 ≤ i → i < position m j → m i = m' i) : reported m j = reported m' j := by
  refine List.flatMap_congr fun k hk => ?_
  have hk := List.mem_range.mp hk
  have hnext := position_mono m (j := k + 1) (k := j) hk
  have hle := le_position m k
  have hadd := position_add_le m k
  rw [← position_congr fun i _ _ => h i (by omega) (by omega)]
  rw [position] at hnext
  rw [grecAt_congr fun i _ _ => h i (by omega) (by omega)]

theorem reported_zero (m : Mem UInt8) : reported m 0 = [] := rfl

theorem reported_succ (m : Mem UInt8) (n : Nat) :
    reported m (n + 1) = reported m n ++ changesOf (grecAt m (position m n)) := by
  rw [reported, List.range_succ, List.flatMap_append, List.flatMap_singleton, reported]

theorem reported_split {n : Nat} (hj : j < n)
    (hrest : ∀ k, j < k → k < n → changesOf (grecAt m (position m k)) = []) :
    reported m n = reported m j ++ changesOf (grecAt m (position m j)) := by
  induction n with
  | zero => omega
  | succ n ih =>
      rw [reported_succ]
      rcases Nat.lt_succ_iff_lt_or_eq.mp hj with hlt | rfl
      · rw [hrest n hlt (Nat.lt_succ_self n), List.append_nil, ih hlt fun k hk hn => hrest k hk (by omega)]
      · rfl

theorem changesOf_congr {a : Int} (htype : m a = m' a)
    (hknown : Known (grecAt m a) → ∀ i, a ≤ i → i < a + grecSize (grecAt m a) → m i = m' i) :
    changesOf (grecAt m a) = changesOf (grecAt m' a) := by
  by_cases hk : Known (grecAt m a)
  · rw [grecAt_congr (hknown hk)]
  · have hk' : ¬ Known (grecAt m' a) := by
      rw [Known, grecType_grecAt, htype] at hk
      exact hk
    rw [changesOf_unknown hk, changesOf_unknown hk']

theorem InFrame.reported_eq (h : InFrame m frameEnd) (hagree : Agree frameEnd m m') :
    reported m (be16At m 6) = reported m' (be16At m' 6) := by
  obtain ⟨hhead, hlast⟩ := h
  have hcount : be16At m 6 = be16At m' 6 :=
    be16At_congr (hagree 6 (by omega) (by omega)) (hagree (6 + 1) (by omega) (by omega))
  rw [← hcount]
  by_cases hn : be16At m 6 = 0
  · rw [hn, reported_zero, reported_zero]
  · obtain ⟨j, hn⟩ := Nat.exists_eq_succ_of_ne_zero hn
    obtain ⟨htype, hknown⟩ := hlast j hn.symm
    have hle := le_position m j
    have hsame : position m j = position m' j := position_congr fun i _ _ => hagree i (by omega) (by omega)
    have hlastRecord : changesOf (grecAt m (position m j)) = changesOf (grecAt m' (position m j)) :=
      changesOf_congr (hagree _ (by omega) htype) fun hk i _ _ => hagree i (by omega) (by have := hknown hk; omega)
    have hearlier : reported m j = reported m' j := reported_congr fun i _ _ => hagree i (by omega) (by omega)
    rw [hn, reported_succ, reported_succ, hlastRecord, hsame, hearlier]

theorem InFrame.sameTable (h : InFrame m frameEnd) (jiffies : UInt32) (prt : Option Port) (host : Mac) :
    SameTable jiffies prt host m frameEnd := by
  intro m' hagree br
  rw [brProcessIgmpv3_eq, brProcessIgmpv3_eq, h.reported_eq hagree]

end Reported

section Cut

variable {m : Mem UInt8} {frameEnd : Int} {j : Nat}

/-- The memory behind the frame is zero; a report that ends before the number of its records has at least one. -/
def blank (m : Mem UInt8) (frameEnd : Int) : Mem UInt8 :=
  fun i => if i < frameEnd then m i else if i = 7 then 1 else 0

theorem blank_inside {i : Int} (h : i < frameEnd) : blank m frameEnd i = m i := if_pos h

theorem blank_behind {i : Int} (h : frameEnd ≤ i) (h8 : 8 ≤ i) : blank m frameEnd i = 0 := by
  rw [blank, if_neg (by omega), if_neg (by omega)]

theorem agree_blank (m : Mem UInt8) (frameEnd : Int) : Agree frameEnd m (blank m frameEnd) :=
  fun _ _ hi => (blank_inside hi).symm

theorem agree_update {c : Int} (hc : frameEnd ≤ c) (v : UInt8) :
    Agree frameEnd m (Function.update (blank m frameEnd) c v) := by
  intro i _ hi
  rw [Function.update_of_ne (by omega), blank_inside hi]

theorem position_update {μ : Mem UInt8} {c : Int} (hc : position μ j ≤ c) (v : UInt8) :
    position (Function.update μ c v) j = position μ j :=
  (position_congr fun i _ _ => (Function.update_of_ne (by omega) v μ).symm).symm

theorem not_sameTable (jiffies : UInt32) (prt : Port) (host : Mac) {μ μ' : Mem UInt8} {c : Int} {v : UInt8}
    (hμ : μ = blank m frameEnd) (hμ' : μ' = Function.update μ c v) (hc : frameEnd ≤ c) (hposition : position μ j ≤ c)
    (hj : j < be16At μ 6)
    (hrest : ∀ k, j < k → k < be16At μ 6 →
      changesOf (grecAt μ (position μ k)) = [] ∧ changesOf (grecAt μ' (position μ' k)) = [])
    {before rest : List Change} {change : Change} (hshows : change.Shows)
    (hother : ∀ a ∈ rest, ¬ (a.dest = change.dest ∧ a.src = change.src))
    (hblank : changesOf (grecAt μ (position μ j)) = before ++ rest)
    (hupdate : changesOf (grecAt μ' (position μ j)) = before ++ [change]) :
    ¬ SameTable jiffies (some prt) host m frameEnd := by
  intro h
  have h8 := le_position μ j
  have hcount : be16At μ' 6 = be16At μ 6 := by
    rw [hμ']
    exact be16At_congr (Function.update_of_ne (by omega) _ _) (Function.update_of_ne (by omega) _ _)
  have hsame : position μ' j = position μ j := hμ' ▸ position_update hposition v
  have hearlier : reported μ j = reported μ' j := by
    refine reported_congr fun i _ _ => ?_
    rw [hμ', Function.update_of_ne (by omega)]
  have hfirst : reported μ (be16At μ 6) = reported μ j ++ before ++ rest := by
    rw [reported_split hj fun k hk hn => (hrest k hk hn).1, hblank, List.append_assoc]
  have hsecond : reported μ' (be16At μ' 6) = reported μ j ++ before ++ [change] := by
    rw [hcount, reported_split hj fun k hk hn => (hrest k hk hn).2, hsame, hupdate, hearlier, List.append_assoc]
  obtain ⟨br, hne⟩ := tells_apart jiffies prt host (reported μ j ++ before) rest hshows hother
  apply hne
  rw [← hfirst, ← hsecond, ← brProcessIgmpv3_eq, ← brProcessIgmpv3_eq, hμ', hμ]
  rw [← h _ (agree_update hc v) br, ← h _ (agree_blank m frameEnd) br]

theorem changesOf_zero {μ : Mem UInt8} {a : Int} (h : μ a = 0) : changesOf (grecAt μ a) = [] := by
  apply changesOf_unknown
  have htype : (grecAt μ a).grecType = 0 := h
  rw [Known, htype]
  decide

theorem not_sameTable_of_behind (jiffies : UInt32) (prt : Port) (host : Mac)
    (hbehind : frameEnd ≤ position (blank m frameEnd) j) (hj : j < be16At (blank m frameEnd) 6) :
    ¬ SameTable jiffies (some prt) host m frameEnd := by
  set μ := blank m frameEnd with hμ
  set c := position μ j with hc
  have h8 : 8 ≤ c := le_position μ j
  have hzero {i : Int} (hi : c ≤ i) : μ i = 0 := blank_behind (by omega) (by omega)
  have hzero' {i : Int} (hi : c < i) : Function.update μ c 3 i = 0 := by
    rw [Function.update_of_ne (by omega), hzero hi.le]
  have hsources : (grecAt (Function.update μ c 3) c).grecSrc = [] := by
    have hcount : be16At (Function.update μ c 3) (c + 2) = 0 := by
      rw [be16At, hzero' (by omega), hzero' (by omega)]
      rfl
    rw [grecAt, hcount]
    rfl
  have htype : (grecAt (Function.update μ c 3) c).grecType = 3 := Function.update_self c 3 μ
  have hupdate : changesOf (grecAt (Function.update μ c 3) c) =
      [] ++ [Change.leave (brcmConvIpToMac (grecAt (Function.update μ c 3) c).grecMca)] := by
    rw [changesOf, htype, hsources]
    rfl
  have hblank : changesOf (grecAt μ c) = [] ++ [] := changesOf_zero (hzero le_rfl)
  refine not_sameTable jiffies prt host hμ rfl hbehind le_rfl hj (fun k hk _ => ⟨?_, ?_⟩)
    (.inl ⟨.mcastExclude, rfl, .inl rfl⟩) (fun a ha => absurd ha List.not_mem_nil) hblank hupdate
  · exact changesOf_zero (hzero (position_mono μ hk.le))
  · apply changesOf_zero
    apply hzero'
    have hnext := position_mono (Function.update μ c 3) (j := j + 1) (k := k) hk
    have hadd := position_add_le (Function.update μ c 3) j
    rw [position_update le_rfl] at hadd
    omega

section Byte

variable {μ : Mem UInt8} {a : Int}

theorem bytes32_ipAt (μ : Mem UInt8) (a : Int) : bytes32 (ipAt μ a).toNat = readBytes μ a 4 := by
  have hlt : be32 (readBytes μ a 4) < 4294967296 := by
    have h0 := ((readBytes μ a 4).getD 0 0).toNat_lt
    have h1 := ((readBytes μ a 4).getD 1 0).toNat_lt
    have h2 := ((readBytes μ a 4).getD 2 0).toNat_lt
    have h3 := ((readBytes μ a 4).getD 3 0).toNat_lt
    rw [be32]
    omega
  rw [ipAt, UInt32.toNat_ofNat_of_lt' hlt, bytes32_be32 (length_readBytes μ a 4)]

theorem ipAt_byte (μ : Mem UInt8) (a : Int) {i : Nat} (hi : i < 4) : (bytes32 (ipAt μ a).toNat).getD i 0 = μ (a + i) := by
  rw [bytes32_ipAt]
  exact getD_readBytes μ a 4 i hi

theorem brcmConvIpToMac_ipAt (μ : Mem UInt8) (a : Int) :
    brcmConvIpToMac (ipAt μ a) = [0x01, 0x00, 0x5e, 0x7f &&& μ (a + 1), μ (a + 2), μ (a + 3)] := by
  have h1 := ipAt_byte μ a (i := 1) (by decide)
  have h2 := ipAt_byte μ a (i := 2) (by decide)
  have h3 := ipAt_byte μ a (i := 3) (by decide)
  rw [brcmConvIpToMac, h1, h2, h3]
  rfl

theorem changesOf_known {t : UInt8} (h : t ∈ [1, 3, 5] ∨ t ∈ [2, 4, 6]) :
    ∃ (one : Mac → Change) (each : Mac → Ip → Change),
      (∀ r, r.grecType = t → changesOf r = if r.grecSrc = [] then [one (brcmConvIpToMac r.grecMca)]
        else r.grecSrc.map (each (brcmConvIpToMac r.grecMca))) ∧
      (∀ dest, (one dest).dest = dest ∧ (dest ≠ upnpAddr → (one dest).Shows)) ∧
      ∀ dest src, (each dest src).src = src ∧ (src ≠ 0 → (each dest src).Shows) := by
  by_cases hin : t ∈ [1, 3, 5]
  · refine ⟨.leave, .allow, fun r hr => ?_, fun dest => ⟨rfl, fun _ => .inl ⟨.mcastExclude, rfl, .inl rfl⟩⟩,
      fun dest src => ⟨rfl, fun _ => .inl ⟨.mcastExclude, rfl, .inl rfl⟩⟩⟩
    rw [changesOf, hr, if_pos hin]
  · have hex : t ∈ [2, 4, 6] := h.resolve_left hin
    refine ⟨.join, .block, fun r hr => ?_, fun dest => ⟨rfl, fun hdest => .inr ⟨dest, rfl, hdest⟩⟩,
      fun dest src => ⟨rfl, fun hsrc => .inl ⟨.mcastInclude, rfl, .inr hsrc⟩⟩⟩
    rw [changesOf, hr, if_neg hin, if_pos hex]

theorem cut_changes {c : Int} (hknown : Known (grecAt μ a)) (hc : c + 1 = a + grecSize (grecAt μ a)) (hzero : μ c = 0) :
    ∃ before c0 c1, changesOf (grecAt μ a) = before ++ [c0] ∧
      changesOf (grecAt (Function.update μ c 1) a) = before ++ [c1] ∧ c1.Shows ∧
      ¬ (c0.dest = c1.dest ∧ c0.src = c1.src) := by
  have hkinds : (grecAt μ a).grecType ∈ [1, 3, 5] ∨ (grecAt μ a).grecType ∈ [2, 4, 6] := by
    simp only [Known, List.mem_cons, List.not_mem_nil, or_false] at hknown ⊢
    tauto
  obtain ⟨one, each, hchanges, hone, heach⟩ := changesOf_known hkinds
  rw [grecSize_grecAt] at hc
  have hsame {i : Int} (hi : i ≠ c) : Function.update μ c 1 i = μ i := Function.update_of_ne hi 1 μ
  have hcount : be16At (Function.update μ c 1) (a + 2) = be16At μ (a + 2) :=
    be16At_congr (hsame (by omega)) (hsame (by omega))
  have htype : (grecAt (Function.update μ c 1) a).grecType = (grecAt μ a).grecType := hsame (by omega)
  rw [hchanges _ rfl, hchanges _ htype, grecAt, grecAt, hcount]
  rcases hn : be16At μ (a + 2) with _ | n
  · -- the last byte is the one of the group
    have hlast : a + 4 + 3 = c := by omega
    have hgroup : (brcmConvIpToMac (ipAt μ (a + 4))).getD 5 0 = 0 := by
      rw [brcmConvIpToMac_ipAt, hlast, hzero]
      rfl
    have hgroup' : (brcmConvIpToMac (ipAt (Function.update μ c 1) (a + 4))).getD 5 0 = 1 := by
      rw [brcmConvIpToMac_ipAt, hlast, Function.update_self]
      rfl
    refine ⟨[], _, _, rfl, rfl, (hone _).2 fun hupnp => ?_, fun hsame => ?_⟩
    · rw [hupnp] at hgroup'
      cases hgroup'
    · rw [(hone _).1, (hone _).1] at hsame
      rw [← hsame.1, hgroup] at hgroup'
      cases hgroup'
  · -- the last byte is the one of the last source
    have hlast : a + 8 + 4 * n + 3 = c := by omega
    have hmca : ipAt (Function.update μ c 1) (a + 4) = ipAt μ (a + 4) := ipAt_congr fun i _ _ => hsame (by omega)
    have hsources : (List.range n).map (fun i : Nat => ipAt (Function.update μ c 1) (a + 8 + 4 * i)) =
        (List.range n).map fun i : Nat => ipAt μ (a + 8 + 4 * i) := by
      refine List.map_congr_left fun i hi => ipAt_congr fun b _ _ => hsame ?_
      have hi := List.mem_range.mp hi
      omega
    have hbyte := ipAt_byte μ (a + 8 + 4 * n) (i := 3) (by decide)
    have hbyte' := ipAt_byte (Function.update μ c 1) (a + 8 + 4 * n) (i := 3) (by decide)
    rw [Nat.cast_ofNat, hlast, hzero] at hbyte
    rw [Nat.cast_ofNat, hlast, Function.update_self] at hbyte'
    simp only [List.range_succ, List.map_append, List.map_singleton, hmca, hsources]
    rw [if_neg (by simp), if_neg (by simp)]
    refine ⟨_, _, _, rfl, rfl, (heach _ _).2 fun hsrc => ?_, fun hsame => ?_⟩
    · rw [hsrc] at hbyte'
      cases hbyte'
    · rw [(heach _ _).1, (heach _ _).1] at hsame
      rw [← hsame.2, hbyte] at hbyte'
      cases hbyte'

end Byte

theorem not_sameTable_of_cut (jiffies : UInt32) (prt : Port) (host : Mac) (hj : j + 1 = be16At (blank m frameEnd) 6)
    (hknown : Known (grecAt (blank m frameEnd) (position (blank m frameEnd) j)))
    (hcut : frameEnd < position (blank m frameEnd) j +
      grecSize (grecAt (blank m frameEnd) (position (blank m frameEnd) j))) :
    ¬ SameTable jiffies (some prt) host m frameEnd := by
  have h8 := le_position (blank m frameEnd) j
  have hsize : 8 ≤ grecSize (grecAt (blank m frameEnd) (position (blank m frameEnd) j)) := by
    rw [grecSize_grecAt]
    omega
  obtain ⟨before, c0, c1, hblank, hupdate, hshows, hother⟩ :=
    cut_changes hknown (Int.sub_add_cancel _ 1) (blank_behind (by omega) (by omega))
  refine not_sameTable jiffies prt host rfl rfl (by omega) (by omega) (by omega) (fun k hk hn => ?_) hshows ?_
    hblank hupdate
  · omega
  · intro a ha
    rw [List.mem_singleton.mp ha]
    exact hother

theorem inFrame_of_sameTable {jiffies : UInt32} {prt : Port} {host : Mac}
    (h : SameTable jiffies (some prt) host m frameEnd) : InFrame m frameEnd := by
  have hhead : 8 ≤ frameEnd := by
    by_contra hlt
    have hcount : 0 < be16At (blank m frameEnd) 6 := by
      have hone : blank m frameEnd (6 + 1) = 1 := by
        rw [blank, if_neg (by omega)]
        rfl
      rw [be16At, hone]
      exact Nat.succ_pos _
    exact not_sameTable_of_behind (j := 0) jiffies prt host (by rw [position]; omega) hcount h
  refine ⟨hhead, fun k hk => ?_⟩
  have hcount : be16At (blank m frameEnd) 6 = be16At m 6 :=
    be16At_congr (blank_inside (by omega)) (blank_inside (by omega))
  have hstart : position (blank m frameEnd) k < frameEnd := by
    by_contra hbehind
    exact not_sameTable_of_behind jiffies prt host (not_lt.mp hbehind) (by omega) h
  have hsame : position (blank m frameEnd) k = position m k :=
    position_congr fun i _ _ => blank_inside (by omega)
  rw [← hsame]
  refine ⟨hstart, fun hknown => ?_⟩
  have hknown' : Known (grecAt (blank m frameEnd) (position (blank m frameEnd) k)) := by
    have htype : (grecAt (blank m frameEnd) (position (blank m frameEnd) k)).grecType =
        (grecAt m (position (blank m frameEnd) k)).grecType := blank_inside hstart
    rw [Known, htype]
    exact hknown
  have hwhole : position (blank m frameEnd) k +
      grecSize (grecAt (blank m frameEnd) (position (blank m frameEnd) k)) ≤ frameEnd := by
    by_contra hcut
    exact not_sameTable_of_cut jiffies prt host (by omega) hknown' (not_le.mp hcut) h
  have hrecord : grecAt (blank m frameEnd) (position (blank m frameEnd) k) =
      grecAt m (position (blank m frameEnd) k) :=
    grecAt_congr fun i _ _ => blank_inside (by omega)
  rw [← hrecord]
  exact hwhole

end Cut

theorem apply_none (jiffies : UInt32) (host : Mac) (br : Bridge Port) (c : Change) :
    c.apply jiffies none host br = br := by
  cases c with
  | allow dest src => rfl
  | block dest src => rfl
  | leave dest => rfl
  | join dest => rfl

theorem sameTable_none (jiffies : UInt32) (host : Mac) (m : Mem UInt8) (frameEnd : Int) :
    SameTable jiffies (none : Option Port) host m frameEnd := by
  have hnone (l : List Change) (br : Bridge Port) : l.foldl (Change.apply jiffies none host) br = br := by
    induction l with
    | nil => rfl
    | cons c l ih => rw [List.foldl_cons, apply_none, ih]
  intro m' _ br
  rw [brProcessIgmpv3_eq, brProcessIgmpv3_eq, hnone, hnone]

/-- The records are found where they were put exactly if there are no auxiliary data before the last, and the table
depends on nothing but the frame exactly if the records are in it. -/
theorem report_parsed_iff (jiffies : UInt32) (prt : Option Port) (host : Mac) (m : Mem UInt8) (frameEnd : Int) :
    (FollowsLayout m ↔ NoAux m) ∧
    (SameTable jiffies prt host m frameEnd ↔ prt = none ∨ InFrame m frameEnd) := by
  refine ⟨followsLayout_iff, ?_⟩
  constructor
  · intro h
    cases prt with
    | none => exact .inl rfl
    | some prt => exact .inr (inFrame_of_sameTable h)
  · rintro (rfl | h)
    · exact sameTable_none jiffies host m frameEnd
    · exact h.sameTable jiffies prt host

def demoAux : Mem UInt8 :=
  patch (fun _ => 0) 0 [0x22, 0, 0, 0, 0, 0, 0, 2, 4, 1, 0, 0, 239, 1, 1, 1, 1, 0, 0, 0, 4, 0, 0, 0, 239, 1, 1, 2]

def demoShort : Mem UInt8 := patch (fun _ => 0) 0 [0x22, 0, 0, 0, 0, 0, 0, 1]

def demoLeft : Mem UInt8 := patch demoShort 8 [3, 0, 0, 0, 239, 1, 1, 1]

def demoHost : Mac := [0, 2, 16, 0, 0, 1]

def demoTable : Bridge Nat := bridgeWith [⟨0, [1, 0, 0x5e, 1, 1, 1], demoHost, 0, .mcastExclude, 26000⟩] []

theorem report_misparsed :
    (position demoAux 1 = 16 ∧ wirePosition demoAux 1 = 20 ∧ ¬ FollowsLayout demoAux) ∧
    (brProcessIgmpv3 0 (some 0) demoHost demoTable demoLeft).mcList ≠
      (brProcessIgmpv3 0 (some 0) demoHost demoTable demoShort).mcList ∧
    ¬ SameTable 0 (some 0) demoHost demoShort 8 := by
  have hpositions : position demoAux 1 = 16 ∧ wirePosition demoAux 1 = 20 := by decide
  have htable : (brProcessIgmpv3 0 (some 0) demoHost demoTable demoLeft).mcList ≠
      (brProcessIgmpv3 0 (some 0) demoHost demoTable demoShort).mcList := by decide
  refine ⟨⟨hpositions.1, hpositions.2, fun h => ?_⟩, htable, fun h => htable ?_⟩
  · have hsame := h 1 (by decide)
    rw [hpositions.1, hpositions.2] at hsame
    cases hsame
  · exact (h demoLeft (fun i _ hi => (patch_outside demoShort 8 _ i (.inl hi)).symm) demoTable).symm

end AliceModem.ReportBytes
