import AliceModem.Bridge.SnoopTable

namespace AliceModem.Leave

open ByteMemory BigEndian Snooping SnoopTable

variable {Port : Type} [DecidableEq Port]

/-- An IGMPv2 message for the group `g` behind an IP header of `n` words, from the host `host` behind `prt`. -/
structure Message (skb : Skb Port) (prt : Port) (host : Mac) (g : Ip) (n : Nat) (type : UInt8) : Prop where
  ihl : skb.ihl = n
  protocol : skb.protocol = ethPIp
  igmp : skb.data 9 = ipprotoIgmp
  message : skb.data (4 * n) = type
  group : readBytes skb.data (4 * n + 4) 4 = bytes32 g.toNat
  brPort : skb.brPort = some prt
  hSource : skb.hSource = host

def membership (prt : Port) (host : Mac) (g : Ip) (tstamp : UInt32) : McFdbEntry Port :=
  ⟨prt, brcmConvIpToMac g, host, 0, .mcastExclude, tstamp⟩

/-- Whenever a report behind a header of `n` words enters the membership, a leave behind one of `n'` words takes
it back. -/
def Undoes (prt : Port) (host : Mac) (g : Ip) (n n' : Nat) : Prop :=
  ∀ (snooping : Nat) (t t' : UInt32) (br : Bridge Port) (report leave : Skb Port), snooping ≠ 0 → br.proxy = false →
    Message report prt host g n igmpv2HostMembershipReport → report.hDest = brcmConvIpToMac g →
    Message leave prt host g n' igmpHostLeaveMessage →
    (mcForward snooping t br report).bridge.mcList = br.mcList ++ [membership prt host g (t + queryTimeoutTicks)] →
    (mcForward snooping t' (mcForward snooping t br report).bridge leave).bridge.mcList = br.mcList

def Repeats (g : Ip) : Prop :=
  0x7f &&& (bytes32 g.toNat).getD 0 0 = 0x7f &&& (bytes32 g.toNat).getD 1 0 ∧
    (bytes32 g.toNat).getD 1 0 = (bytes32 g.toNat).getD 2 0 ∧ (bytes32 g.toNat).getD 2 0 = (bytes32 g.toNat).getD 3 0

section

variable {prt : Port} {host : Mac} {g : Ip} {n : Nat} {type : UInt8} {skb : Skb Port}

omit [DecidableEq Port] in
theorem Message.group_byte (h : Message skb prt host g n type) {i : Nat} (hi : i < 4) :
    skb.data (4 * n + 4 + i) = (bytes32 g.toNat).getD i 0 := by
  rw [← h.group]
  exact (getD_readBytes skb.data (4 * n + 4) 4 i hi).symm

omit [DecidableEq Port] in
theorem Message.leaveGroup_six (h : Message skb prt host g 6 type) : leaveGroup skb = brcmConvIpToMac g := by
  have h1 := h.group_byte (i := 1) (by decide)
  have h2 := h.group_byte (i := 2) (by decide)
  have h3 := h.group_byte (i := 3) (by decide)
  norm_num at h1 h2 h3
  rw [leaveGroup, if_neg (by rw [h.ihl]; decide), h1, h2, h3, brcmConvIpToMac]
  rfl

omit [DecidableEq Port] in
theorem Message.leaveGroup_five (h : Message skb prt host g 5 type) :
    leaveGroup skb = brcmConvIpToMac g ↔ Repeats g := by
  have h0 := h.group_byte (i := 0) (by decide)
  have h1 := h.group_byte (i := 1) (by decide)
  have h2 := h.group_byte (i := 2) (by decide)
  norm_num at h0 h1 h2
  rw [leaveGroup, if_pos h.ihl, h0, h1, h2, brcmConvIpToMac, Repeats]
  simp

theorem mcForward_igmp {snooping : Nat} (hs : snooping ≠ 0) (t : UInt32) {br : Bridge Port} (hproxy : br.proxy = false)
    (h : Message skb prt host g n type) : (mcForward snooping t br skb).bridge = snoopIgmp t br skb := by
  rw [mcForward, if_neg hs, if_pos h.igmp, hproxy]
  rfl

theorem snoopIgmp_leave (t : UInt32) (br : Bridge Port) (h : Message skb prt host g n type)
    (htype : skb.data skb.igmpOffset = igmpHostLeaveMessage) :
    snoopIgmp t br skb = brMcFdbRemove br (some prt) (leaveGroup skb) host snoopExClear 0 := by
  rw [snoopIgmp, htype, h.brPort, h.hSource]
  rfl

theorem snoopIgmp_report (t : UInt32) (br : Bridge Port) (h : Message skb prt host g n type)
    (htype : skb.data skb.igmpOffset = igmpv2HostMembershipReport) :
    snoopIgmp t br skb = brMcFdbAdd t br (some prt) skb.hDest host snoopExAdd 0 := by
  rw [snoopIgmp, htype, h.brPort, h.hSource, h.protocol]
  rfl

end

def cap (k : Key Port) : Nat := if k.addr = upnpAddr then 0 else 1

theorem count_add (k : Key Port) (t : UInt32) (br : Bridge Port) (prt : Option Port) (dest host : Mac) {mode : UInt8}
    (hmode : mode = snoopInAdd ∨ mode = snoopExAdd) (src : Ip) :
    (keys (brMcFdbAdd t br prt dest host mode src)).count k ≤ max ((keys br).count k) (cap k) := by
  cases prt with
  | none => exact le_max_left _ _
  | some prt =>
      rcases keys_add_cases t br prt dest host mode src hmode with hkeys | ⟨hdest, hk, hkeys⟩
      · rw [hkeys]
        exact le_max_left _ _
      · rw [hkeys, List.count_append, List.count_singleton]
        split
        next he =>
          obtain rfl := eq_of_beq he
          have hcap : cap ⟨prt, dest, host, src, addMode mode⟩ = 1 := if_neg hdest
          rw [List.count_eq_zero.mpr hk, hcap]
          exact le_max_right _ _
        next => exact le_max_left _ _

theorem count_mcForward (k : Key Port) (snooping : Nat) (t : UInt32) (br : Bridge Port) (skb : Skb Port) :
    (keys (mcForward snooping t br skb).bridge).count k ≤ max ((keys br).count k) (cap k) := by
  have hrespects : Respects (fun br br' => (keys br').count k ≤ max ((keys br).count k) (cap k)) t skb.brPort
      skb.hSource := by
    refine Respects.of_add_remove (fun br => le_max_left _ _) (fun br br' br'' h h' => ?_)
      (fun br dest mode src hmode => count_add k t br _ dest _ hmode src) (fun br dest mode src hmode => ?_)
    · exact h'.trans (max_le h (le_max_right _ _))
    · cases skb.brPort with
      | none => exact le_max_left _ _
      | some prt =>
          rw [keys_remove br prt dest skb.hSource hmode src]
          exact (List.erase_sublist.count_le k).trans (le_max_left _ _)
  exact hrespects.mcForward (fun br _ => le_max_left _ _) snooping br

theorem added_fresh {snooping : Nat} {t : UInt32} {br : Bridge Port} {skb : Skb Port} {e : McFdbEntry Port}
    (h : (mcForward snooping t br skb).bridge.mcList = br.mcList ++ [e]) : keyOf e ∉ keys br ∧ e.addr ≠ upnpAddr := by
  have hcount := count_mcForward (keyOf e) snooping t br skb
  rw [keys, h, List.map_append, List.map_singleton, List.count_append, List.count_singleton_self] at hcount
  have hkey : (keyOf e).addr = e.addr := rfl
  rw [← List.count_eq_zero, keys]
  rw [cap, hkey, keys] at hcount
  split_ifs at hcount with hupnp
  · omega
  · exact ⟨by omega, hupnp⟩

theorem eraseP_last {α : Type} {q : α → Bool} {l : List α} {a : α} (hl : ∀ b ∈ l, ¬ q b = true) (ha : q a = true) :
    (l ++ [a]).eraseP q = l := by
  rw [List.eraseP_append_right _ hl, List.eraseP_cons_of_pos ha, List.append_nil]

theorem remove_membership {br : Bridge Port} {l : List (McFdbEntry Port)} {prt : Port} {host : Mac} {g : Ip}
    {tstamp : UInt32} (hbr : br.mcList = l ++ [membership prt host g tstamp])
    (hfresh : keyOf (membership prt host g tstamp) ∉ l.map keyOf) :
    (brMcFdbRemove br (some prt) (brcmConvIpToMac g) host snoopExClear 0).mcList = l := by
  have hkey : keyOf (membership prt host g tstamp) = ⟨prt, brcmConvIpToMac g, host, 0, clearMode snoopExClear⟩ := rfl
  rw [brMcFdbRemove, if_neg (by decide), hbr]
  refine eraseP_last (fun e he hq => hfresh ?_) ?_
  · rw [decide_eq_true_iff, isFor_iff] at hq
    rw [hkey, ← hq]
    exact List.mem_map_of_mem he
  · rw [decide_eq_true_iff, isFor_iff]
    exact hkey

theorem undoes_of_read {prt : Port} {host : Mac} {g : Ip} {n n' : Nat}
    (htype : ∀ skb : Skb Port, Message skb prt host g n' igmpHostLeaveMessage →
      skb.data skb.igmpOffset = igmpHostLeaveMessage ∧ leaveGroup skb = brcmConvIpToMac g) :
    Undoes prt host g n n' := by
  intro snooping t t' br report leave hs hproxy hreport _ hleave hadd
  obtain ⟨hoffset, hgroup⟩ := htype leave hleave
  have hproxy' : (mcForward snooping t br report).bridge.proxy = false := by
    have hsame : Respects (fun br br' : Bridge Port => br'.proxy = br.proxy) t report.brPort report.hSource :=
      Respects.of_add_remove (fun _ => rfl) (fun _ _ _ h h' => h'.trans h)
        (fun br dest mode src _ => (brMcFdbAdd_same ..).proxy) (fun br dest mode src _ => (brMcFdbRemove_same ..).proxy)
    exact (hsame.mcForward (fun _ _ => rfl) snooping br).trans hproxy
  rw [mcForward_igmp hs t' hproxy' hleave, snoopIgmp_leave t' _ hleave hoffset, hgroup]
  exact remove_membership hadd (added_fresh hadd).1

def frameOf (prt : Port) (host dest : Mac) (g : Ip) (n : Nat) (type option : UInt8) : Skb Port where
  data i :=
    if i = 0 then .ofNat (64 + n) else if i = 9 then ipprotoIgmp else if i = 4 * n then type
    else if 4 * n + 4 ≤ i then (bytes32 g.toNat).getD (i - (4 * n + 4)).toNat 0 else if i = 24 then option else 0
  protocol := ethPIp
  hSource := host
  hDest := dest
  brPort := some prt

section Frame

variable (prt : Port) (host dest : Mac) (g : Ip) {n : Nat} (type option : UInt8)

omit [DecidableEq Port] in
theorem frameOf_ihl (hn : n ≤ 15) : (frameOf prt host dest g n type option).ihl = n := by
  have hbyte : (frameOf prt host dest g n type option).data 0 = .ofNat (64 + n) := by simp [frameOf]
  rw [Skb.ihl, hbyte, UInt8.toNat_ofNat']
  omega

omit [DecidableEq Port] in
theorem frameOf_message (h5 : 5 ≤ n) (hn : n ≤ 15) :
    Message (frameOf prt host dest g n type option) prt host g n type := by
  refine ⟨frameOf_ihl prt host dest g type option hn, rfl, ?_, ?_, ?_, rfl, rfl⟩
  · simp [frameOf]
  · have h0 : ¬ (4 * n : Int) = 0 := by omega
    have h9 : ¬ (4 * n : Int) = 9 := by omega
    simp only [frameOf, if_neg h0, if_neg h9, if_true]
  · apply List.ext_getElem (by simp)
    intro i hi hi'
    rw [length_readBytes] at hi
    have h0 : ¬ (4 * n + 4 + i : Int) = 0 := by omega
    have h9 : ¬ (4 * n + 4 + i : Int) = 9 := by omega
    have h4 : ¬ (4 * n + 4 + i : Int) = 4 * n := by omega
    have hle : (4 * n + 4 : Int) ≤ 4 * n + 4 + i := by omega
    have hat : ((4 * n + 4 + i : Int) - (4 * n + 4)).toNat = i := by omega
    simp only [readBytes, List.getElem_map, List.getElem_range, frameOf, if_neg h0, if_neg h9, if_neg h4, if_pos hle,
      hat]
    rw [List.getD_eq_getElem?_getD, List.getElem?_eq_getElem hi', Option.getD_some]

omit [DecidableEq Port] in
theorem frameOf_type (h5 : 5 ≤ n) (hn : n ≤ 15) :
    (frameOf prt host dest g n type option).data (frameOf prt host dest g n type option).igmpOffset =
      if n ≤ 6 then type else option := by
  rw [Skb.igmpOffset, frameOf_ihl prt host dest g type option hn]
  by_cases h6 : n ≤ 6
  · have hoffset : (if n = 5 then 20 else 24 : Int) = 4 * n := by split <;> omega
    rw [if_pos h6, hoffset]
    exact (frameOf_message prt host dest g type option h5 hn).message
  · have h4 : ¬ (24 : Int) = 4 * n := by omega
    have hle : ¬ (4 * n + 4 : Int) ≤ 24 := by omega
    rw [if_neg h6, if_neg (by omega)]
    simp [frameOf, h4, hle]

end Frame

def emptyBridge : Bridge Port := ⟨[], [], fun _ => false, false, false, none, []⟩

theorem frameOf_report (t : UInt32) (prt : Port) (host : Mac) {g : Ip} (hupnp : brcmConvIpToMac g ≠ upnpAddr) {n : Nat}
    (h5 : 5 ≤ n) (hn : n ≤ 15) :
    (mcForward 1 t emptyBridge (frameOf prt host (brcmConvIpToMac g) g n igmpv2HostMembershipReport
      igmpv2HostMembershipReport)).bridge.mcList = [membership prt host g (t + queryTimeoutTicks)] ∧
    (mcForward 1 t emptyBridge (frameOf prt host (brcmConvIpToMac g) g n igmpv2HostMembershipReport
      igmpv2HostMembershipReport)).bridge.proxy = false := by
  have hmessage := frameOf_message prt host (brcmConvIpToMac g) g igmpv2HostMembershipReport
    igmpv2HostMembershipReport h5 hn
  have htype := frameOf_type prt host (brcmConvIpToMac g) g igmpv2HostMembershipReport igmpv2HostMembershipReport h5 hn
  rw [ite_self] at htype
  rw [mcForward_igmp (by decide) t rfl hmessage, snoopIgmp_report t _ hmessage htype]
  refine ⟨?_, (brMcFdbAdd_same ..).proxy⟩
  rw [show (frameOf prt host (brcmConvIpToMac g) g n igmpv2HostMembershipReport igmpv2HostMembershipReport).hDest =
    brcmConvIpToMac g from rfl, brMcFdbAdd, if_neg (by decide), if_neg hupnp]
  rfl

theorem frameOf_leave (t : UInt32) {prt : Port} {host : Mac} {g : Ip} {n : Nat} (h5 : 5 ≤ n) (hn : n ≤ 15) (h6 : n ≠ 6)
    (hg : n = 5 → ¬ Repeats g) {br : Bridge Port} (hproxy : br.proxy = false) {tstamp : UInt32}
    (hbr : br.mcList = [membership prt host g tstamp]) :
    (mcForward 1 t br (frameOf prt host sys2Addr g n igmpHostLeaveMessage 0)).bridge.mcList = br.mcList := by
  have hmessage := frameOf_message prt host sys2Addr g igmpHostLeaveMessage 0 h5 hn
  have htype := frameOf_type prt host sys2Addr g igmpHostLeaveMessage 0 h5 hn
  rw [mcForward_igmp (by decide) t hproxy hmessage]
  by_cases hfive : n = 5
  · subst hfive
    rw [if_pos (by decide)] at htype
    have hgroup := hmessage.leaveGroup_five.not.mpr (hg rfl)
    rw [snoopIgmp_leave t br hmessage htype, brMcFdbRemove, if_neg (by decide), hbr]
    apply List.eraseP_of_forall_not
    intro e he hq
    rw [List.mem_singleton] at he
    rw [decide_eq_true_iff, isFor_iff, he] at hq
    exact hgroup (congrArg Key.addr hq).symm
  · rw [if_neg (by omega)] at htype
    rw [snoopIgmp, htype]
    rfl

/-- A leave takes back what the report has entered exactly if its header has six words, or five while the bytes of
the group happen to repeat. -/
theorem leave_undoes_report_iff (prt : Port) (host : Mac) (g : Ip) {n n' : Nat} (hn : 5 ≤ n ∧ n ≤ 15)
    (hn' : 5 ≤ n' ∧ n' ≤ 15) :
    Undoes prt host g n n' ↔ brcmConvIpToMac g = upnpAddr ∨ n' = 6 ∨ n' = 5 ∧ Repeats g := by
  constructor
  · intro h
    by_contra hnot
    simp only [not_or, not_and] at hnot
    obtain ⟨hupnp, h6, h5⟩ := hnot
    obtain ⟨hadd, hproxy⟩ := frameOf_report 0 prt host hupnp hn.1 hn.2
    have hback := h 1 0 0 emptyBridge _ _ (by decide) rfl (frameOf_message prt host (brcmConvIpToMac g) g _ _ hn.1 hn.2)
      rfl (frameOf_message prt host sys2Addr g _ 0 hn'.1 hn'.2) hadd
    rw [frameOf_leave 0 hn'.1 hn'.2 h6 h5 hproxy hadd, hadd] at hback
    exact List.cons_ne_nil _ _ hback
  · rintro (hupnp | rfl | ⟨rfl, hg⟩)
    · intro snooping t t' br report leave _ _ _ _ _ hadd
      exact absurd hupnp (added_fresh hadd).2
    · refine undoes_of_read fun skb h => ⟨?_, h.leaveGroup_six⟩
      rw [Skb.igmpOffset, h.ihl]
      exact h.message
    · refine undoes_of_read fun skb h => ⟨?_, h.leaveGroup_five.mpr hg⟩
      rw [Skb.igmpOffset, h.ihl]
      exact h.message

theorem leave_undoes_report_six : Undoes 1 [2, 0, 0, 0, 0, 1] 0xef010101 6 6 :=
  (leave_undoes_report_iff 1 [2, 0, 0, 0, 0, 1] 0xef010101 (by decide) (by decide)).mpr (.inr (.inl rfl))

def demoMessage (daddr : List UInt8) (type : UInt8) (checksum : List UInt8) (dest : Mac) : Skb Nat :=
  ⟨patch (fun _ => 0) 0 ([0x45, 0, 0, 28, 0, 0, 0, 0, 1, 2, 0, 0, 10, 0, 0, 9] ++ daddr ++ [type, 0] ++ checksum ++
    [239, 1, 1, 1]), ethPIp, [2, 0, 0, 0, 0, 1], dest, some 1⟩

def demoJoin : Skb Nat :=
  demoMessage [239, 1, 1, 1] igmpv2HostMembershipReport [0xf9, 0xfc] (brcmConvIpToMac 0xef010101)

def demoLeave : Skb Nat := demoMessage [224, 0, 0, 2] igmpHostLeaveMessage [0xf8, 0xfc] sys2Addr

theorem leave_keeps_entry :
    Message demoJoin 1 [2, 0, 0, 0, 0, 1] 0xef010101 5 igmpv2HostMembershipReport ∧
    Message demoLeave 1 [2, 0, 0, 0, 0, 1] 0xef010101 5 igmpHostLeaveMessage ∧
    (mcForward 1 0 emptyBridge demoJoin).bridge.mcList = [membership 1 [2, 0, 0, 0, 0, 1] 0xef010101 26000] ∧
    (mcForward 1 200 (mcForward 1 0 emptyBridge demoJoin).bridge demoLeave).bridge.mcList =
      [membership 1 [2, 0, 0, 0, 0, 1] 0xef010101 26000] ∧
    ¬ Undoes 1 [2, 0, 0, 0, 0, 1] 0xef010101 5 5 := by
  have hjoin : Message demoJoin 1 [2, 0, 0, 0, 0, 1] 0xef010101 5 igmpv2HostMembershipReport :=
    ⟨by decide, rfl, by decide, by decide, by decide, rfl, rfl⟩
  have hleave : Message demoLeave 1 [2, 0, 0, 0, 0, 1] 0xef010101 5 igmpHostLeaveMessage :=
    ⟨by decide, rfl, by decide, by decide, by decide, rfl, rfl⟩
  have hadd : (mcForward 1 0 emptyBridge demoJoin).bridge.mcList =
      [membership 1 [2, 0, 0, 0, 0, 1] 0xef010101 26000] := by decide
  have hkept : (mcForward 1 200 (mcForward 1 0 emptyBridge demoJoin).bridge demoLeave).bridge.mcList =
      [membership 1 [2, 0, 0, 0, 0, 1] 0xef010101 26000] := by decide
  refine ⟨hjoin, hleave, hadd, hkept, fun h => ?_⟩
  have hback := h 1 0 200 emptyBridge demoJoin demoLeave (by decide) rfl hjoin rfl hleave hadd
  rw [hkept] at hback
  exact List.cons_ne_nil _ _ hback

end AliceModem.Leave
