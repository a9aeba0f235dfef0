import AliceModem.Bridge.ForwardLoop
import AliceModem.Bridge.Reception
import Mathlib.Data.Set.Function

namespace AliceModem.McForward

open ByteMemory Snooping ForwardLoop SnoopTable Reception

variable {Port : Type} [DecidableEq Port]

structure Only (prt : Port) (dest host : Mac) (br br' : Bridge Port) : Prop where
  sound : Sound br → Sound br'
  other : ∀ k : Key Port, ¬ (k.dst = prt ∧ k.addr = dest ∧ k.host = host) → Sound br → (k ∈ keys br' ↔ k ∈ keys br)
  same : SameBridge br br'

omit [DecidableEq Port] in
theorem Only.refl (prt : Port) (dest host : Mac) (br : Bridge Port) : Only prt dest host br br :=
  ⟨id, fun _ _ _ => Iff.rfl, .refl br⟩

omit [DecidableEq Port] in
theorem Only.trans {prt : Port} {dest host : Mac} {br br' br'' : Bridge Port} (h : Only prt dest host br br')
    (h' : Only prt dest host br' br'') : Only prt dest host br br'' :=
  ⟨fun hs => h'.sound (h.sound hs), fun k hk hs => (h'.other k hk (h.sound hs)).trans (h.other k hk hs),
    h.same.trans h'.same⟩

section

variable (jiffies : UInt32) (prt : Port) (dest host : Mac) (br : Bridge Port)

theorem add_only {mode : UInt8} (hmode : mode = snoopInAdd ∨ mode = snoopExAdd) (src : Ip) :
    Only prt dest host br (brMcFdbAdd jiffies br (some prt) dest host mode src) := by
  by_cases hdest : dest = upnpAddr
  · rw [hdest, add_upnp]
    exact .refl prt upnpAddr host br
  · refine ⟨fun hs => (hs.add jiffies prt hdest host hmode src).1, fun k hk hs => ?_, brMcFdbAdd_same ..⟩
    rw [(hs.add jiffies prt hdest host hmode src).2]
    refine ⟨fun h => h.resolve_right ?_, .inl⟩
    rintro rfl
    exact hk ⟨rfl, rfl, rfl⟩

theorem remove_only {mode : UInt8} (hmode : mode = snoopInClear ∨ mode = snoopExClear) (src : Ip) :
    Only prt dest host br (brMcFdbRemove br (some prt) dest host mode src) := by
  refine ⟨fun hs => (hs.remove prt dest host hmode src).1, fun k hk hs => ?_, brMcFdbRemove_same ..⟩
  rw [(hs.remove prt dest host hmode src).2]
  refine ⟨And.left, fun h => ⟨h, ?_⟩⟩
  rintro rfl
  exact hk ⟨rfl, rfl, rfl⟩

theorem changeSource_only {other want : FiltMode} {clear add : UInt8} (hm : Modes other want clear add) (src : Ip) :
    Only prt dest host br (changeSource jiffies (some prt) host other clear add dest br src) := by
  rw [changeSource]
  split
  · exact remove_only prt dest host br hm.clear_mem src
  · exact add_only jiffies prt dest host br hm.add_mem src

theorem processGrec_only (r : GroupRecord) :
    Only prt (brcmConvIpToMac r.grecMca) host br (processGrec jiffies (some prt) host br r) := by
  have hfold (f : Bridge Port → Ip → Bridge Port) (hf : ∀ br s, Only prt (brcmConvIpToMac r.grecMca) host br (f br s)) :
      Only prt (brcmConvIpToMac r.grecMca) host br (r.grecSrc.foldl f br) :=
    foldl_respects (Only.refl _ _ _) (fun _ _ _ => Only.trans) hf r.grecSrc br
  by_cases hin : r.grecType = modeIsInclude ∨ r.grecType = changeToInclude ∨ r.grecType = allowNewSources
  · rw [processGrec_in jiffies prt host hin]
    split
    · exact remove_only prt _ host br (.inr rfl) 0
    · exact hfold _ fun br s => changeSource_only jiffies prt _ host br modes_include s
  · by_cases hex : r.grecType = modeIsExclude ∨ r.grecType = changeToExclude ∨ r.grecType = blockOldSources
    · rw [processGrec_ex jiffies prt host hex]
      split
      · exact add_only jiffies prt _ host br (.inr rfl) 0
      · exact hfold _ fun br s => changeSource_only jiffies prt _ host br modes_exclude s
    · have hknown : ¬ Known r := by
        simp only [Known, List.mem_cons, List.not_mem_nil, or_false]
        tauto
      rw [(processGrec_other jiffies prt host hknown (.incl ∅)).1]
      exact .refl prt _ host br

end

abbrev Hosts (Port : Type) := Port → Mac → Ip → Filter

def Hosts.record (σ : Hosts Port) (prt : Port) (host : Mac) (r : GroupRecord) : Hosts Port :=
  fun p h g => if p = prt ∧ h = host ∧ g = r.grecMca then (σ p h g).update r else σ p h g

def FollowsRecords (prt : Port) (host : Mac) : Hosts Port → List GroupRecord → Prop
  | _, [] => True
  | σ, r :: rs => (Known r → Follows (σ prt host r.grecMca) r) ∧ FollowsRecords prt host (σ.record prt host r) rs

/-- The table and the filters agree on the groups `G`. -/
structure Agrees (G : Set Ip) (br : Bridge Port) (σ : Hosts Port) : Prop where
  sound : Sound br
  represents : ∀ p h g, g ∈ G → brcmConvIpToMac g ≠ upnpAddr → Represents (Rows br p (brcmConvIpToMac g) h) (σ p h g)

variable {G : Set Ip}

theorem represents_congr {R R' : Ip → FiltMode → Prop} (h : ∀ s m, R s m ↔ R' s m) {st : Filter}
    (hr : Represents R st) : Represents R' st := by
  cases st with
  | incl A => exact fun s m => (h s m).symm.trans (hr s m)
  | excl B =>
      obtain ⟨b, hb, hrows⟩ := hr
      exact ⟨b, hb, fun s m => (h s m).symm.trans (hrows s m)⟩

theorem Agrees.record {br : Bridge Port} {σ : Hosts Port} (h : Agrees G br σ) (hinj : Set.InjOn brcmConvIpToMac G)
    (jiffies : UInt32) (prt : Port) (host : Mac) {r : GroupRecord} (hG : r.grecMca ∈ G)
    (hf : Known r → Follows (σ prt host r.grecMca) r) :
    Agrees G (processGrec jiffies (some prt) host br r) (σ.record prt host r) := by
  have honly := processGrec_only jiffies prt host br r
  refine ⟨honly.sound h.sound, fun p h' g hg hdest => ?_⟩
  by_cases hsame : p = prt ∧ h' = host ∧ g = r.grecMca
  · obtain ⟨rfl, rfl, rfl⟩ := hsame
    have hstep := represents_step jiffies p h' h.sound hdest hf (h.represents p h' r.grecMca hg hdest)
    rwa [Hosts.record, if_pos ⟨rfl, rfl, rfl⟩]
  · rw [Hosts.record, if_neg hsame]
    refine represents_congr (fun s m => (honly.other _ ?_ h.sound).symm) (h.represents p h' g hg hdest)
    rintro ⟨hp, ha, hh⟩
    exact hsame ⟨hp, hh, hinj hg hG ha⟩

theorem Agrees.records {br : Bridge Port} {σ : Hosts Port} (h : Agrees G br σ) (hinj : Set.InjOn brcmConvIpToMac G)
    (jiffies : UInt32) (prt : Port) (host : Mac) {rs : List GroupRecord} (hG : ∀ r ∈ rs, r.grecMca ∈ G)
    (hf : FollowsRecords prt host σ rs) :
    Agrees G (rs.foldl (processGrec jiffies (some prt) host) br)
      (rs.foldl (fun σ r => σ.record prt host r) σ) := by
  induction rs generalizing br σ with
  | nil => exact h
  | cons r rs ih =>
      obtain ⟨hG, hGs⟩ := List.forall_mem_cons.mp hG
      exact ih (h.record hinj jiffies prt host hG hf.1) hGs hf.2

def wireGrecs (m : Mem UInt8) : Nat → Int → List GroupRecord
  | 0, _ => []
  | n + 1, a => grecAt m a :: wireGrecs m n (a + grecSize (grecAt m a) + 4 * (grecAt m a).grecAuxwords.toNat)

def reportOf (skb : Skb Port) : List GroupRecord :=
  let m := view skb.data (4 * skb.ihl)
  wireGrecs m (be16At m 6) 8

/-- An IGMPv3 report without options longer than a word and without auxiliary data. -/
structure WellFormed (skb : Skb Port) : Prop where
  ihl : skb.ihl = 5 ∨ skb.ihl = 6
  protocol : skb.protocol = ethPIp
  igmp : skb.data 9 = ipprotoIgmp
  report : skb.data (4 * skb.ihl) = igmpv3HostMembershipReport
  noAux : ∀ r ∈ reportOf skb, r.grecAuxwords = 0

def Hosts.report (σ : Hosts Port) (skb : Skb Port) : Hosts Port :=
  match skb.brPort with
  | none => σ
  | some prt => (reportOf skb).foldl (fun σ r => σ.record prt skb.hSource r) σ

end AliceModem.McForward
