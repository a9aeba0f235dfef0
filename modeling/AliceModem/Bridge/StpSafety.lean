import AliceModem.Bridge.StpRuns

namespace AliceModem.Stp

open Bpdu Disposal

section

variable {P : Type} {a b br : NetBridge P} {p : P}

/-- No path is free, and the cost of a path that may be taken fits its word. -/
structure Costs (br : NetBridge P) : Prop where
  positive : ∀ p ∈ br.portList, 0 < (br.port p).pathCost.toNat
  bounded : ∀ p ∈ br.portList, (br.port p).state ≠ .disabled → ¬ brIsDesignatedPort br p →
    (br.port p).designatedCost.toNat + (br.port p).pathCost.toNat < 4294967296

def Led (br : NetBridge P) : Prop :=
  br.rootPort ≠ 0 → ∃ p ∈ br.portList, (br.port p).portNo = br.rootPort ∧ Candidate br p ∧
    (br.port p).designatedRoot = br.designatedRoot

theorem Led.brIsRootBridge_iff (h : Led br) (hr : RootSane br) : brIsRootBridge br ↔ br.rootPort = 0 := by
  refine ⟨fun hroot => ?_, fun h0 => by rw [brIsRootBridge, hr.own h0, decide_eq_true rfl]⟩
  by_contra h0
  obtain ⟨p, -, -, hcand, heq⟩ := h h0
  have hid : br.bridgeId = br.designatedRoot := of_decide_eq_true hroot
  exact absurd hcand.better (by rw [heq, hid]; exact lt_irrefl _)

theorem Candidate.of_port (hc : Candidate a p) (hport : b.port p = a.port p) (hid : b.bridgeId = a.bridgeId) :
    Candidate b p := by
  refine ⟨by rw [hport]; exact hc.enabled, ?_, by rw [hport, hid]; exact hc.better⟩
  rw [brIsDesignatedPort, hport, hid]
  exact hc.undesignated

theorem Candidate.not_designated (h : Candidate br p) :
    ¬ ((br.port p).designatedBridge = br.bridgeId ∧ (br.port p).designatedPort = (br.port p).portId) :=
  fun hdes => h.undesignated (decide_eq_true hdes)

theorem Candidate.of_config (h : b.config = a.config) (hc : Candidate a p) : Candidate b p where
  enabled := fun hd => hc.enabled ((Config.disabled_iff h p).mp hd)
  undesignated := Config.brIsDesignatedPort_eq h p ▸ hc.undesignated
  better := by
    rw [Config.designatedRoot_eq h, Config.bridgeId_eq h]
    exact hc.better

theorem Costs.congr (hc : Costs a) (hlist : b.portList = a.portList)
    (hpath : ∀ p, (b.port p).pathCost = (a.port p).pathCost)
    (hport : ∀ p ∈ a.portList, (b.port p).state ≠ .disabled → ¬ brIsDesignatedPort b p → (a.port p).state ≠ .disabled ∧
      ¬ brIsDesignatedPort a p ∧ (b.port p).designatedCost = (a.port p).designatedCost) : Costs b := by
  refine ⟨fun p hp => hpath p ▸ hc.positive p (hlist ▸ hp), fun p hp hen hdes => ?_⟩
  obtain ⟨hen', hdes', hcost⟩ := hport p (hlist ▸ hp) hen hdes
  rw [hcost, hpath]
  exact hc.bounded p (hlist ▸ hp) hen' hdes'

theorem Costs.of_config (h : b.config = a.config) (hc : Costs a) : Costs b :=
  hc.congr (Config.portList_eq h) (Config.pathCost_eq h) fun p _ hen hdes =>
    ⟨fun hd => hen ((Config.disabled_iff h p).mpr hd), Config.brIsDesignatedPort_eq h p ▸ hdes, Config.designatedCost_eq h p⟩

theorem Led.congr (hl : Led a) (hrp : b.rootPort = a.rootPort) (hroot : b.designatedRoot = a.designatedRoot)
    (hport : ∀ p ∈ a.portList, (a.port p).portNo = a.rootPort → Candidate a p → p ∈ b.portList ∧ Candidate b p ∧
      (b.port p).portNo = (a.port p).portNo ∧ (b.port p).designatedRoot = (a.port p).designatedRoot) : Led b := by
  intro h0
  obtain ⟨p, hp, hno, hcand, heq⟩ := hl (hrp ▸ h0)
  obtain ⟨hmem, hcand', hno', heq'⟩ := hport p hp hno hcand
  exact ⟨p, hmem, by rw [hno', hno, hrp], hcand', by rw [heq', heq, hroot]⟩

theorem Led.of_port (hl : Led a) (hrp : b.rootPort = a.rootPort) (hroot : b.designatedRoot = a.designatedRoot)
    (hid : b.bridgeId = a.bridgeId) (hport : ∀ p ∈ a.portList, Candidate a p → p ∈ b.portList ∧ b.port p = a.port p) :
    Led b := by
  refine hl.congr hrp hroot fun p hp _ hcand => ?_
  obtain ⟨hmem, hsame⟩ := hport p hp hcand
  exact ⟨hmem, hcand.of_port hsame hid, by rw [hsame], by rw [hsame]⟩

theorem Led.of_config (h : b.config = a.config) (hl : Led a) : Led b :=
  hl.congr (Config.rootPort_eq h) (Config.root_eq h) fun p hp _ hcand =>
    ⟨Config.portList_eq h ▸ hp, hcand.of_config h, Config.portNo_eq h p, Config.designatedRoot_eq h p⟩

theorem cost_toNat {q : NetBridgePort} (h : q.designatedCost.toNat + q.pathCost.toNat < 4294967296) :
    q.cost.toNat = q.designatedCost.toNat + q.pathCost.toNat := by
  rw [NetBridgePort.cost, UInt32.toNat_add]
  omega

theorem brSupersedesPortInfo_root {bpdu : BrConfigBpdu} (h : brSupersedesPortInfo br p bpdu) :
    bpdu.root ≤ (br.port p).designatedRoot := by
  rcases of_decide_eq_true h with hlt | ⟨heq, -⟩
  · rcases then_lt.mp hlt with hlt | ⟨heq, -⟩
    · exact hlt.le
    · exact heq.le
  · exact (compare_eq_iff_eq.mp (Ordering.then_eq_eq.mp heq).1).le

end

section

variable {P : Type} [DecidableEq P] {a b br : NetBridge P} {p : P}

theorem Updated.designated_or_same (h : Updated a b) (p : P) : brIsDesignatedPort b p ∨ b.port p = a.port p := by
  by_cases hp : p ∈ a.portList
  · have hport := h.port p
    rw [if_pos hp] at hport
    rcases elect_cases b.designatedRoot b.rootPathCost a.bridgeId (a.port p) with heq | heq
    · exact .inr (hport.trans heq)
    · refine .inl ?_
      rw [brIsDesignatedPort, hport, heq, h.bridgeId, decide_eq_true_eq]
      exact ⟨rfl, rfl⟩
  · exact .inr ((h.port p).trans (if_neg hp))

theorem Updated.candidate (h : Updated a b) (hc : Candidate b p) : b.port p = a.port p ∧ Candidate a p := by
  have hsame := (h.designated_or_same p).resolve_left hc.undesignated
  exact ⟨hsame, hc.of_port hsame.symm h.bridgeId.symm⟩

theorem Updated.root_same (h : Updated a b) (hc : Costs a) (hp : p ∈ a.portList) (hcand : Candidate a p)
    (hroot : b.designatedRoot = (a.port p).designatedRoot) (hcost : b.rootPathCost = (a.port p).cost) :
    b.port p = a.port p := by
  have hpos := hc.positive p hp
  have hbound := hc.bounded p hp hcand.enabled hcand.undesignated
  have hnat := cost_toNat hbound
  rw [h.port p, if_pos hp, elect, if_neg]
  rintro ⟨-, hdes | hne | hlt⟩
  · exact hcand.undesignated (decide_eq_true hdes)
  · exact hne hroot.symm
  · rw [then_lt, hcost] at hlt
    omega

theorem Updated.costs (h : Updated a b) (hc : Costs a) : Costs b := by
  refine hc.congr h.portList h.pathCost fun p hp hen hdes => ?_
  have hsame := (h.designated_or_same p).resolve_left hdes
  rw [brIsDesignatedPort, hsame, h.bridgeId] at hdes
  exact ⟨hsame ▸ hen, hdes, by rw [hsame]⟩

theorem Updated.led (h : Updated a b) (hc : Costs a) : Led b := by
  intro h0
  cases h.root with
  | own hnone hport hroot hcost => exact absurd hport h0
  | port p hp hcand hbest hport hroot hcost =>
      have hsame := h.root_same hc hp hcand hroot hcost
      exact ⟨p, h.portList ▸ hp, by rw [hsame, hport], hcand.of_port hsame h.bridgeId, by rw [hsame, hroot]⟩

theorem Updated.rootPort_ne_zero (h : Updated a b) (hn : Numbered a) (hp : p ∈ a.portList) (hcand : Candidate a p) :
    b.rootPort ≠ 0 := by
  cases h.root with
  | own hnone hport hroot hcost => exact absurd hcand (hnone p hp)
  | port q hq hcandq hbest hport hroot hcost =>
      rw [hport]
      exact hn.nonzero q hq

end

section

variable {P : Type} {a b br : NetBridge P} {p : P}

/-- What the bridge makes sure of when it gets no frames of its own back. -/
structure Tended (br : NetBridge P) : Prop where
  sane : Sane br
  costs : Costs br
  led : Led br
  tcn : br.tcnTimer.pending → br.rootPort ≠ 0

theorem Tended.quiet (ht : Tended a) (h : Quiet a b) : Tended b where
  sane := ht.sane.quiet h
  costs := ht.costs.of_config h.config
  led := ht.led.of_config h.config
  tcn := by
    intro hb
    rw [Config.rootPort_eq h.config]
    rcases h.tcn hb with ha | hroot
    · exact ht.tcn ha
    · exact fun h0 => hroot ((ht.led.brIsRootBridge_iff ht.sane.root).mpr h0)

theorem Tended.withFlags (ht : Tended br) (up stp : Bool) : Tended { br with up := up, stpEnabled := stp } :=
  ⟨ht.sane.withFlags up stp, ⟨ht.costs.positive, ht.costs.bounded⟩, ht.led.of_port rfl rfl rfl fun _ hp _ => ⟨hp, rfl⟩,
    ht.tcn⟩

theorem Tended.root_le (ht : Tended br) : br.designatedRoot ≤ br.bridgeId := by
  by_cases h0 : br.rootPort = 0
  · exact (ht.sane.root.own h0).le
  · obtain ⟨p, -, -, hcand, hroot⟩ := ht.led h0
    exact hroot ▸ hcand.better.le

theorem Tended.not_pending (ht : Tended br) (hroot : brIsRootBridge br) : ¬ br.tcnTimer.pending :=
  fun hpend => ht.tcn hpend ((ht.led.brIsRootBridge_iff ht.sane.root).mp hroot)

/-- The frame does not come from the port itself, and the cost of the path fits. -/
structure Foreign (br : NetBridge P) (p : P) (bpdu : BrConfigBpdu) : Prop where
  other : ¬ (bpdu.bridgeId = br.bridgeId ∧ bpdu.portId = (br.port p).portId)
  bounded : bpdu.rootPathCost.toNat + (br.port p).pathCost.toNat < 4294967296

/-- What the bridge makes sure of between two events. -/
structure Safe (br : NetBridge P) : Prop extends Tended br where
  down : ¬ br.up → AllDown br

/-- What is asked of an event: a port gets no BPDU of its own back, the costs
are positive and do not overflow, and a port is only enabled when it takes no
part. -/
def Fair (br : NetBridge P) : Event P → Prop
  | .frame p data => ∀ bpdu, readBpdu data = some (.config bpdu) → Foreign br p bpdu
  | .device p (.up _) => (br.port p).state = .disabled
  | .addIf _ _ cost _ => 0 < cost.toNat
  | .setPortPriority p _ => (br.port p).designatedBridge = br.bridgeId → (br.port p).portNo ≠ br.rootPort
  | .setPathCost p pathCost => 0 < pathCost.toNat ∧
      (¬ brIsDesignatedPort br p → (br.port p).designatedCost.toNat + pathCost.toNat < 4294967296)
  | _ => True

theorem Safe.quiet (hs : Safe a) (h : Quiet a b) : Safe b := ⟨hs.toTended.quiet h, (Kept.of_config h.config).down hs.down⟩

theorem quiet_tcnTimer (jiffies : UInt32) (ht : Tended br) (hpend : br.tcnTimer.pending) :
    QuietRun br (brTcnTimerExpired jiffies { br with tcnTimer := delTimer br.tcnTimer }) := by
  let fired : NetBridge P := { br with tcnTimer := delTimer br.tcnTimer }
  have hfired : Quiet br fired :=
    .of_eq rfl rfl (fun h => absurd h Bool.false_ne_true) fun _ => rfl
  obtain ⟨p, hp, hno⟩ := ht.sane.root.port (ht.tcn hpend)
  have hget : brGetPort fired fired.rootPort = some p := by
    rw [Config.brGetPort_eq hfired.config, ← ht.sane.numbered.brGetPort_eq hp, hno]
  rw [brTcnTimerExpired]
  split
  · have hsend : Quiet fired (brSendTcnBpdu fired p) := quiet_brSendBpdu ⟨hp, _, .inl rfl⟩
    have hq := hfired.trans hsend
    rw [brTransmitTcn, hget]
    exact .some ⟨hq.config, hq.sent, fun _ => .inl hpend, hq.state⟩
  · exact .some hfired

theorem safe_newBridgeDev (port : P → NetBridgePort) : Safe (newBridgeDev port) where
  sane := sane_newBridgeDev port
  costs := ⟨fun _ hp => absurd hp List.not_mem_nil, fun _ hp => absurd hp List.not_mem_nil⟩
  led := fun h0 => absurd rfl h0
  tcn := fun h => absurd h Bool.false_ne_true
  down := fun _ _ hp => absurd hp List.not_mem_nil

end

section

variable {P : Type} [DecidableEq P] {a b br : NetBridge P} {p : P} {f : NetBridgePort → NetBridgePort} (jiffies : UInt32)

theorem Tended.step_isSome (ht : Tended br) {e : Event P} (he : Enabled jiffies br e) : (step jiffies br e).isSome := by
  rcases step_sane jiffies ht.sane he with ⟨c, hc, -⟩ | ⟨rfl, -, h0, -⟩
  · rw [hc]
    rfl
  · exact absurd h0 (ht.tcn he.1)

theorem tended_brReconfigure (hn : Numbered a) (hc : Costs a) (wasRoot : Bool) (htcn : wasRoot → ¬ a.tcnTimer.pending) :
    ∃ c, brReconfigure jiffies a wasRoot = some c ∧ Tended c ∧ Kept a c := by
  obtain ⟨b, c, heq, hu, hq, hs, hroot⟩ := brReconfigure_spec jiffies hn wasRoot
  have hled := (hu.led hc).of_config hq.config
  refine ⟨c, heq, ⟨hs, (hu.costs hc).of_config hq.config, hled, fun hpend h0 => ?_⟩, hu.kept.trans (.of_config hq.config)⟩
  have hisroot : brIsRootBridge c := (hled.brIsRootBridge_iff hs.root).mpr h0
  cases wasRoot with
  | false => exact hroot hisroot Bool.false_ne_true hpend
  | true =>
      rcases hq.tcn hpend with hb | hb
      · exact htcn rfl (hu.tcnTimer ▸ hb)
      · exact hb (Config.brIsRootBridge_eq hq.config ▸ hisroot)

theorem candidate_setPort (hen : (f (br.port p)).state ≠ .disabled)
    (hdes : ¬ ((f (br.port p)).designatedBridge = br.bridgeId ∧ (f (br.port p)).designatedPort = (f (br.port p)).portId))
    (hbetter : (f (br.port p)).designatedRoot < br.bridgeId) : Candidate (setPort br p f) p := by
  refine ⟨?_, ?_, ?_⟩
  · rwa [setPort_port_self]
  · rwa [brIsDesignatedPort, setPort_port_self, decide_eq_true_eq]
  · rwa [setPort_port_self]

theorem costs_setPort (hc : Costs br)
    (hpos : 0 < (br.port p).pathCost.toNat → 0 < (f (br.port p)).pathCost.toNat)
    (hbound : p ∈ br.portList → (f (br.port p)).state ≠ .disabled →
      ¬ ((f (br.port p)).designatedBridge = br.bridgeId ∧ (f (br.port p)).designatedPort = (f (br.port p)).portId) →
      (f (br.port p)).designatedCost.toNat + (f (br.port p)).pathCost.toNat < 4294967296) : Costs (setPort br p f) := by
  refine ⟨fun q hq => ?_, fun q hq hen hdes => ?_⟩
  · by_cases hqp : q = p
    · subst hqp
      rw [setPort_port_self]
      exact hpos (hc.positive q hq)
    · rw [setPort_port_of_ne f hqp]
      exact hc.positive q hq
  · by_cases hqp : q = p
    · subst hqp
      rw [setPort_port_self] at hen ⊢
      rw [brIsDesignatedPort, setPort_port_self, decide_eq_true_eq] at hdes
      exact hbound hq hen hdes
    · rw [setPort_port_of_ne f hqp] at hen ⊢
      rw [brIsDesignatedPort, setPort_port_of_ne f hqp] at hdes
      exact hc.bounded q hq hen hdes

theorem led_setPort (hl : Led br)
    (hp : Candidate br p → (br.port p).portNo = br.rootPort → Candidate (setPort br p f) p ∧
      (f (br.port p)).portNo = (br.port p).portNo ∧ (f (br.port p)).designatedRoot = (br.port p).designatedRoot) :
    Led (setPort br p f) := by
  refine hl.congr rfl rfl fun q hq hno hcand => ⟨hq, ?_⟩
  by_cases hqp : q = p
  · subst hqp
    rw [setPort_port_self]
    exact hp hcand hno
  · have hsame : (setPort br p f).port q = br.port q := setPort_port_of_ne f hqp
    exact ⟨hcand.of_port hsame rfl, by rw [hsame], by rw [hsame]⟩

theorem costs_brBecomeDesignatedPort (hc : Costs br) (p : P) : Costs (brBecomeDesignatedPort br p) := by
  refine costs_setPort hc ?_ ?_
  · exact id
  · exact fun _ _ hdes => absurd ⟨rfl, rfl⟩ hdes

theorem costs_brRecordConfigInformation {bpdu : BrConfigBpdu} (hc : Costs br) (hf : Foreign br p bpdu) :
    Costs (brRecordConfigInformation jiffies br p bpdu) := by
  refine costs_setPort hc ?_ ?_
  · exact id
  · exact fun _ _ _ => hf.bounded

theorem costs_shutPort (hc : Costs br) (p : P) : Costs (shutPort br p) := by
  refine costs_setPort (costs_brBecomeDesignatedPort hc p) ?_ ?_
  · exact id
  · exact fun _ hen => absurd rfl hen

theorem brInitPort_designated : brIsDesignatedPort (brInitPort br p) p := by
  rw [brIsDesignatedPort, brInitPort, setPort_port_self, brBecomeDesignatedPort, setPort_port_self, decide_eq_true_eq]
  exact ⟨rfl, rfl⟩

theorem brInitPort_pathCost (q : P) : ((brInitPort br p).port q).pathCost = (br.port q).pathCost := by
  rw [brInitPort, setPort_field (·.pathCost) rfl, brBecomeDesignatedPort, setPort_field (·.pathCost) rfl,
    setPort_field (·.pathCost) rfl]

theorem tended_brInitPort (ht : Tended br) (hd : (br.port p).state = .disabled) : Tended (brInitPort br p) := by
  refine ⟨sane_brInitPort ht.sane p, ht.costs.congr rfl brInitPort_pathCost fun q _ hen hdes => ?_,
    ht.led.of_port rfl rfl rfl fun q hq hcand => ⟨hq, brInitPort_port_of_ne fun h => hcand.enabled (h ▸ hd)⟩, ht.tcn⟩
  have hqp : q ≠ p := fun h => hdes (h ▸ brInitPort_designated)
  rw [brInitPort_port_of_ne hqp] at hen ⊢
  rw [brIsDesignatedPort, brInitPort_port_of_ne hqp] at hdes
  exact ⟨hen, hdes, rfl⟩

theorem Tended.setPort_state (ht : Tended br)
    (hconfig : (f (br.port p)).config = (br.port p).config) (hrole : HasRole br p) : Tended (setPort br p f) :=
  ⟨ht.sane.setPort_state hconfig hrole, ht.costs.of_config (config_setPort hconfig),
    ht.led.of_config (config_setPort hconfig), ht.tcn⟩

theorem tended_upkeep : Upkeep True jiffies (Tended (P := P)) where
  sane := Tended.sane
  quiet := Tended.quiet
  flags := fun up stp ht => ht.withFlags up stp
  move := Tended.setPort_state
  init := fun ht hd => tended_brInitPort ht (hd trivial)
  shut := by
    intro b p ht
    obtain ⟨c, hc, htc, -⟩ := tended_brReconfigure jiffies (numbered_shutPort ht.sane.numbered p)
      (costs_shutPort ht.costs p) (brIsRootBridge b) ht.not_pending
    exact ⟨c, hc, htc⟩

theorem renamed_port (hnd : br.portList.Nodup) (addr : BitVec 48) (p : P) :
    ((renamed br addr).port p).state = (br.port p).state ∧ ((renamed br addr).port p).pathCost = (br.port p).pathCost ∧
      ((renamed br addr).port p).designatedCost = (br.port p).designatedCost := by
  rw [renamed_eq hnd]
  dsimp only
  split <;> exact ⟨rfl, rfl, rfl⟩

theorem renamed_designated (hnd : br.portList.Nodup) (addr : BitVec 48) (hp : p ∈ br.portList)
    (h : brIsDesignatedPort br p) : brIsDesignatedPort (renamed br addr) p := by
  obtain ⟨hbridge, hport⟩ := of_decide_eq_true h
  rw [renamed_eq hnd, brIsDesignatedPort, decide_eq_true_eq]
  dsimp only
  rw [if_pos hp]
  have hself : renameAddr br.bridgeId.addr addr br.bridgeId = { br.bridgeId with addr := addr } := if_pos rfl
  exact ⟨by rw [hbridge]; exact hself, hport⟩

theorem costs_renamed (hc : Costs br) (hnd : br.portList.Nodup) (addr : BitVec 48) : Costs (renamed br addr) := by
  refine hc.congr (by rw [renamed_eq hnd]) (fun p => (renamed_port hnd addr p).2.1) fun p hp hen hdes => ?_
  obtain ⟨hstate, -, hcost⟩ := renamed_port hnd addr p
  exact ⟨hstate ▸ hen, fun h => hdes (renamed_designated hnd addr hp h), hcost⟩

theorem reprioritised_port (hnd : br.portList.Nodup) (newprio : UInt16) (p : P) :
    ((reprioritised br newprio).port p).state = (br.port p).state ∧
      ((reprioritised br newprio).port p).pathCost = (br.port p).pathCost ∧
      ((reprioritised br newprio).port p).designatedCost = (br.port p).designatedCost := by
  rw [reprioritised_eq hnd]
  dsimp only [reprioritisedPort]
  split
  · split <;> exact ⟨rfl, rfl, rfl⟩
  · exact ⟨rfl, rfl, rfl⟩

theorem reprioritised_designated (hnd : br.portList.Nodup) (newprio : UInt16) (hp : p ∈ br.portList)
    (hen : (br.port p).state ≠ .disabled) (h : brIsDesignatedPort br p) :
    brIsDesignatedPort (reprioritised br newprio) p := by
  obtain ⟨hbridge, hport⟩ := of_decide_eq_true h
  rw [reprioritised_eq hnd, brIsDesignatedPort, decide_eq_true_eq]
  dsimp only
  rw [if_pos hp, reprioritisedPort, if_pos ⟨hen, hbridge, hport⟩]
  exact ⟨by rw [hbridge], hport⟩

theorem costs_reprioritised (hc : Costs br) (hnd : br.portList.Nodup) (newprio : UInt16) :
    Costs (reprioritised br newprio) := by
  refine hc.congr (by rw [reprioritised_eq hnd]) (fun p => (reprioritised_port hnd newprio p).2.1) fun p hp hen hdes => ?_
  obtain ⟨hstate, -, hcost⟩ := reprioritised_port hnd newprio p
  rw [hstate] at hen
  exact ⟨hen, fun h => hdes (reprioritised_designated hnd newprio hp hen h), hcost⟩

theorem tended_brStpRecalculateBridgeId (ht : Tended br) :
    ∃ c, brStpRecalculateBridgeId jiffies br = some c ∧ Tended c ∧ Kept br c := by
  rw [brStpRecalculateBridgeId]
  split
  · have hnd := ht.sane.numbered.nodup
    have hsame : Kept br (renamed br (lowestAddr br)) :=
      ⟨by rw [renamed_eq hnd], by rw [renamed_eq hnd], fun p => by rw [(renamed_port hnd _ p).1]⟩
    obtain ⟨c, hc, htc, hkept⟩ := tended_brReconfigure jiffies (numbered_renamed ht.sane.numbered (lowestAddr br))
      (costs_renamed ht.costs hnd (lowestAddr br)) (brIsRootBridge br) (by rw [renamed_eq hnd]; exact ht.not_pending)
    exact ⟨c, hc, htc, hsame.trans hkept⟩
  · exact ⟨br, rfl, ht, .of_config rfl⟩

theorem Safe.updated {c : NetBridge P} (hs : Safe br) (hn : Numbered a) (hcosts : Costs a) (hkept : Kept br a)
    (htcn : a.tcnTimer = br.tcnTimer) (hcand : ∀ r, Candidate br r → Candidate a r) (hu : Updated a b) (hq : Quiet b c)
    (hsane : Sane c) : Safe c := by
  have hled := (hu.led hcosts).of_config hq.config
  refine ⟨⟨hsane, (hu.costs hcosts).of_config hq.config, hled, fun hpend h0 => ?_⟩,
    (hkept.trans (hu.kept.trans (.of_config hq.config))).down hs.down⟩
  have hrootc : brIsRootBridge c := (hled.brIsRootBridge_iff hsane.root).mpr h0
  have hbefore : br.tcnTimer.pending := by
    rcases hq.tcn hpend with h | h
    · rwa [hu.tcnTimer, htcn] at h
    · exact absurd (Config.brIsRootBridge_eq hq.config ▸ hrootc) h
  obtain ⟨r, hr, -, hcandr, -⟩ := hs.led (hs.tcn hbefore)
  exact hu.rootPort_ne_zero hn (hkept.portList ▸ hr) (hcand r hcandr) (Config.rootPort_eq hq.config ▸ h0)

theorem Kept.setPort (hf : (f (br.port p)).state = (br.port p).state) :
    Kept br (setPort br p f) := ⟨rfl, rfl, fun q => by rw [setPort_field (·.state) hf]⟩

theorem Candidate.setPort (hp : Candidate br p → Candidate (setPort br p f) p) {q : P}
    (h : Candidate br q) : Candidate (setPort br p f) q := by
  by_cases hqp : q = p
  · subst hqp
    exact hp h
  · exact h.of_port (setPort_port_of_ne f hqp) rfl

theorem safe_brReceivedConfigBpdu (hs : Safe br) (hp : p ∈ br.portList) {bpdu : BrConfigBpdu}
    (hf : Foreign br p bpdu) : Yields Safe (brReceivedConfigBpdu jiffies br p bpdu) := by
  rcases brReceivedConfigBpdu_spec jiffies hs.sane hp bpdu with ⟨hsup, b, c, hc, hu, hq, hsane⟩ | ⟨-, hquiet⟩
  · have hn : Numbered (brRecordConfigInformation jiffies br p bpdu) := numbered_setPort rfl hs.sane.numbered
    refine ⟨c, hc, hs.updated hn (costs_brRecordConfigInformation jiffies hs.costs hf) (.setPort rfl) rfl (fun r => ?_)
      hu hq hsane⟩
    refine Candidate.setPort fun hcand => candidate_setPort ?_ ?_ ?_
    · exact hcand.enabled
    · exact hf.other
    · exact (brSupersedesPortInfo_root hsup).trans_lt hcand.better
  · exact hquiet.yields fun _ => hs.quiet

theorem safe_brStpSetPathCost (hs : Safe br) {pathCost : UInt32} (hpos : 0 < pathCost.toNat)
    (hbound : ¬ brIsDesignatedPort br p → (br.port p).designatedCost.toNat + pathCost.toNat < 4294967296) :
    Yields Safe (brStpSetPathCost jiffies br p pathCost) := by
  let a := setPort br p fun q => { q with pathCost := pathCost }
  have hcosts : Costs a := by
    refine costs_setPort hs.costs ?_ ?_
    · exact fun _ => hpos
    · exact fun _ _ hdes => hbound fun h => hdes (of_decide_eq_true h)
  have hn : Numbered a := numbered_setPort rfl hs.sane.numbered
  obtain ⟨b, c, hc, hu, hq, hsane⟩ := reconfigure_spec jiffies hn
  refine ⟨c, hc, hs.updated hn hcosts (.setPort rfl) rfl (fun r => ?_) hu hq hsane⟩
  refine Candidate.setPort fun hcand => candidate_setPort ?_ ?_ ?_
  · exact hcand.enabled
  · exact hcand.not_designated
  · exact hcand.better

theorem safe_brBecomeDesignatedPort (ht : Safe br) (hroot : (br.port p).portNo ≠ br.rootPort) :
    Safe (brBecomeDesignatedPort br p) := by
  have hkept : Kept br (brBecomeDesignatedPort br p) := .setPort rfl
  exact ⟨⟨sane_brBecomeDesignatedPort ht.sane p, costs_brBecomeDesignatedPort ht.costs p,
    led_setPort ht.led fun _ hno => absurd hno hroot, ht.tcn⟩, hkept.down ht.down⟩

theorem safe_brStpSetPortPriority (ht : Safe br) (newprio : UInt8)
    (hroot : (br.port p).designatedBridge = br.bridgeId → (br.port p).portNo ≠ br.rootPort) :
    Yields Safe (brStpSetPortPriority jiffies br p newprio) := by
  have hcosts : Costs (withPortPriority br p newprio) := by
    refine costs_setPort ht.costs ?_ ?_
    · exact id
    · exact fun hp hen hdes => ht.costs.bounded p hp hen fun h => hdes ⟨(of_decide_eq_true h).1, if_pos h⟩
  have hled : Led (withPortPriority br p newprio) := led_setPort ht.led fun hcand hno =>
    ⟨candidate_setPort hcand.enabled (fun h => hroot h.1 hno) hcand.better, rfl, rfl⟩
  have hkept : Kept br (withPortPriority br p newprio) := .setPort rfl
  have hprio : Safe (withPortPriority br p newprio) :=
    ⟨⟨sane_withPortPriority ht.sane p newprio, hcosts, hled, ht.tcn⟩, hkept.down ht.down⟩
  rw [brStpSetPortPriority]
  split
  next hself =>
      have hbridge : ((withPortPriority br p newprio).port p).designatedBridge = (br.port p).designatedBridge :=
        setPort_field (·.designatedBridge) rfl p
      have hdes := safe_brBecomeDesignatedPort hprio (p := p) (by
        rw [withPortPriority, setPort_field (·.portNo) rfl]
        exact hroot (hbridge.symm.trans hself.1.symm))
      exact (quiet_selection_of_sane jiffies hdes.sane).yields fun _ => hdes.quiet
  next => exact ⟨_, rfl, hprio⟩

theorem tended_linkPort (ht : Tended br) (hp : p ∉ br.portList) (devAddr : BitVec 48) {cost : UInt32}
    (hpos : 0 < cost.toNat) {index : UInt16} (hindex : findPortno br = some index) :
    Tended (linkPort br p devAddr cost index) := by
  refine ⟨sane_linkPort ht.sane hp devAddr cost hindex, ⟨fun q hq => ?_, fun q hq hen hdes => ?_⟩,
    ht.led.of_port rfl rfl rfl fun q hq _ => ⟨List.mem_cons_of_mem p hq, linkPort_port_of_mem hp hq ..⟩, ht.tcn⟩
  · rcases List.mem_cons.mp hq with rfl | hq
    · rw [linkPort_port_self]
      exact hpos
    · rw [linkPort_port_of_mem hp hq]
      exact ht.costs.positive q hq
  · rcases List.mem_cons.mp hq with rfl | hq
    · rw [linkPort_port_self] at hen
      exact absurd rfl hen
    · rw [brIsDesignatedPort, linkPort_port_of_mem hp hq] at hdes
      rw [linkPort_port_of_mem hp hq] at hen ⊢
      exact ht.costs.bounded q hq hen hdes

theorem safe_brAddIf (ht : Safe br) (hp : p ∉ br.portList) (devAddr : BitVec 48) {cost : UInt32}
    (hpos : 0 < cost.toNat) (ready : Bool) : Yields Safe (brAddIf jiffies br p devAddr cost ready) := by
  rw [brAddIf]
  split
  · exact ⟨br, rfl, ht⟩
  next index hindex =>
      obtain ⟨b, hb, htb, hkept⟩ :=
        tended_brStpRecalculateBridgeId jiffies (tended_linkPort ht.toTended hp devAddr hpos hindex)
      have hself : ((linkPort br p devAddr cost index).port p).state = .disabled := by rw [linkPort_port_self]; rfl
      have hdown : ¬ b.up → AllDown b := by
        refine hkept.down fun hlink q hq => ?_
        rcases List.mem_cons.mp hq with rfl | hq
        · exact hself
        · rw [linkPort_port_of_mem hp hq]
          exact ht.down hlink q hq
      rw [hb, Option.bind_eq_bind, Option.bind_some]
      split
      next hready =>
          obtain ⟨c, hc, htc, hkeptc⟩ := (tended_upkeep jiffies).enable htb fun _ => (hkept.disabled p).mpr hself
          exact ⟨c, hc, htc, fun h => absurd (hkeptc.up ▸ hready.1) h⟩
      next => exact ⟨b, rfl, htb, hdown⟩

theorem safe_brDelIf (ht : Safe br) (hmem : p ∈ br.portList) : Yields Safe (brDelIf jiffies br p) := by
  obtain ⟨b, hb, htb, hkept⟩ := (tended_upkeep jiffies).disable ht.toTended p
  have hdis (q : P) (hq : q = p ∨ (br.port q).state = .disabled) : (b.port q).state = .disabled :=
    (hkept.disabled q).mpr ((shutPort_disabled br p q).mpr hq)
  have hled : Led { b with portList := b.portList.erase p } := by
    refine htb.led.of_port rfl rfl rfl fun q hq hcand => ⟨(List.mem_erase_of_ne fun h => ?_).mpr hq, rfl⟩
    exact hcand.enabled (hdis q (.inl h))
  have hsane : Sane { b with portList := b.portList.erase p } := by
    have hmemb : p ∈ b.portList := hkept.portList ▸ hmem
    refine sane_erase htb.sane fun h => ?_
    obtain ⟨q, hq, hno, hcand, -⟩ := htb.led (h ▸ htb.sane.numbered.nonzero p hmemb)
    exact hcand.enabled (hdis q (.inl (htb.sane.numbered.inj q hq p hmemb (hno.trans h))))
  have hcosts : Costs { b with portList := b.portList.erase p } :=
    ⟨fun q hq => htb.costs.positive q (List.mem_of_mem_erase hq), fun q hq => htb.costs.bounded q (List.mem_of_mem_erase hq)⟩
  obtain ⟨c, hc, htc, hkeptc⟩ := tended_brStpRecalculateBridgeId jiffies ⟨hsane, hcosts, hled, htb.tcn⟩
  refine ⟨c, by rw [brDelIf, hb]; exact hc, htc, hkeptc.down fun h q hq => hdis q (.inr ?_)⟩
  exact ht.down (hkept.up ▸ h) q (hkept.portList ▸ List.mem_of_mem_erase hq)

theorem tended_changeAddr (ht : Tended br) (p : P) (addr : BitVec 48) :
    Tended (setPort br p fun q => { q with devAddr := addr }) := by
  refine ⟨sane_setPort rfl (fun hsettled => ?_) ht.sane, ?_, ?_, ht.tcn⟩
  · rwa [Settled, HasRole, brIsDesignatedPort, setPort_port_self]
  · refine costs_setPort ht.costs ?_ ?_
    · exact id
    · exact fun hp hen hdes => ht.costs.bounded p hp hen fun h => hdes (of_decide_eq_true h)
  · exact led_setPort ht.led fun hcand _ =>
      ⟨candidate_setPort hcand.enabled hcand.not_designated hcand.better, rfl, rfl⟩

theorem safe_brReconfigure (hs : Safe br) (hn : Numbered a) (hc : Costs a) (htcn : a.tcnTimer = br.tcnTimer)
    (hkept : Kept br a) : Yields Safe (brReconfigure jiffies a (brIsRootBridge br)) := by
  obtain ⟨c, hc, htc, hkeptc⟩ := tended_brReconfigure jiffies hn hc (brIsRootBridge br) (htcn ▸ hs.not_pending)
  exact ⟨c, hc, htc, (hkept.trans hkeptc).down hs.down⟩

theorem safe_brMessageAgeTimerExpired (hs : Safe br) (p : P) : Yields Safe (brMessageAgeTimerExpired jiffies br p) := by
  rw [brMessageAgeTimerExpired]
  split
  · exact ⟨br, rfl, hs⟩
  · have hn : Numbered (brBecomeDesignatedPort br p) := numbered_setPort rfl hs.sane.numbered
    exact safe_brReconfigure jiffies hs hn (costs_brBecomeDesignatedPort hs.costs p) rfl (.setPort rfl)

theorem safe_brStpSetBridgePriority (hs : Safe br) (newprio : UInt16) :
    Yields Safe (brStpSetBridgePriority jiffies br newprio) := by
  have hnd := hs.sane.numbered.nodup
  refine safe_brReconfigure jiffies hs (numbered_reprioritised hs.sane.numbered newprio)
    (costs_reprioritised hs.costs hnd newprio) (by rw [reprioritised_eq hnd]) ⟨?_, ?_, fun p => ?_⟩
  · rw [reprioritised_eq hnd]
  · rw [reprioritised_eq hnd]
  · rw [(reprioritised_port hnd newprio p).1]

theorem safe_step (hs : Safe br) {e : Event P} (he : Enabled jiffies br e) (hf : Fair br e) :
    Yields Safe (step jiffies br e) := by
  have hkeep := tended_upkeep (P := P) jiffies
  cases e with
  | frame p data =>
      refine brStpHandleBpdu_rule jiffies ⟨br, rfl, hs⟩ (fun bpdu hread => ?_) ?_
      · exact safe_brReceivedConfigBpdu jiffies hs he (hf bpdu hread)
      · exact (quiet_brReceivedTcnBpdu jiffies hs.sane he).yields fun _ => hs.quiet
  | tcnTimer => exact (quiet_tcnTimer jiffies hs.toTended he.1).yields fun _ => hs.quiet
  | messageAgeTimer p => exact safe_brMessageAgeTimerExpired jiffies (hs.quiet (quiet_setPort rfl rfl)) p
  | forwardDelayTimer p =>
      have hfired : Safe (setPort br p fun q => { q with forwardDelayTimer := delTimer q.forwardDelayTimer }) :=
        hs.quiet (quiet_setPort rfl rfl)
      obtain ⟨c, hc, htc, hkept⟩ := hkeep.forwardDelay hfired.toTended he.1
      exact ⟨c, hc, htc, hkept.down hfired.down⟩
  | device p e =>
      refine hkeep.deviceEvent hs.toTended hs (fun c htc hup => ⟨htc, fun h => absurd hup h⟩) (fun _ carrier heq => ?_)
        fun addr _ => ?_
      · subst heq
        exact hf
      · obtain ⟨c, hc, htc, hkept⟩ := tended_brStpRecalculateBridgeId jiffies (tended_changeAddr hs.toTended p addr)
        have hsame : Kept br (setPort br p fun q => { q with devAddr := addr }) := .setPort rfl
        exact ⟨c, hc, htc, (hsame.trans hkept).down hs.down⟩
  | devOpen ready =>
      obtain ⟨c, hc, htc, hup⟩ := hkeep.devOpen hs.toTended ready fun _ => hs.down he
      exact ⟨c, hc, htc, fun h => absurd hup h⟩
  | devStop =>
      obtain ⟨c, hc, htc, hdown⟩ := hkeep.devStop hs.toTended
      exact ⟨c, hc, htc, fun _ => hdown⟩
  | addIf p devAddr cost ready => exact safe_brAddIf jiffies hs he devAddr hf ready
  | delIf p => exact safe_brDelIf jiffies hs he
  | setBridgePriority newprio => exact safe_brStpSetBridgePriority jiffies hs newprio
  | setPortPriority p newprio => exact safe_brStpSetPortPriority jiffies hs newprio hf
  | setPathCost p pathCost => exact safe_brStpSetPathCost jiffies hs hf.1 hf.2
  | setStpState on => exact ⟨_, rfl, hs.toTended.withFlags br.up on, hs.down⟩
  | helloTimer | topologyChangeTimer | holdTimer | setForwardDelay | setHelloTime | setMaxAge =>
      exact (quiet_step jiffies hs.sane.known he trivial).yields fun _ => hs.quiet

end

section

variable {P : Type} [DecidableEq P]

inductive Clocked.FairStep (s : Clocked P) : Clocked P → Prop
  | event {now : ℕ} {br : NetBridge P} (e : Event P) (hnow : s.now ≤ now) (henabled : Enabled (.ofNat now) s.br e)
      (hfair : Fair s.br e) (hstep : Stp.step (.ofNat now) s.br e = some br) : Clocked.FairStep s ⟨now, br⟩

theorem safe_of_fair {s : Clocked P}
    (h : Transition.Reach (fun s => ∃ port, s.br = newBridgeDev port) Clocked.FairStep s) : Safe s.br := by
  refine h.invariant (fun s ⟨port, hs⟩ => hs ▸ safe_newBridgeDev port) fun s s' hs hstep => ?_
  cases hstep with
  | event e hnow henabled hfair hstep =>
      obtain ⟨c, hc, hsc⟩ := safe_step _ hs henabled hfair
      rw [hc] at hstep
      exact Option.some.inj hstep ▸ hsc

/-- A bridge that gets no BPDUs of its own back reports topology changes only
while it has a root port, and its root port always leads to a root that is
better than itself; no event fails. -/
theorem bridge_never_fails {s : Clocked P}
    (h : Transition.Reach (fun s => ∃ port, s.br = newBridgeDev port) Clocked.FairStep s) :
    (s.br.tcnTimer.pending → s.br.rootPort ≠ 0) ∧ (brIsRootBridge s.br ↔ s.br.rootPort = 0) ∧
      s.br.designatedRoot ≤ s.br.bridgeId ∧
      ∀ (jiffies : UInt32) (e : Event P), Enabled jiffies s.br e → (step jiffies s.br e).isSome := by
  have hs := safe_of_fair h
  exact ⟨hs.tcn, hs.led.brIsRootBridge_iff hs.sane.root, hs.root_le, fun jiffies e he => hs.step_isSome jiffies he⟩

end

def betterRoot : BrConfigBpdu := ⟨false, false, ⟨0x1000, 1⟩, 0, ⟨0x1000, 1⟩, 0x8001, 0, 4000, 400, 3000⟩

def betterHello : List UInt8 := (bpduFrame 1 (configBytes betterRoot)).drop 14

def portedPair : NetBridge Bool :=
  after 0 (after 0 (newBridgeDev fun _ => newNbp 0 0 0) (.addIf false 5 100 true)) (.addIf true 6 100 true)

def openedPair : NetBridge Bool := after 0 (after 0 portedPair (.setStpState true)) (.devOpen fun _ => true)

def rootedPair : NetBridge Bool := after 10 openedPair (.frame false betterHello)

def learningPair : NetBridge Bool := after 3050 rootedPair (.forwardDelayTimer false)

def reportingPair : NetBridge Bool := after 6100 learningPair (.forwardDelayTimer false)

theorem betterHello_foreign : Fair openedPair (.frame false betterHello) := by
  intro bpdu hread
  have hconfig : readBpdu betterHello = some (.config betterRoot) := by decide
  obtain rfl : betterRoot = bpdu := Message.config.inj (Option.some.inj (hconfig.symm.trans hread))
  exact ⟨by decide, by decide⟩

theorem openedPair_fair :
    Transition.Reach (fun s : Clocked Bool => ∃ port, s.br = newBridgeDev port) Clocked.FairStep ⟨0, openedPair⟩ := by
  have hnew : Transition.Reach (fun s : Clocked Bool => ∃ port, s.br = newBridgeDev port) Clocked.FairStep
      ⟨0, newBridgeDev fun _ => newNbp 0 0 0⟩ := .start ⟨_, rfl⟩
  have hfirst := hnew.next (.event (.addIf false 5 100 true) le_rfl (List.not_mem_nil (a := false))
    (by decide : 0 < (100 : UInt32).toNat) (step_after (by decide)))
  have hported := hfirst.next (.event (.addIf true 6 100 true) le_rfl
    (by decide : true ∉ (after 0 (newBridgeDev _) (.addIf false 5 100 true)).portList)
    (by decide : 0 < (100 : UInt32).toNat) (step_after (by decide)))
  have hon := hported.next (.event (.setStpState true) le_rfl trivial trivial (step_after (by decide)))
  exact hon.next (.event (.devOpen fun _ => true) le_rfl (by decide : ¬ (after 0 portedPair _).up) trivial
    (step_after (by decide)))

theorem reportingPair_never_fails : reportingPair.tcnTimer.pending ∧ reportingPair.rootPort ≠ 0 ∧
    (step 6600 reportingPair .tcnTimer).isSome := by
  have hrooted : Transition.Reach _ Clocked.FairStep (⟨10, rootedPair⟩ : Clocked Bool) :=
    openedPair_fair.next (.event (.frame false betterHello) (by decide) (by decide : false ∈ openedPair.portList)
      betterHello_foreign (step_after (by decide +kernel)))
  have hlearning : Transition.Reach _ Clocked.FairStep (⟨3050, learningPair⟩ : Clocked Bool) :=
    hrooted.next (.event (.forwardDelayTimer false) (by decide) ⟨by decide +kernel, by decide +kernel⟩ trivial
      (step_after (by decide +kernel)))
  have hreporting : Transition.Reach _ Clocked.FairStep (⟨6100, reportingPair⟩ : Clocked Bool) :=
    hlearning.next (.event (.forwardDelayTimer false) (by decide) ⟨by decide +kernel, by decide +kernel⟩ trivial
      (step_after (by decide +kernel)))
  obtain ⟨htcn, -, -, hsome⟩ := bridge_never_fails hreporting
  have hpending : reportingPair.tcnTimer.pending := by decide +kernel
  have hdue : Due 6600 reportingPair.tcnTimer := by decide +kernel
  exact ⟨hpending, htcn hpending, hsome 6600 .tcnTimer hdue⟩

end AliceModem.Stp
