import AliceModem.Bridge.StpNetwork
import AliceModem.Lib.ParentGraph

namespace AliceModem.Stp

open Bpdu Disposal

structure Records {P : Type} (a : NetBridge P) (p : P) (b : NetBridge P) (q : P) : Prop where
  root : (a.port p).designatedRoot = b.designatedRoot
  cost : (a.port p).designatedCost = b.rootPathCost
  bridge : (a.port p).designatedBridge = b.bridgeId
  port : (a.port p).designatedPort = (b.port q).portId

namespace Net

variable {B P L : Type} (N : Net B P L) (s : B → NetBridge P)

def Active (i : B) (p : P) : Prop := p ∈ N.ports i ∧ ((s i).port p).state ≠ .disabled

def Designated (i : B) (p : P) : Prop := N.Active s i p ∧ brIsDesignatedPort (s i) p

/-- The network has come to rest: no announcement would still change a record,
and every port that waits for another bridge has the announcement of one. -/
structure Quiescent : Prop where
  heard : ∀ i p j q, N.Active s i p → N.Designated s j q → N.lan i p = N.lan j q → ¬ (i = j ∧ p = q) →
    brSupersedesPortInfo (s i) p (configBpdu (s j) q 0) → Records (s i) p (s j) q
  current : ∀ i p, N.Active s i p → ¬ brIsDesignatedPort (s i) p →
    ∃ j q, N.Designated s j q ∧ N.lan i p = N.lan j q ∧ Records (s i) p (s j) q

/-- A way over enabled ports from the bridge `k`. -/
inductive ActiveWalk (k : B) : B → ℕ → Prop
  | start : ActiveWalk k k 0
  | hop {i j : B} {p q : P} {c : ℕ} (h : ActiveWalk k j c) (hp : N.Active s i p) (hq : N.Active s j q)
      (hlan : N.lan i p = N.lan j q) : ActiveWalk k i (c + (N.cost i p).toNat)

def ActiveEdge : B ⊕ L → B ⊕ L → Prop
  | .inl i, .inr l => ∃ p, N.Active s i p ∧ N.lan i p = l
  | _, _ => False

def RoleEdge : B ⊕ L → B ⊕ L → Prop
  | .inl i, .inr l => ∃ p, N.Active s i p ∧ HasRole (s i) p ∧ N.lan i p = l
  | _, _ => False

def activeGraph : SimpleGraph (B ⊕ L) := SimpleGraph.fromRel (N.ActiveEdge s)

/-- The bridges and LANs, joined by the ports that have a role. -/
def roleGraph : SimpleGraph (B ⊕ L) := SimpleGraph.fromRel (N.RoleEdge s)

def Parent : B ⊕ L → B ⊕ L → Prop
  | .inl i, .inr l => ∃ p, N.Active s i p ∧ ((s i).port p).portNo = (s i).rootPort ∧ N.lan i p = l
  | .inr l, .inl j => ∃ q, N.Designated s j q ∧ N.lan j q = l
  | _, _ => False

end Net

abbrev Vector := BridgeId ×ₗ ℕ ×ₗ BridgeId ×ₗ ℕ

def NetBridgePort.vector (q : NetBridgePort) : Vector :=
  toLex (q.designatedRoot, toLex (q.designatedCost.toNat, toLex (q.designatedBridge, q.designatedPort.toNat)))

def NetBridge.vector {P : Type} (br : NetBridge P) (p : P) : Vector :=
  toLex (br.designatedRoot, toLex (br.rootPathCost.toNat, toLex (br.bridgeId, (br.port p).portId.toNat)))

theorem toLex_le {α β : Type} [LinearOrder α] [LinearOrder β] {a b : α} {c d : β} :
    toLex (a, c) ≤ toLex (b, d) ↔ a < b ∨ a = b ∧ c ≤ d := Prod.Lex.le_iff

theorem brSupersedesPortInfo_of_le {P : Type} {a b : NetBridge P} {p q : P} (age : UInt32)
    (h : b.vector q ≤ (a.port p).vector) : brSupersedesPortInfo a p (configBpdu b q age) := by
  rw [brSupersedesPortInfo, decide_eq_true_eq]
  dsimp only [configBpdu]
  rw [then_lt, then_lt, compare_lt_iff_lt, Ordering.then_eq_eq, Ordering.then_eq_eq, compare_eq_iff_eq, compare_eq_iff_eq,
    compare_eq_iff_eq]
  rw [NetBridge.vector, NetBridgePort.vector, toLex_le, toLex_le, toLex_le] at h
  rcases h with h | ⟨hroot, h | ⟨hcost, h | ⟨hbridge, h⟩⟩⟩
  · exact .inl (.inl h)
  · exact .inl (.inr ⟨hroot, .inl h⟩)
  · exact .inl (.inr ⟨hroot, .inr ⟨hcost, h⟩⟩)
  · exact .inr ⟨⟨hroot, hcost, hbridge⟩, .inr h⟩

section

variable {B P L : Type} {N : Net B P L} {s : B → NetBridge P} {i j : B} {p q : P}

theorem Net.Designated.records (hg : Good N i (s i)) (h : N.Designated s i p) : Records (s i) p (s i) p := by
  have he := hg.stable.port p (hg.wired.ports ▸ h.1.1) h.1.2
  obtain ⟨hbridge, hport⟩ := of_decide_eq_true h.2
  exact ⟨he.root, he.own h.2, hbridge, hport⟩

theorem Net.eq_of_ids (hg : ∀ i, Good N i (s i)) (hp : p ∈ N.ports i) (hq : q ∈ N.ports j)
    (hid : (s i).bridgeId = (s j).bridgeId) (hport : ((s i).port p).portId = ((s j).port q).portId) : i = j ∧ p = q := by
  rw [(hg i).wired.id, (hg j).wired.id] at hid
  cases N.id_injective hid
  rw [(hg i).wired.portId, (hg i).wired.portId] at hport
  have hno := Net.portNo_of_portId hp hq hport
  rw [← (hg i).wired.portNo, ← (hg i).wired.portNo] at hno
  have hports := (hg i).wired.ports
  exact ⟨rfl, (hg i).tended.sane.numbered.inj p (hports ▸ hp) q (hports ▸ hq) hno⟩

theorem Net.Quiescent.exists_designated (hq : N.Quiescent s) (hp : N.Active s i p) :
    ∃ j q, N.Designated s j q ∧ N.lan i p = N.lan j q := by
  by_cases hd : brIsDesignatedPort (s i) p
  · exact ⟨i, p, ⟨hp, hd⟩, rfl⟩
  · obtain ⟨j, q, hj, hlan, -⟩ := hq.current i p hp hd
    exact ⟨j, q, hj, hlan⟩

theorem Net.Active.elected (hg : Good N i (s i)) (hp : N.Active s i p) : Elected (s i) p :=
  hg.stable.port p (hg.wired.ports ▸ hp.1) hp.2

theorem Net.Active.adj (hp : N.Active s i p) (hrole : HasRole (s i) p) :
    (N.roleGraph s).Adj (.inl i) (.inr (N.lan i p)) :=
  (SimpleGraph.fromRel_adj _ _ _).mpr ⟨Sum.inl_ne_inr, .inl ⟨p, hp, hrole, rfl⟩⟩

theorem Net.Active.eq_of_portNo (hg : Good N i (s i)) (hp : N.Active s i p) (hq : N.Active s i q)
    (h : ((s i).port p).portNo = ((s i).port q).portNo) : p = q :=
  hg.tended.sane.numbered.inj p (hg.wired.ports ▸ hp.1) q (hg.wired.ports ▸ hq.1) h

theorem Net.roleGraph_eq : N.roleGraph s = ParentGraph.graph (N.Parent s) := by
  have hedge (x y : B ⊕ L) : (N.RoleEdge s x y ∨ N.RoleEdge s y x) ↔ (N.Parent s x y ∨ N.Parent s y x) := by
    have hboth (i : B) (l : L) : N.RoleEdge s (.inl i) (.inr l) ↔
        (N.Parent s (.inl i) (.inr l) ∨ N.Parent s (.inr l) (.inl i)) := by
      constructor
      · rintro ⟨p, hp, hroot | hdes, rfl⟩
        · exact .inl ⟨p, hp, hroot, rfl⟩
        · exact .inr ⟨p, ⟨hp, hdes⟩, rfl⟩
      · rintro (⟨p, hp, hroot, rfl⟩ | ⟨p, hp, rfl⟩)
        · exact ⟨p, hp, .inl hroot, rfl⟩
        · exact ⟨p, hp.1, .inr hp.2, rfl⟩
    have hno (i : B) (l : L) : ¬ N.RoleEdge s (.inr l) (.inl i) := fun h => h
    cases x with
    | inl i =>
        cases y with
        | inl j => exact Iff.rfl
        | inr l => exact (or_iff_left (hno i l)).trans (hboth i l)
    | inr l =>
        cases y with
        | inl j => exact (or_iff_right (hno j l)).trans ((hboth j l).trans or_comm)
        | inr m => exact Iff.rfl
  ext x y
  rw [roleGraph, ParentGraph.graph, SimpleGraph.fromRel_adj, SimpleGraph.fromRel_adj, hedge]

noncomputable def Net.rank (N : Net B P L) (s : B → NetBridge P) : B ⊕ L → ℕ
  | .inl i => 2 * (s i).rootPathCost.toNat
  | .inr l => by
      classical exact if h : ∃ j q, N.Designated s j q ∧ N.lan j q = l then 2 * (s h.choose).rootPathCost.toNat + 1 else 0

theorem Net.roleGraph_le : N.roleGraph s ≤ N.activeGraph s := by
  have hedge (x y : B ⊕ L) (h : N.RoleEdge s x y) : N.ActiveEdge s x y := by
    cases x with
    | inl i =>
        cases y with
        | inl j => exact h.elim
        | inr l =>
            obtain ⟨p, hp, -, hlan⟩ := h
            exact ⟨p, hp, hlan⟩
    | inr l => exact h.elim
  intro x y h
  obtain ⟨hne, h⟩ := (SimpleGraph.fromRel_adj _ _ _).mp h
  exact (SimpleGraph.fromRel_adj _ _ _).mpr ⟨hne, h.imp (hedge x y) (hedge y x)⟩

namespace Net.Quiescent

variable (hq : N.Quiescent s) (hg : ∀ i, Good N i (s i))

include hq hg

theorem designated_unique (hi : N.Designated s i p)
    (hj : N.Designated s j q) (hlan : N.lan i p = N.lan j q) : i = j ∧ p = q := by
  have heard {i j : B} {p q : P} (hi : N.Designated s i p) (hj : N.Designated s j q) (hlan : N.lan i p = N.lan j q)
      (hle : (s j).vector q ≤ (s i).vector p) : i = j ∧ p = q := by
    by_contra hne
    have hown := hi.records (hg i)
    have hvec : ((s i).port p).vector = (s i).vector p := by
      rw [NetBridgePort.vector, NetBridge.vector, hown.root, hown.cost, hown.bridge, hown.port]
    have hsup := brSupersedesPortInfo_of_le 0 (hvec ▸ hle)
    have hrec := hq.heard i p j q hi.1 hj hlan hne hsup
    exact hne (Net.eq_of_ids hg hi.1.1 hj.1.1 (hown.bridge.symm.trans hrec.bridge) (hown.port.symm.trans hrec.port))
  rcases le_total ((s j).vector q) ((s i).vector p) with h | h
  · exact heard hi hj hlan h
  · obtain ⟨hij, hpq⟩ := heard hj hi hlan.symm h
    exact ⟨hij.symm, hpq.symm⟩

theorem records (hp : N.Active s i p)
    (hj : N.Designated s j q) (hlan : N.lan i p = N.lan j q) : Records (s i) p (s j) q := by
  by_cases hd : brIsDesignatedPort (s i) p
  · obtain ⟨rfl, rfl⟩ := hq.designated_unique hg ⟨hp, hd⟩ hj hlan
    exact hj.records (hg i)
  · obtain ⟨j', q', hj', hlan', hrec⟩ := hq.current i p hp hd
    obtain ⟨rfl, rfl⟩ := hq.designated_unique hg hj' hj (hlan'.symm.trans hlan)
    exact hrec

theorem designated_le (hp : N.Active s i p)
    (hj : N.Designated s j q) (hlan : N.lan i p = N.lan j q) :
    (s i).designatedRoot = (s j).designatedRoot ∧ (s j).rootPathCost.toNat ≤ (s i).rootPathCost.toNat := by
  have hrec := hq.records hg hp hj hlan
  have he := hp.elected (hg i)
  refine ⟨he.root.symm.trans hrec.root, ?_⟩
  have horder := he.order
  rw [NetBridgePort.record, NetBridge.claim, toLex_le, hrec.cost] at horder
  rcases horder with h | ⟨h, -⟩
  · exact h.le
  · exact h.le

theorem agree (hp : N.Active s i p) (hj : N.Active s j q)
    (hlan : N.lan i p = N.lan j q) : (s i).designatedRoot = (s j).designatedRoot := by
  obtain ⟨d, r, hd, hlan'⟩ := hq.exists_designated hp
  have hi := (hq.designated_le hg hp hd hlan').1
  have hj := (hq.designated_le hg hj hd (hlan.symm.trans hlan')).1
  exact hi.trans hj.symm

theorem root_port (h0 : (s i).rootPort ≠ 0) :
    ∃ p j q, N.Active s i p ∧ ((s i).port p).portNo = (s i).rootPort ∧ N.Designated s j q ∧ N.lan i p = N.lan j q ∧
      (s i).rootPathCost.toNat = (s j).rootPathCost.toNat + (N.cost i p).toNat ∧ 0 < (N.cost i p).toNat := by
  have hgi := hg i
  cases hgi.stable.root with
  | own hnone hport hroot hcost => exact absurd hport h0
  | port p hp hcand hbest hport hroot hcost =>
      have hactive : N.Active s i p := ⟨hgi.wired.ports ▸ hp, hcand.enabled⟩
      obtain ⟨j, q, hj, hlan⟩ := hq.exists_designated hactive
      have hrec := hq.records hg hactive hj hlan
      have hbound := hgi.tended.costs.bounded p hp hcand.enabled hcand.undesignated
      have hpos := hgi.tended.costs.positive p hp
      rw [hgi.wired.cost] at hpos
      refine ⟨p, j, q, hactive, hport.symm, hj, hlan, ?_, hpos⟩
      rw [hcost, cost_toNat hbound, hrec.cost, hgi.wired.cost]

theorem root_port_at (hp : N.Active s i p)
    (hno : ((s i).port p).portNo = (s i).rootPort) : ∃ j q, N.Designated s j q ∧ N.lan i p = N.lan j q ∧
      (s i).rootPathCost.toNat = (s j).rootPathCost.toNat + (N.cost i p).toNat ∧ 0 < (N.cost i p).toNat := by
  have h0 : (s i).rootPort ≠ 0 := hno ▸ (hg i).tended.sane.numbered.nonzero p ((hg i).wired.ports ▸ hp.1)
  obtain ⟨p', j, q, hp', hno', hrest⟩ := hq.root_port hg h0
  cases hp.eq_of_portNo (hg i) hp' (hno.trans hno'.symm)
  exact ⟨j, q, hrest⟩

theorem exists_walk (i : B) :
    ∃ k, (s i).designatedRoot = N.id k ∧ N.ActiveWalk s k i (s i).rootPathCost.toNat ∧
      (N.roleGraph s).Reachable (.inl i) (.inl k) := by
  induction h : (s i).rootPathCost.toNat using Nat.strong_induction_on generalizing i with
  | h n ih =>
      by_cases h0 : (s i).rootPort = 0
      · have hroot := (hg i).tended.sane.root.own h0
        have hcost := (hg i).tended.sane.root.cost h0
        refine ⟨i, hroot.trans (hg i).wired.id, ?_, .refl _⟩
        rw [← h, hcost]
        exact .start
      · obtain ⟨p, j, q, hp, hno, hj, hlan, hcost, hpos⟩ := hq.root_port hg h0
        obtain ⟨k, hk, hwalk, hreach⟩ := ih (s j).rootPathCost.toNat (by omega) j rfl
        refine ⟨k, (hq.agree hg hp hj.1 hlan).trans hk, ?_, ?_⟩
        · rw [← h, hcost]
          exact hwalk.hop hp hj.1 hlan
        · have hup := hp.adj (.inl hno)
          rw [hlan] at hup
          exact hup.reachable.trans ((hj.1.adj (.inr hj.2)).symm.reachable.trans hreach)

theorem cost_le_hop (hp : N.Active s i p)
    (hj : N.Active s j q) (hlan : N.lan i p = N.lan j q) :
    (s i).rootPathCost.toNat ≤ (s j).rootPathCost.toNat + (N.cost i p).toNat := by
  obtain ⟨d, r, hd, hlan'⟩ := hq.exists_designated hp
  have hle := (hq.designated_le hg hj hd (hlan.symm.trans hlan')).2
  have hrec := hq.records hg hp hd hlan'
  have hgi := hg i
  have he := hp.elected hgi
  have hmem : p ∈ (s i).portList := hgi.wired.ports ▸ hp.1
  by_cases hdes : brIsDesignatedPort (s i) p
  · have hown := he.own hdes
    rw [hrec.cost] at hown
    rw [← hown]
    omega
  · cases hgi.stable.root with
    | own hnone hport hroot hcost =>
        rw [hcost]
        exact Nat.zero_le _
    | port r' hr' hcand hbest hport hroot hcost =>
        -- the port is a candidate for the same root
        have hbetter : ((s i).port p).designatedRoot < (s i).bridgeId := by
          rw [he.root, hroot]
          exact hcand.better
        have hvec := hbest p hmem ⟨hp.2, hdes, hbetter⟩
        rw [NetBridgePort.rootVector, NetBridgePort.rootVector, toLex_le, toLex_le, he.root, hroot] at hvec
        have hbound := hgi.tended.costs.bounded p hmem hp.2 hdes
        have hpath : ((s i).port p).cost.toNat = (s d).rootPathCost.toNat + (N.cost i p).toNat := by
          rw [cost_toNat hbound, hrec.cost, hgi.wired.cost]
        rcases hvec with h | ⟨-, h⟩
        · exact absurd h (lt_irrefl _)
        · rw [← hcost] at h
          omega

theorem walk_le {k : B} {c : ℕ}
    (h : N.ActiveWalk s k i c) :
    (s i).designatedRoot = (s k).designatedRoot ∧
      ((s k).designatedRoot = N.id k → (s i).rootPathCost.toNat ≤ c) := by
  induction h with
  | start =>
      refine ⟨rfl, fun hk => ?_⟩
      have hroot : brIsRootBridge (s k) := by rw [brIsRootBridge, hk, (hg k).wired.id, decide_eq_true rfl]
      have h0 := ((hg k).tended.led.brIsRootBridge_iff (hg k).tended.sane.root).mp hroot
      rw [(hg k).tended.sane.root.cost h0]
      exact Nat.zero_le _
  | hop h hp hj hlan ih =>
      refine ⟨(hq.agree hg hp hj hlan).trans ih.1, fun hk => ?_⟩
      have hle := ih.2 hk
      have hhop := hq.cost_le_hop hg hp hj hlan
      omega

theorem rank_lan (hj : N.Designated s j q) :
    N.rank s (.inr (N.lan j q)) = 2 * (s j).rootPathCost.toNat + 1 := by
  have h : ∃ j' q', N.Designated s j' q' ∧ N.lan j' q' = N.lan j q := ⟨j, q, hj, rfl⟩
  obtain ⟨q', hq', hlan⟩ := h.choose_spec
  have hsame := (hq.designated_unique hg hq' hj hlan).1
  rw [Net.rank, dif_pos h, hsame]

theorem rank_lt (x y : B ⊕ L) (h : N.Parent s x y) :
    N.rank s y < N.rank s x := by
  cases x with
  | inl i =>
      cases y with
      | inl j => exact h.elim
      | inr l =>
          obtain ⟨p, hp, hno, rfl⟩ := h
          obtain ⟨j, q, hj, hlan, hcost, hpos⟩ := hq.root_port_at hg hp hno
          rw [hlan, hq.rank_lan hg hj, Net.rank]
          omega
  | inr l =>
      cases y with
      | inl j =>
          obtain ⟨q, hj, rfl⟩ := h
          rw [hq.rank_lan hg hj, Net.rank]
          omega
      | inr m => exact h.elim

theorem parent_unique (x y z : B ⊕ L)
    (hy : N.Parent s x y) (hz : N.Parent s x z) : y = z := by
  cases x with
  | inl i =>
      cases y with
      | inl j => exact hy.elim
      | inr l =>
          cases z with
          | inl j => exact hz.elim
          | inr m =>
              obtain ⟨p, hp, hno, rfl⟩ := hy
              obtain ⟨p', hp', hno', rfl⟩ := hz
              rw [hp.eq_of_portNo (hg i) hp' (hno.trans hno'.symm)]
  | inr l =>
      cases y with
      | inr m => exact hy.elim
      | inl j =>
          cases z with
          | inr m => exact hz.elim
          | inl k =>
              obtain ⟨q, hj, rfl⟩ := hy
              obtain ⟨r, hk, hlan⟩ := hz
              rw [(hq.designated_unique hg hj hk hlan.symm).1]

theorem reachable {x y : B ⊕ L}
    (h : (N.activeGraph s).Reachable x y) : (N.roleGraph s).Reachable x y := by
  have hlan (i : B) (l : L) (h : N.ActiveEdge s (.inl i) (.inr l)) : (N.roleGraph s).Reachable (.inl i) (.inr l) := by
    obtain ⟨p, hp, rfl⟩ := h
    obtain ⟨j, q, hj, hlan⟩ := hq.exists_designated hp
    obtain ⟨k, hk, -, hik⟩ := hq.exists_walk hg i
    obtain ⟨m, hm, -, hjm⟩ := hq.exists_walk hg j
    have hkm : k = m := N.id_injective (hk.symm.trans ((hq.agree hg hp hj.1 hlan).trans hm))
    subst hkm
    rw [hlan]
    exact hik.trans (hjm.symm.trans (hj.1.adj (.inr hj.2)).reachable)
  have hedge (x y : B ⊕ L) (h : N.ActiveEdge s x y) : (N.roleGraph s).Reachable x y := by
    cases x with
    | inl i =>
        cases y with
        | inl j => exact h.elim
        | inr l => exact hlan i l h
    | inr l => exact h.elim
  obtain ⟨w⟩ := h
  induction w with
  | nil => exact .refl _
  | cons hadj _ ih =>
      rcases ((SimpleGraph.fromRel_adj _ _ _).mp hadj).2 with h | h
      · exact (hedge _ _ h).trans ih
      · exact (hedge _ _ h).symm.trans ih

theorem role_unique (hp : N.Active s i p)
    (hp' : N.Active s i q) (hrole : HasRole (s i) p) (hrole' : HasRole (s i) q) (hlan : N.lan i p = N.lan i q) : p = q := by
  -- a root port is not on a LAN for which its own bridge is designated
  have hmixed {p q : P} (hp : N.Active s i p) (hq' : N.Designated s i q) (hno : ((s i).port p).portNo = (s i).rootPort)
      (hlan : N.lan i p = N.lan i q) : False := by
    obtain ⟨j, r, hj, hlan', hcost, hpos⟩ := hq.root_port_at hg hp hno
    have hij := (hq.designated_unique hg hq' hj (hlan.symm.trans hlan')).1
    subst hij
    omega
  rcases hrole with hroot | hdes
  · rcases hrole' with hroot' | hdes'
    · exact hp.eq_of_portNo (hg i) hp' (hroot.trans hroot'.symm)
    · exact (hmixed hp ⟨hp', hdes'⟩ hroot hlan).elim
  · rcases hrole' with hroot' | hdes'
    · exact (hmixed hp' ⟨hp, hdes⟩ hroot' hlan.symm).elim
    · exact (hq.designated_unique hg ⟨hp, hdes⟩ ⟨hp', hdes'⟩ hlan).2

end Net.Quiescent

end

section

variable {B P L : Type} [DecidableEq B] [DecidableEq P] {N : Net B P L} {s : B → NetBridge P}

/-- In a network at rest every bridge takes the lowest id that it is connected
to for the root, and its cost is that of the shortest way from there. -/
theorem quiescent_shortest_paths (h : Transition.Reach N.Start N.Step s) (hq : N.Quiescent s) (i : B) :
    ∃ k, (s i).designatedRoot = N.id k ∧ N.ActiveWalk s k i (s i).rootPathCost.toNat ∧
      (∀ c, N.ActiveWalk s k i c → (s i).rootPathCost.toNat ≤ c) ∧
      ∀ j c, N.ActiveWalk s j i c → N.id k ≤ N.id j := by
  have hg (i : B) := (good_of_reach h i).1
  obtain ⟨k, hk, hwalk, -⟩ := hq.exists_walk hg i
  refine ⟨k, hk, hwalk, fun c hc => ?_, fun j c hc => ?_⟩
  · obtain ⟨hsame, hle⟩ := hq.walk_le hg hc
    exact hle (hsame.symm.trans hk)
  · rw [← hk, (hq.walk_le hg hc).1, ← (hg j).wired.id]
    exact (hg j).tended.root_le

/-- In a network at rest the ports that may forward make a spanning tree of the
LANs and bridges: they join all that is connected, without a cycle, and every
LAN has one designated port. No port outside the tree gets past blocking. -/
theorem quiescent_spanning_tree (h : Transition.Reach N.Start N.Step s) (hq : N.Quiescent s) :
    (N.roleGraph s).IsAcyclic ∧
      (∀ x y, (N.roleGraph s).Reachable x y ↔ (N.activeGraph s).Reachable x y) ∧
      (∀ i p, N.Active s i p → ∃! d : B × P, N.Designated s d.1 d.2 ∧ N.lan i p = N.lan d.1 d.2) ∧
      (∀ i p q, N.Active s i p → N.Active s i q → HasRole (s i) p → HasRole (s i) q → N.lan i p = N.lan i q → p = q) ∧
      ∀ i p, N.Active s i p → ((s i).port p).state ≠ .blocking → HasRole (s i) p := by
  have hg (i : B) := (good_of_reach h i).1
  refine ⟨?_, fun x y => ⟨fun hr => hr.mono Net.roleGraph_le, hq.reachable hg⟩, fun i p hp => ?_,
    fun i p q hp hp' => hq.role_unique hg hp hp', fun i p hp hblocking => ?_⟩
  · rw [Net.roleGraph_eq]
    exact ParentGraph.isAcyclic (hq.rank_lt hg) (hq.parent_unique hg)
  · obtain ⟨j, q, hj, hlan⟩ := hq.exists_designated hp
    refine ⟨(j, q), ⟨hj, hlan⟩, fun d hd => ?_⟩
    obtain ⟨hdj, hdq⟩ := hq.designated_unique hg hd.1 hj (hd.2.symm.trans hlan)
    exact Prod.ext hdj hdq
  · exact (hg i).tended.sane.hasRole ((hg i).wired.ports ▸ hp.1) hp.2 hblocking

end

theorem pairSettled_quiescent : pairNet.Quiescent pairSettled where
  heard := by
    rintro i ⟨⟩ j ⟨⟩ _ hj _ hne _
    cases i with
    | false =>
        cases j with
        | false => exact absurd ⟨rfl, rfl⟩ hne
        | true => exact absurd hj.2 (by decide)
    | true =>
        cases j with
        | false => exact ⟨by decide, by decide, by decide, by decide⟩
        | true => exact absurd ⟨rfl, rfl⟩ hne
  current := by
    rintro i ⟨⟩ _ hdes
    cases i with
    | false => exact absurd (by decide) hdes
    | true => exact ⟨false, (), ⟨⟨by decide, by decide⟩, by decide⟩, rfl, ⟨by decide, by decide, by decide, by decide⟩⟩

theorem pairSettled_shortest_paths :
    ∃ k, (pairSettled true).designatedRoot = pairNet.id k ∧ pairNet.ActiveWalk pairSettled k true 100 ∧
      ∀ c, pairNet.ActiveWalk pairSettled k true c → 100 ≤ c := by
  obtain ⟨k, hk, hwalk, hle, -⟩ := quiescent_shortest_paths pairSettled_reached pairSettled_quiescent true
  have hcost : (pairSettled true).rootPathCost.toNat = 100 := by decide
  rw [hcost] at hwalk hle
  exact ⟨k, hk, hwalk, hle⟩

theorem pairSettled_spanning_tree :
    (pairNet.roleGraph pairSettled).IsAcyclic ∧ (pairNet.roleGraph pairSettled).Reachable (.inl false) (.inl true) := by
  have htree := quiescent_spanning_tree pairSettled_reached pairSettled_quiescent
  have hedge (i : Bool) (h : ((pairSettled i).port ()).state ≠ .disabled) :
      (pairNet.activeGraph pairSettled).Adj (.inl i) (.inr ()) :=
    (SimpleGraph.fromRel_adj _ _ _).mpr ⟨Sum.inl_ne_inr, .inl ⟨(), ⟨by cases i <;> decide, h⟩, rfl⟩⟩
  refine ⟨htree.1, (htree.2.1 _ _).mpr ?_⟩
  exact (hedge false (by decide)).reachable.trans (hedge true (by decide)).symm.reachable

end AliceModem.Stp
