import AliceModem.Bridge.StpOutput
import Mathlib.Data.List.Induction
import Mathlib.Data.Prod.Lex

namespace AliceModem.Stp

open Bpdu Disposal

section

variable {α β : Type} [LinearOrder α] [LinearOrder β] {a b : α}

theorem then_lt {o : Ordering} : (compare a b).then o = .lt ↔ a < b ∨ a = b ∧ o = .lt := by
  rw [Ordering.then_eq_lt, compare_lt_iff_lt, compare_eq_iff_eq]

theorem toLex_lt {c d : β} : toLex (a, c) < toLex (b, d) ↔ a < b ∨ a = b ∧ c < d := Prod.Lex.lt_iff

end

/-- What the ports are compared by when one of them is to be the root port. -/
abbrev RootVector := BridgeId ×ₗ ℕ ×ₗ BridgeId ×ₗ ℕ ×ₗ ℕ

def NetBridgePort.rootVector (q : NetBridgePort) : RootVector :=
  toLex (q.designatedRoot, toLex (q.cost.toNat, toLex (q.designatedBridge, toLex (q.designatedPort.toNat, q.portId.toNat))))

section

variable {P : Type} {a b br : NetBridge P} {p q : P}

structure Numbered (br : NetBridge P) : Prop where
  nodup : br.portList.Nodup
  nonzero : ∀ p ∈ br.portList, (br.port p).portNo ≠ 0
  inj : ∀ p ∈ br.portList, ∀ q ∈ br.portList, (br.port p).portNo = (br.port q).portNo → p = q

theorem Numbered.brGetPort_eq (hn : Numbered br) (hp : p ∈ br.portList) : brGetPort br (br.port p).portNo = some p := by
  have hfound : (brGetPort br (br.port p).portNo).isSome := List.find?_isSome.mpr ⟨p, hp, by simp⟩
  obtain ⟨q, hq⟩ := Option.isSome_iff_exists.mp hfound
  have hno : (br.port q).portNo = (br.port p).portNo := by simpa using List.find?_some hq
  rw [hq, hn.inj q (List.mem_of_find?_eq_some hq) p hp hno]

theorem Numbered.of_eq (hn : Numbered a) (hlist : b.portList = a.portList)
    (hno : ∀ p, (b.port p).portNo = (a.port p).portNo) : Numbered b := by
  refine ⟨hlist ▸ hn.nodup, fun p hp => hno p ▸ hn.nonzero p (hlist ▸ hp), fun p hp q hq heq => ?_⟩
  rw [hno, hno] at heq
  exact hn.inj p (hlist ▸ hp) q (hlist ▸ hq) heq

structure Candidate (br : NetBridge P) (p : P) : Prop where
  enabled : (br.port p).state ≠ .disabled
  undesignated : ¬ brIsDesignatedPort br p
  better : (br.port p).designatedRoot < br.bridgeId

theorem brShouldBecomeRootPort_zero (br : NetBridge P) (p : P) :
    ∃ d : Bool, brShouldBecomeRootPort br p 0 = some d ∧ (d ↔ Candidate br p) := by
  rw [brShouldBecomeRootPort]
  split
  next hno => exact ⟨false, rfl, iff_of_false Bool.false_ne_true fun h => hno.elim h.enabled h.undesignated⟩
  next hyes =>
      obtain ⟨henabled, hundes⟩ := not_or.mp hyes
      split
      next hworse => exact ⟨false, rfl, iff_of_false Bool.false_ne_true fun h => not_le.mpr h.better hworse⟩
      next hbetter => exact ⟨true, rfl, iff_of_true rfl ⟨henabled, hundes, not_le.mp hbetter⟩⟩

theorem brShouldBecomeRootPort_of_mem (hn : Numbered br) (p : P) (hq : q ∈ br.portList) :
    ∃ d : Bool, brShouldBecomeRootPort br p (br.port q).portNo = some d ∧
      (d ↔ Candidate br p ∧ (br.port p).rootVector < (br.port q).rootVector) := by
  rw [brShouldBecomeRootPort]
  split
  next hno => exact ⟨false, rfl, iff_of_false Bool.false_ne_true fun h => hno.elim h.1.enabled h.1.undesignated⟩
  next hyes =>
      obtain ⟨henabled, hundes⟩ := not_or.mp hyes
      split
      next hworse => exact ⟨false, rfl, iff_of_false Bool.false_ne_true fun h => not_le.mpr h.1.better hworse⟩
      next hbetter =>
          have hc : Candidate br p := ⟨henabled, hundes, not_le.mp hbetter⟩
          rw [if_neg (hn.nonzero q hq), hn.brGetPort_eq hq]
          refine ⟨_, rfl, ?_⟩
          simp only [decide_eq_true_eq, then_lt, compare_lt_iff_lt, hc, true_and, NetBridgePort.rootVector, toLex_lt]

/-- The number `r` is that of the best candidate among the ports, or zero. -/
def Chosen (br : NetBridge P) (ps : List P) (r : UInt16) : Prop :=
  (r = 0 ∧ ∀ p ∈ ps, ¬ Candidate br p) ∨
    ∃ p ∈ ps, Candidate br p ∧ r = (br.port p).portNo ∧
      ∀ q ∈ ps, Candidate br q → (br.port p).rootVector ≤ (br.port q).rootVector

theorem Chosen.round (hn : Numbered br) {ps : List P} (hps : ∀ p ∈ ps, p ∈ br.portList) {r : UInt16}
    (h : Chosen br ps r) (p : P) :
    ∃ d : Bool, brShouldBecomeRootPort br p r = some d ∧
      Chosen br (ps ++ [p]) (if d then (br.port p).portNo else r) := by
  rcases h with ⟨rfl, hnone⟩ | ⟨c, hc, hcand, rfl, hbest⟩
  · obtain ⟨d, hd, hiff⟩ := brShouldBecomeRootPort_zero br p
    refine ⟨d, hd, ?_⟩
    cases d with
    | false =>
        refine .inl ⟨rfl, fun q hq => ?_⟩
        rcases List.mem_append.mp hq with hq | hq
        · exact hnone q hq
        · rw [List.mem_singleton.mp hq]
          exact fun hcand => Bool.false_ne_true (hiff.mpr hcand)
    | true =>
        refine .inr ⟨p, List.mem_append_right _ List.mem_cons_self, hiff.mp rfl, rfl, fun q hq hcand => ?_⟩
        rcases List.mem_append.mp hq with hq | hq
        · exact absurd hcand (hnone q hq)
        · rw [List.mem_singleton.mp hq]
  · obtain ⟨d, hd, hiff⟩ := brShouldBecomeRootPort_of_mem hn p (hps c hc)
    refine ⟨d, hd, ?_⟩
    cases d with
    | false =>
        refine .inr ⟨c, List.mem_append_left _ hc, hcand, rfl, fun q hq hq' => ?_⟩
        rcases List.mem_append.mp hq with hq | hq
        · exact hbest q hq hq'
        · rw [List.mem_singleton.mp hq] at hq' ⊢
          exact not_lt.mp fun hlt => Bool.false_ne_true (hiff.mpr ⟨hq', hlt⟩)
    | true =>
        obtain ⟨hp, hlt⟩ := hiff.mp rfl
        refine .inr ⟨p, List.mem_append_right _ List.mem_cons_self, hp, rfl, fun q hq hq' => ?_⟩
        rcases List.mem_append.mp hq with hq | hq
        · exact hlt.le.trans (hbest q hq hq')
        · rw [List.mem_singleton.mp hq]

theorem chosen_foldlM (hn : Numbered br) (ps : List P) (hps : ∀ p ∈ ps, p ∈ br.portList) :
    ∃ r, ps.foldlM (fun rootPort p => do
        let better ← brShouldBecomeRootPort br p rootPort
        some (if better then (br.port p).portNo else rootPort)) 0 = some r ∧ Chosen br ps r := by
  induction ps using List.reverseRecOn with
  | nil => exact ⟨0, rfl, .inl ⟨rfl, fun _ hp => absurd hp List.not_mem_nil⟩⟩
  | append_singleton ps p ih =>
      have hps' : ∀ q ∈ ps, q ∈ br.portList := fun q hq => hps q (List.mem_append_left _ hq)
      obtain ⟨r, hr, hchosen⟩ := ih hps'
      obtain ⟨d, hd, hround⟩ := hchosen.round hn hps' p
      refine ⟨_, ?_, hround⟩
      rw [List.foldlM_append, hr]
      simp [hd]

inductive RootFrom (a b : NetBridge P) : Prop
  | own (hnone : ∀ p ∈ a.portList, ¬ Candidate a p) (hport : b.rootPort = 0) (hroot : b.designatedRoot = a.bridgeId)
      (hcost : b.rootPathCost = 0)
  | port (p : P) (hp : p ∈ a.portList) (hcand : Candidate a p)
      (hbest : ∀ q ∈ a.portList, Candidate a q → (a.port p).rootVector ≤ (a.port q).rootVector)
      (hport : b.rootPort = (a.port p).portNo) (hroot : b.designatedRoot = (a.port p).designatedRoot)
      (hcost : b.rootPathCost = (a.port p).cost)

theorem brRootSelection_spec (hn : Numbered br) :
    ∃ b, brRootSelection br = some b ∧ RootFrom br b ∧
      b = { br with rootPort := b.rootPort, designatedRoot := b.designatedRoot, rootPathCost := b.rootPathCost } := by
  obtain ⟨r, hr, hchosen⟩ := chosen_foldlM hn br.portList fun _ hp => hp
  rw [brRootSelection, hr, Option.bind_eq_bind, Option.bind_some]
  rcases hchosen with ⟨rfl, hnone⟩ | ⟨p, hp, hcand, rfl, hbest⟩
  · exact ⟨_, rfl, .own hnone rfl rfl rfl, rfl⟩
  · rw [if_neg (hn.nonzero p hp), hn.brGetPort_eq hp]
    exact ⟨_, rfl, .port p hp hcand hbest rfl rfl rfl, rfl⟩

theorem brShouldBecomeDesignatedPort_iff :
    brShouldBecomeDesignatedPort br p ↔
      ((br.port p).designatedBridge = br.bridgeId ∧ (br.port p).designatedPort = (br.port p).portId) ∨
        (br.port p).designatedRoot ≠ br.designatedRoot ∨
        ((compare br.rootPathCost.toNat (br.port p).designatedCost.toNat).then <|
          (compare br.bridgeId (br.port p).designatedBridge).then <|
          compare (br.port p).portId.toNat (br.port p).designatedPort.toNat) = .lt := by
  rw [brShouldBecomeDesignatedPort, brIsDesignatedPort]
  split
  next hdes => exact iff_of_true rfl (.inl (by simpa using hdes))
  next hdes =>
      split
      next hroot => exact iff_of_true rfl (.inr (.inl hroot))
      next hroot =>
          simp only [decide_eq_true_eq] at hdes ⊢
          rw [or_iff_right hdes, or_iff_right hroot]

end

def elect (root : BridgeId) (cost : UInt32) (self : BridgeId) (q : NetBridgePort) : NetBridgePort :=
  if q.state ≠ .disabled ∧ ((q.designatedBridge = self ∧ q.designatedPort = q.portId) ∨ q.designatedRoot ≠ root ∨
      ((compare cost.toNat q.designatedCost.toNat).then <| (compare self q.designatedBridge).then <|
        compare q.portId.toNat q.designatedPort.toNat) = .lt) then
    { q with designatedRoot := root, designatedCost := cost, designatedBridge := self, designatedPort := q.portId }
  else q

section

variable (root : BridgeId) (cost : UInt32) (self : BridgeId) (q : NetBridgePort)

theorem elect_cases : elect root cost self q = q ∨
    elect root cost self q =
      { q with designatedRoot := root, designatedCost := cost, designatedBridge := self, designatedPort := q.portId } := by
  rw [elect]
  split
  · exact .inr rfl
  · exact .inl rfl

end

section

variable {P : Type} [DecidableEq P] {a b br : NetBridge P} {p q : P}

theorem foldl_ports {round : NetBridge P → P → NetBridge P} {g : NetBridgePort → NetBridgePort}
    {K : NetBridge P → Prop} (hround : ∀ b p, K b → round b p = setPort b p g) (hK : ∀ b p, K b → K (setPort b p g))
    {ps : List P} (hps : ps.Nodup) {br : NetBridge P} (hbr : K br) :
    ps.foldl round br = { br with port := fun p => if p ∈ ps then g (br.port p) else br.port p } := by
  induction ps generalizing br with
  | nil => simp
  | cons p ps ih =>
      obtain ⟨hp, hps⟩ := List.nodup_cons.mp hps
      rw [List.foldl_cons, hround br p hbr, ih hps (hK br p hbr), setPort]
      congr 1
      funext q
      by_cases hq : q = p
      · subst hq
        simp [hp]
      · simp [hq]

theorem setPort_of_eq {f : NetBridgePort → NetBridgePort} (h : f (br.port p) = br.port p) : setPort br p f = br := by
  rw [setPort, h, Function.update_eq_self]

theorem setPort_congr {f g : NetBridgePort → NetBridgePort} (h : f (br.port p) = g (br.port p)) :
    setPort br p f = setPort br p g := by
  rw [setPort, setPort, h]

theorem brDesignatedPortSelection_eq (hnd : br.portList.Nodup) :
    brDesignatedPortSelection br = { br with
      port := fun p => if p ∈ br.portList then elect br.designatedRoot br.rootPathCost br.bridgeId (br.port p)
        else br.port p } := by
  refine foldl_ports (K := fun b => b.designatedRoot = br.designatedRoot ∧ b.rootPathCost = br.rootPathCost ∧
    b.bridgeId = br.bridgeId) (fun b p hb => ?_) (fun b p hb => hb) hnd ⟨rfl, rfl, rfl⟩
  obtain ⟨hroot, hcost, hid⟩ := hb
  rw [← hroot, ← hcost, ← hid]
  split
  next hyes => exact setPort_congr (if_pos ⟨hyes.1, brShouldBecomeDesignatedPort_iff.mp hyes.2⟩).symm
  next hno =>
      exact (setPort_of_eq (if_neg fun h => hno ⟨h.1, brShouldBecomeDesignatedPort_iff.mpr h.2⟩)).symm

/-- The configuration `b` that a bridge arrives at from `a`. -/
structure Updated (a b : NetBridge P) : Prop where
  root : RootFrom a b
  port : ∀ p, b.port p = if p ∈ a.portList then elect b.designatedRoot b.rootPathCost a.bridgeId (a.port p) else a.port p
  rest : b = { a with
    port := b.port, rootPort := b.rootPort, designatedRoot := b.designatedRoot, rootPathCost := b.rootPathCost }

theorem brConfigurationUpdate_spec (hn : Numbered br) : ∃ b, brConfigurationUpdate br = some b ∧ Updated br b := by
  obtain ⟨c, hc, hroot, hrest⟩ := brRootSelection_spec hn
  have hlist : c.portList = br.portList := by rw [hrest]
  have hport : c.port = br.port := by rw [hrest]
  have hid : c.bridgeId = br.bridgeId := by rw [hrest]
  have hnd : c.portList.Nodup := hlist ▸ hn.nodup
  have heq := brDesignatedPortSelection_eq hnd
  rw [hlist, hport, hid] at heq
  refine ⟨brDesignatedPortSelection c, by rw [brConfigurationUpdate, hc]; rfl, ?_⟩
  rw [heq]
  refine ⟨?_, fun p => rfl, ?_⟩
  · cases hroot with
    | own hnone hrp hr hcost => exact .own hnone hrp hr hcost
    | port p hp hcand hbest hrp hr hcost => exact .port p hp hcand hbest hrp hr hcost
  · conv_lhs => rw [hrest]

namespace Updated

theorem portList (h : Updated a b) : b.portList = a.portList := by rw [h.rest]

theorem bridgeId (h : Updated a b) : b.bridgeId = a.bridgeId := by rw [h.rest]

theorem up (h : Updated a b) : b.up = a.up := by rw [h.rest]

theorem sent (h : Updated a b) : b.sent = a.sent := by rw [h.rest]

theorem tcnTimer (h : Updated a b) : b.tcnTimer = a.tcnTimer := by rw [h.rest]

theorem field {α : Type} (h : Updated a b) (g : NetBridgePort → α)
    (hg : ∀ root cost self q, g { q with
      designatedRoot := root, designatedCost := cost, designatedBridge := self, designatedPort := q.portId } = g q) (p : P) :
    g (b.port p) = g (a.port p) := by
  rw [h.port]
  split
  · rcases elect_cases b.designatedRoot b.rootPathCost a.bridgeId (a.port p) with heq | heq
    · rw [heq]
    · rw [heq, hg]
  · rfl

theorem state (h : Updated a b) : ∀ p, (b.port p).state = (a.port p).state := h.field (·.state) fun _ _ _ _ => rfl

theorem priority (h : Updated a b) : ∀ p, (b.port p).priority = (a.port p).priority :=
  h.field (·.priority) fun _ _ _ _ => rfl

theorem portNo (h : Updated a b) : ∀ p, (b.port p).portNo = (a.port p).portNo := h.field (·.portNo) fun _ _ _ _ => rfl

theorem portId (h : Updated a b) : ∀ p, (b.port p).portId = (a.port p).portId := h.field (·.portId) fun _ _ _ _ => rfl

theorem pathCost (h : Updated a b) : ∀ p, (b.port p).pathCost = (a.port p).pathCost :=
  h.field (·.pathCost) fun _ _ _ _ => rfl

theorem numbered (h : Updated a b) (hn : Numbered a) : Numbered b := hn.of_eq h.portList h.portNo

end Updated

end

end AliceModem.Stp
