import AliceModem.Xtm.TransmitBuffers

namespace AliceModem.TransmitRing

open RingBuffer Dma Transmit TransmitBuffers Transition

/-- A ring of `n` descriptors as the driver means it to be. -/
structure Consistent (n : Nat) (q : TxQInfo) : Prop where
  free_le : q.ulFreeBds ≤ n
  tail_eq : q.ulTail = (q.ulHead + n - q.ulFreeBds) % n
  packets : ∀ i < n, q.ppSkbs i ≠ none ↔ ∃ k < n - q.ulFreeBds, (q.ulHead + k) % n = i
  owned : ∀ i < n, (q.pBds i).status.own = true → q.ppSkbs i ≠ none
  wrap : ∀ i < n, (q.pBds i).status.wrap = true ↔ i = n - 1

/-- Packets are passed to the driver, and the DMA engine works through a ring in
order. -/
def Working (s : Sys) : Event → Prop
  | .xmit _ => True
  | .complete i bd => (s.dev.txQInfos i).Next bd
  | .linkUp _ _ | .linkDown => False

def Rings (lsc : LinkStatusChange) (s : Sys) : Prop :=
  s.oops = false ∧ ∀ (i : Fin maxTransmitQueues) (id : TransmitQueueId), lsc.transmitQueueIds[i.val]? = some id →
    Consistent id.ulQueueSize (s.dev.txQInfos i)

def Spares (lsc : LinkStatusChange) (s : Sys) : Event → Prop
  | .xmit skb => ∀ (i : Fin maxTransmitQueues) (id : TransmitQueueId), lsc.transmitQueueIds[i.val]? = some id →
      ∀ bd < id.ulQueueSize, ((s.dev.txQInfos i).pBds bd).status.own = true →
        ((step s (.xmit skb)).dev.txQInfos i).pBds bd = (s.dev.txQInfos i).pBds bd
  | _ => True

section Queue

structure Ring (n : Nat) (q : TxQInfo) : Prop where
  ok : Ok q
  size : q.ulQueueSize = n
  owned : ∀ i < n, (q.pBds i).status.own = true → q.ppSkbs i ≠ none

variable {n k : Nat} {q : TxQInfo}

theorem Ring.consistent (h : Ring n q) (hn : 1 ≤ n) : Consistent n q := by
  obtain ⟨hok, rfl, howned⟩ := h
  have hhead := hok.head_lt hn
  have hfree := hok.free_le
  refine ⟨hfree, ?_, fun i hi => ?_, howned, fun i hi => ?_⟩
  · rw [hok.tail_eq hn, place_eq_mod hhead (by omega), Nat.add_sub_assoc hfree]
  · rw [hok.used i hi]
    refine exists_congr fun k => and_congr_right fun hk => ?_
    rw [place_eq_mod hhead (by omega)]
  · rw [hok.wraps i hi, decide_eq_true_eq]
    omega

theorem Ring.freeHead (h : Ring n q) (hfree : q.ulFreeBds < q.ulQueueSize)
    (hown : (q.pBds q.ulHead).status.own = false) : Ring n q.freeHead := by
  refine ⟨h.ok.freeHead hfree, h.size, fun i hi howned => ?_⟩
  by_cases hi' : i = q.ulHead
  · subst hi'
    exact absurd (hown.symm.trans howned) Bool.false_ne_true
  · rw [freeHead_ppSkbs, Function.update_of_ne hi']
    exact h.owned i hi howned

theorem Ring.freeLoop (h : Ring n q) (hk : k = q.ulQueueSize - q.ulFreeBds) : Ring n (q.freeLoop k).1 := by
  induction k generalizing q with
  | zero => exact h
  | succ k ih =>
      rw [TxQInfo.freeLoop]
      split
      case isTrue => exact h
      case isFalse hown =>
        refine ih (h.freeHead (by omega) (Bool.eq_false_iff.mpr hown)) ?_
        change k = q.ulQueueSize - (q.ulFreeBds + 1)
        omega

theorem freeLoop_pBds (k : Nat) (q : TxQInfo) : (q.freeLoop k).1.pBds = q.pBds := by
  induction k generalizing q with
  | zero => rfl
  | succ k ih =>
      rw [TxQInfo.freeLoop]
      split
      · rfl
      · exact ih q.freeHead

theorem Ring.enqueue (h : Ring n q) (hfree : q.ulFreeBds ≠ 0) (d : DevCtx) (skb : Skb) : Ring n (q.enqueue d skb) := by
  refine ⟨h.ok.enqueue hfree d skb, h.size, fun i hi howned => ?_⟩
  change Function.update q.ppSkbs q.ulTail (some skb.id) i ≠ none
  by_cases hi' : i = q.ulTail
  · rw [hi', Function.update_self]
    exact Option.some_ne_none _
  · have hold : ((Function.update q.pBds q.ulTail _ : Nat → DmaDesc) i).status.own = true := howned
    rw [Function.update_of_ne hi'] at hold ⊢
    exact h.owned i hi hold

theorem Ring.enqueue_spares (h : Ring n q) (hfree : q.ulFreeBds ≠ 0) (d : DevCtx) (skb : Skb) {bd : Nat} (hbd : bd < n)
    (hown : (q.pBds bd).status.own = true) : (q.enqueue d skb).pBds bd = q.pBds bd := by
  refine Function.update_of_ne (fun htail => h.owned bd hbd hown ?_) _ _
  rw [htail]
  exact h.ok.tail_none hfree

theorem Ring.complete (h : Ring n q) (i : Nat) : Ring n (q.complete i) := by
  refine ⟨h.ok.complete i, h.size, fun j hj howned => h.owned j hj ?_⟩
  by_cases hji : j = i
  · subst hji
    have hdone : ((Function.update q.pBds j (q.pBds j).done : Nat → DmaDesc) j).status.own = true := howned
    rw [Function.update_self] at hdone
    exact absurd hdone Bool.false_ne_true
  · have hold : ((Function.update q.pBds i (q.pBds i).done : Nat → DmaDesc) j).status.own = true := howned
    rwa [Function.update_of_ne hji] at hold

end Queue

section Step

variable {s : Sys} {n : Nat} {i : Fin maxTransmitQueues}

theorem freeTransmitted_ring (h : Ring n (s.dev.txQInfos i)) : Ring n (s.freeTransmitted.dev.txQInfos i) := by
  rw [Sys.freeTransmitted]
  dsimp only
  split
  · exact h.freeLoop rfl
  · exact h

theorem freeTransmitted_pBds (s : Sys) (i : Fin maxTransmitQueues) :
    (s.freeTransmitted.dev.txQInfos i).pBds = (s.dev.txQInfos i).pBds := by
  rw [Sys.freeTransmitted]
  dsimp only
  split
  · exact freeLoop_pBds ..
  · rfl

theorem xmit_cases (s : Sys) (skb : Option Skb) (i : Fin maxTransmitQueues) :
    (s.bcmxtmrtXmit skb).dev.txQInfos i = s.freeTransmitted.dev.txQInfos i ∨
      ∃ d skb', (s.freeTransmitted.dev.txQInfos i).ulFreeBds ≠ 0 ∧
        (s.bcmxtmrtXmit skb).dev.txQInfos i = (s.freeTransmitted.dev.txQInfos i).enqueue d skb' := by
  cases skb with
  | none => exact .inl rfl
  | some skb =>
      rw [Sys.bcmxtmrtXmit]
      split
      · exact .inl rfl
      · rcases s.freeTransmitted.insertHdr skb with ⟨_ | skb', m⟩
        · exact .inl rfl
        · dsimp only
          rw [Sys.send]
          dsimp only
          split
          case isTrue hfree =>
            by_cases hi : i = chooseQueue s.freeTransmitted.dev skb
            · subst hi
              exact .inr ⟨_, _, hfree, Function.update_self ..⟩
            · exact .inl (Function.update_of_ne hi ..)
          case isFalse => exact .inl rfl

theorem Ring.xmit (h : Ring n (s.dev.txQInfos i)) (skb : Option Skb) : Ring n ((s.bcmxtmrtXmit skb).dev.txQInfos i) := by
  rcases xmit_cases s skb i with heq | ⟨d, skb', hfree, heq⟩
  · rw [heq]
    exact freeTransmitted_ring h
  · rw [heq]
    exact (freeTransmitted_ring h).enqueue hfree d skb'

theorem Ring.xmit_spares (h : Ring n (s.dev.txQInfos i)) (skb : Option Skb) {bd : Nat} (hbd : bd < n)
    (hown : ((s.dev.txQInfos i).pBds bd).status.own = true) :
    ((s.bcmxtmrtXmit skb).dev.txQInfos i).pBds bd = (s.dev.txQInfos i).pBds bd := by
  have hsame := freeTransmitted_pBds s i
  rw [← hsame] at hown ⊢
  rcases xmit_cases s skb i with heq | ⟨d, skb', hfree, heq⟩
  · rw [heq]
  · rw [heq]
    exact (freeTransmitted_ring h).enqueue_spares hfree d skb' hbd hown

def Supplied (m : Memory) : Prop := ∀ a ∈ m.allocs, a ≠ none

theorem Supplied.copy {m : Memory} (h : Supplied m) (skb : Skb) (headroom : Nat) :
    (∃ skb', (m.copy skb headroom).1 = some skb') ∧ Supplied (m.copy skb headroom).2 := by
  have htail : Supplied m.alloc.2 := fun a ha => h a (List.mem_of_mem_tail ha)
  have hhead : m.alloc.1 ≠ none := by
    rw [Memory.alloc]
    cases hallocs : m.allocs with
    | nil => exact Option.some_ne_none 0
    | cons a allocs => exact h a (hallocs ▸ List.mem_cons_self)
  rw [Memory.copy]
  rcases hm : m.alloc with ⟨_ | data, m'⟩
  · rw [hm] at hhead
    exact absurd rfl hhead
  · rw [hm] at htail
    exact ⟨⟨_, rfl⟩, htail⟩

theorem Supplied.makeHeadroom {m : Memory} (h : Supplied m) (skb : Skb) (minheadroom : Nat) :
    (∃ skb', (makeHeadroom m skb minheadroom).1 = some skb') ∧ Supplied (makeHeadroom m skb minheadroom).2 := by
  rw [Transmit.makeHeadroom]
  split
  · exact h.copy skb _
  · exact ⟨⟨skb, rfl⟩, h⟩

theorem Supplied.addRfc2684Hdr {m : Memory} (h : Supplied m) (skb : Skb) (hdrType : HdrType) :
    (∃ skb', (addRfc2684Hdr hdrType m skb).1 = some skb') ∧ Supplied (addRfc2684Hdr hdrType m skb).2 := by
  obtain ⟨⟨skb', hskb'⟩, hm⟩ := h.makeHeadroom skb (hdrLens hdrType)
  rw [Transmit.addRfc2684Hdr]
  rcases hr : Transmit.makeHeadroom m skb (hdrLens hdrType) with ⟨r, m'⟩
  rw [hr] at hskb' hm
  obtain rfl : r = some skb' := hskb'
  dsimp only
  split
  · obtain ⟨⟨skb2, hskb2⟩, hm2⟩ := hm.copy (skbPush skb' (hdrLens hdrType)) 0
    exact ⟨⟨_, by rw [skbCopyExpand, hskb2, Option.map_some]⟩, hm2⟩
  · exact ⟨⟨_, rfl⟩, hm⟩

theorem Supplied.copyOrKeep {m : Memory} (h : Supplied m) (skb : Skb) (len : Nat) :
    Supplied (copyOrKeep m skb len).2 := by
  have hcopy : Supplied (skbCopyExpand m skb).2 := (h.copy skb 0).2
  rw [Transmit.copyOrKeep]
  rcases hr : skbCopyExpand m skb with ⟨_ | skb2, m'⟩
  · rw [hr] at hcopy
    exact hcopy
  · rw [hr] at hcopy
    exact hcopy

theorem Supplied.align {m : Memory} (h : Supplied m) (skb : Skb) : Supplied (align m skb).2 := by
  rw [Transmit.align]
  split
  · exact h.copyOrKeep skb _
  · exact h

theorem Supplied.pad {m : Memory} (h : Supplied m) (skb : Skb) : Supplied (pad m skb).2 := by
  rw [Transmit.pad]
  split
  · exact h.copyOrKeep skb _
  · exact h

theorem Supplied.send {m : Memory} (h : Supplied m) (s : Sys) (i : Fin maxTransmitQueues) (skb : Skb) :
    Supplied (s.send i m skb).mem ∧ (s.send i m skb).oops = s.oops := by
  rw [Sys.send]
  dsimp only
  split
  · exact ⟨(h.align skb).pad _, rfl⟩
  · exact ⟨h.align skb, rfl⟩

theorem Supplied.xmit (h : Supplied s.mem) (skb : Option Skb) :
    Supplied (s.bcmxtmrtXmit skb).mem ∧ (s.bcmxtmrtXmit skb).oops = s.oops := by
  cases skb with
  | none => exact ⟨h, rfl⟩
  | some skb =>
      have hfree : Supplied s.freeTransmitted.mem := h
      have hhdr : (∃ skb', (s.freeTransmitted.insertHdr skb).1 = some skb') ∧
          Supplied (s.freeTransmitted.insertHdr skb).2 := by
        rw [Sys.insertHdr]
        split
        · exact hfree.addRfc2684Hdr skb _
        · exact ⟨⟨skb, rfl⟩, hfree⟩
      rw [Sys.bcmxtmrtXmit]
      split
      · exact ⟨hfree, rfl⟩
      · rcases hr : s.freeTransmitted.insertHdr skb with ⟨_ | skb', m⟩
        · rw [hr] at hhdr
          obtain ⟨skb', hnone⟩ := hhdr.1
          cases hnone
        · rw [hr] at hhdr
          exact hhdr.2.send _ _ _

end Step

theorem step_xmit (s : Sys) (skb : Option Skb) : ∃ m skb', m.allocs = s.mem.allocs ∧
    step s (.xmit skb) = Sys.bcmxtmrtXmit { s with mem := m } skb' := by
  cases skb with
  | none => exact ⟨s.mem, none, rfl, rfl⟩
  | some skb => exact ⟨{ s.mem with fresh := s.mem.fresh + 1 }, some { skb with id := s.mem.fresh }, rfl, rfl⟩

structure Inv (lsc : LinkStatusChange) (s : Sys) : Prop where
  oops : s.oops = false
  memory : Supplied s.mem
  ring : ∀ (i : Fin maxTransmitQueues) (id : TransmitQueueId), lsc.transmitQueueIds[i.val]? = some id →
    Ring id.ulQueueSize (s.dev.txQInfos i)

variable {lsc : LinkStatusChange} {s : Sys}

theorem Inv.linkUp (hvalid : ∀ id ∈ lsc.transmitQueueIds, id.valid = true) (hoops : s.oops = false)
    (hmem : Supplied s.mem) : Inv lsc (s.doLinkUp lsc true) := by
  refine ⟨hoops, hmem, fun i id hid => ?_⟩
  have hqueue : lsc.queueId i = some id := by
    rw [LinkStatusChange.queueId, hid]
    exact if_pos (hvalid id (List.mem_of_getElem? hid))
  have hring : (s.doLinkUp lsc true).dev.txQInfos i = id.queue := by
    rw [Sys.doLinkUp, if_pos rfl]
    dsimp only
    rw [hqueue, Option.map_some, Option.getD_some]
  rw [hring]
  exact ⟨queue_ok id, rfl, fun _ _ howned => absurd howned Bool.false_ne_true⟩

theorem Inv.step (h : Inv lsc s) {e : Event} (he : Working s e) : Inv lsc (step s e) := by
  cases e with
  | xmit skb =>
      obtain ⟨m, skb', hm, heq⟩ := step_xmit s skb
      have hsupplied : Supplied m := fun a ha => h.memory a (hm ▸ ha)
      obtain ⟨hmem, hoops⟩ := Supplied.xmit (s := { s with mem := m }) hsupplied skb'
      rw [heq]
      exact ⟨hoops.trans h.oops, hmem, fun i id hid => Ring.xmit (s := { s with mem := m }) (h.ring i id hid) skb'⟩
  | complete i bd =>
      refine ⟨h.oops, h.memory, fun j id hid => ?_⟩
      change Ring id.ulQueueSize (Function.update s.dev.txQInfos i ((s.dev.txQInfos i).complete bd) j)
      by_cases hj : j = i
      · subst hj
        rw [Function.update_self]
        exact (h.ring j id hid).complete bd
      · rw [Function.update_of_ne hj]
        exact h.ring j id hid
  | linkUp | linkDown => exact he.elim

theorem Inv.rings (h : Inv lsc s) (hsize : ∀ id ∈ lsc.transmitQueueIds, 1 ≤ id.ulQueueSize) : Rings lsc s :=
  ⟨h.oops, fun i id hid => (h.ring i id hid).consistent (hsize id (List.mem_of_getElem? hid))⟩

theorem Inv.spares (h : Inv lsc s) (e : Event) : Spares lsc s e := by
  cases e with
  | xmit skb =>
      intro i id hid bd hbd hown
      obtain ⟨m, skb', -, heq⟩ := step_xmit s skb
      rw [heq]
      exact Ring.xmit_spares (s := { s with mem := m }) (h.ring i id hid) skb' hbd hown
  | complete | linkUp | linkDown => trivial

/-- After a link has gone up, its rings stay consistent whatever is sent and
transmitted, and no descriptor is written that the DMA engine owns. -/
theorem rings_stay_consistent (lsc : LinkStatusChange) (hvalid : ∀ id ∈ lsc.transmitQueueIds, id.valid = true)
    (hsize : ∀ id ∈ lsc.transmitQueueIds, 1 ≤ id.ulQueueSize) {s : Sys} (hoops : s.oops = false)
    (hmem : Supplied s.mem) {es : List Event} (hE : Along step Working (s.doLinkUp lsc true) es) :
    Throughout step (Rings lsc) (s.doLinkUp lsc true) es ∧ Along step (Spares lsc) (s.doLinkUp lsc true) es := by
  have h0 : Inv lsc (s.doLinkUp lsc true) := .linkUp hvalid hoops hmem
  exact ⟨Throughout.of_invariant (fun _ h => h.rings hsize) (fun _ _ h he _ => h.step he) h0 hE hE,
    Along.of_invariant (fun _ e h _ _ => h.spares e) (fun _ _ h he _ => h.step he) h0 hE hE⟩

theorem one_descriptor_reused :
    Throughout step (Rings ⟨0, [⟨1, 0, 1, 0⟩], by decide⟩)
        ((start .atm .none 0 []).doLinkUp ⟨0, [⟨1, 0, 1, 0⟩], by decide⟩ true)
        [.xmit (some demoSkb), .complete 0 0, .xmit (some demoSkb)] ∧
      Along step (Spares ⟨0, [⟨1, 0, 1, 0⟩], by decide⟩)
        ((start .atm .none 0 []).doLinkUp ⟨0, [⟨1, 0, 1, 0⟩], by decide⟩ true)
        [.xmit (some demoSkb), .complete 0 0, .xmit (some demoSkb)] :=
  rings_stay_consistent _ (by decide) (by decide) rfl (fun _ ha => absurd ha List.not_mem_nil)
    ⟨trivial, ⟨0, by decide, by decide, fun _ hj => absurd hj (Nat.not_lt_zero _)⟩, trivial, trivial⟩

end AliceModem.TransmitRing
