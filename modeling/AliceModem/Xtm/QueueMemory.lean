import AliceModem.Lib.Ownership
import AliceModem.Xtm.TransmitRing

namespace AliceModem.QueueMemory

open Transmit TransmitBuffers Transition Ownership

/-- A device with the memory of its queues. `queueMem` is the block in which the
descriptors and packets of a queue were placed. -/
structure Sys where
  tx : Transmit.Sys
  linkUp : Bool
  pTxQMem : Option Nat
  queueMem : Fin maxTransmitQueues → Option Nat
  heap : Ledger Unit

namespace Sys

/-- The block of an earlier link is not looked at. If the memory is refused only
the pointer changes. -/
def doLinkUp (s : Sys) (lsc : LinkStatusChange) (memory : Bool) : Sys :=
  match Ledger.acquire { s.heap with fails := [!memory] } with
  | (none, heap) => { s with pTxQMem := none, heap := heap }
  | (some p, heap) =>
      { tx := s.tx.doLinkUp lsc true
        linkUp := true
        pTxQMem := some p
        queueMem := fun i => if lsc.queueId i = none then s.queueMem i else some p
        heap := heap }

def kfree (heap : Ledger Unit) : Option Nat → Ledger Unit
  | none => heap
  | some p => heap.dispose p ()

def doLinkDown (s : Sys) : Sys :=
  if (s.tx.bcmxtmrtXmit none).Channels then
    { s with
      tx := s.tx.doLinkDown
      linkUp := false
      queueMem := fun _ => none
      heap := kfree s.heap s.pTxQMem }
  else { s with tx := s.tx.doLinkDown }

def inUse (s : Sys) : Option Nat := if s.linkUp then s.pTxQMem else none

def Initialised (s : Sys) (i : Fin maxTransmitQueues) : Prop := s.pTxQMem ≠ none ∧ s.queueMem i = s.pTxQMem

end Sys

def step (s : Sys) : Event → Sys
  | .linkUp lsc memory => s.doLinkUp lsc memory
  | .linkDown => s.doLinkDown
  | e => { s with tx := TransmitBuffers.step s.tx e }

def Uses (s : Sys) : Event → Fin maxTransmitQueues → Prop
  | .xmit none, i | .linkDown, i => i.val < s.tx.dev.ulTxQInfosSize
  | .xmit (some skb), i => s.tx.dev.ulTxQInfosSize ≠ 0 ∧
      (i.val < s.tx.dev.ulTxQInfosSize ∨ i = chooseQueue s.tx.dev skb)
  | _, _ => False

def Accounted (s : Sys) : Prop :=
  ∀ p, .acquire p ∈ s.heap.events → s.heap.disposals p = if s.inUse = some p then 0 else 1

def Managed (s : Sys) (e : Event) : Prop := (∀ i, Uses s e i → s.Initialised i) ∧ Accounted (step s e)

def Enabled (s : Sys) (e : Event) : Prop := TransmitBuffers.Enabled s.tx e

/-- The link goes up only if it is down, and down only if it is up or the pointer is null; it is used only with queues
that were set up. -/
def Orderly (s : Sys) : Event → Prop
  | .linkUp _ _ => s.linkUp = false
  | .linkDown => (s.linkUp = true ∨ s.pTxQMem = none) ∧ ∀ i : Fin maxTransmitQueues,
      i.val < s.tx.dev.ulTxQInfosSize → s.Initialised i
  | .xmit _ => ∀ i : Fin maxTransmitQueues, i.val < s.tx.dev.ulTxQInfosSize → s.Initialised i
  | .complete _ _ => True

/-- What the requests so far say about the link: the last link-up was refused or there was none, the link went down
again, or it is up with the queues of a request. -/
inductive Link
  | null
  | freed
  | up (lsc : LinkStatusChange)

def Link.next : Link → Event → Link
  | _, .linkUp lsc true => .up lsc
  | _, .linkUp _ false => .null
  | .up _, .linkDown => .freed
  | l, _ => l

def AllValid (lsc : LinkStatusChange) : Prop := ∀ id ∈ lsc.transmitQueueIds, id.valid = true

/-- Links go up and down in turn and are used with valid queue ids only; without memory a link may go down as well. -/
def Link.Allows : Link → Event → Prop
  | .up _, .linkUp _ _ | .freed, .linkDown => False
  | .up lsc, .linkDown | .up lsc, .xmit _ => AllValid lsc
  | _, _ => True

section Transmit

variable (s : Transmit.Sys)

theorem xmit_dev (skb : Option Skb) :
    ∃ queues, (s.bcmxtmrtXmit skb).dev = { s.dev with txQInfos := queues } := by
  cases skb with
  | none => exact ⟨_, rfl⟩
  | some skb =>
      rw [Transmit.Sys.bcmxtmrtXmit]
      split
      · exact ⟨_, rfl⟩
      · rcases s.freeTransmitted.insertHdr skb with ⟨_ | skb', m⟩
        · exact ⟨_, rfl⟩
        · dsimp only
          rw [Transmit.Sys.send]
          dsimp only
          split
          · exact ⟨_, rfl⟩
          · exact ⟨_, rfl⟩

theorem freeTransmitted_pDma (i : Fin maxTransmitQueues) :
    (s.freeTransmitted.dev.txQInfos i).pDma = (s.dev.txQInfos i).pDma := by
  rw [Transmit.Sys.freeTransmitted]
  dsimp only
  split
  · exact freeLoop_pDma ..
  · rfl

theorem xmit_pDma (skb : Option Skb) (i : Fin maxTransmitQueues) :
    ((s.bcmxtmrtXmit skb).dev.txQInfos i).pDma = (s.dev.txQInfos i).pDma := by
  rcases TransmitRing.xmit_cases s skb i with heq | ⟨d, skb', -, heq⟩
  · rw [heq, freeTransmitted_pDma]
  · rw [heq]
    exact freeTransmitted_pDma s i

theorem complete_pDma (i : Fin maxTransmitQueues) (bd : Nat) (j : Fin maxTransmitQueues) :
    ((TransmitBuffers.step s (.complete i bd)).dev.txQInfos j).pDma = (s.dev.txQInfos j).pDma := by
  change (Function.update s.dev.txQInfos i ((s.dev.txQInfos i).complete bd) j).pDma = _
  by_cases hj : j = i
  · subst hj
    rw [Function.update_self]
    rfl
  · rw [Function.update_of_ne hj]

theorem update_cases {pr : Nat → Nat → Option (Fin maxTransmitQueues)} {port sub a b : Nat}
    {i j : Fin maxTransmitQueues} (h : Function.update pr port (Function.update (pr port) sub (some j)) a b = some i) :
    pr a b = some i ∨ i = j := by
  by_cases ha : a = port
  · subst ha
    rw [Function.update_self] at h
    by_cases hb : b = sub
    · subst hb
      rw [Function.update_self, Option.some.injEq] at h
      exact .inr h.symm
    · rw [Function.update_of_ne hb] at h
      exact .inl h
  · rw [Function.update_of_ne ha] at h
    exact .inl h

theorem priorities_cases (lsc : LinkStatusChange) (pr : Nat → Nat → Option (Fin maxTransmitQueues)) {a b : Nat}
    {i : Fin maxTransmitQueues} (h : lsc.priorities pr a b = some i) : pr a b = some i ∨ lsc.queueId i ≠ none := by
  rw [LinkStatusChange.priorities] at h
  generalize List.finRange maxTransmitQueues = queues at h
  induction queues generalizing pr with
  | nil => exact .inl h
  | cons j queues ih =>
      rw [List.foldl_cons] at h
      rcases ih _ h with hpr | hqueue
      · cases hid : lsc.queueId j with
        | none =>
            rw [hid] at hpr
            exact .inl hpr
        | some id =>
            rw [hid] at hpr
            refine (update_cases hpr).imp_right fun hij => ?_
            rw [hij, hid]
            exact Option.some_ne_none _
      · exact .inr hqueue

end Transmit

section Step

variable {s : Sys} {lsc : LinkStatusChange}

theorem doLinkUp_refused (s : Sys) (lsc : LinkStatusChange) :
    s.doLinkUp lsc false = { s with pTxQMem := none, heap := { s.heap with fails := [] } } := rfl

theorem doLinkUp_granted (s : Sys) (lsc : LinkStatusChange) : s.doLinkUp lsc true =
    { tx := s.tx.doLinkUp lsc true
      linkUp := true
      pTxQMem := some s.heap.next
      queueMem := fun i => if lsc.queueId i = none then s.queueMem i else some s.heap.next
      heap := ⟨[], s.heap.next + 1, s.heap.events ++ [.acquire s.heap.next]⟩ } := rfl

theorem step_tx (s : Sys) (e : Event) : (step s e).tx = TransmitBuffers.step s.tx e := by
  cases e with
  | xmit | complete => rfl
  | linkUp lsc memory => cases memory <;> rfl
  | linkDown =>
      change s.doLinkDown.tx = s.tx.doLinkDown
      rw [Sys.doLinkDown]
      split
      · rfl
      · rfl

structure Inv (s : Sys) : Prop where
  channel : ∀ i, s.queueMem i ≠ none → (s.tx.dev.txQInfos i).pDma ≠ none
  issued : ∀ p ∈ s.pTxQMem, p < s.heap.next
  owes : s.heap.Owes s.inUse.toList
  up : s.linkUp = true → s.pTxQMem ≠ none ∧ ∀ a b, ∀ i ∈ s.tx.dev.pTxPriorities a b, s.queueMem i = s.pTxQMem
  down : s.linkUp = false → s.tx.dev.ulTxQInfosSize = 0 ∧ ∀ a b, s.tx.dev.pTxPriorities a b = none
  fresh : s.linkUp = false → ∀ i, s.queueMem i = none

theorem accounted_of_owes (h : s.heap.Owes s.inUse.toList) : Accounted s := by
  intro p hp
  have hlt := (h.issued p).mp hp
  simp only [h.count p, Option.mem_toList]
  by_cases huse : s.inUse = some p
  · rw [if_pos huse, if_neg fun hand => hand.2 huse]
  · rw [if_neg huse, if_pos ⟨hlt, huse⟩]

theorem Inv.same (h : Inv s) {tx : Transmit.Sys} (hdev : ∃ queues, tx.dev = { s.tx.dev with txQInfos := queues })
    (hdma : ∀ i, (tx.dev.txQInfos i).pDma = (s.tx.dev.txQInfos i).pDma) : Inv { s with tx := tx } := by
  obtain ⟨queues, hdev⟩ := hdev
  have hpr : tx.dev.pTxPriorities = s.tx.dev.pTxPriorities := by rw [hdev]
  have hsize : tx.dev.ulTxQInfosSize = s.tx.dev.ulTxQInfosSize := by rw [hdev]
  refine ⟨fun i hi => ?_, h.issued, h.owes, fun hup => ?_, fun hdown => ?_, h.fresh⟩
  · exact (hdma i).symm ▸ h.channel i hi
  · exact ⟨(h.up hup).1, fun a b i hi => (h.up hup).2 a b i (hpr ▸ hi)⟩
  · exact ⟨hsize.trans (h.down hdown).1, fun a b => (congrFun₂ hpr a b).trans ((h.down hdown).2 a b)⟩

theorem Inv.xmit (h : Inv s) (skb : Option Skb) : Inv (step s (.xmit skb)) := by
  obtain ⟨m, skb', -, heq⟩ := TransmitRing.step_xmit s.tx skb
  change Inv { s with tx := TransmitBuffers.step s.tx (.xmit skb) }
  rw [heq]
  exact h.same (xmit_dev { s.tx with mem := m } skb') (xmit_pDma { s.tx with mem := m } skb')

theorem Inv.complete (h : Inv s) (i : Fin maxTransmitQueues) (bd : Nat) : Inv (step s (.complete i bd)) :=
  h.same ⟨_, rfl⟩ (complete_pDma s.tx i bd)

theorem inUse_down (hdown : s.linkUp = false) : s.inUse = none := by
  rw [Sys.inUse, hdown]
  rfl

theorem inUse_up (hup : s.linkUp = true) : s.inUse = s.pTxQMem := if_pos hup

theorem Inv.linkUp (h : Inv s) (hdown : s.linkUp = false) (lsc : LinkStatusChange) (memory : Bool) :
    Inv (s.doLinkUp lsc memory) := by
  have howes := h.owes
  rw [inUse_down hdown] at howes
  cases memory with
  | false =>
      rw [doLinkUp_refused]
      refine ⟨h.channel, fun p hp => absurd hp (Option.not_mem_none p), ?_, fun hup => ?_, h.down, h.fresh⟩
      · have hkept : Ledger.Owes { s.heap with fails := [] } [] :=
          ⟨howes.nodup, howes.issued, howes.mem, howes.count⟩
        simpa [Sys.inUse] using hkept
      · exact absurd (hdown.symm.trans hup) Bool.false_ne_true
  | true =>
      rw [doLinkUp_granted]
      refine ⟨fun i hi => ?_, fun p hp => ?_, ?_, fun _ => ⟨Option.some_ne_none _, fun a b i hi => ?_⟩,
        fun hup => ?_, fun hup => ?_⟩
      · change (((lsc.queueId i).map TransmitQueueId.queue).getD (s.tx.dev.txQInfos i)).pDma ≠ none
        cases hid : lsc.queueId i with
        | none => exact h.channel i (by simpa [hid] using hi)
        | some id => exact Option.some_ne_none _
      · obtain rfl : s.heap.next = p := Option.some.inj hp
        exact Nat.lt_succ_self _
      · have hnew := howes.acquired
        exact ⟨hnew.nodup, hnew.issued, hnew.mem, hnew.count⟩
      · rcases priorities_cases lsc _ hi with hold | hid
        · rw [(h.down hdown).2 a b] at hold
          cases hold
        · exact if_neg hid
      · exact absurd hup.symm Bool.false_ne_true
      · exact absurd hup.symm Bool.false_ne_true

theorem Inv.channels (h : Inv s) (hinit : ∀ i : Fin maxTransmitQueues, i.val < s.tx.dev.ulTxQInfosSize → s.Initialised i) :
    (s.tx.bcmxtmrtXmit none).Channels := by
  refine (channels_freeTransmitted s.tx).mpr fun i hi => h.channel i ?_
  rw [(hinit i hi).2]
  exact (hinit i hi).1

theorem kfree_next (heap : Ledger Unit) (p : Option Nat) : (Sys.kfree heap p).next = heap.next := by
  cases p <;> rfl

theorem doLinkDown_eq (hch : (s.tx.bcmxtmrtXmit none).Channels) : s.doLinkDown =
    { s with tx := s.tx.doLinkDown, linkUp := false, queueMem := fun _ => none,
             heap := Sys.kfree s.heap s.pTxQMem } := if_pos hch

theorem Inv.linkDown (h : Inv s) (hc : Orderly s .linkDown) : Inv (step s .linkDown) := by
  have hch := h.channels hc.2
  have htx : s.tx.doLinkDown.dev.ulTxQInfosSize = 0 ∧ ∀ a b, s.tx.doLinkDown.dev.pTxPriorities a b = none := by
    rw [Transmit.Sys.doLinkDown]
    dsimp only
    rw [if_pos hch]
    exact ⟨rfl, fun _ _ => rfl⟩
  change Inv s.doLinkDown
  rw [doLinkDown_eq hch]
  have howes := h.owes
  refine ⟨fun _ hi => absurd rfl hi, fun p hp => ?_, ?_, fun hup => absurd hup Bool.false_ne_true, fun _ => htx,
    fun _ _ => rfl⟩
  · rw [kfree_next]
    exact h.issued p hp
  · rw [inUse_down rfl]
    dsimp only
    cases hmem : s.pTxQMem with
    | none =>
        have hnone : s.inUse = none := by simp [Sys.inUse, hmem]
        rwa [hnone] at howes
    | some p =>
        have hup := hc.1.resolve_right (by simp [hmem])
        rw [inUse_up hup, hmem] at howes
        exact howes.disposed ()

theorem Inv.step (h : Inv s) {e : Event} (hc : Orderly s e) : Inv (step s e) := by
  cases e with
  | xmit skb => exact h.xmit skb
  | complete i bd => exact h.complete i bd
  | linkUp lsc memory => exact h.linkUp hc lsc memory
  | linkDown => exact h.linkDown hc

theorem Inv.chooseQueue (h : Inv s) (hsize : s.tx.dev.ulTxQInfosSize ≠ 0)
    (hinit : ∀ i : Fin maxTransmitQueues, i.val < s.tx.dev.ulTxQInfosSize → s.Initialised i) (skb : Skb) :
    s.Initialised (chooseQueue s.tx.dev skb) := by
  have hup : s.linkUp = true := by
    by_contra hdown
    exact hsize (h.down (Bool.eq_false_iff.mpr hdown)).1
  have hqueue {q : Option (Fin maxTransmitQueues)} (hq : ∀ i ∈ q, s.Initialised i) : s.Initialised (q.getD 0) := by
    cases q with
    | none => exact hinit 0 (Nat.pos_of_ne_zero hsize)
    | some i => exact hq i rfl
  have hpr (a b : Nat) : ∀ i ∈ s.tx.dev.pTxPriorities a b, s.Initialised i := fun i hi =>
    ⟨(h.up hup).1, (h.up hup).2 a b i hi⟩
  refine hqueue ?_
  split_ifs
  · exact hpr _ _
  · exact hpr _ _
  · exact fun i hi => absurd hi (Option.not_mem_none i)

theorem Inv.managed (h : Inv s) {e : Event} (hc : Orderly s e) : Managed s e := by
  refine ⟨fun i hi => ?_, accounted_of_owes (h.step hc).owes⟩
  cases e with
  | xmit skb =>
      cases skb with
      | none => exact hc i hi
      | some skb =>
          obtain ⟨hsize, hlt | rfl⟩ := hi
          · exact hc i hlt
          · exact h.chooseQueue hsize hc skb
  | complete | linkUp => exact hi.elim
  | linkDown => exact hc.2 i hi

theorem Inv.linkUp_needs (h : Inv s) {lsc : LinkStatusChange} {memory : Bool} (hm : Managed s (.linkUp lsc memory)) :
    s.linkUp = false := by
  by_contra hup
  rw [Bool.not_eq_false] at hup
  obtain ⟨p, hp⟩ := Option.ne_none_iff_exists'.mp (h.up hup).1
  have howes := h.owes
  rw [inUse_up hup, hp] at howes
  have hlt : p < s.heap.next := h.issued p hp
  have hissued := (howes.issued p).mpr hlt
  have hcount : s.heap.disposals p = 0 := by
    rw [howes.count p]
    exact if_neg fun hand => hand.2 List.mem_cons_self
  cases memory with
  | false =>
      have hone := hm.2 p hissued
      change s.heap.disposals p = if (if s.linkUp then none else none) = some p then 0 else 1 at hone
      simp [hcount] at hone
  | true =>
      have hone := hm.2 p (List.mem_append_left _ hissued)
      have hkept : (s.doLinkUp lsc true).heap.disposals p = s.heap.disposals p := by
        change List.countP _ (s.heap.events ++ [.acquire s.heap.next]) = List.countP _ s.heap.events
        simp [List.countP_append, Event.disposes]
      change (s.doLinkUp lsc true).heap.disposals p = if some s.heap.next = some p then 0 else 1 at hone
      rw [hkept, hcount] at hone
      have huse : some s.heap.next = some p := by
        by_contra hne
        rw [if_neg hne] at hone
        cases hone
      exact hlt.ne' (Option.some.inj huse)

theorem Inv.linkDown_needs (h : Inv s) (hm : Managed s .linkDown) : s.linkUp = true ∨ s.pTxQMem = none := by
  by_contra hno
  rw [not_or, Bool.not_eq_true] at hno
  obtain ⟨hdown, hmem⟩ := hno
  obtain ⟨p, hp⟩ := Option.ne_none_iff_exists'.mp hmem
  have howes := h.owes
  rw [inUse_down hdown] at howes
  have hch := h.channels fun i hi => absurd hi (by rw [(h.down hdown).1]; exact Nat.not_lt_zero _)
  have hacc : Accounted s.doLinkDown := hm.2
  rw [doLinkDown_eq hch] at hacc
  refine howes.twice (h.issued p hp) List.not_mem_nil () fun a ha => ?_
  have hone := hacc a
  rw [inUse_down rfl, hp] at hone
  exact hone ha

theorem Inv.needs (h : Inv s) {e : Event} (hm : Managed s e) : Orderly s e := by
  cases e with
  | xmit skb =>
      intro i hi
      refine hm.1 i ?_
      cases skb with
      | none => exact hi
      | some skb => exact ⟨Nat.ne_of_gt (Nat.lt_of_le_of_lt (Nat.zero_le _) hi), .inl hi⟩
  | complete => trivial
  | linkUp lsc memory => exact h.linkUp_needs hm
  | linkDown => exact ⟨h.linkDown_needs hm, hm.1⟩

theorem Inv.managed_iff (h : Inv s) (e : Event) : Managed s e ↔ Orderly s e := ⟨h.needs, h.managed⟩

end Step

section Requests

variable {s : Sys} {l : Link}

theorem allValid_iff (lsc : LinkStatusChange) : AllValid lsc ↔
    ∀ i : Fin maxTransmitQueues, i.val < lsc.transmitQueueIds.length → lsc.queueId i ≠ none := by
  constructor
  · intro h i hi
    rw [LinkStatusChange.queueId, List.getElem?_eq_getElem hi, Option.filter_some, if_pos (h _ (List.getElem_mem hi))]
    exact Option.some_ne_none _
  · intro h id hid
    obtain ⟨i, hi, rfl⟩ := List.getElem_of_mem hid
    have hvalid := h ⟨i, hi.trans_le lsc.length_le⟩ hi
    rw [LinkStatusChange.queueId, List.getElem?_eq_getElem hi, Option.filter_some] at hvalid
    by_contra hno
    exact hvalid (if_neg hno)

theorem doLinkUp_initialised (hfresh : ∀ i, s.queueMem i = none) (lsc : LinkStatusChange) (i : Fin maxTransmitQueues) :
    (s.doLinkUp lsc true).Initialised i ↔ lsc.queueId i ≠ none := by
  rw [doLinkUp_granted, Sys.Initialised, and_iff_right (Option.some_ne_none _)]
  dsimp only
  by_cases hid : lsc.queueId i = none
  · rw [if_pos hid, hfresh i]
    exact iff_of_false (Option.some_ne_none _).symm (not_not.mpr hid)
  · rw [if_neg hid]
    exact iff_of_true rfl hid

/-- The state of a device after requests that amount to `l`. -/
def Describes (s : Sys) : Link → Prop
  | .null => s.linkUp = false ∧ s.pTxQMem = none
  | .freed => s.linkUp = false ∧ s.pTxQMem ≠ none
  | .up lsc => s.linkUp = true ∧ s.tx.dev.ulTxQInfosSize = lsc.transmitQueueIds.length ∧
      ∀ i, s.Initialised i ↔ lsc.queueId i ≠ none

theorem Describes.counted_iff (hl : Describes s l) (h : Inv s) :
    (∀ i : Fin maxTransmitQueues, i.val < s.tx.dev.ulTxQInfosSize → s.Initialised i) ↔ ∀ lsc, l = .up lsc → AllValid lsc := by
  have hdown (hoff : s.linkUp = false) (i : Fin maxTransmitQueues) (hi : i.val < s.tx.dev.ulTxQInfosSize) :
      s.Initialised i := absurd hi (by rw [(h.down hoff).1]; exact Nat.not_lt_zero _)
  cases l with
  | null => exact iff_of_true (hdown hl.1) fun _ hup => by cases hup
  | freed => exact iff_of_true (hdown hl.1) fun _ hup => by cases hup
  | up lsc =>
      simp only [hl.2.1, hl.2.2, Link.up.injEq, forall_eq', allValid_iff]

theorem Describes.orderly_iff (hl : Describes s l) (h : Inv s) (e : Event) : Orderly s e ↔ l.Allows e := by
  have hcounted := hl.counted_iff h
  cases e with
  | complete => cases l <;> exact Iff.rfl
  | xmit skb =>
      rw [Orderly, hcounted]
      cases l <;> simp [Link.Allows]
  | linkUp lsc memory =>
      cases l with
      | null | freed => exact iff_of_true hl.1 trivial
      | up lsc' => exact iff_of_false (by rw [Orderly, hl.1]; exact Bool.noConfusion) id
  | linkDown =>
      rw [Orderly, hcounted]
      cases l with
      | null => simp [Link.Allows, hl.2]
      | freed => simp [Link.Allows, hl.1, hl.2]
      | up lsc => simp [Link.Allows, hl.1]

theorem Describes.step (hl : Describes s l) (h : Inv s) {e : Event} (ha : l.Allows e) :
    Describes (step s e) (l.next e) := by
  cases e with
  | xmit skb =>
      obtain ⟨m, skb', -, heq⟩ := TransmitRing.step_xmit s.tx skb
      obtain ⟨queues, hdev⟩ := xmit_dev { s.tx with mem := m } skb'
      have hsize : (TransmitBuffers.step s.tx (.xmit skb)).dev.ulTxQInfosSize = s.tx.dev.ulTxQInfosSize := by
        rw [heq, hdev]
      cases l with
      | null | freed => exact hl
      | up lsc => exact ⟨hl.1, hsize.trans hl.2.1, hl.2.2⟩
  | complete i bd =>
      cases l with
      | null | freed => exact hl
      | up lsc => exact hl
  | linkUp lsc memory =>
      have hdown : s.linkUp = false := (hl.orderly_iff h (.linkUp lsc memory)).mpr ha
      cases memory with
      | false => exact ⟨hdown, rfl⟩
      | true => exact ⟨rfl, rfl, doLinkUp_initialised (h.fresh hdown) lsc⟩
  | linkDown =>
      have hch := h.channels ((hl.orderly_iff h .linkDown).mpr ha).2
      change Describes s.doLinkDown (l.next .linkDown)
      rw [doLinkDown_eq hch]
      cases l with
      | null => exact ⟨rfl, hl.2⟩
      | freed => exact ha.elim
      | up lsc => exact ⟨rfl, (h.up hl.1).1⟩

end Requests

def start (trafficType : TrafficType) (hdrType : HdrType) (flags : BitVec 32) (allocs : List (Option Nat)) : Sys :=
  ⟨TransmitBuffers.start trafficType hdrType flags allocs, false, none, fun _ => none, Ledger.fresh []⟩

variable (trafficType : TrafficType) (hdrType : HdrType) (flags : BitVec 32) (allocs : List (Option Nat))

theorem start_inv : Inv (start trafficType hdrType flags allocs) :=
  ⟨fun _ hi => absurd rfl hi, fun p hp => absurd hp (Option.not_mem_none p), Ledger.fresh_owes [],
    fun hup => absurd hup Bool.false_ne_true, fun _ => ⟨rfl, fun _ _ => rfl⟩, fun _ _ => rfl⟩

/-- The queue memory is managed exactly, as long as the kernel runs, just if the requests let links go up and down in
turn and use them only if they went up with valid queue ids. -/
theorem queue_memory_managed_iff {es : List Event} (hE : Along step Enabled (start trafficType hdrType flags allocs) es) :
    Along step Managed (start trafficType hdrType flags allocs) es ↔ Along Link.next Link.Allows .null es :=
  along_iff_of_simulation (R := fun s l => Inv s ∧ Describes s l)
    (fun _ _ e h _ => (h.1.managed_iff e).trans (h.2.orderly_iff h.1 e))
    (fun _ _ e h _ ha => ⟨h.1.step ((h.2.orderly_iff h.1 e).mpr ha), h.2.step h.1 ha⟩)
    ⟨start_inv trafficType hdrType flags allocs, show Describes _ .null from ⟨rfl, rfl⟩⟩ hE

def twoQueues : LinkStatusChange := ⟨5, [⟨1, 0, 2, 0⟩, ⟨2, 1, 4, 1⟩], by decide⟩

theorem demoRequests_managed : Along step Managed (start .atm .none 0 [])
    [.linkUp twoQueues true, .xmit (some demoSkb), .complete 0 0, .xmit none, .linkDown, .linkUp demoLink false, .linkDown,
      .linkUp demoLink true, .xmit (some demoSkb), .linkDown] := by
  have hvalid : AllValid twoQueues ∧ AllValid demoLink := by
    unfold AllValid
    decide
  refine (queue_memory_managed_iff .atm .none 0 [] ?_).mpr ?_
  · exact ⟨rfl, rfl, ⟨rfl, 0, by decide, rfl, fun _ hj => absurd hj (Nat.not_lt_zero _)⟩, rfl, rfl, rfl, rfl, rfl, rfl,
      rfl, trivial⟩
  · exact ⟨trivial, hvalid.1, trivial, hvalid.1, hvalid.1, trivial, trivial, trivial, hvalid.2, hvalid.2, trivial⟩

theorem link_requests_repeated :
    (Along step Enabled (start .atm .none 0 []) [.linkUp demoLink true, .linkUp demoLink true] ∧
      ¬ Along step Managed (start .atm .none 0 []) [.linkUp demoLink true, .linkUp demoLink true]) ∧
    (Along step Enabled (start .atm .none 0 []) [.linkUp demoLink true, .linkDown, .linkDown] ∧
      ¬ Along step Managed (start .atm .none 0 []) [.linkUp demoLink true, .linkDown, .linkDown]) ∧
    (Along step Enabled (start .atm .none 0 []) [.linkUp ⟨0, [⟨3, 0, 2, 0⟩], by decide⟩ true, .linkDown] ∧
      ¬ Along step Managed (start .atm .none 0 []) [.linkUp ⟨0, [⟨3, 0, 2, 0⟩], by decide⟩ true, .linkDown]) := by
  refine ⟨⟨⟨rfl, rfl, trivial⟩, fun h => ?_⟩, ⟨⟨rfl, rfl, rfl, trivial⟩, fun h => ?_⟩, ⟨rfl, rfl, trivial⟩, fun h => ?_⟩
  · have hone := h.2.1.2 0 List.mem_cons_self
    revert hone
    decide
  · have hone := h.2.2.1.2 0 List.mem_cons_self
    revert hone
    decide
  · have hinit := (h.2.1.1 0 (show 0 < 1 from Nat.one_pos)).2
    revert hinit
    decide

end AliceModem.QueueMemory
