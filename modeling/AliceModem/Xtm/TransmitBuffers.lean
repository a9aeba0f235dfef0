import AliceModem.Lib.Transition
import AliceModem.Xtm.Transmit

namespace AliceModem.TransmitBuffers

open RingBuffer Dma Transmit Transition

def Owned (X : Multiset Nat) (m : Memory) : Prop := X + m.freed = Multiset.range m.fresh

def ids (skb : Option Skb) : Multiset Nat := held (skb.map Skb.id)

section Memory

variable {X Y : Multiset Nat} {m : Memory} {skb : Skb}

theorem Owned.pass (h : Owned X m) : Owned (X + {m.fresh}) { m with fresh := m.fresh + 1 } := by
  have hX : X + m.freed = Multiset.range m.fresh := h
  change X + {m.fresh} + m.freed = Multiset.range (m.fresh + 1)
  rw [Multiset.range_succ, ← hX, ← Multiset.singleton_add]
  abel

theorem Owned.kfree (h : Owned (X + {skb.id}) m) : Owned X (m.kfreeSkb skb) := by
  have hX : X + {skb.id} + m.freed = Multiset.range m.fresh := h
  change X + (skb.id ::ₘ m.freed) = Multiset.range m.fresh
  rw [← hX, ← Multiset.singleton_add]
  abel

theorem Owned.copy (h : Owned X m) (headroom : Nat) :
    Owned (X + ids (m.copy skb headroom).1) (m.copy skb headroom).2 := by
  have halloc : Owned X m.alloc.2 := h
  rw [Memory.copy]
  rcases hm : m.alloc with ⟨_ | data, m'⟩
  · rw [hm] at halloc
    simpa [ids] using halloc
  · rw [hm] at halloc
    simpa [ids] using halloc.pass

theorem Owned.makeHeadroom (h : Owned (X + {skb.id}) m) (minheadroom : Nat) :
    Owned (X + ids (makeHeadroom m skb minheadroom).1) (makeHeadroom m skb minheadroom).2 := by
  rw [Transmit.makeHeadroom]
  split
  · refine Owned.kfree ?_
    rw [add_right_comm]
    exact h.copy _
  · exact h

theorem ids_map_len (r : Option Skb) (len : Nat) : ids (r.map fun skb => { skb with len := len }) = ids r := by
  cases r <;> rfl

theorem Owned.addRfc2684Hdr (h : Owned (X + {skb.id}) m) (hdrType : HdrType) :
    Owned (X + ids (addRfc2684Hdr hdrType m skb).1) (addRfc2684Hdr hdrType m skb).2 := by
  have hroom := h.makeHeadroom (hdrLens hdrType)
  rw [Transmit.addRfc2684Hdr]
  rcases hr : Transmit.makeHeadroom m skb (hdrLens hdrType) with ⟨_ | skb', m'⟩
  · rw [hr] at hroom
    exact hroom
  · rw [hr] at hroom
    have hpush : Owned (X + {(skbPush skb' (hdrLens hdrType)).id}) m' := hroom
    dsimp only
    split
    · refine Owned.kfree ?_
      rw [ids_map_len, add_right_comm]
      exact hpush.copy 0
    · exact hpush

theorem Owned.copyOrKeep (h : Owned (X + {skb.id}) m) (len : Nat) :
    Owned (X + {(copyOrKeep m skb len).1.id}) (copyOrKeep m skb len).2 := by
  have hcopy : Owned (X + {skb.id} + ids (skbCopyExpand m skb).1) (skbCopyExpand m skb).2 := h.copy 0
  rw [Transmit.copyOrKeep]
  rcases hr : skbCopyExpand m skb with ⟨_ | skb2, m'⟩
  · rw [hr] at hcopy
    simpa [ids] using hcopy
  · rw [hr, add_right_comm] at hcopy
    exact hcopy.kfree

theorem Owned.align (h : Owned (X + {skb.id}) m) : Owned (X + {(align m skb).1.id}) (align m skb).2 := by
  rw [Transmit.align]
  split
  · exact h.copyOrKeep _
  · exact h

theorem Owned.pad (h : Owned (X + {skb.id}) m) : Owned (X + {(pad m skb).1.id}) (pad m skb).2 := by
  rw [Transmit.pad]
  split
  · exact h.copyOrKeep _
  · exact h

theorem Owned.count_eq (h : Owned X m) {id : Nat} (hid : id < m.fresh) : X.count id + m.freed.count id = 1 := by
  rw [← Multiset.count_add, h, Multiset.count_eq_one_of_mem (Multiset.nodup_range _) (Multiset.mem_range.mpr hid)]

theorem Owned.lost (h : Owned (X + Y) m) (hX : ∀ id < m.fresh, X.count id + m.freed.count id = 1) : Y = 0 := by
  ext id
  have hcount : (X + Y + m.freed).count id = (Multiset.range m.fresh).count id := congrArg (Multiset.count id) h
  simp only [Multiset.count_add, Multiset.count_zero] at hcount ⊢
  by_cases hid : id < m.fresh
  · have hone := h.count_eq hid
    have hall := hX id hid
    rw [Multiset.count_add] at hone
    omega
  · rw [Multiset.count_eq_zero_of_notMem (s := Multiset.range m.fresh) (by simpa using hid)] at hcount
    omega

end Memory

section Queue

structure Ok (q : TxQInfo) : Prop where
  free_le : q.ulFreeBds ≤ q.ulQueueSize
  head_lt : 0 < q.ulQueueSize → q.ulHead < q.ulQueueSize
  tail_eq : 0 < q.ulQueueSize → q.ulTail = place q.ulQueueSize q.ulHead (q.ulQueueSize - q.ulFreeBds)
  wraps : Wraps q.ulQueueSize q.pBds
  used : ∀ i < q.ulQueueSize,
    q.ppSkbs i ≠ none ↔ Window q.ulQueueSize q.ulHead (q.ulQueueSize - q.ulFreeBds) i

variable {q : TxQInfo} {n : Nat}

theorem zeroQueue_ok : Ok zeroQueue := ⟨le_rfl, nofun, nofun, nofun, nofun⟩

theorem queue_ok (id : TransmitQueueId) : Ok id.queue := by
  refine ⟨le_rfl, fun h => h, fun h => ?_, fun i _ => rfl, fun i hi => ?_⟩
  · exact ((congrArg _ (Nat.sub_self _)).trans (place_zero h)).symm
  · have hempty : ¬ Window id.queue.ulQueueSize id.queue.ulHead (id.queue.ulQueueSize - id.queue.ulFreeBds) i := by
      rw [show id.queue.ulQueueSize - id.queue.ulFreeBds = 0 from Nat.sub_self _]
      exact not_window_zero
    exact iff_of_false (fun h => h rfl) hempty

theorem freeHead_ppSkbs : q.freeHead.ppSkbs = Function.update q.ppSkbs q.ulHead none := rfl

theorem Ok.freeHead (h : Ok q) (hfree : q.ulFreeBds < q.ulQueueSize) : Ok q.freeHead := by
  have hhead := h.head_lt (by omega)
  have hnext : q.freeHead.ulHead = place q.ulQueueSize q.ulHead 1 := h.wraps.advance hhead
  have hused : q.ulQueueSize - q.ulFreeBds = q.ulQueueSize - (q.ulFreeBds + 1) + 1 := by omega
  refine ⟨hfree, fun _ => ?_, fun hpos => ?_, h.wraps, fun i hi => ?_⟩
  · rw [hnext]
    exact place_lt hhead (by omega)
  · have htail := h.tail_eq hpos
    rw [hused, Nat.add_comm] at htail
    change q.ulTail = place q.ulQueueSize q.freeHead.ulHead (q.ulQueueSize - (q.ulFreeBds + 1))
    rw [hnext, place_place hhead (by omega), htail]
  · have hwin := h.used i hi
    rw [hused, window_cons hhead (by omega)] at hwin
    rw [hnext]
    by_cases hi' : i = q.ulHead
    · subst hi'
      refine iff_of_false (fun hne => hne (Function.update_self ..)) (not_window_start hhead ?_)
      change q.ulQueueSize - (q.ulFreeBds + 1) < q.ulQueueSize
      omega
    · rw [freeHead_ppSkbs, Function.update_of_ne hi', hwin]
      exact or_iff_right (Ne.symm hi')

theorem Ok.stored_freeHead (h : Ok q) (hfree : q.ulFreeBds < q.ulQueueSize) :
    q.freeHead.stored + held (q.ppSkbs q.ulHead) = q.stored := by
  have hup := contents_update (h.head_lt (by omega)) q.ppSkbs none
  rw [held_none, add_zero] at hup
  exact hup

theorem Ok.freeLoop (h : Ok q) (hn : n = q.ulQueueSize - q.ulFreeBds) :
    Ok (q.freeLoop n).1 ∧ (q.freeLoop n).1.stored + (q.freeLoop n).2 = q.stored := by
  induction n generalizing q with
  | zero => exact ⟨h, add_zero _⟩
  | succ n ih =>
      rw [TxQInfo.freeLoop]
      split
      · exact ⟨h, add_zero _⟩
      · have hfree : q.ulFreeBds < q.ulQueueSize := by omega
        obtain ⟨hok, hsum⟩ := ih (h.freeHead hfree) (by rw [TxQInfo.freeHead]; dsimp only; omega)
        refine ⟨hok, ?_⟩
        dsimp only
        rw [← h.stored_freeHead hfree, ← hsum, add_assoc, add_comm (held _)]

def Sent (q : TxQInfo) : Prop := ∀ i < q.ulQueueSize, q.ppSkbs i ≠ none → (q.pBds i).status.own = false

theorem Ok.freeLoop_empty (h : Ok q) (hn : n = q.ulQueueSize - q.ulFreeBds) :
    (q.freeLoop n).1.stored = 0 ↔ Sent q := by
  induction n generalizing q with
  | zero =>
      have hnone (i : Nat) (hi : i < q.ulQueueSize) : q.ppSkbs i = none := by
        by_contra hne
        have hwin := (h.used i hi).mp hne
        rw [← hn] at hwin
        exact not_window_zero hwin
      exact iff_of_true (contents_eq_zero.mpr hnone) fun i hi hne => absurd (hnone i hi) hne
  | succ n ih =>
      have hfree : q.ulFreeBds < q.ulQueueSize := by omega
      have hhead := h.head_lt (by omega)
      have hheld : q.ppSkbs q.ulHead ≠ none :=
        (h.used _ hhead).mpr ⟨0, by omega, place_zero hhead⟩
      rw [TxQInfo.freeLoop]
      split
      case isTrue hown =>
        refine iff_of_false (fun h0 => hheld (contents_eq_zero.mp h0 _ hhead)) fun hsent => ?_
        rw [hsent _ hhead hheld] at hown
        cases hown
      case isFalse hown =>
        refine (ih (h.freeHead hfree) (by rw [TxQInfo.freeHead]; dsimp only; omega)).trans ?_
        refine forall₂_congr fun i hi => ?_
        by_cases hi' : i = q.ulHead
        · subst hi'
          exact iff_of_true (fun hne => absurd (Function.update_self ..) hne)
            fun _ => Bool.eq_false_iff.mpr hown
        · rw [freeHead_ppSkbs, Function.update_of_ne hi']
          rfl

theorem Ok.tail_lt (h : Ok q) (hfree : q.ulFreeBds ≠ 0) : q.ulTail < q.ulQueueSize := by
  have hle := h.free_le
  have hhead := h.head_lt (by omega)
  rw [h.tail_eq (by omega)]
  exact place_lt hhead (by omega)

theorem Ok.enqueue (h : Ok q) (hfree : q.ulFreeBds ≠ 0) (d : DevCtx) (skb : Skb) : Ok (q.enqueue d skb) := by
  have hle := h.free_le
  have hhead := h.head_lt (by omega)
  have htail := h.tail_eq (by omega)
  have hlt := h.tail_lt hfree
  have hused : q.ulQueueSize - (q.ulFreeBds - 1) = q.ulQueueSize - q.ulFreeBds + 1 := by omega
  refine ⟨(Nat.sub_le ..).trans hle, fun _ => hhead, fun _ => ?_, h.wraps.update _ rfl, fun i hi => ?_⟩
  · change advance q.pBds q.ulTail = place q.ulQueueSize q.ulHead (q.ulQueueSize - (q.ulFreeBds - 1))
    rw [h.wraps.advance hlt, hused, htail, place_place hhead (by omega)]
  · change Function.update q.ppSkbs q.ulTail (some skb.id) i ≠ none ↔
      Window q.ulQueueSize q.ulHead (q.ulQueueSize - (q.ulFreeBds - 1)) i
    rw [hused, window_succ, ← htail]
    by_cases hi' : i = q.ulTail
    · subst hi'
      rw [Function.update_self]
      exact iff_of_true (Option.some_ne_none _) (.inr rfl)
    · rw [Function.update_of_ne hi', h.used i hi]
      exact (or_iff_left (Ne.symm hi')).symm

theorem Ok.tail_none (h : Ok q) (hfree : q.ulFreeBds ≠ 0) : q.ppSkbs q.ulTail = none := by
  have hle := h.free_le
  by_contra hne
  have hwin := (h.used _ (h.tail_lt hfree)).mp hne
  rw [h.tail_eq (by omega)] at hwin
  exact not_window_end (by omega) hwin

theorem Ok.stored_enqueue (h : Ok q) (hfree : q.ulFreeBds ≠ 0) (d : DevCtx) (skb : Skb) :
    (q.enqueue d skb).stored = q.stored + {skb.id} := by
  have hup := contents_update (h.tail_lt hfree) q.ppSkbs (some skb.id)
  rw [h.tail_none hfree, held_none, add_zero] at hup
  exact hup

theorem Ok.complete (h : Ok q) (i : Nat) : Ok (q.complete i) :=
  ⟨h.free_le, h.head_lt, h.tail_eq, h.wraps.update _ rfl, h.used⟩

end Queue

inductive Event
  | xmit (skb : Option Skb)
  | complete (i : Fin maxTransmitQueues) (bd : Nat)
  | linkUp (lsc : LinkStatusChange) (memory : Bool)
  | linkDown

/-- A packet that is passed to the driver has a pointer of its own. -/
def step (s : Sys) : Event → Sys
  | .xmit none => s.bcmxtmrtXmit none
  | .xmit (some skb) => Sys.bcmxtmrtXmit { s with mem := { s.mem with fresh := s.mem.fresh + 1 } }
      (some { skb with id := s.mem.fresh })
  | .complete i bd => { s with dev := { s.dev with
      txQInfos := Function.update s.dev.txQInfos i ((s.dev.txQInfos i).complete bd) } }
  | .linkUp lsc memory => s.doLinkUp lsc memory
  | .linkDown => s.doLinkDown

/-- The kernel runs, and the DMA engine works through a ring in order. -/
def Enabled (s : Sys) : Event → Prop
  | .complete i bd => s.oops = false ∧ (s.dev.txQInfos i).Next bd
  | _ => s.oops = false

/-- Each packet is in one ring slot or was freed once, and not both. -/
def Conserved (s : Sys) : Prop := ∀ id < s.mem.fresh, s.stored.count id + s.mem.freed.count id = 1

/-- A link goes up on queues without packets, and down when all packets of the
queues in use have been transmitted. -/
def Lossless (s : Sys) : Event → Prop
  | .linkUp lsc memory => memory → ∀ i, lsc.queueId i ≠ none → (s.dev.txQInfos i).stored = 0
  | .linkDown => s.Channels → ∀ i,
      i.val < s.dev.ulTxQInfosSize ∧ Sent (s.dev.txQInfos i) ∨ (s.dev.txQInfos i).stored = 0
  | _ => True

structure Inv (X : Multiset Nat) (s : Sys) : Prop where
  ok : ∀ i, Ok (s.dev.txQInfos i)
  owned : Owned (s.stored + X) s.mem

section Step

variable {X : Multiset Nat} {s : Sys} {skb : Skb} {m : Memory}

theorem Inv.of_owned (hok : ∀ i, Ok (s.dev.txQInfos i)) (h : Owned s.stored s.mem) : Inv 0 s :=
  ⟨hok, (add_zero s.stored).symm ▸ h⟩

theorem Inv.conserved (h : Inv 0 s) : Conserved s := by
  intro id hid
  have hone := h.owned.count_eq hid
  rwa [add_zero] at hone

theorem stored_update (s : Sys) (i : Fin maxTransmitQueues) (q : TxQInfo) :
    ∑ j, (Function.update s.dev.txQInfos i q j).stored + (s.dev.txQInfos i).stored = s.stored + q.stored :=
  sum_update (Finset.mem_univ i) TxQInfo.stored s.dev.txQInfos q

theorem Ok.update (h : ∀ i, Ok (s.dev.txQInfos i)) {i : Fin maxTransmitQueues} {q : TxQInfo} (hq : Ok q)
    (j : Fin maxTransmitQueues) : Ok (Function.update s.dev.txQInfos i q j) := by
  by_cases hj : j = i
  · subst hj
    rwa [Function.update_self]
  · rw [Function.update_of_ne hj]
    exact h j

theorem Inv.freeTransmitted (h : Inv X s) : Inv X s.freeTransmitted := by
  have hqueue (i : Fin maxTransmitQueues) := (h.ok i).freeLoop rfl
  constructor
  · intro i
    rw [Sys.freeTransmitted]
    dsimp only
    split
    · exact (hqueue i).1
    · exact h.ok i
  · have hsum : s.freeTransmitted.stored + ∑ i : Fin maxTransmitQueues,
        (if i.val < s.dev.ulTxQInfosSize then (s.dev.txQInfos i).freeTransmitted else (s.dev.txQInfos i, 0)).2 =
        s.stored := by
      rw [Sys.stored, Sys.stored, ← Finset.sum_add_distrib]
      refine Finset.sum_congr rfl fun i _ => ?_
      rw [Sys.freeTransmitted]
      dsimp only
      split
      · exact (hqueue i).2
      · exact add_zero _
    have howned : s.stored + X + s.mem.freed = Multiset.range s.mem.fresh := h.owned
    rw [← hsum, add_right_comm _ _ X, add_assoc, add_comm (∑ i, _)] at howned
    exact howned

theorem Inv.freeTransmitted_stored (h : Inv X s) : s.freeTransmitted.stored = 0 ↔ ∀ i,
    i.val < s.dev.ulTxQInfosSize ∧ Sent (s.dev.txQInfos i) ∨ (s.dev.txQInfos i).stored = 0 := by
  rw [Sys.stored, Finset.sum_eq_zero_iff]
  refine forall_congr' fun i => ?_
  have hsent (h0 : (s.dev.txQInfos i).stored = 0) : Sent (s.dev.txQInfos i) := fun j hj hne =>
    absurd (contents_eq_zero.mp h0 j hj) hne
  have hempty := (h.ok i).freeLoop_empty rfl
  rw [Sys.freeTransmitted]
  dsimp only
  split
  case isTrue hi =>
    refine ⟨fun h0 => .inl ⟨hi, hempty.mp (h0 (Finset.mem_univ i))⟩, fun h1 _ => hempty.mpr ?_⟩
    exact h1.elim And.right hsent
  case isFalse hi =>
    exact ⟨fun h0 => .inr (h0 (Finset.mem_univ i)), fun h1 _ => h1.resolve_left fun h2 => hi h2.1⟩

theorem freeLoop_pDma (n : Nat) (q : TxQInfo) : (q.freeLoop n).1.pDma = q.pDma := by
  induction n generalizing q with
  | zero => rfl
  | succ n ih =>
      rw [TxQInfo.freeLoop]
      split
      · rfl
      · exact ih q.freeHead

theorem channels_freeTransmitted (s : Sys) : s.freeTransmitted.Channels ↔ s.Channels := by
  refine forall₂_congr fun i hi => ?_
  rw [Sys.freeTransmitted]
  dsimp only
  split
  · rw [TxQInfo.freeTransmitted, freeLoop_pDma]
  · rfl

theorem Inv.send (hok : ∀ i, Ok (s.dev.txQInfos i)) (h : Owned (s.stored + {skb.id}) m)
    (i : Fin maxTransmitQueues) : Inv 0 (s.send i m skb) := by
  have halign := h.align
  rw [Sys.send]
  dsimp only
  split
  case isTrue hfree =>
    refine .of_owned (Ok.update hok ((hok i).enqueue hfree _ _)) ?_
    have hpad := halign.pad
    have hup := stored_update s i ((s.dev.txQInfos i).enqueue s.dev (pad (align m skb).2 (align m skb).1).1)
    rw [(hok i).stored_enqueue hfree, add_comm (TxQInfo.stored _), ← add_assoc] at hup
    rw [← add_right_cancel hup] at hpad
    exact hpad
  case isFalse hfree => exact .of_owned hok halign.kfree

theorem Inv.insertHdr (h : Inv {skb.id} s) : Owned (s.stored + ids (s.insertHdr skb).1) (s.insertHdr skb).2 := by
  rw [Sys.insertHdr]
  split
  · exact h.owned.addRfc2684Hdr _
  · exact h.owned

theorem Inv.bcmxtmrtXmit (h : Inv {skb.id} s) : Inv 0 (s.bcmxtmrtXmit (some skb)) := by
  have hfree := h.freeTransmitted
  have hhdr := hfree.insertHdr
  rw [Sys.bcmxtmrtXmit]
  split
  · exact .of_owned hfree.ok hfree.owned.kfree
  · rcases hr : s.freeTransmitted.insertHdr skb with ⟨_ | skb', m⟩
    · rw [hr] at hhdr
      exact ⟨hfree.ok, hhdr⟩
    · rw [hr] at hhdr
      exact Inv.send hfree.ok hhdr _

def replaced (s : Sys) (lsc : LinkStatusChange) : Multiset Nat :=
  ∑ i, if lsc.queueId i = none then 0 else (s.dev.txQInfos i).stored

theorem replaced_eq_zero (lsc : LinkStatusChange) :
    replaced s lsc = 0 ↔ ∀ i, lsc.queueId i ≠ none → (s.dev.txQInfos i).stored = 0 := by
  rw [replaced, Finset.sum_eq_zero_iff]
  refine forall_congr' fun i => ?_
  by_cases hid : lsc.queueId i = none <;> simp [hid]

theorem stored_doLinkUp (s : Sys) (lsc : LinkStatusChange) :
    (s.doLinkUp lsc true).stored + replaced s lsc = s.stored := by
  rw [Sys.stored, Sys.stored, replaced, ← Finset.sum_add_distrib]
  refine Finset.sum_congr rfl fun i _ => ?_
  rw [Sys.doLinkUp, if_pos rfl]
  dsimp only
  cases hid : lsc.queueId i with
  | none => rw [if_pos rfl, add_zero, Option.map_none, Option.getD_none]
  | some id =>
      have hnew : id.queue.stored = 0 := contents_eq_zero.mpr fun _ _ => rfl
      rw [if_neg (Option.some_ne_none id), Option.map_some, Option.getD_some, hnew, zero_add]

theorem Inv.linkUp (h : Inv 0 s) {lsc : LinkStatusChange} {memory : Bool}
    (hc : Lossless s (.linkUp lsc memory)) : Inv 0 (s.doLinkUp lsc memory) := by
  cases memory with
  | false => exact h
  | true =>
      refine ⟨fun i => ?_, ?_⟩
      · rw [Sys.doLinkUp, if_pos rfl]
        dsimp only
        cases lsc.queueId i with
        | none => exact h.ok i
        | some id => exact queue_ok id
      · have hsame := stored_doLinkUp s lsc
        rw [(replaced_eq_zero lsc).mpr (hc rfl), add_zero] at hsame
        rw [hsame]
        exact h.owned

theorem stored_zeroQueue : ∑ _i : Fin maxTransmitQueues, zeroQueue.stored = 0 :=
  Finset.sum_eq_zero fun _ _ => rfl

theorem Inv.linkDown (h : Inv 0 s) (hc : Lossless s .linkDown) : Inv 0 s.doLinkDown := by
  have hfree := h.freeTransmitted
  rw [Sys.doLinkDown, Sys.bcmxtmrtXmit]
  dsimp only
  split
  case isTrue hch =>
    refine ⟨fun _ => zeroQueue_ok, ?_⟩
    have hempty := h.freeTransmitted_stored.mpr (hc ((channels_freeTransmitted s).mp hch))
    have howned := hfree.owned
    rw [hempty] at howned
    rw [Sys.stored, stored_zeroQueue]
    exact howned
  case isFalse => exact ⟨hfree.ok, hfree.owned⟩

theorem Inv.step (h : Inv 0 s) {e : Event} (hc : Lossless s e) : Inv 0 (step s e) := by
  cases e with
  | xmit skb =>
      cases skb with
      | none => exact h.freeTransmitted
      | some skb =>
          refine Inv.bcmxtmrtXmit ⟨h.ok, ?_⟩
          have howned := h.owned.pass
          rwa [add_zero] at howned
  | complete i bd =>
      refine ⟨Ok.update h.ok ((h.ok i).complete bd), ?_⟩
      have hup := stored_update s i ((s.dev.txQInfos i).complete bd)
      have howned := h.owned
      rw [← add_right_cancel hup] at howned
      exact howned
  | linkUp lsc memory => exact h.linkUp hc
  | linkDown => exact h.linkDown hc

theorem lossless_of_conserved (h : Inv 0 s) {e : Event} (hnext : Conserved (TransmitBuffers.step s e)) :
    Lossless s e := by
  cases e with
  | xmit | complete => trivial
  | linkUp lsc memory =>
      rintro rfl
      have howned := h.owned
      rw [add_zero, ← stored_doLinkUp s lsc] at howned
      exact (replaced_eq_zero lsc).mp (howned.lost hnext)
  | linkDown =>
      intro hch
      have howned := h.freeTransmitted.owned
      rw [add_comm] at howned
      rw [← h.freeTransmitted_stored]
      refine howned.lost fun id hid => ?_
      have hone := hnext
      rw [TransmitBuffers.step, Sys.doLinkDown, Sys.bcmxtmrtXmit] at hone
      dsimp only at hone
      rw [if_pos ((channels_freeTransmitted s).mpr hch), Conserved, Sys.stored, stored_zeroQueue] at hone
      exact hone id hid

end Step

def start (trafficType : TrafficType) (hdrType : HdrType) (flags : BitVec 32) (allocs : List (Option Nat)) : Sys :=
  ⟨⟨trafficType, hdrType, flags, 0xff, 0, fun _ => zeroQueue, fun _ _ => none⟩, ⟨0, 0, allocs⟩, false⟩

theorem start_inv (trafficType : TrafficType) (hdrType : HdrType) (flags : BitVec 32) (allocs : List (Option Nat)) :
    Inv 0 (start trafficType hdrType flags allocs) := by
  refine .of_owned (fun _ => zeroQueue_ok) ?_
  rw [Sys.stored, start, stored_zeroQueue]
  rfl

/-- Packets are conserved exactly in the runs in which no link goes up or down
over packets that have not been transmitted. -/
theorem transmit_conserved_iff (trafficType : TrafficType) (hdrType : HdrType) (flags : BitVec 32)
    (allocs : List (Option Nat)) {es : List Event}
    (hE : Along step Enabled (start trafficType hdrType flags allocs) es) :
    Throughout step Conserved (start trafficType hdrType flags allocs) es ↔
      Along step Lossless (start trafficType hdrType flags allocs) es :=
  throughout_iff (I := Inv 0) (E := Enabled) (fun _ h => h.conserved) (fun _ _ h _ hc => h.step hc)
    (fun _ _ h _ hnext => lossless_of_conserved h hnext) (start_inv trafficType hdrType flags allocs) hE

def demoLink : LinkStatusChange := ⟨0, [⟨1, 0, 2, 0⟩], by decide⟩

def demoSkb : Skb := ⟨0, 0, 0, 100, 0, 0, 0⟩

theorem transmit_conserved_iff_demo :
    Throughout step Conserved (start .atm .none 0 [])
        [.linkUp demoLink true, .xmit (some demoSkb), .complete 0 0, .linkDown] ↔
      Along step Lossless (start .atm .none 0 [])
        [.linkUp demoLink true, .xmit (some demoSkb), .complete 0 0, .linkDown] :=
  transmit_conserved_iff .atm .none 0 []
    ⟨rfl, rfl, ⟨rfl, 0, by decide, by decide, nofun⟩, rfl, trivial⟩

theorem packet_lost_on_link_down :
    Along step Enabled (start .atm .none 0 []) [.linkUp demoLink true, .xmit (some demoSkb), .linkDown] ∧
      ¬ Throughout step Conserved (start .atm .none 0 [])
        [.linkUp demoLink true, .xmit (some demoSkb), .linkDown] := by
  refine ⟨⟨rfl, rfl, rfl, trivial⟩, fun h => ?_⟩
  have hone := h.2.2.2 0 (by decide)
  revert hone
  decide

end AliceModem.TransmitBuffers
