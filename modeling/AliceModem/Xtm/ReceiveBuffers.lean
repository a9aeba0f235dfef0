import AliceModem.Lib.Transition
import AliceModem.Xtm.Receive
import Mathlib.Algebra.BigOperators.Fin

namespace AliceModem.ReceiveBuffers

open RingBuffer Dma Receive Transition

section Queue

/-- The descriptors without a buffer are those from the tail to the head, as many
as there are buffers out, and the buffers in the ring and out are all of `B`. -/
structure Ok (B : Multiset Nat) (q : RxBdInfo) (out : Multiset Nat) : Prop where
  tail_lt : 0 < q.size → q.tail < q.size
  out_le : out.card ≤ q.size
  head_eq : 0 < q.size → q.head = place q.size q.tail out.card
  wraps : Wraps q.size q.bds
  empty : ∀ i < q.size, (q.bds i).address = 0 ↔ Window q.size q.tail out.card i
  buffers : q.addresses + out = B
  reserve : ∀ a ∈ B, rxbufHeadReserve ≤ a

variable {B out : Multiset Nat} {q : RxBdInfo}

theorem buffer_zero {bd : DmaDesc} (h : bd.address = 0) : buffer bd = none := if_pos h

theorem buffer_some {bd : DmaDesc} (h : bd.address ≠ 0) : buffer bd = some bd.address := if_neg h

theorem addresses_update {q r : RxBdInfo} {i : Nat} {bd : DmaDesc} (hi : i < q.size) (hsize : r.size = q.size)
    (hbds : r.bds = Function.update q.bds i bd) :
    r.addresses + held (buffer (q.bds i)) = q.addresses + held (buffer bd) := by
  rw [RxBdInfo.addresses, hsize, hbds]
  exact sum_update (Finset.mem_range.mpr hi) (fun bd => held (buffer bd)) q.bds bd

theorem Ok.head_lt (h : Ok B q out) (hpos : 0 < q.size) : q.head < q.size := by
  rw [h.head_eq hpos]
  exact place_lt (h.tail_lt hpos) h.out_le

theorem Ok.out_lt (h : Ok B q out) (hr : q.Ready) : out.card < q.size := by
  have hpos : 0 < q.size := Nat.pos_of_ne_zero hr.1
  refine lt_of_le_of_ne h.out_le fun heq => ?_
  have hall := (h.empty q.head (h.head_lt hpos)).not.mp hr.2.2
  rw [heq, window_full (h.tail_lt hpos)] at hall
  exact hall (h.head_lt hpos)

theorem Ok.takeHead (h : Ok B q out) (hr : q.Ready) (length : UInt16) :
    Ok B (q.takeHead length) ((q.bds q.head).address ::ₘ out) := by
  have hpos : 0 < q.size := Nat.pos_of_ne_zero hr.1
  have hlt := h.out_lt hr
  have hhead := h.head_lt hpos
  refine ⟨h.tail_lt, ?_, fun _ => ?_, h.wraps.update _ rfl, fun i hi => ?_, ?_, h.reserve⟩
  · rw [Multiset.card_cons]
    exact hlt
  · rw [Multiset.card_cons]
    change advance q.bds q.head = place q.size q.tail (out.card + 1)
    rw [h.wraps.advance hhead, h.head_eq hpos, place_place (h.tail_lt hpos) hlt]
  · rw [Multiset.card_cons]
    change (Function.update q.bds q.head _ i).address = 0 ↔ Window q.size q.tail (out.card + 1) i
    rw [window_succ, ← h.head_eq hpos]
    by_cases hi' : i = q.head
    · subst hi'
      rw [Function.update_self]
      exact iff_of_true rfl (.inr rfl)
    · rw [Function.update_of_ne hi', h.empty i hi]
      exact (or_iff_left (Ne.symm hi')).symm
  · have hup := addresses_update (r := q.takeHead length) hhead rfl rfl
    rw [buffer_some hr.2.2, buffer_zero rfl, held_some, held_none, add_zero] at hup
    rw [← h.buffers, ← hup, ← Multiset.singleton_add, add_assoc]

theorem Ok.tail_empty (h : Ok B q out) (hout : 0 < out.card) : (q.bds q.tail).address = 0 := by
  have hle := h.out_le
  have htail := h.tail_lt (by omega)
  exact (h.empty q.tail htail).mpr ⟨0, hout, place_zero htail⟩

theorem Ok.putTail (h : Ok B q out) {pucData : Nat} (hout : pucData + rxbufHeadReserve ∈ out) :
    Ok B (q.putTail pucData) (out.erase (pucData + rxbufHeadReserve)) := by
  have hcons := Multiset.cons_erase hout
  have hcard : out.card = (out.erase (pucData + rxbufHeadReserve)).card + 1 := by
    rw [← Multiset.card_cons, hcons]
  have hle := h.out_le
  have htail := h.tail_lt (by omega)
  have hnext : (q.putTail pucData).tail = place q.size q.tail 1 := h.wraps.advance htail
  have hzero := h.tail_empty (by omega)
  have hne : pucData + rxbufHeadReserve ≠ 0 := Nat.succ_ne_zero _
  refine ⟨fun _ => ?_, ?_, fun hpos => ?_, h.wraps.update _ rfl, fun i hi => ?_, ?_, h.reserve⟩
  · rw [hnext]
    exact place_lt htail (by omega)
  · change _ ≤ q.size
    omega
  · have hhead := h.head_eq hpos
    rw [hcard, Nat.add_comm] at hhead
    rw [hnext]
    exact hhead.trans (place_place htail (by omega)).symm
  · have hwin := h.empty i hi
    rw [hcard, window_cons htail (by omega)] at hwin
    rw [hnext]
    change (Function.update q.bds q.tail _ i).address = 0 ↔ _
    by_cases hi' : i = q.tail
    · subst hi'
      rw [Function.update_self]
      exact iff_of_false hne (not_window_start htail (show _ < q.size by omega))
    · rw [Function.update_of_ne hi', hwin]
      exact or_iff_right (Ne.symm hi')
  · have hup := addresses_update (r := q.putTail pucData) htail rfl rfl
    rw [buffer_zero hzero, buffer_some hne, held_none, held_some, add_zero] at hup
    rw [← h.buffers, hup, add_assoc, Multiset.singleton_add, hcons]

theorem Ok.fill (h : Ok B q out) {i : Nat} (hi : i < q.size) (length : UInt16) (fstat : BitVec 12) :
    Ok B (q.fill i length fstat) out := by
  have hsame (j : Nat) : ((q.fill i length fstat).bds j).address = (q.bds j).address := by
    rw [RxBdInfo.fill]
    dsimp only
    by_cases hj : j = i
    · subst hj
      rw [Function.update_self]
    · rw [Function.update_of_ne hj]
  refine ⟨h.tail_lt, h.out_le, h.head_eq, h.wraps.update _ rfl, fun j hj => ?_, ?_, h.reserve⟩
  · rw [hsame]
    exact h.empty j hj
  · rw [← h.buffers, RxBdInfo.addresses, RxBdInfo.addresses]
    simp only [buffer, hsame]
    rfl

end Queue

/-- What happens to the driver: the DMA engine receives, the tasklet visits a
queue, and the stack gives back data and headers. A run of the tasklet is a
sequence of visits, with receptions in between. -/
inductive Event
  | receive (i : Fin maxReceiveQueues) (bd : Nat) (length : UInt16) (fstat : BitVec 12)
  | visit (i : Fin maxReceiveQueues) (devs : Devices)
  | giveBack (i : Fin maxReceiveQueues) (head : Nat)
  | giveHeader (skb : Nat)

def step (s : Sys) : Event → Sys
  | .receive i bd length fstat => s.setQueue i ((s.rx i).fill bd length fstat) (s.out i)
  | .visit i devs => (s.rxQueue devs i).1
  | .giveBack i head => s.freeData i head
  | .giveHeader skb => s.freeSkb skb

/-- The DMA engine works through a ring in order, and a buffer that is out comes
back to its own ring. -/
def Enabled (s : Sys) : Event → Prop
  | .receive i bd _ _ => bd < (s.rx i).size ∧ (s.rx i).Next bd
  | .giveBack i head => head + rxbufHeadReserve ∈ s.out i
  | .visit _ _ | .giveHeader _ => True

structure Conserved (s : Sys) : Prop where
  ends : ∀ i, 0 < (s.rx i).size → (s.rx i).head = place (s.rx i).size (s.rx i).tail (s.out i).card
  empty : ∀ i, ∀ j < (s.rx i).size,
    ((s.rx i).bds j).address = 0 ↔ Window (s.rx i).size (s.rx i).tail (s.out i).card j
  count : ∀ i, ((Finset.range (s.rx i).size).filter fun j => ((s.rx i).bds j).address = 0).card = (s.out i).card
  distinct : (∑ i, (s.rx i).addresses).Nodup
  wraps : ∀ i, Wraps (s.rx i).size (s.rx i).bds
  place : s.noPlace = false

structure Inv (B : Fin maxReceiveQueues → Multiset Nat) (s : Sys) : Prop where
  ok : ∀ i, Ok (B i) (s.rx i) (s.out i)
  place : s.noPlace = false

section Step

variable {B : Fin maxReceiveQueues → Multiset Nat} {s : Sys}

theorem Ok.count {B out : Multiset Nat} {q : RxBdInfo} (h : Ok B q out) :
    ((Finset.range q.size).filter fun j => (q.bds j).address = 0).card = out.card := by
  rcases Nat.eq_zero_or_pos q.size with h0 | hpos
  · have hle := h.out_le
    rw [h0, Finset.range_zero, Finset.filter_empty, Finset.card_empty]
    omega
  · rw [← card_window (h.tail_lt hpos) h.out_le]
    refine congrArg Finset.card (Finset.filter_congr fun j hj => ?_)
    exact h.empty j (Finset.mem_range.mp hj)

theorem Inv.conserved (hB : (∑ i, B i).Nodup) (h : Inv B s) : Conserved s := by
  refine ⟨fun i => (h.ok i).head_eq, fun i => (h.ok i).empty, fun i => (h.ok i).count, ?_,
    fun i => (h.ok i).wraps, h.place⟩
  refine Multiset.nodup_of_le (Finset.sum_le_sum fun i _ => ?_) hB
  rw [← (h.ok i).buffers]
  exact Multiset.le_add_right ..

theorem Inv.setQueue (h : Inv B s) {i : Fin maxReceiveQueues} {q : RxBdInfo} {out : Multiset Nat}
    (hok : Ok (B i) q out) : Inv B (s.setQueue i q out) := by
  refine ⟨fun j => ?_, h.place⟩
  rw [Sys.setQueue]
  dsimp only
  by_cases hj : j = i
  · subst hj
    rwa [Function.update_self, Function.update_self]
  · rw [Function.update_of_ne hj, Function.update_of_ne hj]
    exact h.ok j

theorem Inv.assign (h : Inv B s) {i : Fin maxReceiveQueues} {pucData : Nat}
    (hout : pucData + rxbufHeadReserve ∈ s.out i) : Inv B (s.assign i pucData) := by
  have hzero := (h.ok i).tail_empty (Multiset.card_pos_iff_exists_mem.mpr ⟨_, hout⟩)
  rw [Sys.assign, RxBdInfo.assignRxBuffer, if_pos hzero]
  exact h.setQueue ((h.ok i).putTail hout)

theorem Inv.take (h : Inv B s) {i : Fin maxReceiveQueues} (hr : (s.rx i).Ready) (length : UInt16) :
    Inv B (s.take i length) :=
  h.setQueue ((h.ok i).takeHead hr length)

theorem Inv.reserve (h : Inv B s) {i : Fin maxReceiveQueues} (hr : (s.rx i).Ready) :
    ((s.rx i).bds (s.rx i).head).address - rxbufHeadReserve + rxbufHeadReserve =
      ((s.rx i).bds (s.rx i).head).address := by
  refine Nat.sub_add_cancel ((h.ok i).reserve _ ?_)
  rw [← ((h.ok i).takeHead hr 0).buffers]
  exact Multiset.mem_add.mpr (.inr (Multiset.mem_cons_self _ _))

theorem take_out (s : Sys) (i : Fin maxReceiveQueues) (length : UInt16) :
    (s.take i length).out i = ((s.rx i).bds (s.rx i).head).address ::ₘ s.out i := Function.update_self ..

inductive Visited (devs : Devices) (s : Sys) (i : Fin maxReceiveQueues) : Sys × Option RxSkb → Prop
  | idle (hr : ¬ (s.rx i).Ready) : Visited devs s i (s, none)
  | recycled (hr : (s.rx i).Ready) (length : UInt16) : Visited devs s i
      ((s.take i length).assign i (((s.rx i).bds (s.rx i).head).address - rxbufHeadReserve), none)
  | fault (hr : (s.rx i).Ready) (length : UInt16)
      (hdev : ∃ dev, fate devs ((s.rx i).bds (s.rx i).head).status.fstat = .deliver dev)
      (hlist : s.freeRxSkbList = []) : Visited devs s i ((s.take i length).fault, none)
  | delivered (hr : (s.rx i).Ready) (length : UInt16) {skb : RxSkb} {skbs : List Nat}
      (hhead : skb.head = ((s.rx i).bds (s.rx i).head).address - rxbufHeadReserve)
      (hlist : s.freeRxSkbList = skb.header :: skbs) : Visited devs s i ((s.take i length).setList skbs, some skb)

theorem rxQueue_visited (devs : Devices) (s : Sys) (i : Fin maxReceiveQueues) :
    Visited devs s i (s.rxQueue devs i) := by
  rw [Sys.rxQueue]
  split
  case isTrue hnot => exact .idle hnot
  case isFalse hnot =>
    have hr := not_not.mp hnot
    split
    · exact .recycled hr _
    case h_2 dev hdev =>
      split
      case h_1 hlist => exact .fault hr _ ⟨dev, hdev⟩ hlist
      case h_2 hlist => exact .delivered hr _ rfl hlist

theorem Inv.recycled (h : Inv B s) {i : Fin maxReceiveQueues} (hr : (s.rx i).Ready) (length : UInt16) :
    ((s.rx i).bds (s.rx i).head).address - rxbufHeadReserve + rxbufHeadReserve ∈ (s.take i length).out i := by
  rw [h.reserve hr, take_out]
  exact Multiset.mem_cons_self _ _

theorem Inv.rxQueue (h : Inv B s) (devs : Devices) (i : Fin maxReceiveQueues) : Inv B (s.rxQueue devs i).1 := by
  have hvisited := rxQueue_visited devs s i
  generalize s.rxQueue devs i = r at hvisited ⊢
  cases hvisited with
  | idle => exact h
  | recycled hr length => exact (h.take hr length).assign (h.recycled hr length)
  | fault hr length | delivered hr length => exact ⟨(h.take hr length).ok, h.place⟩

theorem Inv.step (h : Inv B s) {e : Event} (hen : Enabled s e) : Inv B (step s e) := by
  cases e with
  | receive i bd length fstat => exact h.setQueue ((h.ok i).fill hen.1 length fstat)
  | visit i devs => exact h.rxQueue devs i
  | giveBack i head => exact h.assign hen
  | giveHeader skb => exact ⟨h.ok, h.place⟩

end Step

section Tasklet

def filled (bd : DmaDesc) : Nat := if bd.status.own = false ∧ bd.address ≠ 0 then 1 else 0

def filledIn (q : RxBdInfo) : Nat := ∑ j ∈ Finset.range q.size, filled (q.bds j)

def pending (s : Sys) : Nat := ∑ i, filledIn (s.rx i)

variable {B : Fin maxReceiveQueues → Multiset Nat} {s : Sys}

theorem pending_setQueue (s : Sys) (i : Fin maxReceiveQueues) (q : RxBdInfo) (out : Multiset Nat) :
    pending (s.setQueue i q out) + filledIn (s.rx i) = pending s + filledIn q :=
  sum_update (Finset.mem_univ i) filledIn s.rx q

theorem pending_update {i : Fin maxReceiveQueues} {q : RxBdInfo} {j : Nat} {bd : DmaDesc} (hj : j < (s.rx i).size)
    (hsize : q.size = (s.rx i).size) (hbds : q.bds = Function.update (s.rx i).bds j bd) (out : Multiset Nat) :
    pending (s.setQueue i q out) + filled ((s.rx i).bds j) = pending s + filled bd := by
  have hqueue := pending_setQueue s i q out
  have hring := sum_update (Finset.mem_range.mpr hj) filled (s.rx i).bds bd
  rw [filledIn, filledIn, hsize, hbds] at hqueue
  omega

theorem Inv.pending_take (h : Inv B s) {i : Fin maxReceiveQueues} (hr : (s.rx i).Ready) (length : UInt16) :
    pending (s.take i length) + 1 = pending s := by
  have hup := pending_update ((h.ok i).head_lt (Nat.pos_of_ne_zero hr.1)) (q := (s.rx i).takeHead length) rfl rfl
    (((s.rx i).bds (s.rx i).head).address ::ₘ s.out i)
  rw [filled, filled, if_pos hr.2, if_neg fun hbd => hbd.2 rfl] at hup
  exact hup

theorem Inv.pending_assign (h : Inv B s) {i : Fin maxReceiveQueues} {pucData : Nat}
    (hout : pucData + rxbufHeadReserve ∈ s.out i) : pending (s.assign i pucData) = pending s := by
  have hcard : 0 < (s.out i).card := Multiset.card_pos_iff_exists_mem.mpr ⟨_, hout⟩
  have hle := (h.ok i).out_le
  have hzero := (h.ok i).tail_empty hcard
  have hup := pending_update ((h.ok i).tail_lt (by omega)) (q := (s.rx i).putTail pucData) rfl rfl
    ((s.out i).erase (pucData + rxbufHeadReserve))
  rw [filled, filled, if_neg fun hbd => hbd.2 hzero, if_neg fun hbd => Bool.noConfusion hbd.1] at hup
  rw [Sys.assign, RxBdInfo.assignRxBuffer, if_pos hzero]
  exact hup

theorem Inv.pending_rxQueue (h : Inv B s) (devs : Devices) {i : Fin maxReceiveQueues} (hr : (s.rx i).Ready) :
    pending (s.rxQueue devs i).1 + 1 = pending s := by
  have hvisited := rxQueue_visited devs s i
  generalize s.rxQueue devs i = r at hvisited ⊢
  cases hvisited with
  | idle hnot => exact absurd hr hnot
  | recycled _ length => rw [(h.take hr length).pending_assign (h.recycled hr length), h.pending_take hr]
  | fault _ length | delivered _ length => exact h.pending_take hr length

theorem rxQueue_not_ready (devs : Devices) {i : Fin maxReceiveQueues} (hr : ¬ (s.rx i).Ready) :
    s.rxQueue devs i = (s, none) := if_pos hr

/-- What a round does up to some queue: it is a run of visits, and it takes a
packet or finds that there is none. -/
structure Rounded (devs : Devices) (l : List (Fin maxReceiveQueues)) (r r' : Round) : Prop where
  run : ∃ es : List Event, (∀ e ∈ es, ∃ i, e = .visit i devs) ∧ r'.sys = es.foldl step r.sys
  le : pending r'.sys ≤ pending r.sys
  more : r'.more = true → r.more = true ∨ pending r'.sys < pending r.sys
  idle : r'.more = false → r.more = false ∧ r'.sys = r.sys
  quiet : r'.more = false → r'.sys.oops = false → ∀ i ∈ l, ¬ (r.sys.rx i).Ready

theorem Rounded.visit (devs : Devices) (i : Fin maxReceiveQueues) {r : Round} (h : Inv B r.sys) :
    Rounded devs [i] r (r.visit devs i) := by
  rw [Round.visit]
  split
  case isTrue hoops =>
    refine ⟨⟨[], nofun, rfl⟩, le_rfl, .inl, fun hm => ⟨hm, rfl⟩, fun _ hno => ?_⟩
    rw [hoops] at hno
    cases hno
  case isFalse hoops =>
    have hrun : ∃ es : List Event, (∀ e ∈ es, ∃ j, e = .visit j devs) ∧ (r.sys.rxQueue devs i).1 = es.foldl step r.sys :=
      ⟨[.visit i devs], fun e he => ⟨i, List.mem_singleton.mp he⟩, rfl⟩
    by_cases hr : (r.sys.rx i).Ready
    · have hlt := h.pending_rxQueue devs hr
      refine ⟨hrun, ?_, fun _ => .inr ?_, fun hm => ?_, fun hm => ?_⟩
      · dsimp only
        omega
      · dsimp only
        omega
      · simp [hr] at hm
      · simp [hr] at hm
    · have hsame := rxQueue_not_ready devs hr
      refine ⟨hrun, ?_, fun hm => .inl ?_, fun hm => ⟨?_, ?_⟩, fun _ _ j hj => ?_⟩
      · rw [hsame]
      · simpa [hr] using hm
      · simpa [hr] using hm
      · rw [hsame]
      · rw [List.mem_singleton.mp hj]
        exact hr

theorem Inv.visit (h : Inv B s) {es : List Event} {devs : Devices} (hes : ∀ e ∈ es, ∃ i, e = .visit i devs) :
    Inv B (es.foldl ReceiveBuffers.step s) := by
  induction es generalizing s with
  | nil => exact h
  | cons e es ih =>
      obtain ⟨i, rfl⟩ := hes e List.mem_cons_self
      exact ih (h.rxQueue devs i) fun e he => hes e (List.mem_cons_of_mem _ he)

theorem Rounded.foldl (devs : Devices) (l : List (Fin maxReceiveQueues)) {r : Round} (h : Inv B r.sys) :
    Rounded devs l r (l.foldl (Round.visit devs) r) := by
  induction l generalizing r with
  | nil => exact ⟨⟨[], nofun, rfl⟩, le_rfl, .inl, fun hm => ⟨hm, rfl⟩, fun _ _ _ => nofun⟩
  | cons i l ih =>
      have hfirst := Rounded.visit devs i h
      obtain ⟨es, hes, hsys⟩ := hfirst.run
      have hrest := ih (r := r.visit devs i) (hsys ▸ h.visit hes)
      obtain ⟨es', hes', hsys'⟩ := hrest.run
      refine ⟨⟨es ++ es', fun e he => ?_, ?_⟩, hrest.le.trans hfirst.le, fun hm => ?_, fun hm => ?_, ?_⟩
      · exact (List.mem_append.mp he).elim (hes e) (hes' e)
      · rw [List.foldl_append, ← hsys]
        exact hsys'
      · rcases hrest.more hm with hm | hlt
        · exact (hfirst.more hm).imp_right fun hlt => hrest.le.trans_lt hlt
        · exact .inr (hlt.trans_le hfirst.le)
      · obtain ⟨hm, hsame⟩ := hrest.idle hm
        exact ⟨(hfirst.idle hm).1, hsame.trans (hfirst.idle hm).2⟩
      · intro hm hno j hj
        obtain ⟨hm', hsame⟩ := hrest.idle hm
        have hno' : (r.visit devs i).sys.oops = false := hsame ▸ hno
        have hquiet := hrest.quiet hm hno
        rw [(hfirst.idle hm').2] at hquiet
        rcases List.mem_cons.mp hj with rfl | hj
        · exact hfirst.quiet hm' hno' j (List.mem_singleton_self j)
        · exact hquiet j hj

theorem Inv.rxtasklet (h : Inv B s) (devs : Devices) (n : Nat) :
    (∃ es : List Event, (∀ e ∈ es, ∃ i, e = .visit i devs) ∧ (bcmxtmrtRxtasklet devs n s).1 = es.foldl ReceiveBuffers.step s) ∧
      (pending s < n → (bcmxtmrtRxtasklet devs n s).1.oops = false →
        ∀ i, ¬ ((bcmxtmrtRxtasklet devs n s).1.rx i).Ready) := by
  induction n generalizing s with
  | zero => exact ⟨⟨[], nofun, rfl⟩, nofun⟩
  | succ n ih =>
      have hround : Rounded devs (List.finRange maxReceiveQueues) ⟨s, [], false⟩ (rxRound devs s) :=
        Rounded.foldl devs _ h
      obtain ⟨es, hes, hsys⟩ := hround.run
      rw [bcmxtmrtRxtasklet]
      dsimp only
      split
      case isTrue hmore =>
        obtain ⟨⟨es', hes', hrun⟩, hend⟩ := ih (s := (rxRound devs s).sys) (hsys ▸ h.visit hes)
        refine ⟨⟨es ++ es', fun e he => (List.mem_append.mp he).elim (hes e) (hes' e), ?_⟩, fun hlt => hend ?_⟩
        · rw [List.foldl_append, ← hsys]
          exact hrun
        · have hless := (hround.more hmore.1).resolve_left Bool.false_ne_true
          exact Nat.lt_of_lt_of_le hless (Nat.lt_succ_iff.mp hlt)
      case isFalse hmore =>
        refine ⟨⟨es, hes, hsys⟩, fun _ hno i => ?_⟩
        have hm : (rxRound devs s).more = false := Bool.eq_false_iff.mpr fun hm => hmore ⟨hm, hno⟩
        rw [(hround.idle hm).2]
        exact hround.quiet hm hno i (List.mem_finRange i)

end Tasklet

section Init

theorem mem_blockBufs {p amt a : Nat} (h : a ∈ blockBufs p amt) :
    p + rxbufHeadReserve ≤ a ∧ a < p + amt * rxbufAllocSize + rxbufHeadReserve := by
  obtain ⟨i, hi, rfl⟩ := List.mem_map.mp h
  rw [List.mem_range] at hi
  simp only [rxbufHeadReserve, rxbufAllocSize]
  omega

theorem blockBufs_nodup (p amt : Nat) : (blockBufs p amt).Nodup := by
  refine (List.nodup_range).map fun i j hij => ?_
  simp only [rxbufAllocSize] at hij
  omega

theorem allocBufs_spec {blocks : List (Option Nat)} {n : Nat} {addrs : List Nat}
    (h : allocBufs blocks n = some (true, addrs)) :
    addrs.length = n ∧
      (∀ a ∈ addrs, ∃ b ∈ granted blocks n, b.1 + rxbufHeadReserve ≤ a ∧ a < b.1 + b.2 + rxbufHeadReserve) ∧
      (Separate (granted blocks n) → addrs.Nodup) := by
  induction blocks generalizing n addrs with
  | nil =>
      cases n with
      | zero =>
          simp only [allocBufs, Option.some.injEq, Prod.mk.injEq, true_and] at h
          subst h
          exact ⟨rfl, nofun, fun _ => List.nodup_nil⟩
      | succ n => simp [allocBufs] at h
  | cons block blocks ih =>
      cases n with
      | zero =>
          simp only [allocBufs, Option.some.injEq, Prod.mk.injEq, true_and] at h
          subst h
          exact ⟨rfl, nofun, fun _ => List.nodup_nil⟩
      | succ n =>
          cases block with
          | none => simp [allocBufs] at h
          | some p =>
              simp only [allocBufs, Option.map_eq_some_iff, Prod.exists, Prod.mk.injEq] at h
              obtain ⟨ok, rest, hrest, rfl, rfl⟩ := h
              obtain ⟨hlen, hmem, hnodup⟩ := ih hrest
              have hfirst : (blockBufs p (min bufsPerBlock (n + 1))).length = min bufsPerBlock (n + 1) := by
                rw [blockBufs, List.length_map, List.length_range]
              rw [granted]
              refine ⟨?_, fun a ha => ?_, fun hsep => ?_⟩
              · rw [List.length_append, hlen, hfirst]
                omega
              · rcases List.mem_append.mp ha with ha | ha
                · exact ⟨_, List.mem_cons_self, mem_blockBufs ha⟩
                · obtain ⟨b, hb, hab⟩ := hmem a ha
                  exact ⟨b, List.mem_cons_of_mem _ hb, hab⟩
              · rw [Separate, List.pairwise_cons] at hsep
                refine List.nodup_append.mpr ⟨blockBufs_nodup _ _, hnodup hsep.2, fun a ha b hb heq => ?_⟩
                subst heq
                obtain ⟨c, hc, hac⟩ := hmem a hb
                have hapart := hsep.1 c hc
                have hin := mem_blockBufs ha
                dsimp only at hapart
                omega

theorem contents_getD (l : List Nat) {n : Nat} (hn : n ≤ l.length) :
    contents n (fun j => some (l.getD j 0)) = ↑(l.take n) := by
  induction n with
  | zero => rfl
  | succ n ih =>
      have hget : l[n]? = some (l.getD n 0) := by
        rw [List.getD_eq_getElem?_getD, List.getElem?_eq_getElem hn]
        rfl
      have hprev := ih (by omega)
      rw [contents] at hprev ⊢
      rw [Finset.sum_range_succ, hprev, List.take_add_one, hget, Option.toList_some, ← Multiset.coe_add]
      rfl

theorem initQueue_ok {size : Nat} {addrs : List Nat} (hsize : size ≤ addrs.length)
    (haddrs : ∀ a ∈ addrs, rxbufHeadReserve ≤ a) : Ok ↑(addrs.take size) (initQueue size addrs) 0 := by
  have hne (j : Nat) (hj : j < size) : ((initQueue size addrs).bds j).address ≠ 0 := by
    have hmem : addrs.getD j 0 ∈ addrs := by
      have hlt : j < addrs.length := by omega
      rw [List.getD_eq_getElem?_getD, List.getElem?_eq_getElem hlt]
      exact List.getElem_mem hlt
    have hle := haddrs _ hmem
    rw [rxbufHeadReserve] at hle
    change addrs.getD j 0 ≠ 0
    omega
  refine ⟨id, Nat.zero_le _, fun hpos => (place_zero hpos).symm, fun _ _ => rfl, fun j hj => ?_, ?_, fun a ha => ?_⟩
  · rw [Multiset.card_zero]
    exact iff_of_false (hne j hj) not_window_zero
  · rw [add_zero, ← contents_getD addrs hsize, RxBdInfo.addresses, contents, contents]
    refine Finset.sum_congr rfl fun j hj => ?_
    rw [buffer_some (hne j (Finset.mem_range.mp hj))]
    rfl
  · exact haddrs a (List.mem_of_mem_take ha)

def initBufs (sizes : Fin maxReceiveQueues → Nat) (addrs : List Nat) (i : Fin maxReceiveQueues) : Multiset Nat :=
  ↑((addrs.drop (offset sizes i)).take (sizes i))

theorem offset_add_le (sizes : Fin maxReceiveQueues → Nat) (i : Fin maxReceiveQueues) :
    offset sizes i + sizes i ≤ ∑ j, sizes j := by
  rw [offset, add_comm, ← Finset.sum_insert (by simp)]
  exact Finset.sum_le_sum_of_subset (Finset.subset_univ _)

theorem sum_initBufs {sizes : Fin maxReceiveQueues → Nat} {addrs : List Nat} (hlen : addrs.length = ∑ i, sizes i) :
    ∑ i, initBufs sizes addrs i = ↑addrs := by
  have hoff (i : Fin maxReceiveQueues) : offset sizes i = ∑ j : Fin 4, if j < i then sizes j else 0 := by
    rw [offset, Finset.sum_filter]
  have h0 : offset sizes 0 = 0 := by simp [hoff]
  have h1 : offset sizes 1 = sizes 0 := by
    rw [hoff, Fin.sum_univ_four]
    rfl
  have h2 : offset sizes 2 = sizes 0 + sizes 1 := by
    rw [hoff, Fin.sum_univ_four]
    rfl
  have h3 : offset sizes 3 = sizes 0 + sizes 1 + sizes 2 := by
    rw [hoff, Fin.sum_univ_four]
    rfl
  rw [Fin.sum_univ_four] at hlen
  have hlast : (addrs.drop (sizes 0 + sizes 1 + sizes 2)).take (sizes 3) =
      addrs.drop (sizes 0 + sizes 1 + sizes 2) :=
    List.take_of_length_le (by rw [List.length_drop, hlen]; omega)
  rw [Fin.sum_univ_four]
  simp only [initBufs, h0, h1, h2, h3, hlast, List.drop_zero, Multiset.coe_add]
  rw [← List.take_add, ← List.take_add, List.take_append_drop]

theorem init_inv {uninitialized skbMem bdMem : Bool} {blocks : List (Option Nat)} {free : List Nat}
    {parms : GlobalInitParms} {s : Sys}
    (h : doGlobInitReq uninitialized skbMem bdMem blocks (loaded free) parms = some (0, s)) :
    (∃ addrs : List Nat, addrs.length = ∑ i, parms.sizes i ∧
      (Separate (granted blocks (∑ i, parms.sizes i)) → addrs.Nodup) ∧ Inv (initBufs parms.sizes addrs) s) ∧
    s.freeRxSkbList = (List.range (∑ i, parms.sizes i)).reverse ++ free ∧ s.oops = false := by
  rw [doGlobInitReq] at h
  split at h
  · cases h
  split at h
  · cases h
  obtain ⟨⟨ok, addrs⟩, haddrs, heq⟩ := Option.map_eq_some_iff.mp h
  cases ok with
  | false => cases heq
  | true =>
      obtain ⟨hlen, hmem, hnodup⟩ := allocBufs_spec haddrs
      rw [if_pos rfl, Prod.mk.injEq] at heq
      rw [← heq.2]
      refine ⟨⟨addrs, hlen, hnodup, fun i => initQueue_ok ?_ fun a ha => ?_, rfl⟩, rfl, rfl⟩
      · have hle := offset_add_le parms.sizes i
        rw [List.length_drop]
        omega
      · obtain ⟨b, _, hb, _⟩ := hmem a (List.mem_of_mem_drop ha)
        omega

end Init

/-- From an initialisation that returned 0, the data buffers are conserved in
every run. -/
theorem receive_buffers_conserved {uninitialized skbMem bdMem : Bool} {blocks : List (Option Nat)} {free : List Nat}
    {parms : GlobalInitParms} {s : Sys} (hsep : Separate (granted blocks (∑ i, parms.sizes i)))
    (hinit : doGlobInitReq uninitialized skbMem bdMem blocks (loaded free) parms = some (0, s)) {es : List Event}
    (hE : Along step Enabled s es) : Throughout step Conserved s es := by
  obtain ⟨⟨addrs, hlen, hnodup, hinv⟩, _⟩ := init_inv hinit
  have hB : (∑ i, initBufs parms.sizes addrs i).Nodup := by
    rw [sum_initBufs hlen]
    exact hnodup hsep
  exact Throughout.of_invariant (I := Inv (initBufs parms.sizes addrs)) (C := fun _ _ => True)
    (fun _ h => h.conserved hB) (fun _ _ h hen _ => h.step hen) hinv hE (Along.of_forall (fun _ _ => trivial) s es)

def demoParms : GlobalInitParms := ⟨![2, 0, 0, 0], by decide⟩

def demoSys : Sys :=
  { (loaded []).setList [1, 0] with
    rx := fun i => initQueue (demoParms.sizes i) ((blockBufs 0x100000 2).drop (offset demoParms.sizes i)) }

def demoDevices : Devices := fun _ => some ⟨false, true, 0⟩

theorem demoSys_init :
    doGlobInitReq true true true [some 0x100000] (loaded []) demoParms = some (0, demoSys) := rfl

def demoEvents : List Event :=
  [.receive 0 0 64 0, .visit 0 demoDevices, .receive 0 1 64 0x800, .visit 0 demoDevices, .giveBack 0 0x100000]

theorem demoEvents_enabled : Along step Enabled demoSys demoEvents := by
  refine ⟨⟨by decide, by decide, 0, by decide, by decide, nofun⟩, trivial,
    ⟨by decide, by decide, 0, by decide, by decide, nofun⟩, trivial, ?_, trivial⟩
  rw [Enabled]
  decide

theorem receive_buffers_conserved_demo : Throughout step Conserved demoSys demoEvents :=
  receive_buffers_conserved (by decide) demoSys_init demoEvents_enabled

end AliceModem.ReceiveBuffers
