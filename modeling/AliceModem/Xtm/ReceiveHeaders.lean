import AliceModem.Xtm.ReceiveBuffers

namespace AliceModem.ReceiveHeaders

open RingBuffer Dma Receive ReceiveBuffers Transition

/-- The data of a packet: a buffer of the driver, by its start, or memory of the
kernel. -/
inductive Data
  | pool (head : Nat)
  | heap (k : Nat)
  deriving DecidableEq

/-- A packet that descends from one the driver delivered. Its header is one of
the driver's, or the kernel's own; `prealloc` is the flag of its data. -/
structure Skb where
  hdr : Option Nat
  queue : Fin maxReceiveQueues
  data : Data
  prealloc : Bool
  cloned : Bool
  deriving DecidableEq

/-- The driver and the stack. A packet that is being freed has returned its data
and not yet its header. -/
structure Stack where
  drv : Sys
  live : Multiset Skb
  dying : Multiset Nat
  dataref : Data → Nat
  fresh : Nat

namespace Stack

def giveData (s : Stack) (skb : Skb) : Stack :=
  match skb.prealloc, skb.data with
  | true, .pool head => { s with drv := s.drv.freeData skb.queue head }
  | _, _ => s

def skbReleaseData (s : Stack) (skb : Skb) : Stack :=
  if skb.cloned then
    let n := s.dataref skb.data - 1
    let s := { s with dataref := Function.update s.dataref skb.data n }
    if n = 0 then s.giveData skb else s
  else s.giveData skb

def skbClone (s : Stack) (skb : Skb) (memory : Bool) : Stack :=
  if memory then
    { s with
      live := { skb with cloned := true } ::ₘ { skb with hdr := none, cloned := true } ::ₘ s.live.erase skb
      dataref := Function.update s.dataref skb.data (s.dataref skb.data + 1) }
  else s

def pskbExpandHead (s : Stack) (skb : Skb) (memory : Bool) : Stack :=
  if memory then
    let s := { s.skbReleaseData skb with live := s.live.erase skb }
    { s with
      live := { skb with data := .heap s.fresh, prealloc := false, cloned := false } ::ₘ s.live
      dataref := Function.update s.dataref (.heap s.fresh) 1
      fresh := s.fresh + 1 }
  else s

def kfreeData (s : Stack) (skb : Skb) : Stack :=
  { s.skbReleaseData skb with live := s.live.erase skb, dying := held skb.hdr + s.dying }

def kfreeHeader (s : Stack) (hdr : Nat) : Stack :=
  { s with drv := s.drv.freeSkb hdr, dying := s.dying.erase hdr }

def netifRx (s : Stack) (i : Fin maxReceiveQueues) (skb : RxSkb) : Stack :=
  { s with
    live := ⟨some skb.header, i, .pool skb.head, true, false⟩ ::ₘ s.live
    dataref := Function.update s.dataref (.pool skb.head) 1 }

def visit (s : Stack) (i : Fin maxReceiveQueues) (devs : Devices) : Stack :=
  match s.drv.rxQueue devs i with
  | (drv, none) => { s with drv := drv }
  | (drv, some skb) => netifRx { s with drv := drv } i skb

end Stack

inductive Event
  | receive (i : Fin maxReceiveQueues) (bd : Nat) (length : UInt16) (fstat : BitVec 12)
  | visit (i : Fin maxReceiveQueues) (devs : Devices)
  | clone (skb : Skb) (memory : Bool)
  | expandHead (skb : Skb) (memory : Bool)
  | kfreeData (skb : Skb)
  | kfreeHeader (hdr : Nat)

def step (s : Stack) : Event → Stack
  | .receive i bd length fstat => { s with drv := ReceiveBuffers.step s.drv (.receive i bd length fstat) }
  | .visit i devs => s.visit i devs
  | .clone skb memory => s.skbClone skb memory
  | .expandHead skb memory => s.pskbExpandHead skb memory
  | .kfreeData skb => s.kfreeData skb
  | .kfreeHeader hdr => s.kfreeHeader hdr

def Enabled (s : Stack) : Event → Prop
  | .receive i bd length fstat => ReceiveBuffers.Enabled s.drv (.receive i bd length fstat)
  | .visit _ _ => s.drv.oops = false
  | .clone skb _ | .expandHead skb _ | .kfreeData skb => skb ∈ s.live
  | .kfreeHeader hdr => hdr ∈ s.dying

/-- The tasklet has found a header whenever it needed one. -/
def Supplied (s : Stack) : Prop := s.drv.oops = false

def Delivers (s : Stack) (i : Fin maxReceiveQueues) (devs : Devices) : Prop :=
  (s.drv.rx i).Ready ∧ ∃ dev, fate devs ((s.drv.rx i).bds (s.drv.rx i).head).status.fstat = .deliver dev

/-- When a header is taken, every header that is out has its data buffer with it. -/
def Paired (s : Stack) : Event → Prop
  | .visit i devs => Delivers s i devs → s.dying = 0 ∧ ∀ skb ∈ s.live, skb.hdr ≠ none → skb.prealloc = true
  | _ => True

def refs (live : Multiset Skb) (d : Data) : Nat := (live.map Skb.data).count d

/-- The packets with a header of the driver, and those of them that still have
their data buffer. -/
def headed (live : Multiset Skb) : Multiset Skb := live.filter fun skb => skb.hdr.isSome

def paired (live : Multiset Skb) : Multiset Skb := live.filter fun skb => skb.hdr.isSome && skb.prealloc

structure Core (B : Fin maxReceiveQueues → Multiset Nat) (s : Stack) : Prop where
  drv : Inv B s.drv
  dataref : ∀ skb ∈ s.live, s.dataref skb.data = refs s.live skb.data
  alone : ∀ skb ∈ s.live, skb.cloned = false → refs s.live skb.data = 1
  pool : ∀ skb ∈ s.live, skb.prealloc = true → ∃ head, skb.data = .pool head
  out : ∀ skb ∈ s.live, ∀ head, skb.data = .pool head → head + rxbufHeadReserve ∈ s.drv.out skb.queue
  heap : ∀ skb ∈ s.live, ∀ k, skb.data = .heap k → k < s.fresh
  distinct : ((paired s.live).map Skb.data).Nodup

section Core

variable {B : Fin maxReceiveQueues → Multiset Nat} {s : Stack} {skb : Skb}

theorem refs_cons (skb : Skb) (live : Multiset Skb) (d : Data) :
    refs (skb ::ₘ live) d = refs live d + if d = skb.data then 1 else 0 := by
  rw [refs, Multiset.map_cons, Multiset.count_cons, refs]

theorem refs_pos {live : Multiset Skb} (h : skb ∈ live) : 0 < refs live skb.data :=
  Multiset.count_pos.mpr (Multiset.mem_map_of_mem _ h)

theorem ne_of_refs_zero {live : Multiset Skb} {d : Data} (h0 : refs live d = 0) (h : skb ∈ live) : skb.data ≠ d := by
  rintro rfl
  exact absurd (refs_pos h) (by omega)

theorem refs_of_ne {d : Data} (hd : d ≠ skb.data) (live : Multiset Skb) : refs (skb ::ₘ live) d = refs live d := by
  rw [refs_cons, if_neg hd, Nat.add_zero]

theorem Core.drop (h : Core B s) {live : Multiset Skb} (hlive : s.live = skb ::ₘ live) {dataref : Data → Nat}
    (href : ∀ k ∈ live, dataref k.data = refs live k.data) :
    Core B { s with live := live, dataref := dataref } := by
  have hmem (k : Skb) (hk : k ∈ live) : k ∈ s.live := hlive ▸ Multiset.mem_cons_of_mem hk
  refine ⟨h.drv, href, fun k hk hc => ?_, fun k hk => h.pool k (hmem k hk), fun k hk => h.out k (hmem k hk),
    fun k hk => h.heap k (hmem k hk), ?_⟩
  · have hone := h.alone k (hmem k hk) hc
    have hpos : 0 < refs live k.data := refs_pos hk
    rw [hlive, refs_cons] at hone
    change refs live k.data = 1
    omega
  · refine Multiset.nodup_of_le (Multiset.map_le_map ?_) h.distinct
    rw [hlive]
    exact Multiset.filter_le_filter _ (Multiset.le_cons_self _ _)

theorem Core.giveData (h : Core B s) (hno : refs s.live skb.data = 0)
    (hout : ∀ head, skb.data = .pool head → head + rxbufHeadReserve ∈ s.drv.out skb.queue) :
    Core B (s.giveData skb) := by
  rw [Stack.giveData]
  split
  case h_2 => exact h
  case h_1 head _ hdata =>
    have hassign := h.drv.assign (hout head hdata)
    have hzero := (h.drv.ok skb.queue).tail_empty (Multiset.card_pos_iff_exists_mem.mpr ⟨_, hout head hdata⟩)
    refine ⟨hassign, h.dataref, h.alone, h.pool, fun k hk head' hk' => ?_, h.heap, h.distinct⟩
    have hne : head' + rxbufHeadReserve ≠ head + rxbufHeadReserve := by
      intro heq
      refine ne_of_refs_zero hno hk ?_
      rw [hk', hdata, Nat.add_right_cancel heq]
    have hk' := h.out k hk head' hk'
    simp only [Sys.freeData, Sys.assign, RxBdInfo.assignRxBuffer, if_pos hzero, Sys.setQueue]
    by_cases hq : k.queue = skb.queue
    · rw [hq] at hk' ⊢
      rw [Function.update_self]
      exact (Multiset.mem_erase_of_ne hne).mpr hk'
    · rw [Function.update_of_ne hq]
      exact hk'

theorem giveData_live (s : Stack) (skb : Skb) (live : Multiset Skb) :
    { s.giveData skb with live := live } = Stack.giveData { s with live := live } skb := by
  simp only [Stack.giveData]
  split <;> rfl

theorem Core.release (h : Core B s) (hm : skb ∈ s.live) :
    Core B { s.skbReleaseData skb with live := s.live.erase skb } := by
  obtain ⟨live, hlive⟩ := Multiset.exists_cons_of_mem hm
  have hrefs : refs s.live skb.data = refs live skb.data + 1 := by rw [hlive, refs_cons, if_pos rfl]
  have hother (k : Skb) (hk : k ∈ live) (hne : k.data ≠ skb.data) : s.dataref k.data = refs live k.data := by
    rw [h.dataref k (hlive ▸ Multiset.mem_cons_of_mem hk), hlive, refs_of_ne hne]
  have hout := h.out skb hm
  rw [hlive, Multiset.erase_cons_head, Stack.skbReleaseData]
  split
  case isTrue hc =>
    have hn : s.dataref skb.data - 1 = refs live skb.data := by
      rw [h.dataref skb hm, hrefs, Nat.add_sub_cancel]
    have hdrop : Core B { s with live := live, dataref := Function.update s.dataref skb.data (s.dataref skb.data - 1) } := by
      refine h.drop hlive fun k hk => ?_
      by_cases hk' : k.data = skb.data
      · rw [hk', Function.update_self, hn]
      · rw [Function.update_of_ne hk', hother k hk hk']
    dsimp only
    split
    case isTrue h0 =>
      rw [giveData_live]
      exact hdrop.giveData (hn ▸ h0) hout
    case isFalse => exact hdrop
  case isFalse hc =>
    have h0 : refs live skb.data = 0 := by
      have hone := h.alone skb hm (Bool.eq_false_iff.mpr hc)
      omega
    rw [giveData_live]
    exact Core.giveData (h.drop hlive fun k hk => hother k hk (ne_of_refs_zero h0 hk)) h0 hout

theorem Core.add (h : Core B s) {d : Data} (hd : skb.data = d) (hno : refs s.live d = 0)
    (hpool : skb.prealloc = true → ∃ head, skb.data = .pool head)
    (hout : ∀ head, skb.data = .pool head → head + rxbufHeadReserve ∈ s.drv.out skb.queue) {fresh : Nat}
    (hheap : ∀ k, skb.data = .heap k → k < fresh) (hfresh : s.fresh ≤ fresh) :
    Core B { s with live := skb ::ₘ s.live, dataref := Function.update s.dataref d 1, fresh := fresh } := by
  subst hd
  have hone : refs (skb ::ₘ s.live) skb.data = 1 := by rw [refs_cons, hno, if_pos rfl]
  have hother (k : Skb) (hk : k ∈ s.live) : k.data ≠ skb.data := ne_of_refs_zero hno hk
  refine ⟨h.drv, fun k hk => ?_, fun k hk hc => ?_, fun k hk => ?_, fun k hk => ?_, fun k hk j hj => ?_, ?_⟩
  · dsimp only
    rcases Multiset.mem_cons.mp hk with rfl | hk
    · rw [Function.update_self, hone]
    · rw [Function.update_of_ne (hother k hk), refs_of_ne (hother k hk), h.dataref k hk]
  · rcases Multiset.mem_cons.mp hk with rfl | hk
    · exact hone
    · dsimp only
      rw [refs_of_ne (hother k hk), h.alone k hk hc]
  · rcases Multiset.mem_cons.mp hk with rfl | hk
    · exact hpool
    · exact h.pool k hk
  · rcases Multiset.mem_cons.mp hk with rfl | hk
    · exact hout
    · exact h.out k hk
  · rcases Multiset.mem_cons.mp hk with rfl | hk
    · exact hheap j hj
    · exact (h.heap k hk j hj).trans_le hfresh
  · dsimp only
    rw [paired, Multiset.filter_cons]
    split
    · rw [Multiset.singleton_add, Multiset.map_cons, Multiset.nodup_cons]
      refine ⟨fun hmem => ?_, h.distinct⟩
      obtain ⟨k, hk, heq⟩ := Multiset.mem_map.mp hmem
      exact hother k (Multiset.mem_of_mem_filter hk) heq
    · rw [zero_add]
      exact h.distinct

theorem Core.pskbExpandHead (h : Core B s) (hm : skb ∈ s.live) (memory : Bool) :
    Core B (s.pskbExpandHead skb memory) := by
  rw [Stack.pskbExpandHead]
  split
  case isFalse => exact h
  case isTrue =>
    have hrel := h.release hm
    have hno : refs (s.live.erase skb) (.heap (s.skbReleaseData skb).fresh) = 0 := by
      refine Multiset.count_eq_zero.mpr fun hmem => ?_
      obtain ⟨k, hk, heq⟩ := Multiset.mem_map.mp hmem
      exact absurd (hrel.heap k hk _ heq) (lt_irrefl _)
    have hdata : ({ skb with data := .heap (s.skbReleaseData skb).fresh, prealloc := false, cloned := false } : Skb).data =
        .heap (s.skbReleaseData skb).fresh := rfl
    exact hrel.add hdata hno nofun nofun
      (fun k hk => Data.heap.inj hk ▸ Nat.lt_succ_self _) (Nat.le_succ _)

theorem Core.skbClone (h : Core B s) (hm : skb ∈ s.live) (memory : Bool) : Core B (s.skbClone skb memory) := by
  obtain ⟨live, hlive⟩ := Multiset.exists_cons_of_mem hm
  rw [Stack.skbClone]
  split
  case isFalse => exact h
  case isTrue =>
    rw [hlive, Multiset.erase_cons_head]
    have hrefs (d : Data) : refs ({ skb with cloned := true } ::ₘ { skb with hdr := none, cloned := true } ::ₘ live) d =
        refs s.live d + if d = skb.data then 1 else 0 := by
      rw [hlive, refs_cons, refs_cons, refs_cons]
    have hold (k : Skb) (hk : k ∈ { skb with cloned := true } ::ₘ { skb with hdr := none, cloned := true } ::ₘ live) :
        k ∈ live ∨ k = { skb with cloned := true } ∨ k = { skb with hdr := none, cloned := true } := by
      simp only [Multiset.mem_cons] at hk
      tauto
    have hlive' (k : Skb) (hk : k ∈ live) : k ∈ s.live := hlive ▸ Multiset.mem_cons_of_mem hk
    have horigin (k : Skb) (hk : k ∈ { skb with cloned := true } ::ₘ { skb with hdr := none, cloned := true } ::ₘ live) :
        ∃ k' ∈ s.live, k.data = k'.data ∧ k.queue = k'.queue ∧ k.prealloc = k'.prealloc := by
      rcases hold k hk with hk | rfl | rfl
      · exact ⟨k, hlive' k hk, rfl, rfl, rfl⟩
      · exact ⟨skb, hm, rfl, rfl, rfl⟩
      · exact ⟨skb, hm, rfl, rfl, rfl⟩
    refine ⟨h.drv, fun k hk => ?_, fun k hk hc => ?_, fun k hk => ?_, fun k hk => ?_, fun k hk => ?_, ?_⟩
    · dsimp only
      rw [hrefs]
      by_cases hd : k.data = skb.data
      · rw [hd, Function.update_self, h.dataref skb hm, if_pos rfl]
      · rw [Function.update_of_ne hd, if_neg hd]
        rcases hold k hk with hk | rfl | rfl
        · exact h.dataref k (hlive' k hk)
        · exact absurd rfl hd
        · exact absurd rfl hd
    · rcases hold k hk with hk | rfl | rfl
      · have hone := h.alone k (hlive' k hk) hc
        have hpos := refs_pos hk
        have hne : k.data ≠ skb.data := by
          intro heq
          rw [hlive, refs_cons, if_pos heq] at hone
          omega
        dsimp only
        rw [hrefs, if_neg hne, hone]
      · cases hc
      · cases hc
    · obtain ⟨k', hk', hdata, -, hpre⟩ := horigin k hk
      rw [hdata, hpre]
      exact h.pool k' hk'
    · obtain ⟨k', hk', hdata, hqueue, -⟩ := horigin k hk
      rw [hdata, hqueue]
      exact h.out k' hk'
    · obtain ⟨k', hk', hdata, -, -⟩ := horigin k hk
      rw [hdata]
      exact h.heap k' hk'
    · have hdistinct := h.distinct
      rw [hlive] at hdistinct
      simp only [paired, Multiset.filter_cons, Option.isSome_none, Bool.false_and, Bool.false_eq_true, if_false,
        zero_add] at hdistinct ⊢
      split
      case isTrue hp =>
        rw [if_pos hp] at hdistinct
        simpa using hdistinct
      case isFalse hp =>
        rw [if_neg hp] at hdistinct
        exact hdistinct

theorem sum_buffers {drv : Sys} (h : Inv B drv) : ∑ i, B i = ∑ i, (drv.rx i).addresses + ∑ i, drv.out i := by
  rw [← Finset.sum_add_distrib]
  exact Finset.sum_congr rfl fun i _ => (h.ok i).buffers.symm

theorem head_mem_ring {drv : Sys} (h : Inv B drv) {i : Fin maxReceiveQueues} (hr : (drv.rx i).Ready) :
    ((drv.rx i).bds (drv.rx i).head).address ∈ ∑ i, (drv.rx i).addresses :=
  Multiset.mem_sum.mpr ⟨i, Finset.mem_univ i, mem_contents (f := fun j => buffer ((drv.rx i).bds j))
    ((h.ok i).head_lt (Nat.pos_of_ne_zero hr.1)) (buffer_some hr.2.2)⟩

theorem head_not_out (hB : (∑ i, B i).Nodup) {drv : Sys} (h : Inv B drv) {i : Fin maxReceiveQueues}
    (hr : (drv.rx i).Ready) (j : Fin maxReceiveQueues) : ((drv.rx i).bds (drv.rx i).head).address ∉ drv.out j := by
  intro hout
  rw [sum_buffers h, Multiset.nodup_add] at hB
  exact Multiset.disjoint_left.mp hB.2.2 (head_mem_ring h hr) (Multiset.mem_sum.mpr ⟨j, Finset.mem_univ j, hout⟩)

theorem Core.of_drv (h : Core B s) {drv : Sys} (hdrv : Inv B drv) (hout : ∀ i, s.drv.out i ≤ drv.out i) :
    Core B { s with drv := drv } :=
  ⟨hdrv, h.dataref, h.alone, h.pool, fun k hk head hd => Multiset.mem_of_le (hout _) (h.out k hk head hd), h.heap,
    h.distinct⟩

theorem out_le_take (drv : Sys) (i : Fin maxReceiveQueues) (length : UInt16) (j : Fin maxReceiveQueues) :
    drv.out j ≤ (drv.take i length).out j := by
  rw [Sys.take, Sys.setQueue]
  dsimp only
  by_cases hj : j = i
  · subst hj
    rw [Function.update_self]
    exact Multiset.le_cons_self _ _
  · rw [Function.update_of_ne hj]

theorem out_recycled {drv : Sys} (h : Inv B drv) {i : Fin maxReceiveQueues} (hr : (drv.rx i).Ready) (length : UInt16)
    (j : Fin maxReceiveQueues) :
    ((drv.take i length).assign i (((drv.rx i).bds (drv.rx i).head).address - rxbufHeadReserve)).out j = drv.out j := by
  have hmem : ((drv.rx i).bds (drv.rx i).head).address ∈ (drv.take i length).out i := by
    rw [take_out]
    exact Multiset.mem_cons_self _ _
  have hzero := ((h.take hr length).ok i).tail_empty (Multiset.card_pos_iff_exists_mem.mpr ⟨_, hmem⟩)
  rw [Sys.assign, RxBdInfo.assignRxBuffer, if_pos hzero, h.reserve hr, take_out, Multiset.erase_cons_head]
  simp only [Sys.setQueue, Sys.take]
  by_cases hj : j = i
  · subst hj
    rw [Function.update_self]
  · rw [Function.update_of_ne hj, Function.update_of_ne hj]

theorem Core.visit (hB : (∑ i, B i).Nodup) (h : Core B s) (i : Fin maxReceiveQueues) (devs : Devices) :
    Core B (s.visit i devs) := by
  have hinv := h.drv.rxQueue devs i
  have hvisited := rxQueue_visited devs s.drv i
  rw [Stack.visit]
  generalize s.drv.rxQueue devs i = r at hinv hvisited ⊢
  cases hvisited with
  | idle => exact h
  | recycled hr length => exact h.of_drv hinv fun j => (out_recycled h.drv hr length j).ge
  | fault hr length => exact h.of_drv hinv (out_le_take s.drv i length)
  | delivered hr length hhead =>
      have haddr := h.drv.reserve hr
      refine (h.of_drv hinv (out_le_take s.drv i length)).add rfl (Multiset.count_eq_zero.mpr fun hmem => ?_)
        (fun _ => ⟨_, rfl⟩) (fun head hd => ?_) nofun le_rfl
      · obtain ⟨k, hk, heq⟩ := Multiset.mem_map.mp hmem
        have hold := h.out k hk _ heq
        rw [hhead, haddr] at hold
        exact head_not_out hB h.drv hr _ hold
      · rw [← Data.pool.inj hd, hhead]
        exact h.drv.recycled hr length

end Core

section Headers

variable {B : Fin maxReceiveQueues → Multiset Nat} {s : Stack} {skb : Skb}

def headers (s : Stack) : Nat := s.drv.freeRxSkbList.length + (headed s.live).card + s.dying.card

theorem card_headed_cons (skb : Skb) (live : Multiset Skb) :
    (headed (skb ::ₘ live)).card = (headed live).card + (held skb.hdr).card := by
  rw [headed, Multiset.filter_cons]
  cases hh : skb.hdr with
  | none => simp [headed]
  | some hdr => simp [headed]

theorem card_headed_erase (hm : skb ∈ s.live) :
    (headed (s.live.erase skb)).card + (held skb.hdr).card = (headed s.live).card := by
  rw [← card_headed_cons, Multiset.cons_erase hm]

structure SameHeaders (s s' : Stack) : Prop where
  list : s'.drv.freeRxSkbList = s.drv.freeRxSkbList
  dying : s'.dying = s.dying
  oops : s'.drv.oops = s.drv.oops

theorem giveData_same (s : Stack) (skb : Skb) : SameHeaders s (s.giveData skb) := by
  rw [Stack.giveData]
  split
  · simp only [Sys.freeData, Sys.assign]
    split <;> exact ⟨rfl, rfl, rfl⟩
  · exact ⟨rfl, rfl, rfl⟩

theorem release_same (s : Stack) (skb : Skb) : SameHeaders s (s.skbReleaseData skb) := by
  rw [Stack.skbReleaseData]
  split
  · dsimp only
    split
    · exact ⟨(giveData_same _ skb).list, (giveData_same _ skb).dying, (giveData_same _ skb).oops⟩
    · exact ⟨rfl, rfl, rfl⟩
  · exact giveData_same s skb

theorem headers_clone (hm : skb ∈ s.live) (memory : Bool) : headers (s.skbClone skb memory) = headers s := by
  have hcard := card_headed_erase hm
  rw [Stack.skbClone]
  split
  · simp only [headers, card_headed_cons, held_none, Multiset.card_zero]
    omega
  · rfl

theorem headers_expand (hm : skb ∈ s.live) (memory : Bool) : headers (s.pskbExpandHead skb memory) = headers s := by
  have hcard := card_headed_erase hm
  rw [Stack.pskbExpandHead]
  split
  · simp only [headers, card_headed_cons, (release_same s skb).list, (release_same s skb).dying]
    omega
  · rfl

theorem headers_kfreeData (hm : skb ∈ s.live) : headers (s.kfreeData skb) = headers s := by
  have hcard := card_headed_erase hm
  simp only [Stack.kfreeData, headers, (release_same s skb).list, Multiset.card_add]
  omega

theorem headers_kfreeHeader {hdr : Nat} (hm : hdr ∈ s.dying) : headers (s.kfreeHeader hdr) = headers s := by
  have hcard := Multiset.card_erase_add_one hm
  simp only [Stack.kfreeHeader, headers, Sys.freeSkb, Sys.setList, List.length_cons]
  omega

theorem headers_visit (s : Stack) (i : Fin maxReceiveQueues) (devs : Devices) : headers (s.visit i devs) = headers s := by
  have hvisited := rxQueue_visited devs s.drv i
  rw [Stack.visit]
  generalize s.drv.rxQueue devs i = r at hvisited ⊢
  cases hvisited with
  | idle | fault => rfl
  | recycled hr length =>
      simp only [headers, Sys.assign]
      split <;> rfl
  | delivered hr length hhead hlist =>
      simp only [Stack.netifRx, headers, Sys.setList, card_headed_cons, held_some, Multiset.card_singleton, hlist,
        List.length_cons]
      omega

def Data.address : Data → Nat
  | .pool head => head + rxbufHeadReserve
  | .heap _ => 0

theorem Core.mem_paired (h : Core B s) (hm : skb ∈ paired s.live) :
    ∃ head, skb.data = .pool head ∧ head + rxbufHeadReserve ∈ ∑ i, s.drv.out i := by
  rw [paired, Multiset.mem_filter, Bool.and_eq_true] at hm
  obtain ⟨head, hhead⟩ := h.pool skb hm.1 hm.2.2
  exact ⟨head, hhead, Multiset.mem_sum.mpr ⟨skb.queue, Finset.mem_univ _, h.out skb hm.1 head hhead⟩⟩

theorem Core.card_paired_le (h : Core B s) : (paired s.live).card ≤ (∑ i, s.drv.out i).card := by
  have hnodup : (((paired s.live).map Skb.data).map Data.address).Nodup := by
    refine Multiset.Nodup.map_on (fun a ha b hb heq => ?_) h.distinct
    obtain ⟨k, hk, rfl⟩ := Multiset.mem_map.mp ha
    obtain ⟨l, hl, rfl⟩ := Multiset.mem_map.mp hb
    obtain ⟨head, hhead, _⟩ := h.mem_paired hk
    obtain ⟨head', hhead', _⟩ := h.mem_paired hl
    rw [hhead, hhead'] at heq ⊢
    rw [Nat.add_right_cancel heq]
  have hsub : ((paired s.live).map Skb.data).map Data.address ⊆ ∑ i, s.drv.out i := by
    intro a ha
    obtain ⟨d, hd, rfl⟩ := Multiset.mem_map.mp ha
    obtain ⟨k, hk, rfl⟩ := Multiset.mem_map.mp hd
    obtain ⟨head, hhead, hout⟩ := h.mem_paired hk
    rw [hhead]
    exact hout
  have hcard := Multiset.card_le_card ((Multiset.le_iff_subset hnodup).mpr hsub)
  rwa [Multiset.card_map, Multiset.card_map] at hcard

theorem Core.supplied (h : Core B s) (hcount : (∑ i, B i).card ≤ headers s) {i : Fin maxReceiveQueues}
    (hr : (s.drv.rx i).Ready) (hdying : s.dying = 0)
    (hpaired : ∀ skb ∈ s.live, skb.hdr ≠ none → skb.prealloc = true) : s.drv.freeRxSkbList ≠ [] := by
  intro hnil
  have hsame : headed s.live = paired s.live := by
    refine Multiset.filter_congr fun skb hskb => ?_
    rw [Bool.and_eq_true]
    exact ⟨fun hh => ⟨hh, hpaired skb hskb (Option.isSome_iff_ne_none.mp hh)⟩, And.left⟩
  have hle := h.card_paired_le
  have hring : 0 < (∑ i, (s.drv.rx i).addresses).card :=
    Multiset.card_pos_iff_exists_mem.mpr ⟨_, head_mem_ring h.drv hr⟩
  rw [sum_buffers h.drv, Multiset.card_add, headers, hnil, hsame, hdying, List.length_nil, Multiset.card_zero] at hcount
  omega

end Headers

structure Inv (B : Fin maxReceiveQueues → Multiset Nat) (s : Stack) : Prop where
  core : Core B s
  headers : (∑ i, B i).card ≤ headers s
  supplied : Supplied s

section Step

variable {B : Fin maxReceiveQueues → Multiset Nat} {s : Stack}

theorem Inv.visit (hB : (∑ i, B i).Nodup) (h : Inv B s) {i : Fin maxReceiveQueues} {devs : Devices}
    (hc : Paired s (.visit i devs)) : Inv B (s.visit i devs) := by
  refine ⟨h.core.visit hB i devs, (headers_visit s i devs).symm ▸ h.headers, ?_⟩
  have hvisited := rxQueue_visited devs s.drv i
  rw [Stack.visit]
  generalize s.drv.rxQueue devs i = r at hvisited ⊢
  cases hvisited with
  | idle | delivered => exact h.supplied
  | recycled hr length =>
      simp only [Supplied, Sys.assign]
      split <;> exact h.supplied
  | fault hr length hdev hlist =>
      obtain ⟨hdying, hpaired⟩ := hc ⟨hr, hdev⟩
      exact absurd hlist (h.core.supplied h.headers hr hdying hpaired)

theorem Inv.step (hB : (∑ i, B i).Nodup) (h : Inv B s) {e : Event} (hen : Enabled s e) (hc : Paired s e) :
    Inv B (step s e) := by
  cases e with
  | receive i bd length fstat =>
      refine ⟨h.core.of_drv (h.core.drv.step hen) fun j => ?_, h.headers, h.supplied⟩
      simp only [ReceiveBuffers.step, Sys.setQueue, Function.update_eq_self]
      exact le_rfl
  | visit i devs => exact h.visit hB hc
  | clone skb memory =>
      refine ⟨h.core.skbClone hen memory, (headers_clone hen memory).symm ▸ h.headers, ?_⟩
      rw [ReceiveHeaders.step, Stack.skbClone]
      split <;> exact h.supplied
  | expandHead skb memory =>
      refine ⟨h.core.pskbExpandHead hen memory, (headers_expand hen memory).symm ▸ h.headers, ?_⟩
      rw [ReceiveHeaders.step, Stack.pskbExpandHead]
      split
      · exact (release_same s skb).oops.trans h.supplied
      · exact h.supplied
  | kfreeData skb =>
      have hrel := h.core.release hen
      refine ⟨?_, (headers_kfreeData hen).symm ▸ h.headers, (release_same s skb).oops.trans h.supplied⟩
      exact ⟨hrel.drv, hrel.dataref, hrel.alone, hrel.pool, hrel.out, hrel.heap, hrel.distinct⟩
  | kfreeHeader hdr =>
      refine ⟨?_, (headers_kfreeHeader hen).symm ▸ h.headers, h.supplied⟩
      have hcore := h.core
      exact ⟨⟨hcore.drv.ok, hcore.drv.place⟩, hcore.dataref, hcore.alone, hcore.pool, hcore.out, hcore.heap, hcore.distinct⟩

end Step

def start (drv : Sys) : Stack := ⟨drv, 0, 0, fun _ => 0, 0⟩

/-- The tasklet does not run out of headers in a run in which every header that
is out has its data buffer with it whenever a packet is delivered. -/
theorem headers_suffice {uninitialized skbMem bdMem : Bool} {blocks : List (Option Nat)} {free : List Nat}
    {parms : GlobalInitParms} {drv : Sys} (hsep : Separate (granted blocks (∑ i, parms.sizes i)))
    (hinit : doGlobInitReq uninitialized skbMem bdMem blocks (loaded free) parms = some (0, drv)) {es : List Event}
    (hE : Along step Enabled (start drv) es) (hC : Along step Paired (start drv) es) :
    Throughout step Supplied (start drv) es := by
  obtain ⟨⟨addrs, hlen, hnodup, hinv⟩, hlist, hoops⟩ := init_inv hinit
  have hsum := sum_initBufs hlen
  have hB : (∑ i, initBufs parms.sizes addrs i).Nodup := by
    rw [hsum]
    exact hnodup hsep
  have hstart : Inv (initBufs parms.sizes addrs) (start drv) := by
    refine ⟨⟨hinv, nofun, nofun, nofun, nofun, nofun, Multiset.nodup_zero⟩, ?_, hoops⟩
    rw [hsum, Multiset.coe_card, hlen, headers, start, hlist, List.length_append, List.length_reverse, List.length_range]
    omega
  exact Throughout.of_invariant (I := Inv (initBufs parms.sizes addrs)) (fun _ h => h.supplied)
    (fun _ _ h hen hc => h.step hB hen hc) hstart hE hC

def demoParms : GlobalInitParms := ⟨![1, 0, 0, 0], by decide⟩

def demoSys : Sys :=
  { (loaded []).setList [0] with
    rx := fun i => initQueue (demoParms.sizes i) ((blockBufs 0x100000 1).drop (offset demoParms.sizes i)) }

theorem demoSys_init :
    doGlobInitReq true true true [some 0x100000] (loaded []) demoParms = some (0, demoSys) := rfl

def demoSkb : Skb := ⟨some 0, 0, .pool 0x100000, true, false⟩

def demoFree : List Event :=
  [.receive 0 0 64 0, .visit 0 demoDevices, .kfreeData demoSkb, .kfreeHeader 0, .receive 0 0 64 0, .visit 0 demoDevices]

theorem demoFree_enabled : Along step Enabled (start demoSys) demoFree := by
  refine ⟨⟨by decide, by decide, 0, by decide, by decide, nofun⟩, rfl, ?_, ?_,
    ⟨by decide, by decide, 0, by decide, by decide, nofun⟩, rfl, trivial⟩
  · rw [Enabled]
    decide
  · rw [Enabled]
    decide

theorem demoFree_paired : Along step Paired (start demoSys) demoFree := by
  refine ⟨trivial, fun _ => ⟨rfl, fun _ h => absurd h (Multiset.notMem_zero _)⟩, trivial, trivial, trivial, fun _ => ⟨?_, ?_⟩, trivial⟩
  · decide
  · decide

theorem headers_suffice_demo : Throughout step Supplied (start demoSys) demoFree :=
  headers_suffice (by decide) demoSys_init demoFree_enabled demoFree_paired

/-- The packet gets new data and gives its buffer back; the next packet finds no header. -/
theorem headers_run_out :
    let es : List Event := [.receive 0 0 64 0, .visit 0 demoDevices, .expandHead demoSkb true,
      .receive 0 0 64 0, .visit 0 demoDevices]
    doGlobInitReq true true true [some 0x100000] (loaded []) demoParms = some (0, demoSys) ∧
      Along step Enabled (start demoSys) es ∧ ¬ Throughout step Supplied (start demoSys) es := by
  refine ⟨rfl, ⟨⟨by decide, by decide, 0, by decide, by decide, nofun⟩, rfl, ?_,
    ⟨by decide, by decide, 0, by decide, by decide, nofun⟩, rfl, trivial⟩, fun h => ?_⟩
  · rw [Enabled]
    decide
  · have hlast := h.2.2.2.2.2
    revert hlast
    rw [Throughout, Supplied]
    decide

end AliceModem.ReceiveHeaders
