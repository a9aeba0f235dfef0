import AliceModem.Lib.References
import AliceModem.Lib.Transition

namespace AliceModem.Skbuff

open References Transition

/-- The memory of packet data: the area of the driver, or one from `kmalloc`. -/
inductive Area
  | prealloc
  | kmalloc (k : Nat)
  deriving DecidableEq

inductive Header
  | prealloc
  | cache (k : Nat)
  deriving DecidableEq

/-- The fields that decide where the memory of a packet goes: `retfreeqCb` tells
whether there is a callback, the last two are the flags `SKB_PREALLOC` and
`SKB_DATA_PREALLOC`. -/
structure SkBuff where
  users : Nat
  head : Area
  cloned : Bool
  retfreeqCb : Bool
  skbPrealloc : Bool
  skbDataPrealloc : Bool

/-- Where memory is given back: to the callback, which gets the header and finds
the data there, or to the kernel. -/
inductive Call
  | retfreeqData (head : Area)
  | retfreeqSkb (skb : Header)
  | kfree (head : Area)
  | kmemCacheFree (skb : Header)
  deriving DecidableEq

/-- The packets that are in use. The count of references to the data lies at the
end of its area; `next` numbers what is allocated. -/
structure Sys where
  live : Finset Header
  skbs : Header → SkBuff
  dataref : Area → Nat
  next : Nat
  calls : List Call
  bug : Bool

namespace Sys

def setSkb (s : Sys) (h : Header) (skb : SkBuff) : Sys := { s with skbs := Function.update s.skbs h skb }

def setDataref (s : Sys) (a : Area) (n : Nat) : Sys := { s with dataref := Function.update s.dataref a n }

def call (s : Sys) (c : Call) : Sys := { s with calls := s.calls ++ [c] }

def returnData (s : Sys) (h : Header) : Sys :=
  let skb := s.skbs h
  if skb.retfreeqCb ∧ skb.skbDataPrealloc then
    (s.call (.retfreeqData skb.head)).setSkb h { skb with skbDataPrealloc := false }
  else s.call (.kfree skb.head)

def skbReleaseData (s : Sys) (h : Header) : Sys :=
  let skb := s.skbs h
  if ¬ skb.cloned then s.returnData h
  else
    let s := s.setDataref skb.head (s.dataref skb.head - 1)
    if s.dataref skb.head = 0 then s.returnData h else s

def kfreeSkbmem (s : Sys) (h : Header) : Sys :=
  let s := { s.skbReleaseData h with live := s.live.erase h }
  if (s.skbs h).retfreeqCb ∧ (s.skbs h).skbPrealloc then s.call (.retfreeqSkb h) else s.call (.kmemCacheFree h)

def kfreeSkb (s : Sys) (h : Header) : Sys :=
  let skb := s.skbs h
  if skb.users = 1 ∨ skb.users - 1 = 0 then s.kfreeSkbmem h else s.setSkb h { skb with users := skb.users - 1 }

def skbClone (s : Sys) (h : Header) (memory : Bool) : Sys :=
  let skb := s.skbs h
  if memory then
    let n := Header.cache s.next
    let s := s.setSkb n { skb with users := 1, cloned := true, skbPrealloc := false }
    let s := s.setDataref skb.head (s.dataref skb.head + 1)
    { s.setSkb h { skb with cloned := true } with live := insert n s.live, next := s.next + 1 }
  else s

def pskbExpandHead (s : Sys) (h : Header) (memory : Bool) : Sys :=
  if (s.skbs h).users ≠ 1 then { s with bug := true }
  else if memory then
    let data := Area.kmalloc s.next
    -- the copy of the area takes the count with it
    let s := s.setDataref data (s.dataref (s.skbs h).head)
    let s := s.skbReleaseData h
    let s := s.setSkb h { s.skbs h with head := data, cloned := false, skbDataPrealloc := false }
    { s.setDataref data 1 with next := s.next + 1 }
  else s

end Sys

/-- The packet as `skb_hdrinit` sets it up, over whatever the header held before. -/
def skbHdrinit (skbs : Header → SkBuff) (dataref : Area → Nat) : Sys :=
  ⟨{.prealloc}, Function.update skbs .prealloc ⟨1, .prealloc, false, true, true, true⟩,
    Function.update dataref .prealloc 1, 0, [], false⟩

inductive Event
  | clone (skb : Header) (memory : Bool)
  | expandHead (skb : Header) (memory : Bool)
  | kfree (skb : Header)

def step (s : Sys) : Event → Sys
  | .clone h memory => s.skbClone h memory
  | .expandHead h memory => s.pskbExpandHead h memory
  | .kfree h => s.kfreeSkb h

def Enabled (s : Sys) : Event → Prop
  | .clone h _ | .expandHead h _ | .kfree h => h ∈ s.live

instance (s : Sys) : (e : Event) → Decidable (Enabled s e)
  | .clone h _ | .expandHead h _ | .kfree h => inferInstanceAs (Decidable (h ∈ s.live))

def Call.Proper : Call → Prop
  | .retfreeqData head => head = .prealloc
  | .retfreeqSkb h => h = .prealloc
  | .kfree head => head ≠ .prealloc
  | .kmemCacheFree h => h ≠ .prealloc

/-- The data of the driver has gone back once if no packet refers to it any more,
and not before; its header has gone back once if it is not in use. -/
structure Home (s : Sys) : Prop where
  bug : s.bug = false
  proper : ∀ c ∈ s.calls, c.Proper
  data : s.calls.count (.retfreeqData .prealloc) =
    if ∃ h ∈ s.live, (s.skbs h).head = .prealloc then 0 else 1
  skb : s.calls.count (.retfreeqSkb .prealloc) = if .prealloc ∈ s.live then 0 else 1

def Sys.refs (s : Sys) (a : Area) : Nat := References.refs s.live (fun h => (s.skbs h).head) a

def Header.Old (n : Nat) (h : Header) : Prop := ∀ k, h = .cache k → k < n

def Area.Old (n : Nat) (a : Area) : Prop := ∀ k, a = .kmalloc k → k < n

structure Sound (n : Nat) (h : Header) (skb : SkBuff) : Prop where
  users : skb.users = 1
  cb : skb.retfreeqCb = true
  skbPrealloc : skb.skbPrealloc = true ↔ h = .prealloc
  skbDataPrealloc : skb.skbDataPrealloc = true ↔ skb.head = .prealloc
  old : h.Old n
  headOld : skb.head.Old n

structure Core (s : Sys) : Prop where
  bug : s.bug = false
  sound : ∀ h ∈ s.live, Sound s.next h (s.skbs h)
  dataref : ∀ h ∈ s.live, s.dataref (s.skbs h).head = s.refs (s.skbs h).head
  alone : ∀ h ∈ s.live, (s.skbs h).cloned = false → s.refs (s.skbs h).head = 1
  proper : ∀ c ∈ s.calls, c.Proper
  data : s.calls.count (.retfreeqData .prealloc) = if s.refs .prealloc = 0 then 1 else 0

structure Inv (s : Sys) : Prop where
  core : Core s
  skb : s.calls.count (.retfreeqSkb .prealloc) = if .prealloc ∈ s.live then 0 else 1

variable {s : Sys} {h : Header}

theorem Inv.home (hi : Inv s) : Home s := by
  refine ⟨hi.core.bug, hi.core.proper, hi.core.data.trans ?_, hi.skb⟩
  have hiff : s.refs .prealloc = 0 ↔ ¬ ∃ h ∈ s.live, (s.skbs h).head = .prealloc := by
    rw [Sys.refs, refs_eq_zero]
    exact ⟨fun hne ⟨k, hk, heq⟩ => hne k hk heq, fun hne k hk heq => hne ⟨k, hk, heq⟩⟩
  simp only [hiff, ite_not]

theorem hdrinit_inv (skbs : Header → SkBuff) (dataref : Area → Nat) : Inv (skbHdrinit skbs dataref) := by
  have hskb : (skbHdrinit skbs dataref).skbs .prealloc = ⟨1, .prealloc, false, true, true, true⟩ := by
    simp [skbHdrinit]
  have hrefs : (skbHdrinit skbs dataref).refs .prealloc = 1 := by
    change refs (insert Header.prealloc ∅) (fun h => ((skbHdrinit skbs dataref).skbs h).head) .prealloc = 1
    rw [refs_insert (Finset.notMem_empty Header.prealloc), hskb]
    rfl
  refine ⟨⟨rfl, fun h hh => ?_, fun h hh => ?_, fun h hh _ => ?_, fun c hc => absurd hc List.not_mem_nil, ?_⟩, rfl⟩
  · obtain rfl := Finset.mem_singleton.mp hh
    rw [hskb]
    exact ⟨rfl, rfl, iff_of_true rfl rfl, iff_of_true rfl rfl, nofun, nofun⟩
  · obtain rfl := Finset.mem_singleton.mp hh
    rw [hskb, hrefs]
    simp [skbHdrinit]
  · obtain rfl := Finset.mem_singleton.mp hh
    rw [hskb, hrefs]
  · rw [hrefs]
    rfl

section Release

theorem returnData_skbs (s : Sys) {h k : Header} (hk : k ≠ h) : (s.returnData h).skbs k = s.skbs k := by
  rw [Sys.returnData]
  split
  · exact Function.update_of_ne hk ..
  · rfl

theorem returnData_same (s : Sys) (h : Header) :
    (s.returnData h).dataref = s.dataref ∧ (s.returnData h).next = s.next ∧ (s.returnData h).bug = s.bug := by
  rw [Sys.returnData]
  split <;> exact ⟨rfl, rfl, rfl⟩

theorem returnData_calls (hs : Sound s.next h (s.skbs h)) : (s.returnData h).calls =
    s.calls ++ [if (s.skbs h).head = .prealloc then .retfreeqData .prealloc else .kfree (s.skbs h).head] := by
  rw [Sys.returnData]
  split
  case isTrue hflag =>
    have hhead := hs.skbDataPrealloc.mp hflag.2
    rw [if_pos hhead, hhead]
    rfl
  case isFalse hflag =>
    have hhead : (s.skbs h).head ≠ .prealloc := fun heq => hflag ⟨hs.cb, hs.skbDataPrealloc.mpr heq⟩
    rw [if_neg hhead]
    rfl

def Sys.refsBut (s : Sys) (h : Header) (a : Area) : Nat :=
  References.refs (s.live.erase h) (fun k => (s.skbs k).head) a

theorem refs_eq_refsBut (hm : h ∈ s.live) : s.refs (s.skbs h).head = s.refsBut h (s.skbs h).head + 1 := by
  rw [Sys.refs, refs_erase hm, if_pos rfl, Sys.refsBut]

theorem refsBut_of_ne (hm : h ∈ s.live) {a : Area} (ha : (s.skbs h).head ≠ a) : s.refsBut h a = s.refs a :=
  refs_erase_of_ne hm ha

theorem Core.without (hc : Core s) (hm : h ∈ s.live) {s' : Sys} (hlive : s'.live = s.live.erase h)
    (hskbs : ∀ k ≠ h, s'.skbs k = s.skbs k) (hnext : s'.next = s.next) (hbug : s'.bug = s.bug)
    (hsame : ∀ a, a ≠ (s.skbs h).head → s'.dataref a = s.dataref a)
    (href : s.refsBut h (s.skbs h).head ≠ 0 → s'.dataref (s.skbs h).head = s.refsBut h (s.skbs h).head)
    (hproper : ∀ c ∈ s'.calls, c.Proper)
    (hdata : s'.calls.count (.retfreeqData .prealloc) = if s.refsBut h .prealloc = 0 then 1 else 0) : Core s' := by
  have hmem (k : Header) (hk : k ∈ s'.live) : k ∈ s.live ∧ s'.skbs k = s.skbs k := by
    rw [hlive] at hk
    exact ⟨Finset.mem_of_mem_erase hk, hskbs k (Finset.ne_of_mem_erase hk)⟩
  have hrefs (a : Area) : s'.refs a = s.refsBut h a := by
    rw [Sys.refs, Sys.refsBut, ← hlive]
    exact refs_congr (fun k hk => by rw [(hmem k hk).2]) a
  refine ⟨hbug.trans hc.bug, fun k hk => ?_, fun k hk => ?_, fun k hk hcl => ?_, hproper, hdata.trans (by rw [hrefs])⟩
  · rw [(hmem k hk).2, hnext]
    exact hc.sound k (hmem k hk).1
  · have hpos : 0 < s'.refs (s'.skbs k).head := refs_pos hk
    rw [hrefs, (hmem k hk).2] at hpos
    rw [hrefs, (hmem k hk).2]
    by_cases hhead : (s.skbs k).head = (s.skbs h).head
    · rw [hhead] at hpos ⊢
      exact href (Nat.pos_iff_ne_zero.mp hpos)
    · rw [hsame _ hhead, hc.dataref k (hmem k hk).1, refsBut_of_ne hm (Ne.symm hhead)]
  · have hpos : 0 < s'.refs (s'.skbs k).head := refs_pos hk
    rw [hrefs, (hmem k hk).2] at hpos
    rw [(hmem k hk).2] at hcl
    rw [hrefs, (hmem k hk).2]
    have hone := hc.alone k (hmem k hk).1 hcl
    have hle : s.refsBut h (s.skbs k).head ≤ s.refs (s.skbs k).head :=
      Finset.card_le_card (Finset.filter_subset_filter _ (Finset.erase_subset h s.live))
    omega

theorem Core.returned (hc : Core s) (hm : h ∈ s.live) (hlast : s.refsBut h (s.skbs h).head = 0) {dataref : Area → Nat}
    (hsame : ∀ a, a ≠ (s.skbs h).head → dataref a = s.dataref a) :
    Core { Sys.returnData { s with dataref := dataref } h with live := s.live.erase h } := by
  obtain ⟨hdataref, hnext, hbug⟩ := returnData_same { s with dataref := dataref } h
  have hcalls := returnData_calls (s := { s with dataref := dataref }) (hc.sound h hm)
  have hdata := hc.data
  refine hc.without hm rfl (fun k hk => returnData_skbs { s with dataref := dataref } hk) hnext hbug
    (fun a ha => (congrFun hdataref a).trans (hsame a ha)) (fun hne => absurd hlast hne) (fun c hcm => ?_) ?_
  · dsimp only at hcm
    rw [hcalls] at hcm
    rcases List.mem_append.mp hcm with hold | hnew
    · exact hc.proper c hold
    · rw [List.mem_singleton.mp hnew]
      split
      · rfl
      case isFalse hhead => exact hhead
  · dsimp only
    rw [hcalls, List.count_append, hdata]
    by_cases hhead : (s.skbs h).head = .prealloc
    · rw [hhead] at hlast
      have hrefs : s.refs .prealloc = 1 := by
        rw [← hhead, refs_eq_refsBut hm, hhead, hlast]
      rw [if_pos hhead, hrefs, hlast]
      rfl
    · rw [if_neg hhead, refsBut_of_ne hm hhead, List.count_singleton]
      rfl

theorem Core.kept (hc : Core s) (hm : h ∈ s.live) (hmore : s.refsBut h (s.skbs h).head ≠ 0) :
    Core { s.setDataref (s.skbs h).head (s.dataref (s.skbs h).head - 1) with live := s.live.erase h } := by
  have hrefs := refs_eq_refsBut hm
  refine hc.without hm rfl (fun _ _ => rfl) rfl rfl (fun a ha => Function.update_of_ne ha ..) (fun _ => ?_) hc.proper
    (hc.data.trans ?_)
  · change Function.update s.dataref (s.skbs h).head _ (s.skbs h).head = _
    rw [Function.update_self, hc.dataref h hm, hrefs, Nat.add_sub_cancel]
  · by_cases hhead : (s.skbs h).head = .prealloc
    · rw [hhead] at hrefs hmore
      rw [if_neg (by omega), if_neg hmore]
    · rw [refsBut_of_ne hm hhead]

theorem Core.release (hc : Core s) (hm : h ∈ s.live) :
    Core { s.skbReleaseData h with live := s.live.erase h } := by
  have hrefs := refs_eq_refsBut hm
  have hcount := hc.dataref h hm
  rw [Sys.skbReleaseData]
  dsimp only
  split
  case isTrue hcl =>
    have hone := hc.alone h hm (Bool.eq_false_iff.mpr hcl)
    exact hc.returned hm (by omega) fun _ _ => rfl
  case isFalse hcl =>
    have hleft : (s.setDataref (s.skbs h).head (s.dataref (s.skbs h).head - 1)).dataref (s.skbs h).head =
        s.refsBut h (s.skbs h).head := by
      change Function.update s.dataref (s.skbs h).head _ (s.skbs h).head = _
      rw [Function.update_self, hcount, hrefs, Nat.add_sub_cancel]
    rw [hleft]
    split
    case isTrue hlast => exact hc.returned hm hlast fun a ha => Function.update_of_ne ha ..
    case isFalse hmore => exact hc.kept hm hmore

theorem returnData_changes (s : Sys) (h : Header) : ∃ b c, Call.retfreeqSkb .prealloc ≠ c ∧ s.returnData h =
    { s with skbs := Function.update s.skbs h { s.skbs h with skbDataPrealloc := b }, calls := s.calls ++ [c] } := by
  rw [Sys.returnData]
  split
  · exact ⟨false, .retfreeqData (s.skbs h).head, nofun, rfl⟩
  · refine ⟨(s.skbs h).skbDataPrealloc, .kfree (s.skbs h).head, nofun, ?_⟩
    rw [Function.update_eq_self]
    rfl

theorem release_changes (s : Sys) (h : Header) : ∃ d b cs, Call.retfreeqSkb .prealloc ∉ cs ∧ s.skbReleaseData h =
    { s with
      dataref := d
      skbs := Function.update s.skbs h { s.skbs h with skbDataPrealloc := b }
      calls := s.calls ++ cs } := by
  rw [Sys.skbReleaseData]
  dsimp only
  split
  · obtain ⟨b, c, hc, heq⟩ := returnData_changes s h
    exact ⟨_, b, [c], by simpa using hc, heq⟩
  · split
    · obtain ⟨b, c, hc, heq⟩ := returnData_changes (s.setDataref (s.skbs h).head (s.dataref (s.skbs h).head - 1)) h
      exact ⟨_, b, [c], by simpa using hc, heq⟩
    · refine ⟨Function.update s.dataref (s.skbs h).head (s.dataref (s.skbs h).head - 1),
        (s.skbs h).skbDataPrealloc, [], List.not_mem_nil, ?_⟩
      rw [Function.update_eq_self, List.append_nil]
      rfl

end Release

section Step

theorem Core.join (hc : Core s) (hh : h ∉ s.live) {s' : Sys} (hlive : s'.live = insert h s.live)
    (hskbs : ∀ k ≠ h, s'.skbs k = s.skbs k) (hbug : s'.bug = s.bug) (hcalls : s'.calls = s.calls)
    (hnext : s.next ≤ s'.next) (hsound : Sound s'.next h (s'.skbs h))
    (hsame : ∀ a, a ≠ (s'.skbs h).head → s'.dataref a = s.dataref a)
    (href : s'.dataref (s'.skbs h).head = s.refs (s'.skbs h).head + 1)
    (hshared : s.refs (s'.skbs h).head = 0 ∨ (s'.skbs h).cloned = true ∧
      ∀ k ∈ s.live, (s.skbs k).head = (s'.skbs h).head → (s.skbs k).cloned = true)
    (hpre : (s'.skbs h).head = .prealloc → s.refs .prealloc ≠ 0) : Core s' := by
  have hold (k : Header) (hk : k ∈ s.live) : s'.skbs k = s.skbs k := hskbs k fun heq => hh (heq ▸ hk)
  have hrefs (a : Area) : s'.refs a = s.refs a + if (s'.skbs h).head = a then 1 else 0 := by
    rw [Sys.refs, hlive, refs_insert hh, Sys.refs]
    rw [refs_congr (fun k hk => by rw [hold k hk]) a]
  refine ⟨hbug.trans hc.bug, fun k hk => ?_, fun k hk => ?_, fun k hk hcl => ?_, hcalls ▸ hc.proper, ?_⟩
  · rcases Finset.mem_insert.mp (hlive ▸ hk) with rfl | hk
    · exact hsound
    · rw [hold k hk]
      have hs := hc.sound k hk
      exact ⟨hs.users, hs.cb, hs.skbPrealloc, hs.skbDataPrealloc, fun j hj => (hs.old j hj).trans_le hnext,
        fun j hj => (hs.headOld j hj).trans_le hnext⟩
  · rcases Finset.mem_insert.mp (hlive ▸ hk) with rfl | hk
    · rw [href, hrefs, if_pos rfl]
    · rw [hrefs, hold k hk]
      split
      case isTrue heq => rw [← heq, href]
      case isFalse hne => rw [hsame _ (Ne.symm hne), hc.dataref k hk, Nat.add_zero]
  · rcases Finset.mem_insert.mp (hlive ▸ hk) with rfl | hk
    · rcases hshared with hzero | ⟨htrue, -⟩
      · rw [hrefs, if_pos rfl, hzero]
      · exact absurd (hcl.symm.trans htrue) Bool.false_ne_true
    · rw [hold k hk] at hcl ⊢
      rw [hrefs]
      split
      case isTrue heq =>
        rcases hshared with hzero | ⟨-, htrue⟩
        · exact absurd heq.symm (refs_eq_zero.mp hzero k hk)
        · exact absurd (hcl.symm.trans (htrue k hk heq.symm)) Bool.false_ne_true
      case isFalse => exact hc.alone k hk hcl
  · rw [hcalls, hc.data, hrefs]
    by_cases heq : (s'.skbs h).head = .prealloc
    · rw [if_pos heq, if_neg (hpre heq), if_neg (Nat.succ_ne_zero _)]
    · rw [if_neg heq, Nat.add_zero]

theorem Core.call (hc : Core s) {c : Call} (hc' : c.Proper) (hne : c ≠ .retfreeqData .prealloc) : Core (s.call c) := by
  refine ⟨hc.bug, hc.sound, hc.dataref, hc.alone, fun c hcm => ?_, ?_⟩
  · rcases List.mem_append.mp hcm with hold | hnew
    · exact hc.proper c hold
    · rw [List.mem_singleton.mp hnew]
      exact hc'
  · change (s.calls ++ [c]).count (.retfreeqData .prealloc) = _
    rw [List.count_append, List.count_eq_zero_of_not_mem (a := .retfreeqData .prealloc) (l := [c])
      (by simpa using hne.symm), Nat.add_zero]
    exact hc.data

theorem Inv.count_append (hi : Inv s) {cs : List Call} (hcs : Call.retfreeqSkb .prealloc ∉ cs) :
    (s.calls ++ cs).count (.retfreeqSkb .prealloc) = if .prealloc ∈ s.live then 0 else 1 := by
  rw [List.count_append, hi.skb, List.count_eq_zero_of_not_mem hcs, Nat.add_zero]

theorem Inv.kfreeSkb (hi : Inv s) (hm : h ∈ s.live) : Inv (s.kfreeSkb h) := by
  have hs := hi.core.sound h hm
  have hrel := hi.core.release hm
  rw [Sys.kfreeSkb, if_pos (.inl hs.users), Sys.kfreeSkbmem]
  obtain ⟨d, b, cs, hcs, heq⟩ := release_changes s h
  rw [heq] at hrel ⊢
  simp only [Function.update_self]
  split
  case isTrue hflag =>
    obtain rfl := hs.skbPrealloc.mp hflag.2
    refine ⟨hrel.call rfl nofun, ?_⟩
    change (s.calls ++ cs ++ [_]).count _ = if _ ∈ s.live.erase .prealloc then 0 else 1
    rw [List.count_append, hi.count_append hcs, if_pos hm, if_neg (Finset.notMem_erase _ _)]
    rfl
  case isFalse hflag =>
    have hh : h ≠ .prealloc := fun hpre => hflag ⟨hs.cb, hs.skbPrealloc.mpr hpre⟩
    refine ⟨hrel.call hh nofun, ?_⟩
    change (s.calls ++ cs ++ [Call.kmemCacheFree h]).count _ = if _ ∈ s.live.erase h then 0 else 1
    rw [List.count_append, hi.count_append hcs, List.count_eq_zero_of_not_mem (l := [_]) (by simp), Nat.add_zero]
    refine if_congr ?_ rfl rfl
    rw [Finset.mem_erase, and_iff_right (Ne.symm hh)]

theorem Core.cloned_of_shared (hc : Core s) (hm : h ∈ s.live) {k : Header} (hk : k ∈ s.live) (hne : k ≠ h)
    (hhead : (s.skbs k).head = (s.skbs h).head) : (s.skbs k).cloned = true := by
  by_contra hcl
  have hone := hc.alone k hk (Bool.eq_false_iff.mpr hcl)
  have hrefs := refs_eq_refsBut hm
  have hpos : 0 < s.refsBut h (s.skbs k).head := refs_pos (Finset.mem_erase.mpr ⟨hne, hk⟩)
  rw [hhead] at hone hpos
  omega

theorem Core.marked (hc : Core s) (h : Header) : Core (s.setSkb h { s.skbs h with cloned := true }) := by
  have hskb (k : Header) : (s.setSkb h { s.skbs h with cloned := true }).skbs k =
      { s.skbs k with cloned := if k = h then true else (s.skbs k).cloned } := by
    change Function.update s.skbs h _ k = _
    by_cases hk : k = h
    · rw [hk, Function.update_self, if_pos rfl]
    · rw [Function.update_of_ne hk, if_neg hk]
  have hrefs (a : Area) : (s.setSkb h { s.skbs h with cloned := true }).refs a = s.refs a :=
    refs_congr (fun k _ => by rw [hskb k]) a
  refine ⟨hc.bug, fun k hk => ?_, fun k hk => ?_, fun k hk hcl => ?_, hc.proper, hc.data.trans (by rw [hrefs])⟩
  · have hs := hc.sound k hk
    rw [hskb k]
    exact ⟨hs.users, hs.cb, hs.skbPrealloc, hs.skbDataPrealloc, hs.old, hs.headOld⟩
  · rw [hskb k, hrefs]
    exact hc.dataref k hk
  · rw [hskb k] at hcl ⊢
    rw [hrefs]
    dsimp only at hcl
    split at hcl
    · cases hcl
    · exact hc.alone k hk hcl

theorem Core.cache_next (hc : Core s) : Header.cache s.next ∉ s.live := fun hmem =>
  Nat.lt_irrefl _ ((hc.sound _ hmem).old s.next rfl)

theorem Core.kmalloc_next (hc : Core s) : s.refs (.kmalloc s.next) = 0 :=
  refs_eq_zero.mpr fun k hk heq => Nat.lt_irrefl _ ((hc.sound k hk).headOld s.next heq)

theorem Sound.clone {n : Nat} {skb : SkBuff} (hs : Sound n h skb) :
    Sound (n + 1) (.cache n) { skb with users := 1, cloned := true, skbPrealloc := false } := by
  refine ⟨rfl, hs.cb, iff_of_false Bool.false_ne_true nofun, hs.skbDataPrealloc, fun k hk => ?_, fun k hk => ?_⟩
  · cases hk
    exact Nat.lt_succ_self _
  · exact Nat.lt_succ_of_lt (hs.headOld k hk)

theorem Sound.expand {n : Nat} {skb : SkBuff} (hs : Sound n h skb) :
    Sound (n + 1) h { skb with head := .kmalloc n, cloned := false, skbDataPrealloc := false } := by
  refine ⟨hs.users, hs.cb, hs.skbPrealloc, iff_of_false Bool.false_ne_true nofun,
    fun k hk => Nat.lt_succ_of_lt (hs.old k hk), fun k hk => ?_⟩
  cases hk
  exact Nat.lt_succ_self _

theorem Inv.skbClone (hi : Inv s) (hm : h ∈ s.live) (memory : Bool) : Inv (s.skbClone h memory) := by
  cases memory with
  | false => exact hi
  | true =>
      have hnew := hi.core.cache_next
      have hne : Header.cache s.next ≠ h := fun heq => hnew (heq ▸ hm)
      have hmark := hi.core.marked h
      have hskb : (s.skbClone h true).skbs (.cache s.next) =
          { s.skbs h with users := 1, cloned := true, skbPrealloc := false } := by
        change Function.update (Function.update s.skbs (.cache s.next) _) h _ (.cache s.next) = _
        rw [Function.update_of_ne hne, Function.update_self]
      have hself : (s.setSkb h { s.skbs h with cloned := true }).skbs h = { s.skbs h with cloned := true } :=
        Function.update_self ..
      have hrefs : (s.setSkb h { s.skbs h with cloned := true }).refs (s.skbs h).head = s.dataref (s.skbs h).head := by
        have hcount := hmark.dataref h hm
        rw [hself] at hcount
        exact hcount.symm
      refine ⟨hmark.join hnew rfl (fun k hk => ?_) rfl rfl (Nat.le_succ _) ?_ (fun a ha => ?_) ?_ (.inr ⟨?_, ?_⟩)
        fun hpre => ?_, hi.skb.trans (if_congr ?_ rfl rfl)⟩
      · change Function.update (Function.update s.skbs (.cache s.next) _) h _ k = Function.update s.skbs h _ k
        by_cases hkh : k = h
        · rw [hkh, Function.update_self, Function.update_self]
        · rw [Function.update_of_ne hkh, Function.update_of_ne hkh, Function.update_of_ne hk]
      · rw [hskb]
        exact (hi.core.sound h hm).clone
      · rw [hskb] at ha
        exact Function.update_of_ne ha ..
      · rw [hskb]
        dsimp only
        rw [hrefs]
        exact Function.update_self ..
      · rw [hskb]
      · intro k hk hhead
        rw [hskb] at hhead
        by_cases hkh : k = h
        · rw [hkh, hself]
        · have hold : (s.setSkb h { s.skbs h with cloned := true }).skbs k = s.skbs k := Function.update_of_ne hkh ..
          rw [hold] at hhead ⊢
          exact hi.core.cloned_of_shared hm hk hkh hhead
      · rw [hskb] at hpre
        have hpos : 0 < s.refs (s.skbs h).head := refs_pos hm
        rw [← hi.core.dataref h hm, ← hrefs, hpre] at hpos
        exact Nat.pos_iff_ne_zero.mp hpos
      · change _ ↔ Header.prealloc ∈ insert (Header.cache s.next) s.live
        rw [Finset.mem_insert, or_iff_right nofun]

theorem Core.setDataref (hc : Core s) {a : Area} (ha : s.refs a = 0) (n : Nat) : Core (s.setDataref a n) := by
  refine ⟨hc.bug, hc.sound, fun k hk => ?_, hc.alone, hc.proper, hc.data⟩
  change Function.update s.dataref a n (s.skbs k).head = s.refs (s.skbs k).head
  rw [Function.update_of_ne (refs_eq_zero.mp ha k hk), hc.dataref k hk]

theorem Inv.pskbExpandHead (hi : Inv s) (hm : h ∈ s.live) (memory : Bool) : Inv (s.pskbExpandHead h memory) := by
  have hs := hi.core.sound h hm
  rw [Sys.pskbExpandHead, if_neg (not_not.mpr hs.users)]
  cases memory with
  | false => exact hi
  | true =>
      have hfresh := hi.core.kmalloc_next
      let t := s.setDataref (.kmalloc s.next) (s.dataref (s.skbs h).head)
      have hrel : Core { t.skbReleaseData h with live := s.live.erase h } :=
        (hi.core.setDataref hfresh _).release hm
      obtain ⟨d, b, cs, hcs, heq⟩ := release_changes t h
      rw [heq] at hrel
      have hnone : Sys.refs { t with
          live := s.live.erase h
          dataref := d
          skbs := Function.update t.skbs h { t.skbs h with skbDataPrealloc := b }
          calls := t.calls ++ cs } (.kmalloc s.next) = 0 := by
        refine refs_eq_zero.mpr fun k hk => ?_
        dsimp only
        rw [Function.update_of_ne (Finset.ne_of_mem_erase hk)]
        exact refs_eq_zero.mp hfresh k (Finset.mem_of_mem_erase hk)
      rw [if_pos rfl]
      dsimp only
      rw [heq]
      refine ⟨hrel.join (Finset.notMem_erase h s.live) (Finset.insert_erase hm).symm (fun k hk => ?_) rfl rfl
        (Nat.le_succ _) ?_ (fun a ha => ?_) ?_ (.inl ?_) fun hpre => ?_, hi.count_append hcs⟩
      · exact Function.update_of_ne hk ..
      · simp only [Sys.setDataref, Sys.setSkb, Function.update_self]
        exact hs.expand
      · simp only [Sys.setDataref, Sys.setSkb, Function.update_self] at ha
        exact Function.update_of_ne ha ..
      · simp only [Sys.setDataref, Sys.setSkb, Function.update_self]
        rw [hnone]
      · simp only [Sys.setDataref, Sys.setSkb, Function.update_self]
        exact hnone
      · simp only [Sys.setDataref, Sys.setSkb, Function.update_self] at hpre
        cases hpre

theorem Inv.step (hi : Inv s) {e : Event} (he : Enabled s e) : Inv (step s e) := by
  cases e with
  | clone h memory => exact hi.skbClone he memory
  | expandHead h memory => exact hi.pskbExpandHead he memory
  | kfree h => exact hi.kfreeSkb he

end Step

/-- The memory of the driver comes home once, when the last packet that uses it
is gone, however the packet was cloned and its data replaced. -/
theorem prealloc_comes_home (skbs : Header → SkBuff) (dataref : Area → Nat) {es : List Event}
    (hE : Along step Enabled (skbHdrinit skbs dataref) es) :
    Throughout step Home (skbHdrinit skbs dataref) es ∧
      ((es.foldl step (skbHdrinit skbs dataref)).live = ∅ →
        (es.foldl step (skbHdrinit skbs dataref)).calls.count (.retfreeqData .prealloc) = 1 ∧
        (es.foldl step (skbHdrinit skbs dataref)).calls.count (.retfreeqSkb .prealloc) = 1) := by
  have hhome : Throughout step Home (skbHdrinit skbs dataref) es :=
    Throughout.of_invariant (fun _ hi => hi.home) (fun _ _ hi he _ => hi.step he) (hdrinit_inv skbs dataref) hE hE
  refine ⟨hhome, fun hnone => ?_⟩
  have hend := hhome.last
  rw [hend.data, hend.skb, hnone]
  exact ⟨if_neg fun ⟨_, hk, _⟩ => absurd hk (Finset.notMem_empty _), if_neg (Finset.notMem_empty _)⟩

def demoSkbs : Header → SkBuff := fun _ => ⟨0, .prealloc, false, false, false, false⟩

def demoEvents : List Event :=
  [.clone .prealloc true, .expandHead .prealloc true, .kfree .prealloc, .kfree (.cache 0)]

theorem clone_brings_data_home :
    Throughout step Home (skbHdrinit demoSkbs fun _ => 0) demoEvents ∧
      (demoEvents.foldl step (skbHdrinit demoSkbs fun _ => 0)).calls.count (.retfreeqData .prealloc) = 1 ∧
      (demoEvents.foldl step (skbHdrinit demoSkbs fun _ => 0)).calls.count (.retfreeqSkb .prealloc) = 1 := by
  have hrun := prealloc_comes_home demoSkbs (fun _ => 0)
    (show Along step Enabled (skbHdrinit demoSkbs fun _ => 0) demoEvents by decide)
  exact ⟨hrun.1, hrun.2 (by decide)⟩

end AliceModem.Skbuff
