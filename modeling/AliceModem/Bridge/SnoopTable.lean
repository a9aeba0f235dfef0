import AliceModem.Bridge.Snooping
import Mathlib.Data.List.Nodup

namespace AliceModem.SnoopTable

open Snooping

variable {Port : Type} [DecidableEq Port]

structure Key (Port : Type) where
  dst : Port
  addr : Mac
  host : Mac
  src : Ip
  filtMode : FiltMode
  deriving DecidableEq

def keyOf (e : McFdbEntry Port) : Key Port := ⟨e.dst, e.addr, e.host, e.src, e.filtMode⟩

def keys (br : Bridge Port) : List (Key Port) := br.mcList.map keyOf

def opposite : FiltMode → FiltMode
  | .mcastExclude => .mcastInclude
  | .mcastInclude => .mcastExclude

theorem opposite_inj {m m' : FiltMode} (h : opposite m = opposite m') : m = m' := by
  cases m <;> cases m' <;> first | rfl | cases h

omit [DecidableEq Port] in
theorem keyOf_tstamp (e : McFdbEntry Port) (t : UInt32) : keyOf { e with tstamp := t } = keyOf e := rfl

theorem isFor_iff (e : McFdbEntry Port) (prt : Port) (dest host : Mac) (src : Ip) (m : FiltMode) :
    (e.isFor prt dest host src = true ∧ e.filtMode = m) ↔ keyOf e = ⟨prt, dest, host, src, m⟩ := by
  simp only [McFdbEntry.isFor, keyOf, decide_eq_true_eq, Key.mk.injEq]
  tauto

theorem map_eraseP_key (l : List (McFdbEntry Port)) (k : Key Port) (q : McFdbEntry Port → Bool)
    (hq : ∀ e, q e = true ↔ keyOf e = k) : (l.eraseP q).map keyOf = (l.map keyOf).erase k := by
  induction l with
  | nil => rfl
  | cons e l ih =>
      by_cases h : keyOf e = k
      · rw [List.eraseP_cons_of_pos ((hq e).mpr h), List.map_cons, h, List.erase_cons_head]
      · have hne : ¬ q e = true := fun hqe => h ((hq e).mp hqe)
        rw [List.eraseP_cons_of_neg hne, List.map_cons, List.map_cons, ih,
          List.erase_cons_tail (by simpa using h)]

/-- The parts of the bridge that entering and removing leave alone. -/
structure SameBridge (br br' : Bridge Port) : Prop where
  portList : br'.portList = br.portList
  dirty : br'.dirty = br.dirty
  proxy : br'.proxy = br.proxy

omit [DecidableEq Port] in
theorem SameBridge.refl (br : Bridge Port) : SameBridge br br := ⟨rfl, rfl, rfl⟩

omit [DecidableEq Port] in
theorem SameBridge.trans {br br' br'' : Bridge Port} (h : SameBridge br br') (h' : SameBridge br' br'') :
    SameBridge br br'' :=
  ⟨h'.portList.trans h.portList, h'.dirty.trans h.dirty, h'.proxy.trans h.proxy⟩

theorem keys_remove (br : Bridge Port) (prt : Port) (dest host : Mac) {mode : UInt8}
    (hmode : mode = snoopInClear ∨ mode = snoopExClear) (src : Ip) :
    keys (brMcFdbRemove br (some prt) dest host mode src) =
      (keys br).erase ⟨prt, dest, host, src, clearMode mode⟩ := by
  have hnot : ¬ (mode ≠ snoopInClear ∧ mode ≠ snoopExClear) := by tauto
  rw [keys, brMcFdbRemove]
  simp only [if_neg hnot]
  exact map_eraseP_key _ _ _ fun e => by rw [decide_eq_true_eq, isFor_iff]

theorem keys_update (jiffies : UInt32) (br : Bridge Port) (prt : Port) (dest host : Mac) (mode : UInt8) (src : Ip) :
    keys (brMcFdbUpdate jiffies br prt dest host mode src).2 = keys br ∧
    ((brMcFdbUpdate jiffies br prt dest host mode src).1 = true ↔
      ⟨prt, dest, host, src, addMode mode⟩ ∈ keys br) := by
  constructor
  · rw [keys, keys, brMcFdbUpdate]
    simp only [List.map_map]
    apply List.map_congr_left
    intro e _
    rw [Function.comp_apply, apply_ite keyOf, keyOf_tstamp, ite_self]
  · rw [brMcFdbUpdate, keys, List.any_eq_true, List.mem_map]
    simp only [decide_eq_true_eq, isFor_iff]

theorem brMcFdbAdd_same (jiffies : UInt32) (br : Bridge Port) (prt : Option Port) (dest host : Mac) (mode : UInt8)
    (src : Ip) : SameBridge br (brMcFdbAdd jiffies br prt dest host mode src) := by
  cases prt with
  | none => exact .refl br
  | some prt =>
      simp only [brMcFdbAdd]
      split_ifs <;> exact ⟨rfl, rfl, rfl⟩

theorem brMcFdbRemove_same (br : Bridge Port) (prt : Option Port) (dest host : Mac) (mode : UInt8) (src : Ip) :
    SameBridge br (brMcFdbRemove br prt dest host mode src) := by
  cases prt with
  | none => exact .refl br
  | some prt =>
      simp only [brMcFdbRemove]
      split_ifs <;> exact ⟨rfl, rfl, rfl⟩

theorem keys_add (jiffies : UInt32) {br : Bridge Port} (halloc : br.allocs = []) (prt : Port) {dest : Mac}
    (hdest : dest ≠ upnpAddr) (host : Mac) {mode : UInt8} (hmode : mode = snoopInAdd ∨ mode = snoopExAdd) (src : Ip) :
    keys (brMcFdbAdd jiffies br (some prt) dest host mode src) =
      (if ⟨prt, dest, host, src, addMode mode⟩ ∈ keys br then keys br
        else keys br ++ [⟨prt, dest, host, src, addMode mode⟩]) ∧
    (brMcFdbAdd jiffies br (some prt) dest host mode src).allocs = [] := by
  have hnot : ¬ (mode ≠ snoopInAdd ∧ mode ≠ snoopExAdd) := by tauto
  obtain ⟨hkeys, hfound⟩ := keys_update jiffies br prt dest host mode src
  simp only [brMcFdbAdd, if_neg hnot, if_neg hdest, halloc, List.headD_nil, List.tail_nil, Bool.true_eq_false,
    if_false]
  by_cases h : (brMcFdbUpdate jiffies br prt dest host mode src).1 = true
  · rw [if_pos h, if_pos (hfound.mp h)]
    exact ⟨hkeys, halloc⟩
  · rw [if_neg h, if_neg fun hm => h (hfound.mpr hm)]
    have happend (e : McFdbEntry Port) : ((brMcFdbUpdate jiffies br prt dest host mode src).2.mcList ++ [e]).map keyOf =
        keys br ++ [keyOf e] := by
      rw [List.map_append, ← hkeys]
      rfl
    split
    · exact ⟨happend _, rfl⟩
    · exact ⟨happend _, rfl⟩

/-- No key twice, and every allocation succeeds. -/
structure Sound (br : Bridge Port) : Prop where
  nodup : (keys br).Nodup
  allocs : br.allocs = []

theorem Sound.add {br : Bridge Port} (h : Sound br) (jiffies : UInt32) (prt : Port) {dest : Mac}
    (hdest : dest ≠ upnpAddr) (host : Mac) {mode : UInt8} (hmode : mode = snoopInAdd ∨ mode = snoopExAdd) (src : Ip) :
    Sound (brMcFdbAdd jiffies br (some prt) dest host mode src) ∧
    ∀ k, k ∈ keys (brMcFdbAdd jiffies br (some prt) dest host mode src) ↔
      k ∈ keys br ∨ k = ⟨prt, dest, host, src, addMode mode⟩ := by
  obtain ⟨hkeys, halloc⟩ := keys_add jiffies h.allocs prt hdest host hmode src
  by_cases hmem : ⟨prt, dest, host, src, addMode mode⟩ ∈ keys br
  · rw [if_pos hmem] at hkeys
    refine ⟨⟨hkeys ▸ h.nodup, halloc⟩, fun k => ?_⟩
    rw [hkeys]
    constructor
    · exact .inl
    · rintro (hk | rfl)
      · exact hk
      · exact hmem
  · rw [if_neg hmem] at hkeys
    refine ⟨⟨?_, halloc⟩, fun k => by rw [hkeys, List.mem_append, List.mem_singleton]⟩
    rw [hkeys]
    exact h.nodup.append (List.nodup_singleton _) (List.disjoint_singleton.mpr hmem)

theorem Sound.remove {br : Bridge Port} (h : Sound br) (prt : Port) (dest host : Mac) {mode : UInt8}
    (hmode : mode = snoopInClear ∨ mode = snoopExClear) (src : Ip) :
    Sound (brMcFdbRemove br (some prt) dest host mode src) ∧
    ∀ k, k ∈ keys (brMcFdbRemove br (some prt) dest host mode src) ↔
      k ∈ keys br ∧ k ≠ ⟨prt, dest, host, src, clearMode mode⟩ := by
  have hkeys := keys_remove br prt dest host hmode src
  refine ⟨⟨hkeys ▸ h.nodup.erase _, ?_⟩, fun k => by rw [hkeys, h.nodup.mem_erase_iff]; tauto⟩
  have hnot : ¬ (mode ≠ snoopInClear ∧ mode ≠ snoopExClear) := by tauto
  simp only [brMcFdbRemove, if_neg hnot, h.allocs]

theorem findMode_some {br : Bridge Port} {prt : Port} {host dest : Mac} {src : Ip} {m : FiltMode}
    (h : findMode (some prt) host br dest src = some m) : ⟨prt, dest, host, src, m⟩ ∈ keys br := by
  obtain ⟨e, he, rfl⟩ := Option.map_eq_some_iff.mp h
  rw [keys, List.mem_map]
  exact ⟨e, List.mem_of_find?_eq_some he, (isFor_iff e prt dest host src _).mp ⟨List.find?_some he, rfl⟩⟩

theorem findMode_of_mem {br : Bridge Port} {prt : Port} {host dest : Mac} {src : Ip} {m : FiltMode}
    (h : ⟨prt, dest, host, src, m⟩ ∈ keys br) : ∃ m', findMode (some prt) host br dest src = some m' := by
  obtain ⟨e, he, hk⟩ := List.mem_map.mp h
  have hfor := ((isFor_iff e prt dest host src m).mpr hk).1
  rcases hf : brMcFdbFind br prt dest host src with _ | e'
  · exact absurd hfor (List.find?_eq_none.mp hf e he)
  · exact ⟨e'.filtMode, by rw [findMode, Option.bind_some, hf]; rfl⟩

section Add

variable (jiffies : UInt32) (br : Bridge Port) (prt : Port) (dest host : Mac) (mode : UInt8) (src : Ip)

def refresh (k : Key Port) (l : List (McFdbEntry Port)) : List (McFdbEntry Port) :=
  l.map fun e => if keyOf e = k then { e with tstamp := jiffies + queryTimeoutTicks } else e

theorem refresh_of_not_mem {k : Key Port} {l : List (McFdbEntry Port)} (h : k ∉ l.map keyOf) :
    refresh jiffies k l = l := by
  rw [refresh, List.map_congr_left (g := id), List.map_id]
  intro e he
  refine if_neg fun hk => h ?_
  rw [← hk]
  exact List.mem_map_of_mem he

theorem map_keyOf_refresh (k : Key Port) (l : List (McFdbEntry Port)) : (refresh jiffies k l).map keyOf = l.map keyOf := by
  rw [refresh, List.map_map]
  apply List.map_congr_left
  intro e _
  dsimp only [Function.comp_apply]
  split
  · exact keyOf_tstamp e _
  · rfl

theorem update_eq : brMcFdbUpdate jiffies br prt dest host mode src =
    (decide (⟨prt, dest, host, src, addMode mode⟩ ∈ keys br),
      { br with mcList := refresh jiffies ⟨prt, dest, host, src, addMode mode⟩ br.mcList }) := by
  have hfound := (keys_update jiffies br prt dest host mode src).2
  refine Prod.ext ?_ ?_
  · rw [Bool.eq_iff_iff, hfound, decide_eq_true_iff]
  · rw [brMcFdbUpdate, refresh]
    simp only [decide_eq_true_eq, isFor_iff]

theorem add_upnp : brMcFdbAdd jiffies br (some prt) upnpAddr host mode src = br := by
  rw [brMcFdbAdd, if_pos rfl, ite_self]

theorem add_cases (hmode : mode = snoopInAdd ∨ mode = snoopExAdd) (hdest : dest ≠ upnpAddr) :
    (⟨prt, dest, host, src, addMode mode⟩ ∈ keys br ∧
      (brMcFdbAdd jiffies br (some prt) dest host mode src).mcList =
        refresh jiffies ⟨prt, dest, host, src, addMode mode⟩ br.mcList) ∨
    ⟨prt, dest, host, src, addMode mode⟩ ∉ keys br ∧
      ((brMcFdbAdd jiffies br (some prt) dest host mode src).mcList = br.mcList ∨
        (brMcFdbAdd jiffies br (some prt) dest host mode src).mcList =
          br.mcList ++ [⟨prt, dest, host, src, addMode mode, jiffies + queryTimeoutTicks⟩]) := by
  have hnot : ¬ (mode ≠ snoopInAdd ∧ mode ≠ snoopExAdd) := by tauto
  simp only [brMcFdbAdd, if_neg hnot, if_neg hdest, update_eq, decide_eq_true_eq]
  by_cases hk : ⟨prt, dest, host, src, addMode mode⟩ ∈ keys br
  · rw [if_pos hk]
    exact .inl ⟨hk, rfl⟩
  · rw [if_neg hk, refresh_of_not_mem jiffies hk]
    refine .inr ⟨hk, ?_⟩
    split_ifs
    · exact .inl rfl
    · exact .inr rfl
    · exact .inr rfl

theorem keys_add_cases (hmode : mode = snoopInAdd ∨ mode = snoopExAdd) :
    keys (brMcFdbAdd jiffies br (some prt) dest host mode src) = keys br ∨
    dest ≠ upnpAddr ∧ ⟨prt, dest, host, src, addMode mode⟩ ∉ keys br ∧
      keys (brMcFdbAdd jiffies br (some prt) dest host mode src) =
        keys br ++ [⟨prt, dest, host, src, addMode mode⟩] := by
  by_cases hdest : dest = upnpAddr
  · left
    rw [hdest, add_upnp]
  · rcases add_cases jiffies br prt dest host mode src hmode hdest with ⟨-, hlist⟩ | ⟨hk, hlist | hlist⟩
    · left
      rw [keys, hlist, map_keyOf_refresh, keys]
    · left
      rw [keys, hlist, keys]
    · refine .inr ⟨hdest, hk, ?_⟩
      rw [keys, hlist, List.map_append, keys]
      rfl

end Add

/-- A relation that holds across every change that a report or leave of the host `host` behind `prt` makes to the
table. -/
structure Respects (R : Bridge Port → Bridge Port → Prop) (jiffies : UInt32) (prt : Option Port) (host : Mac) :
    Prop where
  refl : ∀ br, R br br
  trans : ∀ br br' br'', R br br' → R br' br'' → R br br''
  includes : ∀ dest br src, R br (includeSource jiffies prt host dest br src)
  excludes : ∀ dest br src, R br (excludeSource jiffies prt host dest br src)
  joins : ∀ dest br, R br (brMcFdbAdd jiffies br prt dest host snoopExAdd 0)
  leaves : ∀ dest br, R br (brMcFdbRemove br prt dest host snoopExClear 0)

section Respects

variable {R : Bridge Port → Bridge Port → Prop} {jiffies : UInt32} {prt : Option Port} {host : Mac}

theorem Respects.of_add_remove (refl : ∀ br, R br br) (trans : ∀ br br' br'', R br br' → R br' br'' → R br br'')
    (hadd : ∀ br dest mode src, mode = snoopInAdd ∨ mode = snoopExAdd → R br (brMcFdbAdd jiffies br prt dest host mode src))
    (hremove : ∀ br dest mode src, mode = snoopInClear ∨ mode = snoopExClear →
      R br (brMcFdbRemove br prt dest host mode src)) : Respects R jiffies prt host := by
  refine ⟨refl, trans, fun dest br src => ?_, fun dest br src => ?_, fun dest br => hadd br dest _ 0 (.inr rfl),
    fun dest br => hremove br dest _ 0 (.inr rfl)⟩
  · rw [includeSource, changeSource]
    split
    · exact hremove br dest _ src (.inr rfl)
    · exact hadd br dest _ src (.inl rfl)
  · rw [excludeSource, changeSource]
    split
    · exact hremove br dest _ src (.inl rfl)
    · exact hadd br dest _ src (.inr rfl)

omit [DecidableEq Port] in
theorem foldl_respects {α : Type} {f : Bridge Port → α → Bridge Port} (refl : ∀ br, R br br)
    (trans : ∀ br br' br'', R br br' → R br' br'' → R br br'') (h : ∀ br a, R br (f br a)) (l : List α)
    (br : Bridge Port) : R br (l.foldl f br) := by
  induction l generalizing br with
  | nil => exact refl br
  | cons a l ih => exact trans _ _ _ (h br a) (ih _)

theorem Respects.processGrec (h : Respects R jiffies prt host) (br : Bridge Port) (r : GroupRecord) :
    R br (processGrec jiffies prt host br r) := by
  have hin := foldl_respects h.refl h.trans (h.includes (brcmConvIpToMac r.grecMca)) r.grecSrc br
  have hex := foldl_respects h.refl h.trans (h.excludes (brcmConvIpToMac r.grecMca)) r.grecSrc br
  rw [Snooping.processGrec]
  dsimp only
  split_ifs
  · exact h.trans _ _ _ hin (h.leaves _ _)
  · exact hin
  · exact h.trans _ _ _ hex (h.joins _ _)
  · exact hex
  · exact h.refl br

theorem Respects.mcForward {skb : Skb Port} (h : Respects R jiffies skb.brPort skb.hSource)
    (hdirty : ∀ br dirty, R br { br with dirty := dirty }) (snooping : Nat) (br : Bridge Port) :
    R br (mcForward snooping jiffies br skb).bridge := by
  rw [Snooping.mcForward]
  split_ifs
  · exact h.refl br
  · exact h.refl br
  · rw [snoopIgmp]
    dsimp only
    split_ifs
    · exact h.joins _ br
    · exact foldl_respects h.refl h.trans h.processGrec _ br
    · exact h.leaves _ br
    · exact h.refl br
  · exact hdirty br _

end Respects

end AliceModem.SnoopTable
