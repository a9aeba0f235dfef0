import AliceModem.Lib.Transition
import AliceModem.Xtm.Devices

namespace AliceModem.DeviceAddresses

open Devices MacPool Transition

abbrev xtmId : UInt32 := macId 0

/-- The addresses of the pool do not wrap around in their last three bytes and
are not group addresses. -/
structure Proper (p : MacInfo) : Prop where
  inRange : InRange p
  unicast : p.ucaBaseMacAddr.headD 0 &&& 0x01 ≠ 0x01

def Enabled (g : Global) : Request → Prop
  | .create _ _ => ∃ e ∈ g.pool.macAddrs, e.chInUse = 0
  | _ => True

instance (g : Global) : (r : Request) → Decidable (Enabled g r)
  | .create _ _ => inferInstanceAs (Decidable (∃ e ∈ g.pool.macAddrs, e.chInUse = 0))
  | .delete _ | .linkStsChanged _ _ _ => inferInstanceAs (Decidable True)

/-- A device is created only before a block has been freed twice, registered only
while there is no other, and fails to be registered only while there is one. -/
def Alone (g : Global) : Request → Prop
  | .create alloc registered => alloc → g.stray = false ∧ (registered = 0 ↔ g.live = ∅)
  | _ => True

def First (p : MacInfo) (i : Nat) : Prop :=
  (∃ e, p.macAddrs[i]? = some e ∧ e.ulId = xtmId) ∧ ∀ j e, j < i → p.macAddrs[j]? = some e → e.ulId ≠ xtmId

structure Inv (g : Global) : Prop where
  proper : Proper g.pool
  ready : g.ulDrvState ≠ .uninitialized
  listed : ∀ d ∈ g.live, g.Registered d
  alive : ∀ i d, g.pDevCtxs i = some d → d ∈ g.live
  places : ∀ i j d, g.pDevCtxs i = some d → g.pDevCtxs j = some d → i = j
  old : ∀ d ∈ g.live, d < g.fresh
  single : ∀ d ∈ g.live, ∀ d' ∈ g.live, d = d'
  entry : ∀ d ∈ g.live, ∃ i, g.pool.macAddrs[i]? = some ⟨xtmId, 1⟩ ∧ First g.pool i ∧ g.devAddr d = macAddr g.pool i
  stray : ∀ i e, g.pool.macAddrs[i]? = some e → e.ulId = xtmId → e.chInUse ≠ 0 →
    ∃ d ∈ g.live, g.devAddr d = macAddr g.pool i

section Step

variable {g : Global} {p : MacInfo} {i j d : Nat}

theorem First.unique (hi : First p i) (hj : First p j) : i = j := by
  obtain ⟨⟨e, he, hid⟩, hfirst⟩ := hi
  obtain ⟨⟨e', he', hid'⟩, hfirst'⟩ := hj
  rcases lt_trichotomy i j with hlt | heq | hlt
  · exact absurd hid (hfirst' i e hlt he)
  · exact heq
  · exact absurd hid' (hfirst j e' hlt he')

theorem Proper.chooseAddr (hp : Proper p) (i : Nat) : chooseAddr (some (macAddr p i)) = macAddr p i := by
  have hhead : (macAddr p i).headD 0 = p.ucaBaseMacAddr.headD 0 := by
    have hlen := p.length_base
    rw [macAddr]
    cases hb : p.ucaBaseMacAddr with
    | nil => simp [hb] at hlen
    | cons b bs => rfl
  rw [Devices.chooseAddr, hhead, if_neg hp.unicast]

theorem get_spec (hfree : ∃ e ∈ p.macAddrs, e.chInUse = 0) :
    ∃ i, i < p.macAddrs.length ∧ kerSysGetMacAddress p xtmId = (some (macAddr p i), claim p i xtmId) ∧
      (∀ j e, j < i → p.macAddrs[j]? = some e → e.ulId ≠ xtmId) ∧
      ((∃ e ∈ p.macAddrs, e.ulId = xtmId) → First p i) := by
  have hany : xtmId ≠ macAddressAny := by decide
  rcases kerSysGetMacAddress_cases p hany with ⟨i, e, hi, hcase, hget⟩ | ⟨hall, -⟩
  · refine ⟨i, lt_of_getElem? hi, hget, fun j e' hj he' => ?_, fun ⟨e', he', hid⟩ => ?_⟩
    · rcases hcase with ⟨-, hfirst⟩ | ⟨hnone, -⟩
      · exact hfirst j e' hj he'
      · exact hnone e' (List.mem_of_getElem? he')
    · rcases hcase with ⟨hid', hfirst⟩ | ⟨hnone, -⟩
      · exact ⟨⟨e, hi, hid'⟩, hfirst⟩
      · exact absurd hid (hnone e' he')
  · obtain ⟨e, he, huse⟩ := hfree
    exact absurd huse (hall e he).2

theorem setUp_eq {i : Nat} (hp : Proper g.pool)
    (hget : kerSysGetMacAddress g.pool xtmId = (some (macAddr g.pool i), claim g.pool i xtmId)) :
    g.setUp = { g with
      ulLinkState := Function.update g.ulLinkState g.fresh 0
      devAddr := Function.update g.devAddr g.fresh (macAddr g.pool i)
      pool := claim g.pool i xtmId } := by
  rw [Global.setUp, hget]
  dsimp only
  rw [hp.chooseAddr]

theorem claim_self (hi : p.macAddrs[i]? = some ⟨xtmId, 1⟩) : claim p i xtmId = p := by
  have hset : p.macAddrs.set i ⟨xtmId, 1⟩ = p.macAddrs := by
    obtain ⟨hlt, heq⟩ := List.getElem?_eq_some_iff.mp hi
    rw [← heq, List.set_getElem_self]
  rw [claim, hset]

theorem Inv.setUp_live (h : Inv g) (hd : d ∈ g.live) (hfree : ∃ e ∈ g.pool.macAddrs, e.chInUse = 0) :
    g.setUp = { g with
      ulLinkState := Function.update g.ulLinkState g.fresh 0
      devAddr := Function.update g.devAddr g.fresh (g.devAddr d) } := by
  obtain ⟨i, hi, hfirst, haddr⟩ := h.entry d hd
  obtain ⟨j, -, hget, -, hj⟩ := get_spec hfree
  obtain rfl : j = i := (hj ⟨_, List.mem_of_getElem? hi, rfl⟩).unique hfirst
  rw [setUp_eq h.proper hget, claim_self hi, haddr]

theorem Proper.claim (hp : Proper p) (i : Nat) : Proper (claim p i xtmId) := by
  refine ⟨?_, hp.unicast⟩
  have hrange := hp.inRange
  rw [InRange] at hrange ⊢
  rwa [MacPool.claim, List.length_set]

theorem Proper.unclaim (hp : Proper p) (i : Nat) : Proper (unclaim p i) := by
  refine ⟨?_, hp.unicast⟩
  have hrange := hp.inRange
  rw [InRange] at hrange ⊢
  rwa [MacPool.unclaim, List.length_modify]

theorem Inv.create_first (h : Inv g) (hempty : g.live = ∅) (hfree : ∃ e ∈ g.pool.macAddrs, e.chInUse = 0) :
    Inv g.setUp.enter := by
  obtain ⟨i, hlt, hget, hbefore, -⟩ := get_spec hfree
  have hno (d : Nat) : d ∉ g.live := hempty ▸ Finset.notMem_empty d
  have hnone (k : Fin maxDevCtxs) : g.pDevCtxs k = none := by
    cases hk : g.pDevCtxs k with
    | none => rfl
    | some d => exact absurd (h.alive k d hk) (hno d)
  obtain ⟨k, hslot⟩ : ∃ k, g.setUp.slot none = some k := by
    refine Option.ne_none_iff_exists'.mp fun hfull => ?_
    exact slot_eq_none.mp hfull 0 (hnone 0)
  have hself : (claim g.pool i xtmId).macAddrs[i]? = some ⟨xtmId, 1⟩ := List.getElem?_set_self hlt
  have hnew (d : Nat) (hd : d ∈ insert g.fresh g.live) : d = g.fresh :=
    (Finset.mem_insert.mp hd).resolve_right (hno d)
  have haddr : g.setUp.devAddr g.fresh = macAddr g.pool i := by
    rw [setUp_eq h.proper hget]
    exact Function.update_self ..
  have hpool : g.setUp.pool = claim g.pool i xtmId := by rw [setUp_eq h.proper hget]
  have honly (j : Fin maxDevCtxs) (d : Nat) (hj : Function.update g.pDevCtxs k (some g.fresh) j = some d) :
      j = k ∧ d = g.fresh := by
    by_cases hjk : j = k
    · rw [hjk, Function.update_self] at hj
      exact ⟨hjk, (Option.some.inj hj).symm⟩
    · rw [Function.update_of_ne hjk, hnone] at hj
      cases hj
  rw [Global.enter, hslot, Option.elim_some]
  refine ⟨?_, h.ready, fun d hd => ⟨k, ?_⟩, fun j d hj => ?_, fun j j' d hj hj' => ?_, fun d hd => ?_,
    fun d hd d' hd' => ?_, fun d hd => ?_, fun j e hj hid huse => ?_⟩
  · exact hpool ▸ h.proper.claim i
  · rw [hnew d hd]
    exact Function.update_self ..
  · rw [(honly j d hj).2]
    exact Finset.mem_insert_self ..
  · rw [(honly j d hj).1, (honly j' d hj').1]
  · rw [hnew d hd]
    exact Nat.lt_succ_self _
  · rw [hnew d hd, hnew d' hd']
  · rw [hnew d hd]
    dsimp only
    rw [hpool, haddr]
    refine ⟨i, hself, ⟨⟨_, hself, rfl⟩, fun j e hj he => ?_⟩, rfl⟩
    obtain ⟨-, he⟩ := (getElem?_set_cases he).resolve_left fun heq => absurd heq.1 hj.ne
    exact hbefore j e hj he
  · refine ⟨g.fresh, Finset.mem_insert_self .., ?_⟩
    dsimp only at hj ⊢
    rw [hpool] at hj ⊢
    rcases getElem?_set_cases hj with ⟨rfl, -⟩ | ⟨-, hj⟩
    · exact haddr
    · obtain ⟨d, hd, -⟩ := h.stray j e hj hid huse
      exact absurd hd (hno d)

theorem Inv.create_failed (h : Inv g) (hlive : g.live ≠ ∅) (hfree : ∃ e ∈ g.pool.macAddrs, e.chInUse = 0) :
    Inv g.setUp.discard := by
  obtain ⟨d, hd⟩ := Finset.nonempty_iff_ne_empty.mpr hlive
  have hsame (d' : Nat) (hd' : d' ∈ g.live) :
      Function.update g.devAddr g.fresh (g.devAddr d) d' = g.devAddr d' := Function.update_of_ne (h.old d' hd').ne ..
  rw [h.setUp_live hd hfree, Global.discard, Global.freeTwice]
  refine ⟨h.proper, h.ready, h.listed, h.alive, h.places, fun d' hd' => (h.old d' hd').trans (Nat.lt_succ_self _),
    h.single, fun d' hd' => ?_, fun i e hi hid huse => ?_⟩
  · dsimp only
    rw [hsame d' hd']
    exact h.entry d' hd'
  · obtain ⟨d', hd', haddr⟩ := h.stray i e hi hid huse
    exact ⟨d', hd', (hsame d' hd').trans haddr⟩

theorem Inv.create (h : Inv g) {alloc : Bool} {registered : Int} (hen : Enabled g (.create alloc registered))
    (hc : Alone g (.create alloc registered)) (written : Memory) :
    Inv (g.doCreateDeviceReq alloc registered written).2 := by
  rw [Global.doCreateDeviceReq]
  split
  case isFalse => exact h
  case isTrue halloc =>
    obtain ⟨hs, hiff⟩ := hc halloc.2
    dsimp only
    rw [share_of_not_stray (g := g.setUp) hs]
    split
    case isTrue hreg => exact h.create_first (hiff.mp hreg) hen
    case isFalse hreg => exact h.create_failed (fun hempty => hreg (hiff.mpr hempty)) hen

theorem Inv.delete (h : Inv g) (d : Nat) : Inv (g.doDeleteDeviceReq d).2 := by
  rw [Global.doDeleteDeviceReq]
  split
  case h_1 => exact ⟨h.proper, h.ready, h.listed, h.alive, h.places, h.old, h.single, h.entry, h.stray⟩
  case h_2 k hslot =>
    have hk := slot_eq_some hslot
    have hd := h.alive k d hk
    obtain ⟨i, hi, -, haddr⟩ := h.entry d hd
    have hrelease : kerSysReleaseMacAddress g.pool (g.devAddr d) = (0, unclaim g.pool i) := by
      have hidx := releaseIdx_macAddr h.proper.inRange (lt_of_getElem? hi)
      rw [kerSysReleaseMacAddress, haddr, hidx, hi, Option.map_some, if_pos rfl]
    have hnone (d' : Nat) : d' ∉ g.live.erase d := fun hd' =>
      (Finset.mem_erase.mp hd').1 (h.single d' (Finset.mem_of_mem_erase hd') d hd)
    have hgone (j : Fin maxDevCtxs) (d' : Nat) : Function.update g.pDevCtxs k none j ≠ some d' := by
      intro hj
      by_cases hjk : j = k
      · rw [hjk, Function.update_self] at hj
        cases hj
      · rw [Function.update_of_ne hjk] at hj
        have hd' := h.single d' (h.alive j d' hj) d hd
        exact hjk (h.places j k d (hd' ▸ hj) hk)
    refine ⟨?_, h.ready, fun d' hd' => absurd hd' (hnone d'), fun j d' hj => absurd hj (hgone j d'),
      fun j _ d' hj => absurd hj (hgone j d'), fun d' hd' => absurd hd' (hnone d'),
      fun d' hd' => absurd hd' (hnone d'), fun d' hd' => absurd hd' (hnone d'), fun j e hj hid huse => ?_⟩
    · dsimp only [Global.clearMatchIds]
      rw [hrelease]
      exact h.proper.unclaim i
    · dsimp only [Global.clearMatchIds] at hj
      rw [hrelease] at hj
      obtain ⟨e', hj', hid', huse'⟩ := getElem?_modify_cases hj
      by_cases hji : j = i
      · rw [if_pos hji] at huse'
        exact absurd huse' huse
      · rw [if_neg hji] at huse'
        obtain ⟨d', hd', haddr'⟩ := h.stray j e' hj' (hid' ▸ hid) (huse' ▸ huse)
        rw [h.single d' hd' d hd, haddr] at haddr'
        exact absurd (macAddr_injective h.proper.inRange (lt_of_getElem? hi) (lt_of_getElem? hj') haddr').symm hji

theorem Inv.linkStsChanged (h : Inv g) (d : Nat) (lsc : LinkStatusChange) (memory : Bool) :
    Inv (g.doLinkStsChangedReq d lsc memory).2 := by
  have hsame (state : DrvState) (hstate : state ≠ .uninitialized) (link : Nat → Nat)
      (ids : Fin maxMatchIds → Option Nat) :
      Inv { g with ulDrvState := state, ulLinkState := link, pDevCtxsByMatchId := ids } :=
    ⟨h.proper, hstate, h.listed, h.alive, h.places, h.old, h.single, h.entry, h.stray⟩
  rw [Global.doLinkStsChangedReq]
  split
  · exact h
  split
  · rw [Global.doLinkUp]
    split
    · refine hsame _ ?_ _ _
      split
      · exact nofun
      · exact h.ready
    · exact h
  · rw [Global.doLinkDown]
    dsimp only
    rw [Global.stopRunning]
    split
    · exact hsame _ h.ready _ _
    · exact hsame .initialized nofun _ _

theorem Inv.step (h : Inv g) {r : Request} (hen : Enabled g r) (hc : Alone g r) (written : Memory) :
    Inv (step g (r, written)) := by
  cases r with
  | create alloc registered => exact h.create hen hc written
  | delete d => exact h.delete d
  | linkStsChanged d lsc memory => exact h.linkStsChanged d lsc memory

end Step

end AliceModem.DeviceAddresses
