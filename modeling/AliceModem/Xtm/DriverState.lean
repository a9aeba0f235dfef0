import AliceModem.Lib.Transition
import AliceModem.Xtm.Devices

namespace AliceModem.DriverState

open Devices MacPool Transition

/-- The run state follows the links, every live device is registered, and the
match ids lead to live devices with their links up. -/
structure Follows (g : Global) : Prop where
  running : g.ulDrvState = .running ↔ g.AnyUp
  listed : ∀ d ∈ g.live, g.Registered d
  matched : ∀ m d, g.pDevCtxsByMatchId m = some d → d ∈ g.live ∧ g.Registered d ∧ g.ulLinkState d = linkUp

/-- A device is created while there is a place for it and no memory that may be
another's, and one with its link up is deleted while there is another one. Where
there is no device, one that cannot be registered does no harm. -/
def Keeps (g : Global) : Request → Prop
  | .create alloc registered => alloc → (registered = 0 → ∃ i, g.pDevCtxs i = none) ∧
      (g.stray → registered ≠ 0 ∧ ∀ i, g.pDevCtxs i = none)
  | .delete d => g.Registered d → g.ulLinkState d = linkUp →
      ∃ d', d' ≠ d ∧ g.Registered d' ∧ g.ulLinkState d' = linkUp
  | .linkStsChanged _ _ _ => True

structure Inv (g : Global) : Prop extends Follows g where
  ready : g.ulDrvState ≠ .uninitialized
  distinct : ∀ i j d, g.pDevCtxs i = some d → g.pDevCtxs j = some d → i = j
  alive : ∀ i d, g.pDevCtxs i = some d → d ∈ g.live
  old : ∀ d ∈ g.live, d < g.fresh

section Step

variable {g : Global} {d : Nat}

theorem Inv.setUp (h : Inv g) : Inv g.setUp := by
  have hsame (d : Nat) (hd : d ∈ g.live) : g.setUp.ulLinkState d = g.ulLinkState d :=
    Function.update_of_ne (h.old d hd).ne ..
  refine ⟨⟨h.running.trans ?_, h.listed, fun m d hm => ?_⟩, h.ready, h.distinct, h.alive, h.old⟩
  · refine exists₂_congr fun i d => and_congr_right fun hi => ?_
    rw [hsame d (h.alive i d hi)]
  · obtain ⟨hlive, hreg, hup⟩ := h.matched m d hm
    exact ⟨hlive, hreg, (hsame d hlive).trans hup⟩

theorem Inv.rewritten (h : Inv g) (hnone : ∀ i, g.pDevCtxs i = none) (written : Memory) :
    Inv { g with toMemory := written } := by
  have hno (d : Nat) : ¬ g.Registered d := by
    rintro ⟨i, hi⟩
    rw [hnone i] at hi
    cases hi
  refine ⟨⟨h.running.trans (iff_of_false ?_ ?_), h.listed, fun m d hm => ?_⟩, h.ready, h.distinct, h.alive, h.old⟩
  · rintro ⟨i, d, hi, -⟩
    exact hno d ⟨i, hi⟩
  · rintro ⟨i, d, hi, -⟩
    exact hno d ⟨i, hi⟩
  · exact absurd (h.matched m d hm).2.1 (hno d)

theorem Inv.discard (h : Inv g) : Inv g.discard :=
  ⟨⟨h.running, h.listed, h.matched⟩, h.ready, h.distinct, h.alive, fun d hd => (h.old d hd).trans (Nat.lt_succ_self _)⟩

theorem registered_update {i : Fin maxDevCtxs} (hi : g.pDevCtxs i = none) (hd : g.Registered d) :
    ∃ j, Function.update g.pDevCtxs i (some g.fresh) j = some d := by
  obtain ⟨j, hj⟩ := hd
  refine ⟨j, ?_⟩
  rw [Function.update_of_ne fun hji => ?_, hj]
  rw [hji, hi] at hj
  cases hj

theorem update_cases {i j : Fin maxDevCtxs} {x : Option Nat} (hj : Function.update g.pDevCtxs i x j = some d) :
    j = i ∧ x = some d ∨ j ≠ i ∧ g.pDevCtxs j = some d := by
  by_cases hji : j = i
  · rw [hji, Function.update_self] at hj
    exact .inl ⟨hji, hj⟩
  · rw [Function.update_of_ne hji] at hj
    exact .inr ⟨hji, hj⟩

theorem Inv.enter (h : Inv g) (hdown : g.ulLinkState g.fresh ≠ linkUp) (hplace : ∃ i, g.pDevCtxs i = none) :
    Inv g.enter := by
  obtain ⟨i, hslot⟩ : ∃ i, g.slot none = some i := by
    refine Option.ne_none_iff_exists'.mp fun hnone => ?_
    obtain ⟨i, hi⟩ := hplace
    exact slot_eq_none.mp hnone i hi
  have hi := slot_eq_some hslot
  have hfresh (j : Fin maxDevCtxs) : g.pDevCtxs j ≠ some g.fresh := fun hj =>
    absurd (h.old _ (h.alive j _ hj)) (lt_irrefl _)
  rw [Global.enter, hslot, Option.elim_some]
  refine ⟨⟨h.running.trans ⟨?_, ?_⟩, fun d hd => ?_, fun m d hm => ?_⟩, h.ready, ?_, ?_, ?_⟩
  · rintro ⟨j, d, hj, hup⟩
    obtain ⟨k, hk⟩ := registered_update hi ⟨j, hj⟩
    exact ⟨k, d, hk, hup⟩
  · rintro ⟨j, d, hj, hup⟩
    rcases update_cases hj with ⟨-, hd⟩ | ⟨-, hj⟩
    · cases hd
      exact absurd hup hdown
    · exact ⟨j, d, hj, hup⟩
  · rcases Finset.mem_insert.mp hd with rfl | hd
    · exact ⟨i, Function.update_self ..⟩
    · exact registered_update hi (h.listed d hd)
  · obtain ⟨hlive, hreg, hup⟩ := h.matched m d hm
    exact ⟨Finset.mem_insert_of_mem hlive, registered_update hi hreg, hup⟩
  · intro j k d hj hk
    rcases update_cases hj with ⟨hji, hd⟩ | ⟨-, hj⟩
    · cases hd
      rcases update_cases hk with ⟨hki, -⟩ | ⟨-, hk⟩
      · rw [hji, hki]
      · exact absurd hk (hfresh k)
    · rcases update_cases hk with ⟨-, hd⟩ | ⟨-, hk⟩
      · cases hd
        exact absurd hj (hfresh j)
      · exact h.distinct j k d hj hk
  · intro j d hj
    rcases update_cases hj with ⟨-, hd⟩ | ⟨-, hj⟩
    · cases hd
      exact Finset.mem_insert_self ..
    · exact Finset.mem_insert_of_mem (h.alive j d hj)
  · intro d hd
    rcases Finset.mem_insert.mp hd with rfl | hd
    · exact Nat.lt_succ_self _
    · exact (h.old d hd).trans (Nat.lt_succ_self _)

theorem Inv.create (h : Inv g) {alloc : Bool} {registered : Int} (hc : Keeps g (.create alloc registered))
    (written : Memory) : Inv (g.doCreateDeviceReq alloc registered written).2 := by
  rw [Global.doCreateDeviceReq]
  split
  case isFalse => exact h
  case isTrue halloc =>
    obtain ⟨hplace, hstray⟩ := hc halloc.2
    dsimp only
    cases hs : g.stray with
    | true =>
        obtain ⟨hreg, hnone⟩ := hstray hs
        rw [share_of_stray (g := g.setUp) hs, if_neg hreg]
        exact (h.setUp.rewritten hnone written).discard
    | false =>
        rw [share_of_not_stray (g := g.setUp) hs]
        split
        case isFalse => exact h.setUp.discard
        case isTrue hreg =>
          refine h.setUp.enter ?_ (hplace hreg)
          rw [Global.setUp]
          dsimp only
          rw [Function.update_self]
          decide

theorem Inv.linkUp (h : Inv g) {lsc : LinkStatusChange} (hlsc : lsc.ulLinkState = Devices.linkUp)
    (hd : g.Registered d) (memory : Bool) : Inv (g.doLinkUp d lsc memory).2 := by
  rw [Global.doLinkUp]
  split
  case isFalse => exact h
  case isTrue =>
    obtain ⟨i, hi⟩ := hd
    refine ⟨⟨?_, h.listed, fun m d' hm => ?_⟩, ?_, h.distinct, h.alive, h.old⟩
    · refine iff_of_true ?_ ⟨i, d, hi, ?_⟩
      · cases hs : g.ulDrvState with
        | uninitialized => exact absurd hs h.ready
        | initialized => rfl
        | running => rfl
      · dsimp only
        rw [Function.update_self, hlsc]
    · dsimp only at hm ⊢
      by_cases hd' : d' = d
      · subst hd'
        rw [Function.update_self]
        exact ⟨h.alive i _ hi, ⟨i, hi⟩, hlsc⟩
      · rw [Function.update_of_ne hd']
        refine h.matched m d' ?_
        split at hm
        · exact absurd (Option.some.inj hm).symm hd'
        · exact hm
    · dsimp only
      split
      · exact nofun
      · exact h.ready

theorem clearMatchIds_eq_some {m : Fin maxMatchIds} {d' : Nat}
    (hm : (g.clearMatchIds d).pDevCtxsByMatchId m = some d') : d' ≠ d ∧ g.pDevCtxsByMatchId m = some d' := by
  rw [Global.clearMatchIds] at hm
  dsimp only at hm
  split at hm
  · cases hm
  case isFalse hne =>
    refine ⟨?_, hm⟩
    rintro rfl
    exact hne hm

theorem Inv.linkDown (h : Inv g) {lsc : LinkStatusChange} (hlsc : lsc.ulLinkState ≠ Devices.linkUp) :
    Inv (g.doLinkDown d lsc).2 := by
  have hup (d' : Nat) (h' : Function.update g.ulLinkState d lsc.ulLinkState d' = Devices.linkUp) :
      d' ≠ d ∧ g.ulLinkState d' = Devices.linkUp := by
    by_cases hd : d' = d
    · rw [hd, Function.update_self] at h'
      exact absurd h' hlsc
    · rw [Function.update_of_ne hd] at h'
      exact ⟨hd, h'⟩
  have hmatched (m : Fin maxMatchIds) (d' : Nat) (hm : (g.clearMatchIds d).pDevCtxsByMatchId m = some d') :
      d' ∈ g.live ∧ g.Registered d' ∧ Function.update g.ulLinkState d lsc.ulLinkState d' = Devices.linkUp := by
    obtain ⟨hne, hm⟩ := clearMatchIds_eq_some hm
    obtain ⟨hlive, hreg, hlink⟩ := h.matched m d' hm
    exact ⟨hlive, hreg, (Function.update_of_ne hne ..).trans hlink⟩
  rw [Global.doLinkDown]
  dsimp only
  rw [Global.stopRunning]
  split
  case isTrue hany =>
    refine ⟨⟨iff_of_true ?_ hany, h.listed, hmatched⟩, h.ready, h.distinct, h.alive, h.old⟩
    obtain ⟨i, d', hi, hlink⟩ := hany
    exact h.running.mpr ⟨i, d', hi, (hup d' hlink).2⟩
  case isFalse hany =>
    exact ⟨⟨iff_of_false nofun hany, h.listed, hmatched⟩, nofun, h.distinct, h.alive, h.old⟩

theorem Inv.clearMatchIds (h : Inv g) (d : Nat) : Inv (g.clearMatchIds d) :=
  ⟨⟨h.running, h.listed, fun m d' hm => h.matched m d' (clearMatchIds_eq_some hm).2⟩, h.ready, h.distinct, h.alive, h.old⟩

theorem Inv.delete (h : Inv g) (hc : Keeps g (.delete d)) : Inv (g.doDeleteDeviceReq d).2 := by
  rw [Global.doDeleteDeviceReq]
  split
  case h_1 => exact h.clearMatchIds d
  case h_2 i hslot =>
    have hi := slot_eq_some hslot
    have hother (j : Fin maxDevCtxs) (d' : Nat) (hj : g.pDevCtxs j = some d') (hne : d' ≠ d) :
        Function.update g.pDevCtxs i none j = some d' := by
      rw [Function.update_of_ne fun hji => ?_, hj]
      rw [hji, hi] at hj
      exact hne (Option.some.inj hj).symm
    have hold (j : Fin maxDevCtxs) (d' : Nat) (hj : Function.update g.pDevCtxs i none j = some d') :
        d' ≠ d ∧ g.pDevCtxs j = some d' := by
      obtain ⟨hji, hj⟩ := (update_cases hj).resolve_left fun hnone => nomatch hnone.2
      exact ⟨fun hd => hji (h.distinct j i d (hd ▸ hj) hi), hj⟩
    refine ⟨⟨h.running.trans ⟨?_, ?_⟩, fun d' hd' => ?_, fun m d' hm => ?_⟩, h.ready, ?_, ?_, ?_⟩
    · rintro ⟨j, d', hj, hup⟩
      by_cases hd' : d' = d
      · obtain ⟨d'', hne, ⟨k, hk⟩, hup'⟩ := hc ⟨i, hi⟩ (hd' ▸ hup)
        exact ⟨k, d'', hother k d'' hk hne, hup'⟩
      · exact ⟨j, d', hother j d' hj hd', hup⟩
    · rintro ⟨j, d', hj, hup⟩
      exact ⟨j, d', (hold j d' hj).2, hup⟩
    · obtain ⟨hne, hlive⟩ := Finset.mem_erase.mp hd'
      obtain ⟨j, hj⟩ := h.listed d' hlive
      exact ⟨j, hother j d' hj hne⟩
    · obtain ⟨hne, hm⟩ := clearMatchIds_eq_some hm
      obtain ⟨hlive, ⟨j, hj⟩, hup⟩ := h.matched m d' hm
      exact ⟨Finset.mem_erase.mpr ⟨hne, hlive⟩, ⟨j, hother j d' hj hne⟩, hup⟩
    · intro j k d' hj hk
      exact h.distinct j k d' (hold j d' hj).2 (hold k d' hk).2
    · intro j d' hj
      obtain ⟨hne, hj⟩ := hold j d' hj
      exact Finset.mem_erase.mpr ⟨hne, h.alive j d' hj⟩
    · intro d' hd'
      exact h.old d' (Finset.mem_of_mem_erase hd')

theorem Inv.step (h : Inv g) {r : Request} (hc : Keeps g r) (written : Memory) : Inv (step g (r, written)) := by
  cases r with
  | create alloc registered => exact h.create hc written
  | delete d => exact h.delete hc
  | linkStsChanged d lsc memory =>
      rw [Devices.step, request, Global.doLinkStsChangedReq]
      split
      · exact h
      case h_2 i hslot =>
        split
        case isTrue hlsc => exact h.linkUp hlsc ⟨i, slot_eq_some hslot⟩ memory
        case isFalse hlsc => exact h.linkDown hlsc

end Step

end AliceModem.DriverState
