import AliceModem.Bridge.Snooping
import Mathlib.Data.List.Nodup
import Mathlib.Tactic.Tauto

namespace AliceModem.ForwardLoop

open Snooping

variable {Port : Type} [DecidableEq Port]

omit [DecidableEq Port] in
theorem passes_iff (e : McFdbEntry Port) (s : Ip) :
    e.passes s = true ↔ e.filtMode = .mcastInclude ∧ s = e.src ∨
      e.filtMode = .mcastExclude ∧ (e.src = 0 ∨ s ≠ e.src) := by
  rw [McFdbEntry.passes]
  rcases e.filtMode <;> simp

/-- The ports that the frame has been handed to are those marked dirty. -/
structure Marked (P : Port → Prop) (dirty : Port → Bool) (handed : List Port) : Prop where
  nodup : handed.Nodup
  dirty : ∀ p, P p → (dirty p = true ↔ p ∈ handed)

variable {P : Port → Prop} {dirty : Port → Bool} {handed : List Port}

omit [DecidableEq Port] in
theorem Marked.mem_hand (h : Marked P dirty handed) {q : Port} (hq : P q) (p : Port) :
    (p ∈ if dirty q = true then handed else handed ++ [q]) ↔ p ∈ handed ∨ q = p := by
  split
  next hd =>
    constructor
    · exact .inl
    · rintro (hp | rfl)
      · exact hp
      · exact (h.dirty q hq).mp hd
  next => rw [List.mem_append, List.mem_singleton, eq_comm]

theorem Marked.hand (h : Marked P dirty handed) {q : Port} (hq : P q) :
    Marked P (Function.update dirty q true) (if dirty q = true then handed else handed ++ [q]) := by
  refine ⟨?_, fun p hp => ?_⟩
  · split
    · exact h.nodup
    next hd =>
      have hnew : q ∉ handed := fun hmem => hd ((h.dirty q hq).mpr hmem)
      exact h.nodup.append (List.nodup_singleton q) (List.disjoint_singleton.mpr hnew)
  · rw [h.mem_hand hq]
    by_cases hpq : p = q
    · subst hpq
      rw [Function.update_self]
      exact iff_of_true rfl (.inr rfl)
    · rw [Function.update_of_ne hpq, h.dirty p hp, or_iff_left (Ne.symm hpq)]

/-- The walk hands the frame to the ports of the entries that let it through. -/
theorem forwardLoop_marked (saddr : Ip) (dest : Mac) (es : List (McFdbEntry Port)) (hes : ∀ e ∈ es, P e.dst)
    (h : Marked P dirty handed) (status : Bool) :
    Marked P (forwardLoop saddr dest es dirty handed status).1 (forwardLoop saddr dest es dirty handed status).2.1 ∧
    ∀ p, p ∈ (forwardLoop saddr dest es dirty handed status).2.1 ↔
      p ∈ handed ∨ ∃ e ∈ es, e.addr = dest ∧ e.passes saddr = true ∧ e.dst = p := by
  induction es generalizing dirty handed status with
  | nil => exact ⟨h, by simp [forwardLoop]⟩
  | cons e es ih =>
      obtain ⟨he, hes⟩ := List.forall_mem_cons.mp hes
      rw [forwardLoop]
      by_cases haddr : e.addr = dest
      · by_cases hpass : e.passes saddr = true
        · rw [if_pos haddr, if_pos hpass]
          obtain ⟨hmarked, hmem⟩ := ih hes (h.hand he) true
          refine ⟨hmarked, fun p => ?_⟩
          rw [hmem, h.mem_hand he]
          simp only [List.mem_cons, exists_eq_or_imp, haddr, hpass, true_and]
          tauto
        · rw [if_pos haddr, if_neg hpass]
          obtain ⟨hmarked, hmem⟩ := ih hes h (status || e.filtMode = .mcastExclude)
          exact ⟨hmarked, fun p => by rw [hmem]; simp [haddr, hpass]⟩
      · rw [if_neg haddr]
        obtain ⟨hmarked, hmem⟩ := ih hes h status
        exact ⟨hmarked, fun p => by rw [hmem]; simp [haddr]⟩

theorem forwardLoop_status (saddr : Ip) (dest : Mac) (es : List (McFdbEntry Port)) (dirty : Port → Bool)
    (handed : List Port) (status : Bool) :
    (forwardLoop saddr dest es dirty handed status).2.2 = true ↔
      status = true ∨ ∃ e ∈ es, e.addr = dest ∧ (e.passes saddr = true ∨ e.filtMode = .mcastExclude) := by
  induction es generalizing dirty handed status with
  | nil => simp [forwardLoop]
  | cons e es ih =>
      rw [forwardLoop]
      by_cases haddr : e.addr = dest
      · by_cases hpass : e.passes saddr = true
        · rw [if_pos haddr, if_pos hpass, ih]
          exact iff_of_true (.inl rfl) (.inr ⟨e, List.mem_cons_self, haddr, .inl hpass⟩)
        · rw [if_pos haddr, if_neg hpass, ih]
          simp [haddr, hpass, or_assoc]
      · rw [if_neg haddr, ih]
        simp [haddr]

end AliceModem.ForwardLoop
