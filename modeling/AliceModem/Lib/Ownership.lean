import Mathlib.Data.List.Nodup

namespace AliceModem.Ownership

/-- A resource is handed out, or disposed of in one of several ways. -/
inductive Event (κ : Type)
  | acquire (a : Nat)
  | dispose (a : Nat) (how : κ)

/-- What happened to the resources, which get consecutive numbers. `fails` tells which of the requests
to come fail; once it is used up they succeed. -/
structure Ledger (κ : Type) where
  fails : List Bool
  next : Nat
  events : List (Event κ)

variable {κ : Type}

def Event.disposes (a : Nat) : Event κ → Bool
  | .acquire _ => false
  | .dispose b _ => a = b

namespace Ledger

def acquire (l : Ledger κ) : Option Nat × Ledger κ :=
  if l.fails.headD false then (none, { l with fails := l.fails.tail })
  else (some l.next, ⟨l.fails.tail, l.next + 1, l.events ++ [.acquire l.next]⟩)

def enter (l : Ledger κ) : Ledger κ := { l with next := l.next + 1, events := l.events ++ [.acquire l.next] }

def dispose (l : Ledger κ) (a : Nat) (how : κ) : Ledger κ := { l with events := l.events ++ [.dispose a how] }

def disposals (l : Ledger κ) (a : Nat) : Nat := l.events.countP (Event.disposes a)

def Settled (l : Ledger κ) : Prop := ∀ a, .acquire a ∈ l.events → l.disposals a = 1

/-- The resources `S` are still there, all others have been disposed of once. -/
structure Owes (l : Ledger κ) (S : List Nat) : Prop where
  nodup : S.Nodup
  issued : ∀ a, .acquire a ∈ l.events ↔ a < l.next
  mem : ∀ a ∈ S, a < l.next
  count : ∀ a, l.disposals a = if a < l.next ∧ a ∉ S then 1 else 0

def fresh (fails : List Bool) : Ledger κ := ⟨fails, 0, []⟩

theorem fresh_owes (fails : List Bool) : (fresh fails : Ledger κ).Owes [] :=
  ⟨List.nodup_nil, fun a => by simp [fresh], by simp, fun a => by simp [fresh, disposals]⟩

variable {l : Ledger κ}

theorem acquire_fails (h : l.fails.headD false = true) : l.acquire = (none, { l with fails := l.fails.tail }) :=
  if_pos h

theorem acquire_ok (h : l.fails.headD false = false) :
    l.acquire = (some l.next, ⟨l.fails.tail, l.next + 1, l.events ++ [.acquire l.next]⟩) := by
  rw [acquire, h]
  rfl

theorem disposals_dispose (l : Ledger κ) (a b : Nat) (how : κ) :
    (l.dispose a how).disposals b = l.disposals b + if b = a then 1 else 0 := by
  simp [disposals, dispose, List.countP_append, List.countP_singleton, Event.disposes]

variable {S : List Nat}

theorem Owes.refused (h : l.Owes S) : Owes { l with fails := l.fails.tail } S := ⟨h.nodup, h.issued, h.mem, h.count⟩

theorem Owes.acquired (h : l.Owes S) : Owes ⟨l.fails.tail, l.next + 1, l.events ++ [.acquire l.next]⟩ (l.next :: S) := by
  have hnew : l.next ∉ S := fun hmem => Nat.lt_irrefl _ (h.mem _ hmem)
  refine ⟨List.nodup_cons.mpr ⟨hnew, h.nodup⟩, fun a => ?_, fun a ha => ?_, fun a => ?_⟩
  · have := h.issued a
    simp only [List.mem_append, List.mem_singleton, Event.acquire.injEq, this]
    omega
  · rcases List.mem_cons.mp ha with rfl | ha
    · exact Nat.lt_succ_self _
    · exact Nat.lt_succ_of_lt (h.mem a ha)
  · have hcount : disposals ⟨l.fails.tail, l.next + 1, l.events ++ [.acquire l.next]⟩ a = l.disposals a := by
      simp [disposals, List.countP_append, Event.disposes]
    rw [hcount, h.count a]
    refine if_congr ?_ rfl rfl
    rw [List.mem_cons, not_or]
    constructor
    · exact fun ⟨h1, h2⟩ => ⟨Nat.lt_succ_of_lt h1, Nat.ne_of_lt h1, h2⟩
    · exact fun ⟨h1, h2, h3⟩ => ⟨Nat.lt_of_le_of_ne (Nat.le_of_lt_succ h1) h2, h3⟩

theorem Owes.enter (h : l.Owes S) : l.enter.Owes (l.next :: S) :=
  ⟨h.acquired.nodup, h.acquired.issued, h.acquired.mem, h.acquired.count⟩

theorem Owes.perm {T : List Nat} (h : l.Owes S) (hp : S.Perm T) : l.Owes T :=
  ⟨hp.nodup_iff.mp h.nodup, h.issued, fun a ha => h.mem a (hp.mem_iff.mpr ha), fun a =>
    (h.count a).trans (if_congr (by rw [hp.mem_iff]) rfl rfl)⟩

theorem Owes.disposed {a : Nat} (h : l.Owes (a :: S)) (how : κ) : (l.dispose a how).Owes S := by
  obtain ⟨hnew, hnodup⟩ := List.nodup_cons.mp h.nodup
  refine ⟨hnodup, fun b => ?_, fun b hb => h.mem b (List.mem_cons_of_mem _ hb), fun b => ?_⟩
  · have := h.issued b
    simpa [dispose] using this
  · rw [disposals_dispose, h.count b, show (l.dispose a how).next = l.next from rfl]
    by_cases hb : b = a
    · rw [hb, if_neg (by simp), if_pos rfl, if_pos ⟨h.mem a List.mem_cons_self, hnew⟩]
    · rw [if_neg hb, Nat.add_zero]
      exact if_congr (by rw [List.mem_cons, or_iff_right hb]) rfl rfl

theorem Owes.settled_iff (h : l.Owes S) : l.Settled ↔ S = [] := by
  constructor
  · intro hs
    rw [List.eq_nil_iff_forall_not_mem]
    intro a ha
    have hone := hs a ((h.issued a).mpr (h.mem a ha))
    rw [h.count a, if_neg (by simp [ha])] at hone
    exact absurd hone (by decide)
  · rintro rfl a ha
    rw [h.count a, if_pos ⟨(h.issued a).mp ha, List.not_mem_nil⟩]

theorem Owes.settled (h : l.Owes []) : l.Settled := h.settled_iff.mpr rfl

theorem Owes.twice {a : Nat} (h : l.Owes S) (ha : a < l.next) (hmem : a ∉ S) (how : κ) : ¬ (l.dispose a how).Settled := by
  intro hs
  have hone := hs a (List.mem_append_left _ ((h.issued a).mpr ha))
  rw [disposals_dispose, h.count a, if_pos ⟨ha, hmem⟩, if_pos rfl] at hone
  exact absurd hone (by decide)

end Ledger

end AliceModem.Ownership
