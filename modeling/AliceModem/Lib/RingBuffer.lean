import Mathlib.Algebra.Order.BigOperators.Group.Finset
import Mathlib.Algebra.Order.Group.Multiset
import Mathlib.Data.Finset.Card
import Mathlib.Tactic.Abel

namespace AliceModem.RingBuffer

/-- The place `k` steps after `h` in a ring of `n` places, for `h < n` and `k ≤ n`. -/
def place (n h k : Nat) : Nat := if h + k < n then h + k else h + k - n

def Window (n h c i : Nat) : Prop := ∃ k < c, place n h k = i

instance (n h c : Nat) : DecidablePred (Window n h c) := fun i => by
  unfold Window
  infer_instance

section

variable {n h c i k l : Nat}

theorem place_zero (hh : h < n) : place n h 0 = h := if_pos hh

theorem place_eq_mod (hh : h < n) (hk : k ≤ n) : place n h k = (h + k) % n := by
  unfold place
  split
  case isTrue hlt => exact (Nat.mod_eq_of_lt hlt).symm
  case isFalse hge => rw [Nat.mod_eq_sub_mod (by omega), Nat.mod_eq_of_lt (by omega)]

theorem place_lt (hh : h < n) (hk : k ≤ n) : place n h k < n := by
  unfold place
  split <;> omega

theorem place_one (hh : h < n) : place n h 1 = if h + 1 = n then 0 else h + 1 := by
  unfold place
  split_ifs <;> omega

theorem place_place (hh : h < n) (hk : k + l ≤ n) : place n (place n h k) l = place n h (k + l) := by
  unfold place
  split_ifs <;> omega

theorem place_injective (hk : k < n) (hl : l < n) (heq : place n h k = place n h l) : k = l := by
  unfold place at heq
  split_ifs at heq <;> omega

theorem not_window_zero : ¬ Window n h 0 i := fun ⟨_, hk, _⟩ => absurd hk (Nat.not_lt_zero _)

theorem Window.lt (hh : h < n) (hc : c ≤ n) (hw : Window n h c i) : i < n := by
  obtain ⟨k, hk, rfl⟩ := hw
  exact place_lt hh (by omega)

theorem window_full (hh : h < n) : Window n h n i ↔ i < n := by
  refine ⟨Window.lt hh le_rfl, fun hi => ?_⟩
  by_cases hlt : i < h
  · refine ⟨n + i - h, by omega, ?_⟩
    unfold place
    split <;> omega
  · refine ⟨i - h, by omega, ?_⟩
    unfold place
    split <;> omega

theorem window_succ : Window n h (c + 1) i ↔ Window n h c i ∨ place n h c = i := by
  constructor
  · rintro ⟨k, hk, rfl⟩
    rcases Nat.lt_succ_iff_lt_or_eq.mp hk with hk | rfl
    · exact .inl ⟨k, hk, rfl⟩
    · exact .inr rfl
  · rintro (⟨k, hk, rfl⟩ | rfl)
    · exact ⟨k, by omega, rfl⟩
    · exact ⟨c, by omega, rfl⟩

theorem not_window_end (hc : c < n) : ¬ Window n h c (place n h c) := by
  rintro ⟨k, hk, heq⟩
  exact absurd (place_injective (by omega) hc heq) (by omega)

theorem window_cons (hh : h < n) (hc : c < n) : Window n h (c + 1) i ↔ h = i ∨ Window n (place n h 1) c i := by
  constructor
  · rintro ⟨k, hk, rfl⟩
    cases k with
    | zero => exact .inl (place_zero hh).symm
    | succ k => exact .inr ⟨k, by omega, by rw [place_place hh (by omega), Nat.add_comm]⟩
  · rintro (rfl | ⟨k, hk, rfl⟩)
    · exact ⟨0, by omega, place_zero hh⟩
    · exact ⟨k + 1, by omega, by rw [place_place hh (by omega), Nat.add_comm]⟩

theorem not_window_start (hh : h < n) (hc : c < n) : ¬ Window n (place n h 1) c h := by
  rintro ⟨k, hk, heq⟩
  rw [place_place hh (by omega)] at heq
  have h0 : place n h (1 + k) = place n h 0 := heq.trans (place_zero hh).symm
  exact absurd (place_injective (by omega) (by omega) h0) (by omega)

theorem card_window (hh : h < n) (hc : c ≤ n) : ((Finset.range n).filter (Window n h c)).card = c := by
  induction c with
  | zero => simp [not_window_zero]
  | succ c ih =>
      have hend := not_window_end (h := h) hc
      have hsplit : (Finset.range n).filter (Window n h (c + 1)) =
          insert (place n h c) ((Finset.range n).filter (Window n h c)) := by
        ext i
        simp only [Finset.mem_filter, Finset.mem_insert, Finset.mem_range, window_succ]
        constructor
        · rintro ⟨hi, hw | rfl⟩
          · exact .inr ⟨hi, hw⟩
          · exact .inl rfl
        · rintro (rfl | ⟨hi, hw⟩)
          · exact ⟨place_lt hh (by omega), .inr rfl⟩
          · exact ⟨hi, .inl hw⟩
      rw [hsplit, Finset.card_insert_of_notMem (by simp [hend]), ih (by omega)]

end

section

variable {ι α M : Type*} [DecidableEq ι] [AddCommMonoid M]

theorem sum_update {s : Finset ι} {i : ι} (hi : i ∈ s) (g : α → M) (f : ι → α) (x : α) :
    ∑ j ∈ s, g (Function.update f i x j) + g (f i) = ∑ j ∈ s, g (f j) + g x := by
  have hrest : ∑ j ∈ s.erase i, g (Function.update f i x j) = ∑ j ∈ s.erase i, g (f j) :=
    Finset.sum_congr rfl fun j hj => by rw [Function.update_of_ne (Finset.ne_of_mem_erase hj)]
  rw [← Finset.add_sum_erase s _ hi, ← Finset.add_sum_erase s (fun j => g (f j)) hi, hrest, Function.update_self]
  abel

end

section

variable {α : Type*}

def held (x : Option α) : Multiset α := x.elim 0 (fun a => {a})

@[simp] theorem held_none : held (none : Option α) = 0 := rfl

@[simp] theorem held_some (a : α) : held (some a) = {a} := rfl

def contents (n : Nat) (f : Nat → Option α) : Multiset α := ∑ i ∈ Finset.range n, held (f i)

theorem contents_update {n i : Nat} (hi : i < n) (f : Nat → Option α) (x : Option α) :
    contents n (Function.update f i x) + held (f i) = contents n f + held x :=
  sum_update (Finset.mem_range.mpr hi) held f x

theorem mem_contents {n i : Nat} {f : Nat → Option α} {a : α} (hi : i < n) (h : f i = some a) : a ∈ contents n f :=
  Multiset.mem_sum.mpr ⟨i, Finset.mem_range.mpr hi, by rw [h, held_some, Multiset.mem_singleton]⟩

theorem contents_eq_zero {n : Nat} {f : Nat → Option α} : contents n f = 0 ↔ ∀ i < n, f i = none := by
  rw [contents, Finset.sum_eq_zero_iff]
  refine forall_congr' fun i => ?_
  rw [Finset.mem_range]
  refine imp_congr_right fun _ => ?_
  cases f i with
  | none => exact iff_of_true rfl rfl
  | some a => exact iff_of_false (Multiset.singleton_ne_zero a) (Option.some_ne_none a)

end

end AliceModem.RingBuffer
