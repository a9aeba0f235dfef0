import Mathlib.Data.List.GetD

namespace AliceModem.CString

structure Str where
  chars : List UInt8
  nul_free : 0 ∉ chars
  deriving DecidableEq

theorem Str.ext {s t : Str} (h : s.chars = t.chars) : s = t := by
  cases s
  cases t
  cases h
  rfl

def strncpy (n : Nat) (s : List UInt8) : List UInt8 := s.take n ++ List.replicate (n - s.length) 0

/-- The bytes `bs` and what lies behind them. -/
def memory (bs : List UInt8) (behind : Nat → UInt8) (k : Nat) : UInt8 := bs.getD k (behind (k - bs.length))

/-- `strcmp` finds the string `s` at the start of the memory. -/
def strcmpEq (m : Nat → UInt8) : List UInt8 → Bool
  | [] => m 0 == 0
  | c :: s => m 0 == c && strcmpEq (fun k => m (k + 1)) s

/-- `strncmp` of at most `n` characters finds no difference. -/
def strncmpEq : Nat → List UInt8 → List UInt8 → Bool
  | 0, _, _ => true
  | n + 1, s, t => s.headD 0 == t.headD 0 && (s.headD 0 == 0 || strncmpEq n s.tail t.tail)

theorem strncpy_succ (n : Nat) (s : List UInt8) : strncpy (n + 1) s = s.headD 0 :: strncpy n s.tail := by
  cases s with
  | nil => simp [strncpy, List.replicate_succ]
  | cons c s => simp [strncpy]

theorem memory_append (xs ys : List UInt8) (behind : Nat → UInt8) :
    memory (xs ++ ys) behind = memory xs (memory ys behind) := by
  funext k
  by_cases hk : k < xs.length
  · rw [memory, memory, List.getD_append _ _ _ _ hk, List.getD_eq_getElem _ _ hk, List.getD_eq_getElem _ _ hk]
  · have hle : xs.length ≤ k := Nat.le_of_not_lt hk
    rw [memory, memory, memory, List.getD_append_right _ _ _ _ hle, List.getD_eq_default _ _ hle, List.length_append,
      Nat.sub_sub]

theorem memory_inside {bs : List UInt8} {behind behind' : Nat → UInt8} {k : Nat} (h : k < bs.length) :
    memory bs behind k = memory bs behind' k := by
  rw [memory, memory, List.getD_eq_getElem _ _ h, List.getD_eq_getElem _ _ h]

theorem memory_behind (bs : List UInt8) (behind : Nat → UInt8) (k : Nat) : memory bs behind (bs.length + k) = behind k := by
  rw [memory, List.getD_eq_default _ _ (Nat.le_add_right _ _), Nat.add_sub_cancel_left]

theorem memory_tail (b : UInt8) (bs : List UInt8) (behind : Nat → UInt8) :
    (fun k => memory (b :: bs) behind (k + 1)) = memory bs behind := by
  funext k
  rw [memory, memory, List.getD_cons_succ, List.length_cons, Nat.add_sub_add_right]

theorem strcmpEq_strncpy {n : Nat} {s t : List UInt8} (hs : 0 ∉ s) (ht : 0 ∉ t) (hlen : s.length < n)
    (behind : Nat → UInt8) : strcmpEq (memory (strncpy n t) behind) s = true ↔ t = s := by
  induction s generalizing n t with
  | nil =>
      obtain ⟨n, rfl⟩ := Nat.exists_eq_succ_of_ne_zero (Nat.ne_of_gt hlen)
      rw [strncpy_succ, strcmpEq, beq_iff_eq]
      cases t with
      | nil => exact iff_of_true rfl rfl
      | cons c t => exact iff_of_false (fun h => ht (h ▸ List.mem_cons_self)) (List.cons_ne_nil c t)
  | cons c s ih =>
      obtain ⟨n, rfl⟩ := Nat.exists_eq_succ_of_ne_zero (Nat.ne_of_gt (Nat.zero_lt_of_lt hlen))
      have hc : 0 ≠ c := fun h => hs (h ▸ List.mem_cons_self)
      rw [strncpy_succ, strcmpEq, memory_tail, Bool.and_eq_true, beq_iff_eq]
      cases t with
      | nil => exact iff_of_false (fun h => hc h.1) (List.cons_ne_nil c s).symm
      | cons d t =>
          rw [List.cons.injEq]
          exact and_congr_right fun _ => ih (fun h => hs (List.mem_cons_of_mem c h))
            (fun h => ht (List.mem_cons_of_mem d h)) (Nat.lt_of_succ_lt_succ hlen)

theorem strncmpEq_strncpy {n : Nat} {s t : List UInt8} (hs : 0 ∉ s) (hlen : s.length ≤ n) :
    strncmpEq s.length (strncpy n t) s = true ↔ s <+: t := by
  induction s generalizing n t with
  | nil => exact iff_of_true rfl List.nil_prefix
  | cons c s ih =>
      obtain ⟨n, rfl⟩ := Nat.exists_eq_succ_of_ne_zero (Nat.ne_of_gt (Nat.zero_lt_of_lt hlen))
      have hc : 0 ≠ c := fun h => hs (h ▸ List.mem_cons_self)
      have ih := ih (t := t.tail) (fun h => hs (List.mem_cons_of_mem c h)) (Nat.le_of_succ_le_succ hlen)
      rw [List.length_cons, strncmpEq, strncpy_succ, Bool.and_eq_true, Bool.or_eq_true, List.headD_cons, List.tail_cons,
        List.headD_cons, List.tail_cons, ih, beq_iff_eq, beq_iff_eq]
      cases t with
      | nil => exact iff_of_false (fun h => hc h.1) (fun h => List.cons_ne_nil c s (List.prefix_nil.mp h))
      | cons d t =>
          rw [List.cons_prefix_cons, List.headD_cons, List.tail_cons]
          constructor
          · rintro ⟨rfl, h | h⟩
            · exact absurd h.symm hc
            · exact ⟨rfl, h⟩
          · rintro ⟨rfl, h⟩
            exact ⟨rfl, .inr h⟩

end AliceModem.CString
