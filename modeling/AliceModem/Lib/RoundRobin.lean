import Mathlib.Tactic.SplitIfs

namespace AliceModem.RoundRobin

/-- The places of a ring of `n` after `p` that are passed on the way to `q`. -/
def passed (n p q : Nat) : Nat := if p < q then q - 1 - p else q + n - 1 - p

def after (n p : Nat) : Nat := if p + 1 = n then 0 else p + 1

/-- `r` is the first place after `p` that is in `S`. -/
structure Next (n : Nat) (S : Nat → Prop) (p r : Nat) : Prop where
  lt : r < n
  mem : S r
  first : ∀ q, q < n → S q → passed n p r ≤ passed n p q

variable {n p q r : Nat} {S : Nat → Prop}

theorem after_lt (hp : p < n) : after n p < n := by
  unfold after
  split_ifs <;> omega

theorem passed_lt (hq : q < n) : passed n p q < n := by
  unfold passed
  split_ifs <;> omega

theorem passed_after_self : passed n p (after n p) = 0 := by
  unfold passed after
  split_ifs <;> omega

theorem passed_succ (hp : p < n) (hq : q < n) (hne : q ≠ after n p) : passed n p q = passed n (after n p) q + 1 := by
  unfold passed after at *
  split_ifs at * <;> omega

theorem Next.here (hp : p < n) (h : S (after n p)) : Next n S p (after n p) := by
  refine ⟨after_lt hp, h, fun q _ _ => ?_⟩
  rw [passed_after_self]
  exact Nat.zero_le _

theorem Next.further (hp : p < n) (hskip : ¬ S (after n p)) (h : Next n S (after n p) r) : Next n S p r := by
  have hne {q : Nat} (hq : S q) : q ≠ after n p := by
    rintro rfl
    exact hskip hq
  refine ⟨h.lt, h.mem, fun q hq hS => ?_⟩
  rw [passed_succ hp h.lt (hne h.mem), passed_succ hp hq (hne hS)]
  exact Nat.succ_le_succ (h.first q hq hS)

theorem Next.closer (h : Next n S p r) (hp : p < n) (hq : q < n) (hS : S q) (hne : r ≠ q) :
    passed n r q < passed n p q := by
  have hfirst := h.first q hq hS
  have hlt := h.lt
  unfold passed at *
  split_ifs at * <;> omega

end AliceModem.RoundRobin
