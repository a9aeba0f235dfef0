import Mathlib.Data.List.Range
import Mathlib.Logic.Function.Iterate

namespace AliceModem.Lfsr

variable {w : Nat} (poly : BitVec w)

/-- A shift register with feedback, lowest bit first. -/
def step (c : BitVec w) : BitVec w := (c >>> 1) ^^^ if c.getLsbD 0 then poly else 0#w

def feed (c : BitVec w) (b : Bool) : BitVec w := step poly (c ^^^ if b then 1#w else 0#w)

def run (c : BitVec w) (bits : List Bool) : BitVec w := bits.foldl (feed poly) c

variable {poly}

theorem run_append (c : BitVec w) (xs ys : List Bool) : run poly c (xs ++ ys) = run poly (run poly c xs) ys :=
  List.foldl_append

theorem ite_xor (v : BitVec w) (b e : Bool) :
    (if b ^^ e then v else 0#w) = (if b then v else 0#w) ^^^ if e then v else 0#w := by
  cases b <;> cases e <;> simp

theorem step_xor (c d : BitVec w) : step poly (c ^^^ d) = step poly c ^^^ step poly d := by
  rw [step, step, step, BitVec.getLsbD_xor, BitVec.ushiftRight_xor_distrib, ite_xor]
  ac_rfl

theorem feed_xor (c d : BitVec w) (b e : Bool) : feed poly (c ^^^ d) (b ^^ e) = feed poly c b ^^^ feed poly d e := by
  rw [feed, feed, feed, ← step_xor, ite_xor]
  congr 1
  ac_rfl

variable (poly) in
theorem run_xor {α : Type} (f h : α → Bool) (l : List α) (c d : BitVec w) :
    run poly (c ^^^ d) (l.map fun j => f j ^^ h j) = run poly c (l.map f) ^^^ run poly d (l.map h) := by
  induction l generalizing c d with
  | nil => rfl
  | cons a l ih =>
      simp only [run, List.map_cons, List.foldl_cons] at ih ⊢
      rw [feed_xor]
      exact ih _ _

theorem run_difference {α : Type} {f h : α → Bool} {l : List α} {c : BitVec w}
    (heq : run poly c (l.map f) = run poly c (l.map h)) : run poly 0#w (l.map fun j => f j ^^ h j) = 0#w := by
  have hxor := run_xor poly f h l c c
  rwa [BitVec.xor_self, heq, BitVec.xor_self] at hxor

theorem getLsbD_fed (b : Bool) (i : Nat) :
    (if b then 1#w else 0#w).getLsbD i = (b && decide (0 < w) && decide (i = 0)) := by
  cases b <;> simp [BitVec.getLsbD_one]

theorem run_zero {α : Type} {l : List α} {e : α → Bool} (he : ∀ j ∈ l, e j = false) :
    run poly 0#w (l.map e) = 0#w := by
  induction l with
  | nil => rfl
  | cons a l ih =>
      rw [List.forall_mem_cons] at he
      have hfeed : feed poly 0#w (e a) = 0#w := by simp [feed, step, he.1]
      have hrest := ih he.2
      rw [run] at hrest
      rw [run, List.map_cons, List.foldl_cons, hfeed, hrest]

section Injective

variable (hp : poly.msb = true)

include hp

theorem lsb_of_step {c : BitVec w} (h : (step poly c).msb = false) : c.getLsbD 0 = false := by
  by_contra hlsb
  rw [Bool.not_eq_false] at hlsb
  have hw : 0 < w := BitVec.lt_of_getLsbD hlsb
  rw [step, hlsb, if_pos rfl, BitVec.msb_xor, hp, BitVec.msb_ushiftRight] at h
  simp at h

theorem step_eq_zero {c : BitVec w} (h : step poly c = 0#w) : c = 0#w := by
  have hlsb := lsb_of_step hp (c := c) (by rw [h]; exact BitVec.msb_zero)
  rw [step, hlsb, if_neg Bool.false_ne_true, BitVec.xor_zero] at h
  apply BitVec.eq_of_getLsbD_eq
  intro i _
  rw [BitVec.getLsbD_zero]
  cases i with
  | zero => exact hlsb
  | succ i =>
      have := congrArg (fun v => v.getLsbD i) h
      simpa [Nat.add_comm] using this

/-- If the register ends up empty after at most as many bits as it has, it held these bits. -/
theorem getLsbD_of_run {c : BitVec w} {bits : List Bool} (hlen : bits.length ≤ w) (h : run poly c bits = 0#w) (i : Nat) :
    c.getLsbD i = bits.getD i false := by
  induction bits generalizing c i with
  | nil =>
      rw [show c = 0#w from h]
      simp
  | cons b bits ih =>
      rw [List.length_cons] at hlen
      have hrest := ih (c := feed poly c b) (by omega) h
      have hmsb : (feed poly c b).msb = false := by
        rw [BitVec.msb_eq_getLsbD_last, hrest, List.getD_eq_getElem?_getD, List.getElem?_eq_none (by omega)]
        rfl
      have hlsb := lsb_of_step hp hmsb
      rw [feed, step, hlsb, if_neg Bool.false_ne_true, BitVec.xor_zero] at hrest
      rw [BitVec.getLsbD_xor, getLsbD_fed, decide_eq_true (show 0 < w by omega)] at hlsb
      cases i with
      | zero => simpa using hlsb
      | succ i =>
          have hbit := hrest i
          rw [BitVec.getLsbD_ushiftRight, BitVec.getLsbD_xor, getLsbD_fed] at hbit
          simpa [Nat.add_comm] using hbit

theorem eq_zero_of_run {α : Type} {l : List α} {e : α → Bool} (he : ∀ j ∈ l, e j = false) {c : BitVec w}
    (h : run poly c (l.map e) = 0#w) : c = 0#w := by
  induction l generalizing c with
  | nil => exact h
  | cons a l ih =>
      rw [List.forall_mem_cons] at he
      have hnext := ih he.2 (c := feed poly c (e a)) h
      rw [feed, he.1, if_neg Bool.false_ne_true, BitVec.xor_zero] at hnext
      exact step_eq_zero hp hnext

/-- A burst of errors that fits into the register does not leave it empty. -/
theorem no_burst {e : Nat → Bool} {a n : Nat} (hn : a + w ≤ n) (he : ∀ j < n, e j = true → a ≤ j ∧ j < a + w)
    (h : run poly 0#w ((List.range n).map e) = 0#w) : ∀ j < n, e j = false := by
  obtain ⟨r, rfl⟩ := Nat.exists_eq_add_of_le hn
  have hout (j : Nat) (hj : j < a + w + r) (hwin : j < a ∨ a + w ≤ j) : e j = false := by
    by_contra htrue
    have := he j hj (Bool.not_eq_false _ ▸ htrue)
    omega
  rw [List.range_add, List.map_append, run_append, List.map_map] at h
  have hmid := eq_zero_of_run hp (fun j hj => hout (a + w + j) (by rw [List.mem_range] at hj; omega) (by omega)) h
  rw [List.range_add, List.map_append, run_append, run_zero (fun j hj => ?_), List.map_map] at hmid
  · intro j hj
    by_cases hwin : a ≤ j ∧ j < a + w
    · have hbit := getLsbD_of_run hp (by simp) hmid (j - a)
      rw [BitVec.getLsbD_zero, List.getD_eq_getElem?_getD, List.getElem?_map, List.getElem?_range (by omega)] at hbit
      have hja : a + (j - a) = j := by omega
      simpa [hja] using hbit.symm
    · exact hout j hj (by omega)
  · rw [List.mem_range] at hj
    exact hout j (by omega) (.inl hj)

end Injective

section Bytes

theorem step_low (v : BitVec w) : step poly (if v.getLsbD 0 then 1#w else 0#w) ^^^ (v >>> 1) = step poly v := by
  have hlsb : (if v.getLsbD 0 then 1#w else 0#w).getLsbD 0 = v.getLsbD 0 := by
    rw [getLsbD_fed]
    rcases hv : v.getLsbD 0 with _ | _
    · rfl
    · simp [BitVec.lt_of_getLsbD hv]
  have hshift : (if v.getLsbD 0 then 1#w else 0#w) >>> 1 = 0#w := by
    apply BitVec.eq_of_getLsbD_eq
    intro i _
    rw [BitVec.getLsbD_ushiftRight, getLsbD_fed]
    simp
  rw [step, step, hlsb, hshift, BitVec.zero_xor, BitVec.xor_comm]

theorem run_bits (k : Nat) (c v : BitVec w) (hv : ∀ i, k ≤ i → v.getLsbD i = false) :
    run poly c ((List.range k).map v.getLsbD) = (step poly)^[k] (c ^^^ v) := by
  induction k generalizing c v with
  | zero =>
      have hzero : v = 0#w := by
        apply BitVec.eq_of_getLsbD_eq
        intro i _
        rw [hv i (Nat.zero_le i), BitVec.getLsbD_zero]
      rw [hzero, BitVec.xor_zero]
      rfl
  | succ k ih =>
      have hbits : (List.range k).map (v.getLsbD ∘ Nat.succ) = (List.range k).map (v >>> 1).getLsbD := by
        apply List.map_congr_left
        intro i _
        rw [BitVec.getLsbD_ushiftRight, Function.comp_apply, Nat.succ_eq_one_add]
      rw [List.range_succ_eq_map, List.map_cons, List.map_map, hbits]
      have hnext := ih (feed poly c (v.getLsbD 0)) (v >>> 1) fun i hi => by
        rw [BitVec.getLsbD_ushiftRight]
        exact hv _ (by omega)
      rw [Function.iterate_succ_apply, step_xor, ← step_low v, ← BitVec.xor_assoc, ← step_xor]
      exact hnext

theorem step_shift (k : Nat) (c : BitVec w) (hc : ∀ i < k, c.getLsbD i = false) : (step poly)^[k] c = c >>> k := by
  induction k generalizing c with
  | zero => exact (BitVec.ushiftRight_zero c).symm
  | succ k ih =>
      have hstep : step poly c = c >>> 1 := by
        rw [step, hc 0 (Nat.succ_pos k), if_neg Bool.false_ne_true, BitVec.xor_zero]
      rw [Function.iterate_succ_apply, hstep, ih, ← BitVec.shiftRight_add, Nat.add_comm]
      intro i hi
      rw [BitVec.getLsbD_ushiftRight]
      exact hc _ (by omega)

theorem iterate_xor (k : Nat) (c d : BitVec w) :
    (step poly)^[k] (c ^^^ d) = (step poly)^[k] c ^^^ (step poly)^[k] d := by
  induction k generalizing c d with
  | zero => rfl
  | succ k ih => rw [Function.iterate_succ_apply, Function.iterate_succ_apply, Function.iterate_succ_apply, step_xor, ih]

end Bytes

end AliceModem.Lfsr
