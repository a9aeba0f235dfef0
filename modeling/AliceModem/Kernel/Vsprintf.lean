import Mathlib.Tactic.Ring

namespace AliceModem.Vsprintf

/-- The digit loop of `simple_strtoul` in base ten on a 32 bit `unsigned long`.
It stops at the end of the object the text stands in. -/
def strtoulLoop : List UInt8 → Nat → Nat
  | [], result => result
  | c :: cp, result =>
      if 48 ≤ c.toNat ∧ c.toNat ≤ 57 then strtoulLoop cp ((result * 10 + (c.toNat - 48)) % 4294967296)
      else result

def simpleStrtoul (cp : List UInt8) : Nat := strtoulLoop cp 0

def isspace (c : UInt8) : Bool := c = 32 ∨ 9 ≤ c ∧ c ≤ 13 ∨ c = 160

def isdigit (c : UInt8) : Bool := 48 ≤ c ∧ c ≤ 57

def isxdigit (c : UInt8) : Bool := 48 ≤ c ∧ c ≤ 57 ∨ 65 ≤ c ∧ c ≤ 70 ∨ 97 ≤ c ∧ c ≤ 102

/-- `sscanf` with the format `%u` into a variable with the value `i`, which it
keeps if there is no number. -/
def sscanfU (buf : List UInt8) (i : Nat) : Nat :=
  match buf.dropWhile isspace with
  | [] => i
  | digit :: str => if isdigit digit then simpleStrtoul (digit :: str) else i

/-- The digits that `number` produces in base ten, most significant first. -/
def digits : Nat → Nat → List UInt8
  | 0, _ => []
  | fuel + 1, num =>
      (if num < 10 then [] else digits fuel (num / 10)) ++ [UInt8.ofNat (48 + num % 10)]

def sprintfLu (num : Nat) : List UInt8 := digits 10 num ++ [0]

def sprintfD (num : Int) : List UInt8 :=
  if num < 0 then 45 :: sprintfLu num.natAbs else sprintfLu num.natAbs

def hexDigit (d : Nat) : UInt8 := if d < 10 then UInt8.ofNat (48 + d) else UInt8.ofNat (87 + d)

def sprintf02x (b : UInt8) : List UInt8 := [hexDigit (b.toNat / 16), hexDigit (b.toNat % 16)]

theorem strtoulLoop_take {k : Nat} {cp cp' : List UInt8} (h : cp.take k = cp'.take k) (h0 : 0 ∈ cp.take k)
    (result : Nat) : strtoulLoop cp result = strtoulLoop cp' result := by
  induction k generalizing cp cp' result with
  | zero => simp at h0
  | succ k ih =>
      rcases cp with _ | ⟨c, cp⟩
      · simp at h0
      rcases cp' with _ | ⟨c', cp'⟩
      · simp at h
      simp only [List.take_succ_cons, List.cons.injEq] at h
      obtain ⟨rfl, h⟩ := h
      rw [strtoulLoop, strtoulLoop]
      split
      next hdigit =>
        apply ih h
        rw [List.take_succ_cons, List.mem_cons] at h0
        rcases h0 with rfl | h0
        · exact absurd hdigit (by decide)
        · exact h0
      next => rfl

theorem strtoulLoop_digit {d : Nat} (h : d < 10) (rest : List UInt8) (result : Nat) :
    strtoulLoop (UInt8.ofNat (48 + d) :: rest) result = strtoulLoop rest ((result * 10 + d) % 4294967296) := by
  have hd : (UInt8.ofNat (48 + d)).toNat = 48 + d := by
    rw [UInt8.toNat_ofNat']
    omega
  rw [strtoulLoop, hd, if_pos (by omega)]
  congr 2
  omega

theorem strtoulLoop_digits {fuel : Nat} (hfuel : 0 < fuel) (num result : Nat) (h : num < 10 ^ fuel)
    (rest : List UInt8) :
    strtoulLoop (digits fuel num ++ rest) result =
      strtoulLoop rest ((result * 10 ^ (digits fuel num).length + num) % 4294967296) := by
  induction fuel generalizing num rest with
  | zero => omega
  | succ fuel ih =>
      rw [digits]
      by_cases hn : num < 10
      · rw [if_pos hn, List.nil_append, List.singleton_append, strtoulLoop_digit (by omega)]
        simp [Nat.mod_eq_of_lt hn]
      · have hq : num / 10 < 10 ^ fuel := by
          rw [pow_succ] at h
          omega
        have hpos : 0 < fuel := by
          by_contra h0
          rw [show fuel = 0 by omega, pow_zero] at hq
          omega
        rw [if_neg hn, List.append_assoc, List.singleton_append, ih hpos (num / 10) hq,
          strtoulLoop_digit (by omega), List.length_append, List.length_singleton, pow_succ, ← mul_assoc]
        congr 1
        omega

theorem simpleStrtoul_sprintfLu {num : Nat} (h : num < 4294967296) (rest : List UInt8) :
    simpleStrtoul (sprintfLu num ++ rest) = num := by
  rw [simpleStrtoul, sprintfLu, List.append_assoc, strtoulLoop_digits (by decide) num 0 (by omega)]
  simp [strtoulLoop, Nat.mod_eq_of_lt h]

theorem simpleStrtoul_sprintfD {num : Int} (hl : 0 ≤ num) (hu : num < 2147483648) (rest : List UInt8) :
    (simpleStrtoul (sprintfD num ++ rest) : Int) = num := by
  rw [sprintfD, if_neg (by omega), simpleStrtoul_sprintfLu (by omega)]
  omega

theorem length_digits_le (fuel num : Nat) : (digits fuel num).length ≤ fuel := by
  induction fuel generalizing num with
  | zero => simp [digits]
  | succ fuel ih =>
      have := ih (num / 10)
      rw [digits, List.length_append, List.length_singleton]
      split
      · simp
      · omega

theorem length_sprintfLu_le (num : Nat) : (sprintfLu num).length ≤ 11 := by
  have := length_digits_le 10 num
  rw [sprintfLu, List.length_append, List.length_singleton]
  omega

theorem length_sprintfD_le (num : Int) : (sprintfD num).length ≤ 12 := by
  have := length_sprintfLu_le num.natAbs
  rw [sprintfD]
  split
  · rw [List.length_cons]
    omega
  · omega

end AliceModem.Vsprintf
