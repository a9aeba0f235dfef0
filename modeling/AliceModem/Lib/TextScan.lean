import AliceModem.Lib.Words
import Mathlib.Data.List.TakeWhile

namespace AliceModem.TextScan

def isspace (c : UInt8) : Bool := c = 32 ∨ 9 ≤ c ∧ c ≤ 13

def isdigit (c : UInt8) : Bool := 48 ≤ c ∧ c ≤ 57

def digitValue (c : UInt8) : Option Nat :=
  if isdigit c then some (c.toNat - 48)
  else if 65 ≤ c ∧ c ≤ 90 then some (c.toNat - 55)
  else if 97 ≤ c ∧ c ≤ 122 then some (c.toNat - 87)
  else none

def isDigitOf (base : Nat) (c : UInt8) : Bool := (digitValue c).any (· < base)

def number (base : Nat) (ds : List UInt8) : Nat := ds.foldl (fun n c => n * base + (digitValue c).getD 0) 0

def sign : List UInt8 → Bool × List UInt8
  | 45 :: s => (true, s)
  | 43 :: s => (false, s)
  | s => (false, s)

def stripHex : List UInt8 → List UInt8
  | 48 :: 120 :: s | 48 :: 88 :: s => s
  | s => s

/-- The closest value of a 32 bit `long`. -/
def clamp (z : Int) : Int := max (-2147483648) (min z 2147483647)

/-- `strtol` in base 10 or 16. A prefix without a digit behind it stands for 0
whether or not it is taken off. -/
def strtol (base : Nat) (s : List UInt8) : Int :=
  let signed := sign (s.dropWhile isspace)
  let s := if base = 16 then stripHex signed.2 else signed.2
  let n : Int := number base (s.takeWhile (isDigitOf base))
  clamp (if signed.1 then -n else n)

def atoi (s : List UInt8) : Int := strtol 10 s

/-- `strtok_r` with one delimiter: the token and what is left behind the
delimiter that ends it. -/
def strtokR (delim : UInt8) (s : List UInt8) : Option (List UInt8 × List UInt8) :=
  match s.dropWhile (· == delim) with
  | [] => none
  | c :: s => some ((c :: s).takeWhile (· != delim), ((c :: s).dropWhile (· != delim)).tail)

section

variable {α : Type*} {p : α → Bool} {s rest : List α}

theorem takeWhile_until (hs : ∀ c ∈ s, p c = true) (hrest : ∀ c ∈ rest.head?, p c = false) :
    (s ++ rest).takeWhile p = s := by
  rw [List.takeWhile_append_of_pos hs]
  cases rest with
  | nil => simp
  | cons c rest => simp [hrest c rfl]

theorem dropWhile_until (hs : ∀ c ∈ s, p c = true) (hrest : ∀ c ∈ rest.head?, p c = false) :
    (s ++ rest).dropWhile p = rest := by
  rw [List.dropWhile_append_of_pos hs]
  cases rest with
  | nil => rfl
  | cons c rest => simp [hrest c rfl]

theorem take_set_succ {i : Nat} (h : i < s.length) (c : α) : (s.set i c).take (i + 1) = s.take i ++ [c] := by
  rw [List.take_add_one, List.take_set_of_le (Nat.le_refl i)]
  simp [h]

end

theorem forall_byte {P : UInt8 → Prop} (h : ∀ n : Fin 256, P (UInt8.ofNat n)) (c : UInt8) : P c := by
  have hc := h ⟨c.toNat, c.toNat_lt⟩
  rwa [UInt8.ofNat_toNat] at hc

theorem isDigitOf_ten (c : UInt8) : isDigitOf 10 c = isdigit c :=
  forall_byte (P := fun c => isDigitOf 10 c = isdigit c) (by decide +kernel) c

theorem isspace_digit {c : UInt8} (h : isdigit c = true) : isspace c = false :=
  forall_byte (P := fun c => isdigit c = true → isspace c = false) (by decide +kernel) c h

theorem number_concat (base : Nat) (ds : List UInt8) (c : UInt8) :
    number base (ds ++ [c]) = number base ds * base + (digitValue c).getD 0 := by
  simp [number]

theorem sign_digit {c : UInt8} (h : isdigit c = true) (s : List UInt8) : sign (c :: s) = (false, c :: s) := by
  have hne : c ≠ 45 ∧ c ≠ 43 := by
    constructor <;> rintro rfl <;> cases h
  simp [sign, hne]

theorem atoi_digits {ds rest : List UInt8} (hne : ds ≠ []) (hds : ∀ c ∈ ds, isdigit c = true)
    (hrest : ∀ c ∈ rest.head?, isdigit c = false) (hlt : number 10 ds < 2147483648) :
    atoi (ds ++ rest) = number 10 ds := by
  have htake : (ds ++ rest).takeWhile (isDigitOf 10) = ds := by
    apply takeWhile_until
    · intro c hc
      exact (isDigitOf_ten c).trans (hds c hc)
    · intro c hc
      exact (isDigitOf_ten c).trans (hrest c hc)
  obtain ⟨c, ds', rfl⟩ := List.exists_cons_of_ne_nil hne
  have hc : isdigit c = true := hds c List.mem_cons_self
  have hdrop : (c :: ds' ++ rest).dropWhile isspace = c :: ds' ++ rest := by simp [isspace_digit hc]
  have hsign : sign (c :: ds' ++ rest) = (false, c :: ds' ++ rest) := sign_digit hc (ds' ++ rest)
  have hbase : ¬ (10 : Nat) = 16 := by decide
  simp only [atoi, strtol, hdrop, hsign, if_neg hbase, htake, clamp, Bool.false_eq_true, if_false]
  omega

theorem strtokR_append {delim : UInt8} {token rest : List UInt8} (hne : token ≠ []) (htoken : delim ∉ token)
    (hrest : ∀ c ∈ rest.head?, c = delim) : strtokR delim (token ++ rest) = some (token, rest.tail) := by
  have hin : ∀ c ∈ token, (c != delim) = true := by
    intro c hc
    exact bne_iff_ne.mpr (ne_of_mem_of_not_mem hc htoken)
  have hout : ∀ c ∈ rest.head?, (c != delim) = false := by
    intro c hc
    simp [hrest c hc]
  obtain ⟨c, token', rfl⟩ := List.exists_cons_of_ne_nil hne
  have hstart : (c :: token' ++ rest).dropWhile (· == delim) = c :: (token' ++ rest) := by
    have hc : c ≠ delim := bne_iff_ne.mp (hin c List.mem_cons_self)
    simp [hc]
  rw [strtokR, hstart]
  exact congrArg some (Prod.ext (takeWhile_until hin hout) (congrArg List.tail (dropWhile_until hin hout)))

end AliceModem.TextScan
