import AliceModem.Lib.ByteMemory

namespace AliceModem.SerialFlash

open ByteMemory

structure Command where
  paged : Bool
  address : Int
  data : List UInt8
  deriving DecidableEq

/-- The command has data, which does not go beyond the end of a page if the part has pages. -/
def Command.Sound (c : Command) : Prop :=
  c.data ≠ [] ∧ (c.paged = true → c.address % 256 + c.data.length ≤ 256)

/-- The bytes of the part, its write enable latch, the next address of an
auto address increment and the program commands so far. -/
structure Chip where
  mem : Mem UInt8
  wel : Bool
  aai : Option Int
  log : List Command

/-- The size of the part, and whether it programs words at even addresses only, in which case the last
address bit is ignored. -/
structure Kind where
  size : Int
  evenWords : Bool

def wren : UInt8 := 0x06
def wrdi : UInt8 := 0x04
def prog : UInt8 := 0x02
def aaiByte : UInt8 := 0xaf
def aaiWord : UInt8 := 0xad

/-- Bits are only ever cleared. The address of the byte behind `a` is `next a`. -/
def programFrom (next : Int → Int) : Mem UInt8 → Int → List UInt8 → Mem UInt8
  | m, _, [] => m
  | m, a, b :: bs => programFrom next (fun i => if i = a then m i &&& b else m i) (next a) bs

def nextInPage (a : Int) : Int := if a % 256 = 255 then a - 255 else a + 1

def Kind.next (k : Kind) (a : Int) : Int := if a + 1 = k.size then 0 else a + 1

def Kind.wordAddress (k : Kind) (a : Int) : Int := if k.evenWords then a - a % 2 else a

def Kind.address (k : Kind) (a2 a1 a0 : UInt8) : Int :=
  ((a2.toNat * 65536 + a1.toNat * 256 + a0.toNat : Nat) : Int) % k.size

def Chip.programPage (c : Chip) (a : Int) (data : List UInt8) : Chip :=
  { c with
    mem := if c.wel then programFrom nextInPage c.mem a data else c.mem
    wel := false
    log := c.log ++ [⟨true, a, data⟩] }

def Chip.page (k : Kind) (c : Chip) : List UInt8 → Chip
  | a2 :: a1 :: a0 :: data => c.programPage (k.address a2 a1 a0) data
  | _ => c

def Chip.increment (k : Kind) (c : Chip) (a : Int) (data : List UInt8) : Chip :=
  { c with
    mem := if c.wel then programFrom k.next c.mem a data else c.mem
    aai := if c.wel then some (k.next^[data.length] a) else none
    log := c.log ++ [⟨false, a, data⟩] }

def Chip.auto (k : Kind) (c : Chip) (first : Int → Int) (args : List UInt8) : Chip :=
  match c.aai, args with
  | none, a2 :: a1 :: a0 :: data => c.increment k (first (k.address a2 a1 a0)) data
  | none, _ => c
  | some a, data => c.increment k a data

def Chip.receive (k : Kind) (c : Chip) : List UInt8 → Chip
  | [] => c
  | op :: args =>
      if op = wren then { c with wel := true }
      else if op = wrdi then { c with wel := false, aai := none }
      else if op = prog then c.page k args
      else if op = aaiByte then c.auto k id args
      else if op = aaiWord then c.auto k k.wordAddress args
      else c

def Chip.read (k : Kind) (c : Chip) (a : Int) (n : Nat) : List UInt8 := readBytes (fun i => c.mem (i % k.size)) a n

theorem programFrom_eq_patch {next : Int → Int} {m : Mem UInt8} {a : Int} {bs : List UInt8}
    (hnext : ∀ j : Nat, j + 1 < bs.length → next (a + j) = a + j + 1)
    (hbits : ∀ j : Nat, j < bs.length → m (a + j) &&& bs.getD j default = bs.getD j default) :
    programFrom next m a bs = patch m a bs := by
  induction bs generalizing m a with
  | nil => exact (patch_nil m a).symm
  | cons b bs ih =>
      have hb : (fun i => if i = a then m i &&& b else m i) = patch m a [b] := by
        funext i
        by_cases hi : i = a
        · subst hi
          have hfirst := hbits 0 (Nat.zero_lt_succ _)
          rw [Int.natCast_zero, Int.add_zero, List.getD_cons_zero] at hfirst
          rw [if_pos rfl, hfirst, patch_inside _ _ _ _ (Int.le_refl i) (by simp only [List.length_singleton]; omega), Int.sub_self]
          rfl
        · rw [if_neg hi, patch_outside _ _ _ _ (by simp only [List.length_singleton]; omega)]
      have hsplit : patch m a (b :: bs) = patch (patch m a [b]) (a + 1) bs := (patch_append m a [b] bs).symm
      rw [programFrom, hb, hsplit]
      cases bs with
      | nil => exact (patch_nil _ _).symm
      | cons b' bs =>
          have hstep : next a = a + 1 := by simpa using hnext 0 (by simp)
          rw [hstep]
          apply ih
          · intro j hj
            have := hnext (j + 1) (Nat.succ_lt_succ hj)
            rw [Int.natCast_add, Int.natCast_one] at this
            rw [show a + 1 + (j : Int) = a + (j + 1) by omega, this]
          · intro j hj
            have := hbits (j + 1) (Nat.succ_lt_succ hj)
            rw [patch_outside _ _ _ _ (by simp only [List.length_singleton]; omega),
              show a + 1 + (j : Int) = a + ((j + 1 : Nat) : Int) by omega]
            exact this

theorem nextInPage_eq {a : Int} {n : Nat} (h : a % 256 + n ≤ 256) (j : Nat) (hj : j + 1 < n) :
    nextInPage (a + j) = a + j + 1 := if_neg (by omega)

theorem Kind.next_eq {k : Kind} {a : Int} {n : Nat} (h : a + n ≤ k.size) (j : Nat) (hj : j + 1 < n) :
    k.next (a + j) = a + j + 1 := if_neg (by omega)

theorem Kind.iterate_next {k : Kind} {a : Int} {n : Nat} (h : a + n < k.size) : k.next^[n] a = a + n := by
  induction n with
  | zero => simp
  | succ n ih =>
      rw [Function.iterate_succ_apply', ih (by omega), Kind.next, if_neg (by omega)]
      omega

/-- The bytes that are to be programmed have no bit set that is clear already. -/
def Fits (m : Mem UInt8) (a : Int) (data : List UInt8) : Prop :=
  ∀ j : Nat, j < data.length → m (a + j) &&& data.getD j default = data.getD j default

theorem fits_pair {m : Mem UInt8} {a : Int} {b b' : UInt8} (h : m a &&& b = b) (h' : m (a + 1) &&& b' = b') :
    Fits m a [b, b'] := by
  intro j hj
  obtain rfl | rfl : j = 0 ∨ j = 1 := by
    rw [List.length_cons, List.length_singleton] at hj
    omega
  · rw [Int.natCast_zero, Int.add_zero]
    exact h
  · exact h'

theorem fits_erased {m : Mem UInt8} {a : Int} {data : List UInt8}
    (h : ∀ i, a ≤ i → i < a + data.length → m i = 0xff) : Fits m a data := by
  intro j hj
  rw [h (a + j) (by omega) (by omega)]
  exact UInt8.neg_one_and

theorem Fits.take {m host : Mem UInt8} {a b : Int} {n w : Nat} (h : Fits m a (readBytes host b n)) (hw : w ≤ n) :
    Fits m a (readBytes host b w) := by
  intro j hj
  rw [length_readBytes] at hj
  have hbyte := h j (by rw [length_readBytes]; omega)
  rw [getD_readBytes _ _ _ _ (by omega)] at hbyte ⊢
  exact hbyte

theorem Chip.auto_start {k : Kind} {c : Chip} (h : c.aai = none) (first : Int → Int) (a2 a1 a0 : UInt8) (data : List UInt8) :
    c.auto k first (a2 :: a1 :: a0 :: data) = c.increment k (first (k.address a2 a1 a0)) data := by
  simp only [Chip.auto, h]

theorem Chip.auto_next {k : Kind} {c : Chip} {a : Int} (h : c.aai = some a) (first : Int → Int) (data : List UInt8) :
    c.auto k first data = c.increment k a data := by
  simp only [Chip.auto, h]

section Programmed

variable {k : Kind} {c : Chip} {a : Int} {data : List UInt8} (hwel : c.wel = true) (hfits : Fits c.mem a data)

include hwel hfits

theorem Chip.programPage_eq (hpage : a % 256 + data.length ≤ 256) :
    c.programPage a data = { c with mem := patch c.mem a data, wel := false, log := c.log ++ [⟨true, a, data⟩] } := by
  rw [Chip.programPage, if_pos hwel, programFrom_eq_patch (nextInPage_eq hpage) hfits]

theorem Chip.increment_eq (hsize : a + data.length ≤ k.size) :
    c.increment k a data =
      { c with mem := patch c.mem a data, aai := some (k.next^[data.length] a), log := c.log ++ [⟨false, a, data⟩] } := by
  rw [Chip.increment, if_pos hwel, if_pos hwel, programFrom_eq_patch (Kind.next_eq hsize) hfits]

end Programmed

theorem programFrom_zero {next : Int → Int} {m : Mem UInt8} {a i : Int} {bs : List UInt8} (h : m i = 0) :
    programFrom next m a bs i = 0 := by
  induction bs generalizing m a with
  | nil => exact h
  | cons b bs ih =>
      apply ih
      split_ifs
      · rw [h, UInt8.zero_and]
      · exact h

theorem Chip.increment_zero {k : Kind} {c : Chip} {i : Int} (h : c.mem i = 0) (a : Int) (data : List UInt8) :
    (c.increment k a data).mem i = 0 := by
  rw [Chip.increment]
  dsimp only
  split_ifs
  · exact programFrom_zero h
  · exact h

theorem Chip.auto_zero {k : Kind} {c : Chip} {i : Int} (h : c.mem i = 0) (first : Int → Int) (args : List UInt8) :
    (c.auto k first args).mem i = 0 := by
  unfold Chip.auto
  split
  · exact increment_zero h _ _
  · exact h
  · exact increment_zero h _ _

theorem Chip.programPage_zero {c : Chip} {i : Int} (h : c.mem i = 0) (a : Int) (data : List UInt8) :
    (c.programPage a data).mem i = 0 := by
  rw [Chip.programPage]
  dsimp only
  split_ifs
  · exact programFrom_zero h
  · exact h

theorem Chip.page_zero {k : Kind} {c : Chip} {i : Int} (h : c.mem i = 0) (args : List UInt8) :
    (c.page k args).mem i = 0 := by
  unfold Chip.page
  split
  · exact programPage_zero h _ _
  · exact h

theorem Chip.receive_zero {k : Kind} {c : Chip} {i : Int} (h : c.mem i = 0) (message : List UInt8) :
    (c.receive k message).mem i = 0 := by
  cases message with
  | nil => exact h
  | cons op args =>
      rw [Chip.receive]
      split_ifs
      · exact h
      · exact h
      · exact page_zero h _
      · exact auto_zero h _ _
      · exact auto_zero h _ _
      · exact h

end AliceModem.SerialFlash
