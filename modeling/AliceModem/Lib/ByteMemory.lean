import Mathlib.Data.List.Basic
import Mathlib.Algebra.Group.Int.Defs
import Mathlib.Data.Nat.Cast.Basic

namespace AliceModem.ByteMemory

/-- A memory seen from a fixed origin: cells before the origin have negative
addresses, so a pointer that leaves its object still names a cell. -/
abbrev Mem (α : Type) := Int → α

variable {α : Type} [Inhabited α]

def readBytes (m : Mem α) (a : Int) (n : Nat) : List α := (List.range n).map (fun i : Nat => m (a + i))

def patch (m : Mem α) (a : Int) (bs : List α) : Mem α :=
  fun i => if a ≤ i ∧ i < a + bs.length then bs.getD (i - a).toNat default else m i

def fill (m : Mem α) (a : Int) (n : Nat) (v : α) : Mem α := patch m a (List.replicate n v)

def view (m : Mem α) (p : Int) : Mem α := fun i => m (p + i)

@[simp] theorem length_readBytes {α : Type} (m : Mem α) (a : Int) (n : Nat) : (readBytes m a n).length = n := by
  simp [readBytes]

theorem getD_readBytes (m : Mem α) (a : Int) (n i : Nat) (h : i < n) :
    (readBytes m a n).getD i default = m (a + i) := by
  simp [readBytes, List.getD_eq_getElem?_getD, h]

theorem patch_inside (m : Mem α) (a : Int) (bs : List α) (i : Int) (hl : a ≤ i) (hu : i < a + bs.length) :
    patch m a bs i = bs.getD (i - a).toNat default := if_pos ⟨hl, hu⟩

theorem patch_outside (m : Mem α) (a : Int) (bs : List α) (i : Int) (h : i < a ∨ a + bs.length ≤ i) :
    patch m a bs i = m i := by
  apply if_neg
  omega

@[simp] theorem patch_nil (m : Mem α) (a : Int) : patch m a [] = m := by
  funext i
  apply patch_outside
  simp only [List.length_nil, Int.ofNat_zero, Int.add_zero]
  omega

theorem fill_inside (m : Mem α) (a : Int) (n : Nat) (v : α) (i : Int) (hl : a ≤ i) (hu : i < a + n) :
    fill m a n v i = v := by
  have h : (i - a).toNat < n := by omega
  rw [fill, patch_inside _ _ _ _ hl (by simpa using hu)]
  simp [List.getD_eq_getElem?_getD, h]

theorem fill_outside (m : Mem α) (a : Int) (n : Nat) (v : α) (i : Int) (h : i < a ∨ a + n ≤ i) :
    fill m a n v i = m i :=
  patch_outside _ _ _ _ (by simpa using h)

omit [Inhabited α] in
theorem readBytes_congr {m m' : Mem α} {a a' : Int} {n : Nat} (h : ∀ i : Nat, i < n → m (a + i) = m' (a' + i)) :
    readBytes m a n = readBytes m' a' n :=
  List.map_congr_left fun i hi => h i (List.mem_range.mp hi)

omit [Inhabited α] in
theorem readBytes_replicate {m : Mem α} {a : Int} {n : Nat} {v : α} (h : ∀ i : Nat, i < n → m (a + i) = v) :
    readBytes m a n = List.replicate n v := by
  apply List.ext_getElem (by simp)
  intro i hi _
  rw [length_readBytes] at hi
  simpa [readBytes] using h i hi

theorem readBytes_patch (m : Mem α) (a : Int) (bs : List α) : readBytes (patch m a bs) a bs.length = bs := by
  apply List.ext_getElem (by simp)
  intro i h _
  have hi : i < bs.length := by simpa using h
  rw [show (readBytes (patch m a bs) a bs.length)[i] = patch m a bs (a + i) by simp [readBytes],
    patch_inside _ _ _ _ (by omega) (by omega)]
  simp [hi]

theorem readBytes_patch_disjoint (m : Mem α) (a b : Int) (n : Nat) (bs : List α)
    (h : a + n ≤ b ∨ b + bs.length ≤ a) : readBytes (patch m b bs) a n = readBytes m a n :=
  readBytes_congr fun i hi => patch_outside _ _ _ _ (by omega)

theorem patch_comm (m : Mem α) {a b : Int} {xs ys : List α} (h : a + xs.length ≤ b) :
    patch (patch m a xs) b ys = patch (patch m b ys) a xs := by
  funext i
  by_cases hi : a ≤ i ∧ i < a + xs.length
  · rw [patch_outside _ b _ _ (.inl (by omega)), patch_inside _ _ _ _ hi.1 hi.2, patch_inside _ _ _ _ hi.1 hi.2]
  · simp only [patch, if_neg hi]

theorem patch_append (m : Mem α) (a : Int) (xs ys : List α) :
    patch (patch m a xs) (a + xs.length) ys = patch m a (xs ++ ys) := by
  funext i
  have hlen : (xs ++ ys).length = xs.length + ys.length := List.length_append
  by_cases hy : a + xs.length ≤ i ∧ i < a + xs.length + ys.length
  · rw [patch_inside _ _ _ _ hy.1 hy.2, patch_inside _ _ _ _ (by omega) (by omega)]
    simp only [List.getD_eq_getElem?_getD]
    rw [List.getElem?_append_right (by omega)]
    congr 2
    omega
  · rw [patch_outside _ _ _ _ (by omega)]
    by_cases hx : a ≤ i ∧ i < a + xs.length
    · rw [patch_inside _ _ _ _ hx.1 hx.2, patch_inside _ _ _ _ hx.1 (by omega)]
      simp only [List.getD_eq_getElem?_getD]
      rw [List.getElem?_append_left (by omega)]
    · rw [patch_outside _ _ _ _ (by omega), patch_outside _ _ _ _ (by omega)]

theorem patch_same {m : Mem α} {a : Int} {bs : List α} (h : readBytes m a bs.length = bs) : patch m a bs = m := by
  funext i
  by_cases hi : a ≤ i ∧ i < a + bs.length
  · rw [patch_inside _ _ _ _ hi.1 hi.2, ← h, getD_readBytes _ _ _ _ (by omega)]
    congr 1
    omega
  · exact patch_outside _ _ _ _ (by omega)

theorem patch_congr {m m' : Mem α} {a : Int} {bs : List α} (h : ∀ i, i < a ∨ a + bs.length ≤ i → m' i = m i) :
    patch m' a bs = patch m a bs := by
  funext i
  by_cases hi : a ≤ i ∧ i < a + bs.length
  · rw [patch_inside _ _ _ _ hi.1 hi.2, patch_inside _ _ _ _ hi.1 hi.2]
  · have hout : i < a ∨ a + bs.length ≤ i := by omega
    rw [patch_outside _ _ _ _ hout, patch_outside _ _ _ _ hout, h i hout]

theorem patch_readBytes {m m' : Mem α} {a : Int} {n : Nat} (h : ∀ i, i < a ∨ a + n ≤ i → m' i = m i) :
    patch m a (readBytes m' a n) = m' := by
  have hbase : patch m' a (readBytes m' a n) = patch m a (readBytes m' a n) :=
    patch_congr fun i hi => h i (by simpa using hi)
  rw [← hbase]
  exact patch_same (by rw [length_readBytes])

omit [Inhabited α] in
theorem readBytes_append (m : Mem α) (a : Int) (n k : Nat) :
    readBytes m a (n + k) = readBytes m a n ++ readBytes m (a + n) k := by
  simp only [readBytes, List.range_add, List.map_append, List.map_map]
  congr 1
  apply List.map_congr_left
  intro i _
  simp [Int.add_assoc]

theorem readBytes_patch_right (m : Mem α) (a : Int) (xs ys : List α) :
    readBytes (patch m a (xs ++ ys)) (a + xs.length) ys.length = ys := by
  have hall := readBytes_patch m a (xs ++ ys)
  rw [List.length_append, readBytes_append] at hall
  exact List.append_inj_right hall (length_readBytes ..)

omit [Inhabited α] in
theorem readBytes_succ (m : Mem α) (a : Int) (n : Nat) : readBytes m a (n + 1) = m a :: readBytes m (a + 1) n := by
  rw [Nat.add_comm, readBytes_append]
  simp [readBytes]

omit [Inhabited α] in
theorem headD_readBytes (m : Mem α) (a : Int) (n : Nat) (d : α) : (readBytes m a (n + 1)).headD d = m a := by
  rw [readBytes_succ, List.headD_cons]

omit [Inhabited α] in
theorem take_readBytes (m : Mem α) (a : Int) {n k : Nat} (h : k ≤ n) :
    (readBytes m a n).take k = readBytes m a k := by
  obtain ⟨j, rfl⟩ := Nat.exists_eq_add_of_le h
  rw [readBytes_append, List.take_left' (length_readBytes m a k)]

omit [Inhabited α] in
theorem drop_readBytes (m : Mem α) (a : Int) {n k : Nat} (h : k ≤ n) :
    (readBytes m a n).drop k = readBytes m (a + k) (n - k) := by
  obtain ⟨j, rfl⟩ := Nat.exists_eq_add_of_le h
  rw [readBytes_append, List.drop_left' (length_readBytes m a k), Nat.add_sub_cancel_left]

end AliceModem.ByteMemory
