import AliceModem.Board.MacPool

namespace AliceModem.MacTable

open Words ByteMemory Device BigEndian Nvram Transition MacPool

def sizeofMacInfo : Nat := 20

def sizeofMacAddrInfo : Nat := 8

/-- The size that `set_mac_info` asks for. -/
def ulMacInfoSize (ulNumMacAddrs : Nat) : Nat := sizeofMacInfo + (sizeofMacAddrInfo - 1) * ulNumMacAddrs

def entryEnd (i : Nat) : Nat := 12 + sizeofMacAddrInfo * (i + 1)

def remember (pMai : MacAddrInfo) (i : Nat) (noId freeId : Option Nat) : Option Nat × Option Nat :=
  if pMai.chInUse = 0 then
    if pMai.ulId = 0 ∧ noId = none then (some i, freeId)
    else if pMai.ulId ≠ 0 ∧ freeId = none then (noId, some i)
    else (noId, freeId)
  else (noId, freeId)

def scanReads (ulId : UInt32) : List MacAddrInfo → Nat → Option Nat → Option Nat → Candidates × List Nat
  | [], _, noId, freeId => (⟨none, noId, freeId⟩, [])
  | pMai :: rest, i, noId, freeId =>
      if ulId = pMai.ulId ∨ ulId = macAddressAny then (⟨some i, none, none⟩, [i])
      else
        let r := scanReads ulId rest (i + 1) (remember pMai i noId freeId).1 (remember pMai i noId freeId).2
        (r.1, i :: r.2)

def Candidates.written (c : Candidates) : Option Nat := c.found <|> c.freeNoId <|> c.freeId

inductive Call
  | get (ulId : UInt32)
  | release (mac : List Byte)

def step (p : MacInfo) : Call → MacInfo
  | .get ulId => (kerSysGetMacAddress p ulId).2
  | .release mac => (kerSysReleaseMacAddress p mac).2

def accesses (p : MacInfo) : Call → List Nat
  | .get ulId =>
      let r := scanReads ulId p.macAddrs 0 none none
      r.2 ++ (Candidates.written r.1).toList
  | .release mac => if releaseIdx p mac < p.macAddrs.length then [releaseIdx p mac] else []

/-- The call touches no entry that is not in the `size` bytes from the start of the structure. -/
def Inside (size : Nat) (p : MacInfo) (c : Call) : Prop := ∀ i ∈ accesses p c, entryEnd i ≤ size

instance (size : Nat) (p : MacInfo) (c : Call) : Decidable (Inside size p c) :=
  inferInstanceAs (Decidable (∀ i ∈ accesses p c, entryEnd i ≤ size))

section Scan

variable {ulId : UInt32}

theorem scanReads_fst (l : List MacAddrInfo) (i : Nat) (noId freeId : Option Nat) :
    (scanReads ulId l i noId freeId).1 = scan ulId l i noId freeId := by
  induction l generalizing i noId freeId with
  | nil => rfl
  | cons e l ih =>
      simp only [scanReads, scan, remember]
      split_ifs <;> simp [ih]

theorem remember_cases (e : MacAddrInfo) (i : Nat) (noId freeId : Option Nat) :
    ((remember e i noId freeId).1 = noId ∨ (remember e i noId freeId).1 = some i) ∧
      ((remember e i noId freeId).2 = freeId ∨ (remember e i noId freeId).2 = some i) := by
  rw [remember]
  split_ifs <;> simp

theorem mem_scanReads {l : List MacAddrInfo} {i : Nat} {noId freeId : Option Nat} {j : Nat}
    (h : j ∈ (scanReads ulId l i noId freeId).2) : i ≤ j ∧ j < i + l.length := by
  induction l generalizing i noId freeId with
  | nil => cases h
  | cons e l ih =>
      rw [List.length_cons]
      rw [scanReads] at h
      split_ifs at h with hmatch
      · rw [List.mem_singleton] at h
        omega
      · rcases List.mem_cons.mp h with rfl | h
        · omega
        · have := ih h
          omega

theorem written_mem {l : List MacAddrInfo} {i : Nat} {noId freeId : Option Nat} {j : Nat}
    (h : Candidates.written (scanReads ulId l i noId freeId).1 = some j) :
    j ∈ (scanReads ulId l i noId freeId).2 ∨ noId = some j ∨ freeId = some j := by
  induction l generalizing i noId freeId with
  | nil =>
      cases noId with
      | some k => exact .inr (.inl h)
      | none => exact .inr (.inr h)
  | cons e l ih =>
      rw [scanReads] at h ⊢
      split_ifs at h ⊢ with hmatch
      · obtain rfl := Option.some.inj h
        exact .inl List.mem_cons_self
      · have hbefore (o : Option Nat) {o' : Option Nat} (ho : o' = o ∨ o' = some i) (hj : o' = some j) :
            j ∈ i :: (scanReads ulId l (i + 1) (remember e i noId freeId).1 (remember e i noId freeId).2).2 ∨ o = some j := by
          rcases ho with rfl | rfl
          · exact .inr hj
          · exact .inl (Option.some.inj hj ▸ List.mem_cons_self)
        obtain ⟨h1, h2⟩ := remember_cases e i noId freeId
        rcases ih h with hmem | hno | hfree
        · exact .inl (List.mem_cons_of_mem i hmem)
        · exact (hbefore noId h1 hno).imp_right .inl
        · exact (hbefore freeId h2 hfree).imp_right .inr

theorem scanReads_all (hany : ulId ≠ macAddressAny) {l : List MacAddrInfo} (hne : ulId ∉ l.map MacAddrInfo.ulId) (i : Nat)
    (noId freeId : Option Nat) {j : Nat} (hl : i ≤ j) (hu : j < i + l.length) :
    j ∈ (scanReads ulId l i noId freeId).2 := by
  induction l generalizing i noId freeId with
  | nil => rw [List.length_nil] at hu; omega
  | cons e l ih =>
      rw [List.map_cons, List.mem_cons, not_or] at hne
      rw [List.length_cons] at hu
      rw [scanReads, if_neg (not_or.mpr ⟨hne.1, hany⟩)]
      obtain rfl | hlt := Nat.eq_or_lt_of_le hl
      · exact List.mem_cons_self
      · exact List.mem_cons_of_mem i (ih hne.2 (i + 1) _ _ hlt (by omega))

end Scan

theorem accesses_lt {p : MacInfo} {c : Call} {i : Nat} (h : i ∈ accesses p c) : i < p.macAddrs.length := by
  cases c with
  | get ulId =>
      have hread {j : Nat} (hj : j ∈ (scanReads ulId p.macAddrs 0 none none).2) : j < p.macAddrs.length := by
        have := mem_scanReads hj
        omega
      rcases List.mem_append.mp h with hr | hw
      · exact hread hr
      · exact hread ((written_mem (Option.mem_toList.mp hw)).resolve_right (by simp))
  | release mac =>
      rw [accesses] at h
      split_ifs at h with hidx
      · rwa [List.mem_singleton.mp h]
      · cases h

theorem step_frame {p : MacInfo} {c : Call} {j : Nat} (h : j ∉ accesses p c) :
    (step p c).macAddrs[j]? = p.macAddrs[j]? := by
  cases c with
  | get ulId =>
      have hw : Candidates.written (scan ulId p.macAddrs 0 none none) ≠ some j := by
        intro hw
        rw [← scanReads_fst] at hw
        exact h (List.mem_append_right _ (Option.mem_toList.mpr hw))
      rw [Candidates.written] at hw
      simp only [step, kerSysGetMacAddress]
      split
      next i hi =>
        have hij : i ≠ j := by simpa [hi] using hw
        simp [hij]
      next hnone =>
        split
        next i hi =>
          have hij : i ≠ j := by simpa [hnone, hi] using hw
          simp [claim, hij]
        next i hno hi =>
          have hij : i ≠ j := by simpa [hnone, hno, hi] using hw
          simp [claim, hij]
        next => rfl
  | release mac =>
      simp only [step, kerSysReleaseMacAddress]
      split_ifs with huse
      · have hlt : releaseIdx p mac < p.macAddrs.length := by
          by_contra hge
          rw [List.getElem?_eq_none (not_lt.mp hge)] at huse
          cases huse
        have hij : releaseIdx p mac ≠ j := by
          rintro rfl
          exact h (by simp [accesses, hlt])
        simp [unclaim, hij]
      · rfl

theorem length_step (p : MacInfo) (c : Call) : (step p c).macAddrs.length = p.macAddrs.length := by
  cases c with
  | get ulId =>
      simp only [step, kerSysGetMacAddress]
      split
      · simp
      · split <;> simp [claim]
  | release mac =>
      simp only [step, kerSysReleaseMacAddress]
      split_ifs <;> simp [unclaim]

theorem along_inside {n size : Nat} (hsize : 12 + sizeofMacAddrInfo * n ≤ size) {p : MacInfo} (hp : p.macAddrs.length = n)
    (calls : List Call) : Along step (Inside size) p calls := by
  induction calls generalizing p with
  | nil => trivial
  | cons c calls ih =>
      refine ⟨fun i hi => ?_, ih (by rw [length_step, hp])⟩
      have hlt := accesses_lt hi
      rw [sizeofMacAddrInfo] at hsize
      rw [entryEnd, sizeofMacAddrInfo]
      omega

section

variable {heap : Mem Byte} {d : NvramData} {p : MacInfo}

/-- The size asked for has one byte per entry too little, so that the eight bytes
which the structure has for a first entry are used up by eight more. -/
theorem mac_table_in_bounds_iff (h : setMacInfo heap d = some p) :
    (∀ calls, Along step (Inside (ulMacInfoSize (ulNumMacAddrs d))) p calls) ↔ ulNumMacAddrs d ≤ 8 := by
  obtain ⟨⟨hpos, hmax⟩, hmacs⟩ := setMacInfo_eq h
  have hlen : p.macAddrs.length = ulNumMacAddrs d := by rw [hmacs, List.length_map, List.length_range]
  constructor
  · intro hall
    obtain ⟨ulId, hne, hany⟩ := exists_fresh (p.macAddrs.map MacAddrInfo.ulId) (by rwa [List.length_map, hlen])
    have hlast : ulNumMacAddrs d - 1 ∈ accesses p (.get ulId) :=
      List.mem_append_left _ (scanReads_all hany hne 0 none none (Nat.zero_le _) (by omega))
    have hend := (hall [.get ulId]).1 _ hlast
    rw [entryEnd, ulMacInfoSize, sizeofMacInfo, sizeofMacAddrInfo] at hend
    omega
  · intro hle
    refine along_inside ?_ hlen
    rw [ulMacInfoSize, sizeofMacInfo, sizeofMacAddrInfo]
    omega

end

theorem eight_addresses_in_bounds :
    ∃ p, setMacInfo (fun _ => 0) (demoNvram 8) = some p ∧
      ∀ calls, Along step (Inside (ulMacInfoSize (ulNumMacAddrs (demoNvram 8)))) p calls := by
  refine ⟨_, if_pos (by decide), ?_⟩
  exact (mac_table_in_bounds_iff (if_pos (by decide))).mpr (by decide)

theorem ninth_entry_outside :
    ∃ p, setMacInfo (fun _ => 0) (demoNvram 9) = some p ∧ 8 ∈ accesses p (.get 1) ∧ entryEnd 8 = 84 ∧
      ulMacInfoSize (ulNumMacAddrs (demoNvram 9)) = 83 ∧
      ¬ Inside (ulMacInfoSize (ulNumMacAddrs (demoNvram 9))) p (.get 1) := by
  refine ⟨_, if_pos (by decide), ?_⟩
  decide +kernel

end AliceModem.MacTable
