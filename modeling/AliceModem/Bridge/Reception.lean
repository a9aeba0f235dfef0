import AliceModem.Bridge.SnoopTable
import Mathlib.Data.Finset.Basic
import Mathlib.Data.Finset.Lattice.Lemmas
import Mathlib.Data.Finset.SDiff

namespace AliceModem.Reception

open ByteMemory Snooping SnoopTable

inductive Filter
  | incl (sources : Finset Ip)
  | excl (sources : Finset Ip)
  deriving DecidableEq

abbrev modeIsInclude : UInt8 := 1
abbrev modeIsExclude : UInt8 := 2
abbrev changeToInclude : UInt8 := 3
abbrev changeToExclude : UInt8 := 4
abbrev allowNewSources : UInt8 := 5
abbrev blockOldSources : UInt8 := 6

def Filter.allow : Filter → Finset Ip → Filter
  | .incl A, S => .incl (A ∪ S)
  | .excl B, S => .excl (B \ S)

def Filter.block : Filter → Finset Ip → Filter
  | .incl A, S => .incl (A \ S)
  | .excl B, S => .excl (B ∪ S)

/-- The filter after a record: the first four types give the filter itself, the
other two the sources by which it changes. -/
def Filter.update (st : Filter) (r : GroupRecord) : Filter :=
  if r.grecType = modeIsInclude ∨ r.grecType = changeToInclude then .incl r.grecSrc.toFinset
  else if r.grecType = modeIsExclude ∨ r.grecType = changeToExclude then .excl r.grecSrc.toFinset
  else if r.grecType = allowNewSources then st.allow r.grecSrc.toFinset
  else if r.grecType = blockOldSources then st.block r.grecSrc.toFinset
  else st

section

variable {r : GroupRecord} (st : Filter)

theorem update_include (ht : r.grecType = modeIsInclude ∨ r.grecType = changeToInclude) :
    st.update r = .incl r.grecSrc.toFinset := if_pos ht

theorem update_exclude (ht : r.grecType = modeIsExclude ∨ r.grecType = changeToExclude) :
    st.update r = .excl r.grecSrc.toFinset := by
  rw [Filter.update, if_neg (by rcases ht with h | h <;> rw [h] <;> decide), if_pos ht]

theorem update_allow (ht : r.grecType = allowNewSources) : st.update r = st.allow r.grecSrc.toFinset := by
  rw [Filter.update, if_neg (by rw [ht]; decide), if_neg (by rw [ht]; decide), if_pos ht]

theorem update_block (ht : r.grecType = blockOldSources) : st.update r = st.block r.grecSrc.toFinset := by
  rw [Filter.update, if_neg (by rw [ht]; decide), if_neg (by rw [ht]; decide), if_neg (by rw [ht]; decide), if_pos ht]

end

def Known (r : GroupRecord) : Prop :=
  r.grecType ∈ [modeIsInclude, changeToInclude, allowNewSources, modeIsExclude, changeToExclude, blockOldSources]

/-- The records that the table can follow. Sources are only ever added to an
included set or taken back one by one, and at most one source is excluded. -/
def Follows : Filter → GroupRecord → Prop
  | .incl A, r =>
      (r.grecType = modeIsInclude ∨ r.grecType = changeToInclude) ∧ A ⊆ r.grecSrc.toFinset ∨
      r.grecType = allowNewSources ∨
      r.grecType = blockOldSources ∧ r.grecSrc ≠ [] ∧ r.grecSrc.Nodup ∧ r.grecSrc.toFinset ⊆ A ∨
      (r.grecType = modeIsExclude ∨ r.grecType = changeToExclude) ∧ A = ∅ ∧ ∃ b, b ≠ 0 ∧ ∀ s ∈ r.grecSrc, s = b
  | .excl B, r =>
      (r.grecType = modeIsInclude ∨ r.grecType = changeToInclude) ∧ B = ∅ ∧ r.grecSrc = [] ∨
      (r.grecType = modeIsExclude ∨ r.grecType = changeToExclude ∨ r.grecType = blockOldSources) ∧
        r.grecSrc.toFinset = B ∨
      r.grecType = allowNewSources ∧ B ≠ ∅ ∧ r.grecSrc = []

variable {Port : Type} [DecidableEq Port]

def Rows (br : Bridge Port) (prt : Port) (dest host : Mac) (s : Ip) (m : FiltMode) : Prop :=
  ⟨prt, dest, host, s, m⟩ ∈ keys br

/-- A filter is stored as one entry for each included source, or as one entry
for the excluded source, with the address 0 for none. -/
def Represents (R : Ip → FiltMode → Prop) : Filter → Prop
  | .incl A => ∀ s m, R s m ↔ m = .mcastInclude ∧ s ∈ A
  | .excl B => ∃ b, (b = 0 ∧ B = ∅ ∨ b ≠ 0 ∧ B = {b}) ∧ ∀ s m, R s m ↔ m = .mcastExclude ∧ s = b

section

variable (jiffies : UInt32) (prt : Port) (host : Mac) {dest : Mac} {br : Bridge Port} {other want : FiltMode}
  {clear add : UInt8}

/-- `clear` takes entries of the mode `other` back and `add` enters those of the mode `want`. -/
structure Modes (other want : FiltMode) (clear add : UInt8) : Prop where
  clear_mem : clear = snoopInClear ∨ clear = snoopExClear
  add_mem : add = snoopInAdd ∨ add = snoopExAdd
  clearMode_eq : clearMode clear = other
  addMode_eq : addMode add = want
  ne : other ≠ want

theorem modes_include : Modes .mcastExclude .mcastInclude snoopExClear snoopInAdd :=
  ⟨.inr rfl, .inl rfl, rfl, rfl, nofun⟩

theorem modes_exclude : Modes .mcastInclude .mcastExclude snoopInClear snoopExAdd :=
  ⟨.inl rfl, .inr rfl, rfl, rfl, nofun⟩

theorem changeSource_remove (h : Sound br) (hm : Modes other want clear add) {src : Ip}
    (hf : findMode (some prt) host br dest src = some other) :
    Sound (changeSource jiffies (some prt) host other clear add dest br src) ∧
    ∀ k, k ∈ keys (changeSource jiffies (some prt) host other clear add dest br src) ↔
      k ∈ keys br ∧ k ≠ ⟨prt, dest, host, src, other⟩ := by
  rw [changeSource, if_pos hf, ← hm.clearMode_eq]
  exact h.remove prt dest host hm.clear_mem src

theorem changeSource_add (h : Sound br) (hm : Modes other want clear add) (hdest : dest ≠ upnpAddr) (src : Ip)
    (hf : findMode (some prt) host br dest src ≠ some other) :
    Sound (changeSource jiffies (some prt) host other clear add dest br src) ∧
    ∀ k, k ∈ keys (changeSource jiffies (some prt) host other clear add dest br src) ↔
      k ∈ keys br ∨ k = ⟨prt, dest, host, src, want⟩ := by
  rw [changeSource, if_neg hf, ← hm.addMode_eq]
  exact h.add jiffies prt hdest host hm.add_mem src

theorem foldl_add (hm : Modes other want clear add) (hdest : dest ≠ upnpAddr) (l : List Ip) (h : Sound br)
    (hno : ∀ s, ⟨prt, dest, host, s, other⟩ ∉ keys br) :
    Sound (l.foldl (changeSource jiffies (some prt) host other clear add dest) br) ∧
    ∀ k, k ∈ keys (l.foldl (changeSource jiffies (some prt) host other clear add dest) br) ↔
      k ∈ keys br ∨ ∃ s ∈ l, k = ⟨prt, dest, host, s, want⟩ := by
  induction l generalizing br with
  | nil => exact ⟨h, by simp⟩
  | cons s l ih =>
      obtain ⟨h1, hkeys⟩ := changeSource_add jiffies prt host h hm hdest s
        fun hf => hno s (findMode_some hf)
      obtain ⟨h2, hrest⟩ := ih h1 fun s' hs' => by
        rcases (hkeys _).mp hs' with hs' | hs'
        · exact hno s' hs'
        · exact hm.ne (congrArg Key.filtMode hs')
      refine ⟨h2, fun k => ?_⟩
      rw [List.foldl_cons, hrest, hkeys]
      simp only [List.mem_cons, exists_eq_or_imp]
      tauto

theorem foldl_remove (hm : Modes other want clear add) (l : List Ip) (hl : l.Nodup) (h : Sound br)
    (hin : ∀ s ∈ l, ⟨prt, dest, host, s, other⟩ ∈ keys br)
    (hno : ∀ s, ⟨prt, dest, host, s, want⟩ ∉ keys br) :
    Sound (l.foldl (changeSource jiffies (some prt) host other clear add dest) br) ∧
    ∀ k, k ∈ keys (l.foldl (changeSource jiffies (some prt) host other clear add dest) br) ↔
      k ∈ keys br ∧ ∀ s ∈ l, k ≠ ⟨prt, dest, host, s, other⟩ := by
  induction l generalizing br with
  | nil => exact ⟨h, by simp⟩
  | cons s l ih =>
      obtain ⟨hs, hl⟩ := List.nodup_cons.mp hl
      have hf : findMode (some prt) host br dest s = some other := by
        obtain ⟨m, hf⟩ := findMode_of_mem (hin s List.mem_cons_self)
        have hmode : m ≠ want := fun hw => hno s (hw ▸ findMode_some hf)
        have hne := hm.ne
        rw [hf]
        cases m <;> cases other <;> cases want <;> simp_all
      obtain ⟨h1, hkeys⟩ := changeSource_remove jiffies prt host h hm hf
      obtain ⟨h2, hrest⟩ := ih hl h1
        (fun s' hs' => (hkeys _).mpr ⟨hin s' (List.mem_cons_of_mem _ hs'), fun he => hs (by
          have : s' = s := congrArg Key.src he
          rwa [← this])⟩)
        (fun s' hs' => hno s' ((hkeys _).mp hs').1)
      refine ⟨h2, fun k => ?_⟩
      rw [List.foldl_cons, hrest, hkeys]
      simp only [List.forall_mem_cons]
      tauto

theorem processGrec_in {r : GroupRecord} (ht : r.grecType = modeIsInclude ∨ r.grecType = changeToInclude ∨
      r.grecType = allowNewSources) :
    processGrec jiffies (some prt) host br r =
      if r.grecSrc = [] then brMcFdbRemove br (some prt) (brcmConvIpToMac r.grecMca) host snoopExClear 0
      else r.grecSrc.foldl (includeSource jiffies (some prt) host (brcmConvIpToMac r.grecMca)) br := by
  have htype : r.grecType ∈ [1, 3, 5] := by simpa using ht
  rw [processGrec]
  simp only [htype, if_true, List.length_eq_zero_iff]
  split
  next h => rw [h, List.foldl_nil]
  next => rfl

theorem processGrec_ex {r : GroupRecord} (ht : r.grecType = modeIsExclude ∨ r.grecType = changeToExclude ∨
      r.grecType = blockOldSources) :
    processGrec jiffies (some prt) host br r =
      if r.grecSrc = [] then brMcFdbAdd jiffies br (some prt) (brcmConvIpToMac r.grecMca) host snoopExAdd 0
      else r.grecSrc.foldl (excludeSource jiffies (some prt) host (brcmConvIpToMac r.grecMca)) br := by
  have htype : r.grecType ∈ [2, 4, 6] := by simpa using ht
  have hnot : r.grecType ∉ [1, 3, 5] := by rcases ht with h | h | h <;> rw [h] <;> decide
  rw [processGrec]
  simp only [htype, hnot, if_true, if_false, List.length_eq_zero_iff]
  split
  next h => rw [h, List.foldl_nil]
  next => rfl

theorem include_rows (h : Sound br) {r : GroupRecord} (hdest : brcmConvIpToMac r.grecMca ≠ upnpAddr)
    (ht : r.grecType = modeIsInclude ∨ r.grecType = changeToInclude ∨ r.grecType = allowNewSources) {A : Finset Ip}
    (hrep : Represents (Rows br prt (brcmConvIpToMac r.grecMca) host) (.incl A)) :
    Represents (Rows (processGrec jiffies (some prt) host br r) prt (brcmConvIpToMac r.grecMca) host)
      (.incl (A ∪ r.grecSrc.toFinset)) := by
  have hno (s : Ip) : ¬ Rows br prt (brcmConvIpToMac r.grecMca) host s .mcastExclude := by simp [hrep s]
  intro s m
  rw [processGrec_in jiffies prt host ht]
  split
  next hnil =>
    rw [Rows, (h.remove prt _ host (.inr rfl) 0).2, hnil, List.toFinset_nil, Finset.union_empty, ← hrep]
    refine ⟨And.left, fun hk => ⟨hk, fun he => hno 0 ?_⟩⟩
    rw [Rows, he] at hk
    exact hk
  next =>
    rw [Rows, includeSource, (foldl_add jiffies prt host modes_include hdest r.grecSrc h hno).2]
    rw [show (⟨prt, brcmConvIpToMac r.grecMca, host, s, m⟩ ∈ keys br) = Rows br prt _ host s m from rfl, hrep]
    simp only [Key.mk.injEq, true_and, Finset.mem_union, List.mem_toFinset]
    grind

theorem block_rows (h : Sound br) {r : GroupRecord} (ht : r.grecType = blockOldSources) (hne : r.grecSrc ≠ [])
    (hnodup : r.grecSrc.Nodup) {A : Finset Ip} (hsub : r.grecSrc.toFinset ⊆ A)
    (hrep : Represents (Rows br prt (brcmConvIpToMac r.grecMca) host) (.incl A)) :
    Represents (Rows (processGrec jiffies (some prt) host br r) prt (brcmConvIpToMac r.grecMca) host)
      (.incl (A \ r.grecSrc.toFinset)) := by
  have hin (s : Ip) (hs : s ∈ r.grecSrc) : Rows br prt (brcmConvIpToMac r.grecMca) host s .mcastInclude :=
    (hrep s _).mpr ⟨rfl, hsub (List.mem_toFinset.mpr hs)⟩
  have hno (s : Ip) : ¬ Rows br prt (brcmConvIpToMac r.grecMca) host s .mcastExclude := by simp [hrep s]
  intro s m
  rw [processGrec_ex jiffies prt host (.inr (.inr ht)), if_neg hne, Rows, excludeSource,
    (foldl_remove jiffies prt host modes_exclude r.grecSrc hnodup h hin hno).2,
    show (⟨prt, brcmConvIpToMac r.grecMca, host, s, m⟩ ∈ keys br) = Rows br prt _ host s m from rfl, hrep]
  simp only [ne_eq, Key.mk.injEq, true_and, Finset.mem_sdiff, List.mem_toFinset]
  grind

theorem exclude_rows (h : Sound br) {r : GroupRecord} (hdest : brcmConvIpToMac r.grecMca ≠ upnpAddr)
    (ht : r.grecType = modeIsExclude ∨ r.grecType = changeToExclude ∨ r.grecType = blockOldSources)
    (hno : ∀ s, ¬ Rows br prt (brcmConvIpToMac r.grecMca) host s .mcastInclude) (s : Ip) (m : FiltMode) :
    Rows (processGrec jiffies (some prt) host br r) prt (brcmConvIpToMac r.grecMca) host s m ↔
      Rows br prt (brcmConvIpToMac r.grecMca) host s m ∨
        m = .mcastExclude ∧ (s ∈ r.grecSrc ∨ r.grecSrc = [] ∧ s = 0) := by
  rw [processGrec_ex jiffies prt host ht]
  split
  next hnil =>
    rw [Rows, (h.add jiffies prt hdest host (.inr rfl) 0).2, hnil]
    simp only [Key.mk.injEq, true_and, List.not_mem_nil, false_or]
    rw [show addMode snoopExAdd = .mcastExclude from rfl, and_comm (a := m = .mcastExclude)]
    rfl
  next hne =>
    rw [Rows, excludeSource, (foldl_add jiffies prt host modes_exclude hdest r.grecSrc h hno).2]
    simp only [Key.mk.injEq, true_and, hne, false_and, or_false]
    rw [Rows]
    grind

omit [DecidableEq Port] in
theorem toFinset_single {a b : Ip} {l : List Ip} (h : ∀ s ∈ a :: l, s = b) : (a :: l).toFinset = {b} := by
  ext s
  rw [List.mem_toFinset, Finset.mem_singleton]
  exact ⟨h s, fun hs => by rw [hs, ← h a List.mem_cons_self]; exact List.mem_cons_self⟩

theorem processGrec_other {r : GroupRecord} (h : ¬ Known r) (st : Filter) :
    processGrec jiffies (some prt) host br r = br ∧ st.update r = st := by
  simp only [Known, List.mem_cons, List.not_mem_nil, or_false, not_or] at h
  constructor
  · simp [processGrec, h]
  · simp [Filter.update, h]

theorem represents_incl (h : Sound br) {r : GroupRecord} (hdest : brcmConvIpToMac r.grecMca ≠ upnpAddr)
    {A : Finset Ip} (hfollow : Follows (.incl A) r)
    (hrep : Represents (Rows br prt (brcmConvIpToMac r.grecMca) host) (.incl A)) :
    Represents (Rows (processGrec jiffies (some prt) host br r) prt (brcmConvIpToMac r.grecMca) host)
      ((Filter.incl A).update r) := by
  rcases hfollow with ⟨ht, hsub⟩ | ht | ⟨ht, hne, hnodup, hsub⟩ | ⟨ht, rfl, b, hb, hall⟩
  · have hrows := include_rows jiffies prt host h hdest (by tauto) hrep
    rw [Finset.union_eq_right.mpr hsub] at hrows
    rwa [update_include _ ht]
  · have hrows := include_rows jiffies prt host h hdest (by tauto) hrep
    rwa [update_allow _ ht]
  · have hrows := block_rows jiffies prt host h ht hne hnodup hsub hrep
    rwa [update_block _ ht]
  · have hnone (s : Ip) (m : FiltMode) : ¬ Rows br prt (brcmConvIpToMac r.grecMca) host s m := by simp [hrep s]
    have hrows := exclude_rows jiffies prt host h hdest (by tauto) (fun s => hnone s _)
    rw [update_exclude _ ht]
    rcases hsrc : r.grecSrc with _ | ⟨a, l⟩
    · refine ⟨0, .inl ⟨rfl, rfl⟩, fun s m => ?_⟩
      simp [hrows, hnone, hsrc]
    · rw [hsrc] at hall hrows
      refine ⟨b, .inr ⟨hb, ?_⟩, fun s m => ?_⟩
      · exact toFinset_single hall
      · rw [hrows, ← List.mem_toFinset, toFinset_single hall]
        simp [hnone]

theorem represents_excl (h : Sound br) {r : GroupRecord} (hdest : brcmConvIpToMac r.grecMca ≠ upnpAddr)
    {B : Finset Ip} (hfollow : Follows (.excl B) r)
    (hrep : Represents (Rows br prt (brcmConvIpToMac r.grecMca) host) (.excl B)) :
    Represents (Rows (processGrec jiffies (some prt) host br r) prt (brcmConvIpToMac r.grecMca) host)
      ((Filter.excl B).update r) := by
  obtain ⟨b, hb, hrows⟩ := hrep
  have hno (s : Ip) : ¬ Rows br prt (brcmConvIpToMac r.grecMca) host s .mcastInclude := by simp [hrows s]
  have hremove (hin : r.grecType = modeIsInclude ∨ r.grecType = changeToInclude ∨ r.grecType = allowNewSources)
      (hnil : r.grecSrc = []) (s : Ip) (m : FiltMode) :
      Rows (processGrec jiffies (some prt) host br r) prt (brcmConvIpToMac r.grecMca) host s m ↔
        (m = .mcastExclude ∧ s = b) ∧ s ≠ 0 := by
    rw [processGrec_in jiffies prt host hin, if_pos hnil, Rows, (h.remove prt _ host (.inr rfl) 0).2, ← hrows]
    simp only [ne_eq, Key.mk.injEq, true_and, not_and, show clearMode snoopExClear = .mcastExclude from rfl]
    have := hrows s m
    rw [Rows] at this ⊢
    tauto
  rcases hfollow with ⟨ht, rfl, hnil⟩ | ⟨ht, rfl⟩ | ⟨ht, hne, hnil⟩
  · -- the one entry was that for no source
    obtain rfl : b = 0 := by
      rcases hb with hb | hb
      · exact hb.1
      · simp at hb
    rw [update_include _ ht, hnil]
    intro s m
    rw [hremove (by tauto) hnil]
    simp
  · have hadd := exclude_rows jiffies prt host h hdest ht hno
    have hupdate : (Filter.excl r.grecSrc.toFinset).update r = .excl r.grecSrc.toFinset := by
      rcases ht with ht | ht | ht
      · exact update_exclude _ (.inl ht)
      · exact update_exclude _ (.inr ht)
      · rw [update_block _ ht, Filter.block, Finset.union_self]
    rw [hupdate]
    refine ⟨b, hb, fun s m => ?_⟩
    rw [hadd, hrows, ← List.mem_toFinset, ← List.toFinset_eq_empty_iff]
    rcases hb with ⟨rfl, hB⟩ | ⟨hb, hB⟩ <;> rw [hB]
    · simp
    · simp
  · have hb0 : b ≠ 0 := by
      rcases hb with hb | hb
      · exact absurd hb.2 hne
      · exact hb.1
    rw [update_allow _ ht, hnil, List.toFinset_nil, Filter.allow, Finset.sdiff_empty]
    refine ⟨b, hb, fun s m => ?_⟩
    rw [hremove (by tauto) hnil]
    constructor
    · exact And.left
    · rintro ⟨rfl, rfl⟩
      exact ⟨⟨rfl, rfl⟩, hb0⟩

theorem represents_step (h : Sound br) {r : GroupRecord} (hdest : brcmConvIpToMac r.grecMca ≠ upnpAddr)
    {st : Filter} (hfollow : Known r → Follows st r)
    (hrep : Represents (Rows br prt (brcmConvIpToMac r.grecMca) host) st) :
    Represents (Rows (processGrec jiffies (some prt) host br r) prt (brcmConvIpToMac r.grecMca) host)
      (st.update r) := by
  by_cases hknown : Known r
  swap
  · obtain ⟨h1, h2⟩ := processGrec_other jiffies prt host hknown st
    rwa [h1, h2]
  cases st with
  | incl A => exact represents_incl jiffies prt host h hdest (hfollow hknown) hrep
  | excl B => exact represents_excl jiffies prt host h hdest (hfollow hknown) hrep

end

end AliceModem.Reception
