import AliceModem.Lib.CString
import AliceModem.Lib.Escaping
import AliceModem.Lib.TextScan

namespace AliceModem.MarkChars

open CString Escaping TextScan

def sysCmdLen : Nat := 256

def specChars : List UInt8 := [39, 34, 92]

def bcmIsMarkStrChar (c : UInt8) : Bool := specChars.findIdx (c == ·) < specChars.length

structure Writer where
  buf : Vector UInt8 sysCmdLen
  j : Nat

/-- The assignment to `buf[j++]`, which is `none` outside of the array. -/
def Writer.push (w : Writer) (c : UInt8) : Option Writer :=
  if h : w.j < sysCmdLen then some ⟨w.buf.set w.j c h, w.j + 1⟩ else none

def markChar (w : Writer) (c : UInt8) : Option Writer := do
  let w ← if bcmIsMarkStrChar c then w.push 92 else some w
  w.push c

def Writer.text (w : Writer) : List UInt8 := w.buf.toList.takeWhile (· != 0)

/-- The string at `str` afterwards, where there is none at `NULL`. The array
holds any bytes at first, and the caller's has room for the copy. -/
def bcmProcessMarkStrChars (buf : Vector UInt8 sysCmdLen) : Option (List UInt8) → Option (Option (List UInt8))
  | none => some none
  | some [] => some (some [])
  | some str => do
      let w ← str.foldlM markChar ⟨buf, 0⟩
      let w ← w.push 0
      some (some w.text)

def isMark (c : UInt8) : Bool := c = 39 ∨ c = 34 ∨ c = 92

def escaped (s : List UInt8) : List UInt8 := escape 92 isMark s

theorem bcmIsMarkStrChar_eq (c : UInt8) : bcmIsMarkStrChar c = isMark c :=
  forall_byte (P := fun c => bcmIsMarkStrChar c = isMark c) (by decide +kernel) c

structure Writer.Holds (w : Writer) (text : List UInt8) : Prop where
  index : w.j = text.length
  front : w.buf.toList.take text.length = text

namespace Writer

variable {w : Writer} {text : List UInt8}

theorem Holds.push (h : w.Holds text) (hroom : text.length < sysCmdLen) (c : UInt8) :
    ∃ w', w.push c = some w' ∧ w'.Holds (text ++ [c]) := by
  obtain ⟨buf, j⟩ := w
  obtain rfl : j = text.length := h.index
  have hlength : (text ++ [c]).length = text.length + 1 := List.length_append
  refine ⟨⟨buf.set text.length c hroom, text.length + 1⟩, dif_pos hroom, hlength.symm, ?_⟩
  have hlen : text.length < buf.toList.length := buf.length_toList.symm ▸ hroom
  rw [Vector.toList_set, hlength, take_set_succ hlen, h.front]

theorem Holds.push_none (h : w.Holds text) (hfull : sysCmdLen ≤ text.length) (c : UInt8) : w.push c = none :=
  dif_neg (h.index ▸ Nat.not_lt.mpr hfull)

theorem Holds.pushAll (h : w.Holds text) {cs : List UInt8} (hroom : text.length + cs.length ≤ sysCmdLen) :
    ∃ w', cs.foldlM Writer.push w = some w' ∧ w'.Holds (text ++ cs) := by
  induction cs generalizing w text with
  | nil => exact ⟨w, rfl, (List.append_nil text).symm ▸ h⟩
  | cons c cs ih =>
      rw [List.length_cons] at hroom
      obtain ⟨w', hpush, hnext⟩ := h.push (by omega) c
      obtain ⟨w'', hrest, hall⟩ := ih hnext (by rw [List.length_append, List.length_singleton]; omega)
      refine ⟨w'', ?_, ?_⟩
      · rw [List.foldlM_cons, hpush]
        exact hrest
      · rwa [List.append_assoc] at hall

theorem Holds.pushAll_none (h : w.Holds text) (hlen : text.length ≤ sysCmdLen) {cs : List UInt8}
    (hfull : sysCmdLen < text.length + cs.length) : cs.foldlM Writer.push w = none := by
  induction cs generalizing w text with
  | nil => exact absurd hfull (Nat.not_lt.mpr hlen)
  | cons c cs ih =>
      rw [List.foldlM_cons]
      rcases Nat.lt_or_ge text.length sysCmdLen with hroom | hend
      · obtain ⟨w', hpush, hnext⟩ := h.push hroom c
        rw [hpush]
        apply ih hnext
        · rw [List.length_append]
          exact hroom
        · rw [List.length_append, List.length_singleton]
          rw [List.length_cons] at hfull
          omega
      · rw [h.push_none hend c]
        rfl

theorem Holds.text_eq (h : w.Holds (text ++ [0])) (hnul : 0 ∉ text) : w.text = text := by
  have hbuf : w.buf.toList = text ++ 0 :: w.buf.toList.drop (text.length + 1) := by
    have hsplit := List.take_append_drop (text ++ [0]).length w.buf.toList
    rw [h.front] at hsplit
    simpa using hsplit.symm
  rw [Writer.text, hbuf]
  apply takeWhile_until
  · intro c hc
    exact bne_iff_ne.mpr (ne_of_mem_of_not_mem hc hnul)
  · rintro c ⟨⟩
    rfl

end Writer

theorem holds_start (buf : Vector UInt8 sysCmdLen) : Writer.Holds ⟨buf, 0⟩ [] := ⟨rfl, rfl⟩

theorem foldlM_markChar (str : List UInt8) (w : Writer) : str.foldlM markChar w = (escaped str).foldlM Writer.push w := by
  induction str generalizing w with
  | nil => rfl
  | cons c str ih =>
      have hchar : markChar w c = (escapeChar 92 isMark c).foldlM Writer.push w := by
        rw [markChar, bcmIsMarkStrChar_eq, escapeChar]
        cases isMark c with
        | true => simp
        | false => simp
      rw [List.foldlM_cons, escaped, escape_cons, List.foldlM_append, hchar]
      exact bind_congr ih

theorem zero_notMem_escaped (s : Str) : 0 ∉ escaped s.chars := by
  intro h
  rcases mem_escape h with hzero | hmem
  · cases hzero
  · exact s.nul_free hmem

theorem process_cons (buf : Vector UInt8 sysCmdLen) {str : List UInt8} (hne : str ≠ []) :
    bcmProcessMarkStrChars buf (some str) = ((escaped str ++ [0]).foldlM Writer.push ⟨buf, 0⟩).map (some ∘ Writer.text) := by
  obtain ⟨c, str, rfl⟩ := List.exists_cons_of_ne_nil hne
  rw [bcmProcessMarkStrChars, foldlM_markChar, List.foldlM_append]
  · cases hloop : (escaped (c :: str)).foldlM Writer.push ⟨buf, 0⟩ with
    | none => rfl
    | some w =>
        cases hend : w.push 0 with
        | none => simp [hend]
        | some w' => simp [hend]
  · exact List.cons_ne_nil c str

theorem bcmProcessMarkStrChars_eq (buf : Vector UInt8 sysCmdLen) (s : Str) :
    bcmProcessMarkStrChars buf (some s.chars) =
      if (escaped s.chars).length < sysCmdLen then some (some (escaped s.chars)) else none := by
  by_cases hnil : s.chars = []
  · rw [hnil]
    rfl
  · have hlength : (escaped s.chars ++ [0]).length = (escaped s.chars).length + 1 := List.length_append
    rw [process_cons buf hnil]
    split
    next hfits =>
        have hroom : ([] : List UInt8).length + (escaped s.chars ++ [0]).length ≤ sysCmdLen := by
          rw [hlength, List.length_nil]
          omega
        obtain ⟨w, hloop, hholds⟩ := (holds_start buf).pushAll hroom
        rw [hloop, Option.map_some, Function.comp_apply, hholds.text_eq (zero_notMem_escaped s)]
    next hlong =>
        rw [(holds_start buf).pushAll_none (Nat.zero_le sysCmdLen)]
        · rfl
        · rw [hlength, List.length_nil]
          omega

/-- The string is replaced by one with a backslash in front of every quote and
backslash. Reading it from left to right gives the string back, and no other
string is replaced by the same. -/
theorem mark_chars_reversible (s : Str) (hfits : (escaped s.chars).length ≤ sysCmdLen - 1) (buf : Vector UInt8 sysCmdLen) :
    bcmProcessMarkStrChars buf (some s.chars) = some (some (escaped s.chars)) ∧
      unescape 92 isMark (escaped s.chars) = some s.chars ∧
      ∀ (t : Str) (buf' : Vector UInt8 sysCmdLen),
        bcmProcessMarkStrChars buf' (some t.chars) = bcmProcessMarkStrChars buf (some s.chars) → t = s := by
  have hlt : (escaped s.chars).length < sysCmdLen := Nat.lt_of_le_of_lt hfits (by decide)
  have hresult : bcmProcessMarkStrChars buf (some s.chars) = some (some (escaped s.chars)) := by
    rw [bcmProcessMarkStrChars_eq, if_pos hlt]
  refine ⟨hresult, unescape_escape rfl s.chars, fun t buf' hsame => ?_⟩
  rw [hresult, bcmProcessMarkStrChars_eq] at hsame
  split at hsame
  next => exact Str.ext (escape_injective rfl (Option.some.inj (Option.some.inj hsame)))
  next => cases hsame

theorem mark_chars_reversible_backslash :
    bcmProcessMarkStrChars (Vector.replicate sysCmdLen 0) (some [92, 39]) = some (some [92, 92, 92, 39]) ∧
      unescape 92 isMark [92, 92, 92, 39] = some [92, 39] ∧
      ∀ (t : Str) (buf' : Vector UInt8 sysCmdLen),
        bcmProcessMarkStrChars buf' (some t.chars) = bcmProcessMarkStrChars (Vector.replicate sysCmdLen 0) (some [92, 39]) →
          t = ⟨[92, 39], by decide⟩ :=
  mark_chars_reversible ⟨[92, 39], by decide⟩ (by decide) (Vector.replicate sysCmdLen 0)

end AliceModem.MarkChars
