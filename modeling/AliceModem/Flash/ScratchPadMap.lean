import AliceModem.Flash.ConfigCopies
import AliceModem.Flash.ScratchPadTokens

namespace AliceModem.ScratchPadMap

open Words Hwdefs Sectors ByteMemory Device SharedBlks Regions BigEndian Layout ScratchPad ConfigCopies ScratchPadTokens

/-- A name that the pad stores whole and both walkers accept. -/
structure TokenName where
  chars : List Byte
  pos : 1 ≤ chars.length
  le : chars.length ≤ 15
  nul_free : 0 ∉ chars
  first : 65 ≤ chars.headD 0 ∧ chars.headD 0 ≤ 122
  deriving DecidableEq

def TokenName.padded (nm : TokenName) : List Byte := nm.chars ++ List.replicate (16 - nm.chars.length) 0

def IsName (tokenId : Mem Byte) (nm : TokenName) : Prop :=
  readBytes tokenId 0 (nm.chars.length + 1) = nm.chars ++ [0]

instance (tokenId : Mem Byte) (nm : TokenName) : Decidable (IsName tokenId nm) :=
  inferInstanceAs (Decidable (_ = _))

structure Token where
  name : TokenName
  data : List Byte
  pos : 1 ≤ data.length
  lt : data.length < 8140

def Token.bytes (t : Token) : List Byte := t.name.padded ++ (bytes32 t.data.length ++ t.data)

/-- The distance to the next token, the padding of the data included. -/
def Token.span (t : Token) : Int := 20 + ((t.data.length : Int) + 3) / 4 * 4

def endOf (a : Int) (ts : List Token) : Int := a + (ts.map Token.span).sum

/-- The tokens stand one behind the other from `a` on. Nothing is said about
the bytes of the padding. -/
def Stored (p : Mem Byte) : Int → List Token → Prop
  | _, [] => True
  | a, t :: ts => readBytes p a t.bytes.length = t.bytes ∧ Stored p (a + t.span) ts

structure Packed (p : Mem Byte) (ts : List Token) (c : Byte) : Prop where
  magic : readBytes p 0 8 = magicNumber
  stored : Stored p 32 ts
  nodup : (ts.map Token.name).Nodup
  fits : endOf 32 ts ≤ 8192
  rest : ∀ i, endOf 32 ts ≤ i → i < 8192 → p i = c
  fill : c = 0 ∨ c = 0xff

theorem zero_mem_padded (nm : TokenName) : (0 : Byte) ∈ nm.padded := by
  have hle := nm.le
  rw [TokenName.padded]
  simp
  omega

theorem length_padded (nm : TokenName) : nm.padded.length = 16 := by
  have := nm.le
  rw [TokenName.padded, List.length_append, List.length_replicate]
  omega

theorem length_bytes (t : Token) : t.bytes.length = 20 + t.data.length := by
  rw [Token.bytes, List.length_append, length_padded, List.length_append, length_bytes32]
  omega

theorem span_bounds (t : Token) : t.bytes.length ≤ t.span ∧ 24 ≤ t.span ∧ t.span % 4 = 0 := by
  have := t.pos
  rw [length_bytes, Token.span]
  omega

theorem endOf_nil (a : Int) : endOf a [] = a := by simp [endOf]

theorem endOf_cons (a : Int) (t : Token) (ts : List Token) : endOf a (t :: ts) = endOf (a + t.span) ts := by
  simp [endOf, add_assoc]

theorem endOf_append (a : Int) (xs ys : List Token) : endOf a (xs ++ ys) = endOf (endOf a xs) ys := by
  simp [endOf, add_assoc]

theorem endOf_add (a d : Int) (ts : List Token) : endOf (a + d) ts = endOf a ts + d := by
  rw [endOf, endOf]
  omega

theorem le_endOf (a : Int) (ts : List Token) : a + 24 * ts.length ≤ endOf a ts := by
  induction ts generalizing a with
  | nil => simp [endOf_nil]
  | cons t ts ih =>
      have := ih (a + t.span)
      have := (span_bounds t).2.1
      rw [endOf_cons, List.length_cons]
      push_cast
      omega

theorem stored_append (p : Mem Byte) (a : Int) (xs ys : List Token) :
    Stored p a (xs ++ ys) ↔ Stored p a xs ∧ Stored p (endOf a xs) ys := by
  induction xs generalizing a with
  | nil => simp [Stored, endOf_nil]
  | cons t xs ih => simp only [List.cons_append, Stored, ih, endOf_cons, and_assoc]

theorem stored_shift {p : Mem Byte} (p' : Mem Byte) {a : Int} (d : Int) {ts : List Token}
    (h : ∀ i, a ≤ i → i < endOf a ts → p' (i + d) = p i) (hs : Stored p a ts) : Stored p' (a + d) ts := by
  induction ts generalizing a with
  | nil => trivial
  | cons t ts ih =>
      have hspan := span_bounds t
      have hend := le_endOf (a + t.span) ts
      rw [endOf_cons] at h
      obtain ⟨hhead, htail⟩ := hs
      refine ⟨?_, ?_⟩
      · rw [← hhead, length_readBytes]
        apply readBytes_congr
        intro i hi
        rw [← h (a + i) (by omega) (by omega)]
        congr 1
        omega
      · have := ih (a := a + t.span) (fun i h1 h2 => h i (by omega) h2) htail
        rwa [show a + d + t.span = a + t.span + d by omega]

theorem stored_congr {p p' : Mem Byte} {a : Int} {ts : List Token}
    (h : ∀ i, a ≤ i → i < endOf a ts → p' i = p i) (hs : Stored p a ts) : Stored p' a ts := by
  simpa using stored_shift p' 0 (by simpa using h) hs

theorem sameName_nul (xs ys r s : List Byte) (hx : 0 ∉ xs) (hy : 0 ∉ ys) :
    sameName (xs ++ 0 :: r) (ys ++ 0 :: s) = decide (xs = ys) := by
  induction xs generalizing ys with
  | nil =>
      cases ys with
      | nil => simp [sameName]
      | cons y ys => simpa [sameName] using fun h : 0 = y => absurd (h ▸ List.mem_cons_self) hy
  | cons x xs ih =>
      rw [List.mem_cons, not_or] at hx
      cases ys with
      | nil => simpa [sameName] using fun h : x = 0 => absurd h.symm hx.1
      | cons y ys =>
          rw [List.mem_cons, not_or] at hy
          simp [sameName, ih ys hx.2 hy.2, Ne.symm hx.1]

theorem IsName.split {tokenId : Mem Byte} {nm : TokenName} (hid : IsName tokenId nm) :
    ∃ rest, readBytes tokenId 0 16 = nm.chars ++ 0 :: rest := by
  have hle := nm.le
  have hlen : 16 = (nm.chars.length + 1) + (15 - nm.chars.length) := by omega
  rw [IsName] at hid
  rw [hlen, readBytes_append, hid]
  exact ⟨_, List.append_assoc _ _ _⟩

theorem sameName_padded (nm : TokenName) {nm' : TokenName} {tokenId : Mem Byte} (hid : IsName tokenId nm') :
    sameName nm.padded (readBytes tokenId 0 16) = decide (nm = nm') := by
  obtain ⟨rest, hrest⟩ := hid.split
  have hpad : nm.padded = nm.chars ++ 0 :: List.replicate (15 - nm.chars.length) 0 := by
    have := nm.le
    rw [TokenName.padded, show 16 - nm.chars.length = (15 - nm.chars.length) + 1 by omega,
      List.replicate_succ]
  rw [hpad, hrest, sameName_nul _ _ _ _ nm.nul_free nm'.nul_free]
  simp only [decide_eq_decide]
  constructor
  · intro h
    cases nm
    cases nm'
    simpa using h
  · rintro rfl
    rfl

theorem spToken_name {tokenId : Mem Byte} {nm : TokenName} (hid : IsName tokenId nm) {n : Nat}
    (hn : n < 4294967296) : spToken (readBytes tokenId 0 16) n = nm.padded ++ bytes32 n := by
  obtain ⟨rest, hrest⟩ := hid.split
  have hwhile : ((nm.chars ++ 0 :: rest).take 15).takeWhile (· ≠ 0) = nm.chars := by
    have hle := nm.le
    have hfree := nm.nul_free
    rw [List.take_append, List.take_of_length_le hle, List.takeWhile_append_of_pos]
    · rcases Nat.lt_or_ge nm.chars.length 15 with h | h
      · obtain ⟨k, hk⟩ : ∃ k, 15 - nm.chars.length = k + 1 := ⟨14 - nm.chars.length, by omega⟩
        simp [hk]
      · simp [show 15 - nm.chars.length = 0 by omega]
    · intro b hb
      simpa using fun h : b = 0 => hfree (h ▸ hb)
  rw [spToken, hrest]
  simp only [hwhile, TokenName.padded, uint32_natCast hn]

section

variable {p : Mem Byte} {a : Int} {t : Token} (h : readBytes p a t.bytes.length = t.bytes)

include h

theorem stored_name : tokenName p a = t.name.padded := by
  rw [tokenName, ← take_readBytes p a (n := t.bytes.length) (by rw [length_bytes]; omega), h, Token.bytes,
    List.take_left' (length_padded _)]

theorem stored_tail : readBytes p (a + 16) (4 + t.data.length) = bytes32 t.data.length ++ t.data := by
  have hdrop := drop_readBytes p a (n := t.bytes.length) (k := 16) (by rw [length_bytes]; omega)
  rw [h, Token.bytes, List.drop_left' (length_padded _), ← Token.bytes, length_bytes,
    show 20 + t.data.length - 16 = 4 + t.data.length by omega] at hdrop
  exact hdrop.symm

theorem stored_len : tokenLen p a = t.data.length := by
  have hlt := t.lt
  rw [tokenLen, ← take_readBytes p (a + 16) (n := 4 + t.data.length) (by omega), stored_tail h,
    List.take_left' (length_bytes32 _), ← List.append_nil (bytes32 _), be32_bytes32 (by omega),
    int32_of_range (by omega) (by omega)]

theorem stored_skip : spTokenSize + skipLen p a = t.span := by
  have hlt := t.lt
  rw [skipLen, stored_len h, int32_of_range (by omega) (by omega), Token.span]

theorem stored_data : readBytes p (a + 20) t.data.length = t.data := by
  have hdrop := drop_readBytes p (a + 16) (n := 4 + t.data.length) (k := 4) (by omega)
  rw [stored_tail h, List.drop_left' (length_bytes32 _), Nat.add_sub_cancel_left] at hdrop
  rw [show a + 20 = a + 16 + (4 : Nat) by omega]
  exact hdrop.symm

theorem stored_first : p a = t.name.chars.headD 0 := by
  obtain ⟨x, xs, hx⟩ := List.exists_cons_of_length_pos t.name.pos
  rw [← headD_readBytes p a 15 0, ← tokenName, stored_name h, TokenName.padded, hx]
  rfl

end

def starts : Int → List Token → List Int
  | _, [] => []
  | a, t :: ts => a :: starts (a + t.span) ts

theorem starts_append (a : Int) (xs ys : List Token) : starts a (xs ++ ys) = starts a xs ++ starts (endOf a xs) ys := by
  induction xs generalizing a with
  | nil => rw [endOf_nil, starts, List.nil_append, List.nil_append]
  | cons t xs ih => rw [List.cons_append, starts, starts, ih, endOf_cons, List.cons_append]

section

variable {p : Mem Byte} {a : Int} {ts : List Token}

theorem stored_listed {t : Token} (h : readBytes p a t.bytes.length = t.bytes) (ha : a < 8192) : Listed p a := by
  have hpos := t.pos
  have hlt := t.lt
  rw [Listed, stored_first h, stored_name h, stored_len h]
  exact ⟨t.name.first.1, t.name.first.2, zero_mem_padded t.name, by omega, by omega, ha⟩

theorem stored_chain (hs : Stored p a ts) (hfits : endOf a ts ≤ 8192) : Chain p a (starts a ts) (endOf a ts) := by
  induction ts generalizing a with
  | nil => exact (endOf_nil a).symm
  | cons t ts ih =>
      have hspan := span_bounds t
      have hend := le_endOf (a + t.span) ts
      rw [endOf_cons] at hfits ⊢
      refine ⟨rfl, stored_listed hs.1 (by omega), ?_⟩
      rw [tokenSpan, stored_skip hs.1]
      exact ih hs.2 hfits

variable {tokenId : Mem Byte} {nm : TokenName} (hid : IsName tokenId nm)

include hid

theorem named_stored {t : Token} (h : readBytes p a t.bytes.length = t.bytes) :
    named p (readBytes tokenId 0 16) a = decide (t.name = nm) := by
  rw [named, stored_name h, sameName_padded _ hid]

theorem unnamed_starts (hs : Stored p a ts) (hts : ∀ u ∈ ts, u.name ≠ nm) :
    ∀ x ∈ starts a ts, named p (readBytes tokenId 0 16) x = false := by
  induction ts generalizing a with
  | nil => exact fun x hx => absurd hx List.not_mem_nil
  | cons t ts ih =>
      intro x hx
      rcases List.mem_cons.mp hx with rfl | hx
      · rw [named_stored hid hs.1]
        exact decide_eq_false (hts t List.mem_cons_self)
      · exact ih hs.2 (fun u hu => hts u (List.mem_cons_of_mem _ hu)) x hx

end

theorem endOf_mod (ts : List Token) : endOf 32 ts % 4 = 0 := by
  have main (a : Int) (ha : a % 4 = 0) : endOf a ts % 4 = 0 := by
    induction ts generalizing a with
    | nil => rwa [endOf_nil]
    | cons t ts ih =>
        have := (span_bounds t).2.2
        rw [endOf_cons]
        exact ih _ (by omega)
  exact main 32 (by decide)

theorem Packed.congr {p p' : Mem Byte} {ts : List Token} {c : Byte} (h : Packed p ts c)
    (he : ∀ i, 0 ≤ i → i < 8192 → p' i = p i) : Packed p' ts c where
  magic := by
    rw [← h.magic]
    exact readBytes_congr fun i hi => he _ (by omega) (by omega)
  stored := stored_congr (fun i h1 h2 => he i (by omega) (by have := h.fits; omega)) h.stored
  nodup := h.nodup
  fits := h.fits
  rest := fun i h1 h2 => by
    have := le_endOf 32 ts
    rw [he i (by omega) h2]
    exact h.rest i h1 h2
  fill := h.fill

theorem Packed.head {p : Mem Byte} {ts : List Token} {c : Byte} (hs : Stored p 32 ts)
    (hnodup : (ts.map Token.name).Nodup) (hfits : endOf 32 ts ≤ 8192)
    (hrest : ∀ i, endOf 32 ts ≤ i → i < 8192 → p i = c) (hc : c = 0 ∨ c = 0xff) :
    Packed (patch p 0 spHead) ts c where
  magic := magic_spHead p
  stored := stored_congr (fun i h1 _ => patch_outside _ _ _ _ (.inr h1)) hs
  nodup := hnodup
  fits := hfits
  rest := fun i h1 h2 => by
    have := le_endOf 32 ts
    rw [patch_outside _ _ _ _ (.inr (show (0 : Int) + 32 ≤ i by omega))]
    exact hrest i h1 h2
  fill := hc

theorem token_written (p : Mem Byte) (a : Int) (t : Token) {hd : List Byte}
    (hhd : hd = t.name.padded ++ bytes32 t.data.length) :
    readBytes (patch (patch p a hd) (a + 20) t.data) a t.bytes.length = t.bytes ∧
    ∀ i, i < a ∨ a + t.bytes.length ≤ i → patch (patch p a hd) (a + 20) t.data i = p i := by
  have hlen : hd.length = 20 := by rw [hhd, List.length_append, length_padded, length_bytes32]
  have hbytes : t.bytes = hd ++ t.data := by rw [Token.bytes, hhd, List.append_assoc]
  have hfirst := readBytes_patch p a hd
  rw [hlen] at hfirst
  refine ⟨?_, fun i hi => ?_⟩
  · rw [hbytes, List.length_append, hlen, readBytes_append, readBytes_patch_disjoint _ _ _ _ _ (.inl (by omega)),
      hfirst]
    congr 1
    exact readBytes_patch _ _ _
  · rw [length_bytes] at hi
    rw [patch_outside _ _ _ _ (by omega), patch_outside _ _ _ _ (by omega)]

theorem Packed.append {p : Mem Byte} {ts : List Token} {c : Byte} (hs : Stored p 32 ts)
    (hnodup : (ts.map Token.name).Nodup) (hrest : ∀ i, endOf 32 ts ≤ i → i < 8192 → p i = c)
    (hc : c = 0 ∨ c = 0xff) (t : Token) (hnew : ∀ u ∈ ts, u.name ≠ t.name)
    (hroom : endOf 32 ts + t.data.length + 20 ≤ 8192) {tokenId buf : Mem Byte} (hid : IsName tokenId t.name)
    (hdata : readBytes buf 0 t.data.length = t.data) :
    Packed (putAtEnd p (endOf 32 ts) (readBytes tokenId 0 16) (some buf) t.data.length) (ts ++ [t]) c := by
  have hmod := endOf_mod ts
  have hlt := t.lt
  have hspan := span_bounds t
  have hlen := length_bytes t
  have hend : endOf 32 (ts ++ [t]) = endOf 32 ts + t.span := by rw [endOf_append, endOf_cons, endOf_nil]
  have hfits : endOf 32 ts + t.span ≤ 8192 := by
    have : t.span = 20 + ((t.data.length : Int) + 3) / 4 * 4 := rfl
    omega
  obtain ⟨hwritten, hkeep⟩ := token_written p (endOf 32 ts) t (spToken_name hid (n := t.data.length) (by omega))
  simp only [putAtEnd, Int.toNat_natCast, hdata]
  apply Packed.head
  · rw [stored_append]
    exact ⟨stored_congr (fun i _ h2 => hkeep i (.inl h2)) hs, hwritten, trivial⟩
  · rw [List.map_append, List.nodup_append]
    refine ⟨hnodup, by simp, ?_⟩
    intro x hx y hy
    obtain ⟨u, hu, rfl⟩ := List.mem_map.mp hx
    obtain rfl : y = t.name := by simpa using hy
    exact hnew u hu
  · rw [hend]
    exact hfits
  · rw [hend]
    intro i h1 h2
    rw [hkeep i (.inr (by omega))]
    exact hrest i (by omega) h2
  · exact hc

theorem Packed.replace {p : Mem Byte} {pre post : List Token} {t : Token} {c : Byte}
    (h : Packed p (pre ++ t :: post) c) (t' : Token) (hname : t'.name = t.name)
    (hlen : t'.data.length = t.data.length) :
    Packed (patch p (endOf 32 pre + 20) t'.data) (pre ++ t' :: post) c := by
  have hspan := span_bounds t
  have hbytes := length_bytes t
  have hspan' : t'.span = t.span := by rw [Token.span, Token.span, hlen]
  have hend : endOf 32 (pre ++ t' :: post) = endOf 32 (pre ++ t :: post) := by
    rw [endOf_append, endOf_append, endOf_cons, endOf_cons, hspan']
  have hpre := le_endOf 32 pre
  have hpost := le_endOf (endOf 32 pre + t.span) post
  have htotal : endOf 32 (pre ++ t :: post) = endOf (endOf 32 pre + t.span) post := by
    rw [endOf_append, endOf_cons]
  obtain ⟨hs1, hs2, hs3⟩ := (stored_append p 32 pre (t :: post)).mp h.stored
  have hfits := h.fits
  refine ⟨?_, ?_, ?_, by rwa [hend], ?_, h.fill⟩
  · rw [← h.magic]
    exact readBytes_patch_disjoint _ _ _ _ _ (.inl (by omega))
  · rw [stored_append]
    refine ⟨stored_congr (fun i _ h2 => patch_outside _ _ _ _ (.inl (by omega))) hs1, ?_, ?_⟩
    · rw [Token.bytes, hname, hlen, List.length_append, length_padded, List.length_append, length_bytes32,
        show 16 + (4 + t'.data.length) = 20 + t'.data.length by omega, readBytes_append,
        readBytes_patch_disjoint _ _ _ _ _ (.inl (by omega)), ← List.append_assoc]
      congr 1
      · rw [← take_readBytes p _ (n := t.bytes.length) (by omega), hs2, Token.bytes, ← List.append_assoc]
        exact List.take_left' (by rw [List.length_append, length_padded, length_bytes32])
      · exact readBytes_patch _ _ _
    · rw [hspan']
      exact stored_congr (fun i h1 _ => patch_outside _ _ _ _ (.inr (by omega))) hs3
  · have hnodup := h.nodup
    simpa [hname] using hnodup
  · rw [hend]
    intro i h1 h2
    rw [patch_outside _ _ _ _ (.inr (by omega))]
    exact h.rest i h1 h2

theorem shiftOut_stored {p : Mem Byte} {pre post : List Token} {t : Token} {c : Byte}
    (h : Packed p (pre ++ t :: post) c) :
    Stored (shiftOut 8192 p (endOf 32 (pre ++ t :: post)) (endOf 32 pre)) 32 (pre ++ post) ∧
    (∀ i, endOf 32 (pre ++ post) ≤ i → i < 8192 →
      shiftOut 8192 p (endOf 32 (pre ++ t :: post)) (endOf 32 pre) i = 0) ∧
    endOf 32 (pre ++ post) = endOf 32 (pre ++ t :: post) - t.span := by
  obtain ⟨hs1, hs2, hs3⟩ := (stored_append p 32 pre (t :: post)).mp h.stored
  have hskip := stored_skip hs2
  have htotal : endOf 32 (pre ++ t :: post) = endOf (endOf 32 pre) post + t.span := by
    rw [endOf_append, endOf_cons, endOf_add]
  have hshort : endOf 32 (pre ++ post) = endOf (endOf 32 pre) post := endOf_append _ _ _
  have hpost := le_endOf (endOf 32 pre) post
  refine ⟨?_, fun i h1 h2 => shiftOut_cleared p hskip (by omega) h2, by omega⟩
  rw [stored_append]
  refine ⟨stored_congr (fun i _ h2 => shiftOut_kept p hskip (by omega) h2) hs1, ?_⟩
  have hback := stored_shift (shiftOut 8192 p (endOf 32 (pre ++ t :: post)) (endOf 32 pre))
    (-t.span) (fun i h1 h2 => by
      rw [endOf_add] at h2
      rw [shiftOut_moved p hskip (by omega) (by omega)]
      exact congrArg p (by omega)) hs3
  rwa [Int.add_neg_cancel_right] at hback

theorem nodup_split {pre post : List Token} {t : Token} (h : ((pre ++ t :: post).map Token.name).Nodup) :
    ((pre ++ post).map Token.name).Nodup ∧ ∀ u ∈ pre ++ post, u.name ≠ t.name := by
  rw [(List.perm_middle.map Token.name).nodup_iff, List.map_cons, List.nodup_cons] at h
  refine ⟨h.2, fun u hu he => h.1 ?_⟩
  rw [← he]
  exact List.mem_map_of_mem hu

/-- `last` is the map that the tokens stand for. -/
def Maps (ts : List Token) (last : TokenName → Option (List Byte)) : Prop :=
  ∀ nm d, last nm = some d ↔ ∃ t ∈ ts, t.name = nm ∧ t.data = d

section

variable {last : TokenName → Option (List Byte)} {pre post ts : List Token} {t : Token}

theorem maps_append (h : Maps ts last) (hnew : ∀ u ∈ ts, u.name ≠ t.name) :
    Maps (ts ++ [t]) (Function.update last t.name (some t.data)) := by
  intro nm d
  by_cases hnm : nm = t.name
  · subst hnm
    simp only [Function.update_self, Option.some.injEq, List.mem_append, List.mem_singleton]
    constructor
    · rintro rfl
      exact ⟨t, .inr rfl, rfl, rfl⟩
    · rintro ⟨u, hu | rfl, h1, h2⟩
      · exact absurd h1 (hnew u hu)
      · exact h2
  · rw [Function.update_of_ne hnm, h nm d]
    constructor
    · rintro ⟨u, hu, hrest⟩
      exact ⟨u, List.mem_append_left _ hu, hrest⟩
    · rintro ⟨u, hu, h1, h2⟩
      rcases List.mem_append.mp hu with hu | hu
      · exact ⟨u, hu, h1, h2⟩
      · rw [List.mem_singleton] at hu
        exact absurd (hu ▸ h1).symm hnm

theorem maps_erase (h : Maps (pre ++ t :: post) last) (hnew : ∀ u ∈ pre ++ post, u.name ≠ t.name) :
    Maps (pre ++ post) (Function.update last t.name none) := by
  intro nm d
  by_cases hnm : nm = t.name
  · subst hnm
    simp only [Function.update_self, reduceCtorEq, false_iff]
    rintro ⟨u, hu, h1, -⟩
    exact hnew u hu h1
  · rw [Function.update_of_ne hnm, h nm d]
    constructor
    · rintro ⟨u, hu, h1, h2⟩
      rw [List.mem_append, List.mem_cons] at hu
      rcases hu with hu | rfl | hu
      · exact ⟨u, List.mem_append_left _ hu, h1, h2⟩
      · exact absurd h1.symm hnm
      · exact ⟨u, List.mem_append_right _ hu, h1, h2⟩
    · rintro ⟨u, hu, hrest⟩
      refine ⟨u, ?_, hrest⟩
      rw [List.mem_append, List.mem_cons]
      exact (List.mem_append.mp hu).imp_right .inr

theorem Maps.perm (h : Maps ts last) {us : List Token} (hp : ts.Perm us) : Maps us last := by
  intro nm d
  rw [h nm d]
  simp only [hp.mem_iff]

end

/-- The states of a pad: untouched since it was cleared or erased, or in use. -/
inductive Pad (p : Mem Byte) (last : TokenName → Option (List Byte)) : Prop
  | blank (c : Byte) (hc : c = 0 ∨ c = 0xff) (h : ∀ i, 0 ≤ i → i < 8192 → p i = c) (hlast : ∀ nm, last nm = none)
  | packed (ts : List Token) (c : Byte) (h : Packed p ts c) (hmaps : Maps ts last)

theorem Pad.congr {p p' : Mem Byte} {last : TokenName → Option (List Byte)} (h : Pad p last)
    (he : ∀ i, 0 ≤ i → i < 8192 → p' i = p i) : Pad p' last := by
  cases h with
  | blank c hc h hlast => exact .blank c hc (fun i h1 h2 => (he i h1 h2).trans (h i h1 h2)) hlast
  | packed ts c h hmaps => exact .packed ts c (h.congr he) hmaps

theorem blank_not_magic {p : Mem Byte} {c : Byte} (hc : c = 0 ∨ c = 0xff)
    (h : ∀ i, 0 ≤ i → i < 8192 → p i = c) : readBytes p 0 8 ≠ magicNumber := by
  intro hm
  have h0 := congrArg (fun l : List Byte => l.headD 0) hm
  rw [readBytes] at h0
  simp only [List.range_succ_eq_map, List.map_cons, List.headD_cons, magicNumber] at h0
  have hfirst : p 0 = 103 := by simpa using h0
  rw [h 0 le_rfl (by decide)] at hfirst
  rcases hc with rfl | rfl <;> exact absurd hfirst (by decide)

section

variable {p : Mem Byte} {ts : List Token} {c : Byte} (h : Packed p ts c)

include h

theorem Packed.chain : Chain p 32 (starts 32 ts) (endOf 32 ts) := stored_chain h.stored h.fits

theorem Packed.stop : ¬ Listed p (endOf 32 ts) := by
  rintro ⟨hl, hu, -, -, -, ha⟩
  rw [h.rest _ le_rfl ha] at hl hu
  rcases h.fill with rfl | rfl
  · exact absurd hl (by decide)
  · exact absurd hu (by decide)

theorem Packed.used : usedLoop 8192 p 8192 32 = some (endOf 32 ts) := usedLoop_chain h.chain h.stop h.chain.length_lt

end

/-- The call succeeds and leaves the tokens `ts`. -/
def Leaves (p tokenId : Mem Byte) (tokBuf : Option (Mem Byte)) (n : Nat) (ts : List Token) : Prop :=
  ∃ p' c, setBuf 8192 p (readBytes tokenId 0 16) tokBuf n = some (some p') ∧ Packed p' ts c

section

variable {p : Mem Byte} {ts : List Token} {c : Byte} {tokenId : Mem Byte} {nm : TokenName}
  (hid : IsName tokenId nm) {n : Nat}

include hid

theorem setBuf_absent (h : Packed p ts c) (hts : ∀ u ∈ ts, u.name ≠ nm) (tokBuf : Option (Mem Byte))
    (hroom : endOf 32 ts + n + 20 ≤ 8192) :
    setBuf 8192 p (readBytes tokenId 0 16) tokBuf n =
      some (some (putAtEnd p (endOf 32 ts) (readBytes tokenId 0 16) tokBuf n)) := by
  have hnone : (starts 32 ts).find? (named p (readBytes tokenId 0 16)) = none :=
    List.find?_eq_none.mpr fun x hx => Bool.eq_false_iff.mp (unnamed_starts hid h.stored hts x hx)
  rw [setBuf_chain h.magic h.chain h.stop, if_neg (by omega), hnone]

variable {pre post : List Token} {t : Token}

theorem Packed.finds (h : Packed p (pre ++ t :: post) c) (ht : t.name = nm) :
    Finds p (readBytes tokenId 0 16) t.data (starts 32 pre) (endOf 32 pre) := by
  obtain ⟨hpre, hhead, -⟩ := (stored_append p 32 pre (t :: post)).mp h.stored
  obtain ⟨-, hother⟩ := nodup_split h.nodup
  have hfits := h.fits
  have hpost := le_endOf (endOf 32 pre + t.span) post
  have hspan := span_bounds t
  rw [endOf_append, endOf_cons] at hfits
  refine ⟨stored_chain hpre (by omega), unnamed_starts hid hpre fun u hu => ht ▸ hother u (List.mem_append_left _ hu),
    stored_listed hhead (by omega), ?_, stored_len hhead, stored_data hhead, ?_⟩
  · rw [named_stored hid hhead]
    exact decide_eq_true ht
  · rw [tokenSpan, stored_skip hhead]
    omega

theorem setBuf_present (h : Packed p (pre ++ t :: post) c) (ht : t.name = nm) (tokBuf : Option (Mem Byte))
    (hroom : endOf 32 (pre ++ t :: post) + n + 20 ≤ 8192) :
    setBuf 8192 p (readBytes tokenId 0 16) tokBuf n = some (some
      (rewriteToken p (endOf 32 (pre ++ t :: post)) (endOf 32 pre) (readBytes tokenId 0 16) tokBuf n)) := by
  have hfinds := h.finds hid ht
  have hfind : (starts 32 (pre ++ t :: post)).find? (named p (readBytes tokenId 0 16)) = some (endOf 32 pre) := by
    rw [starts_append]
    exact List.find?_eq_some_iff_append.mpr ⟨hfinds.name, _, _, rfl, by simpa using hfinds.others⟩
  rw [setBuf_chain h.magic h.chain h.stop, if_neg (by omega), hfind]

theorem getLoop_absent (h : Packed p ts c) (hts : ∀ u ∈ ts, u.name ≠ nm) (hroom : endOf 32 ts + 20 ≤ 8192)
    (bufLen : Int) : getLoop 8192 p (readBytes tokenId 0 16) bufLen 8192 32 32 = some (-1, []) := by
  have hcount := h.chain.length_lt
  have hlow := le_endOf 32 ts
  obtain ⟨fuel, hfuel⟩ : ∃ fuel, 8192 = (starts 32 ts).length + (fuel + 1) := ⟨8191 - (starts 32 ts).length, by omega⟩
  have hget := getLoop_chain h.chain (unnamed_starts hid h.stored hts) bufLen le_rfl (fuel + 1)
  rw [← hfuel] at hget
  rw [hget, getLoop, if_neg]
  rintro ⟨hne, hlen, -, -⟩
  -- cleared bytes end the list by their name, erased ones by their length
  rcases h.fill with rfl | rfl
  · exact hne (h.rest _ le_rfl (by omega))
  · have herased : readBytes p (endOf 32 ts + 16) 4 = readBytes (fun _ => 0xff) 0 4 :=
      readBytes_congr fun i hi => h.rest _ (by omega) (by omega)
    rw [tokenLen, herased] at hlen
    exact absurd hlen (by decide)

omit hid in
theorem setBuf_overflow (h : Packed p ts c) (tokBuf : Option (Mem Byte)) (hroom : 8192 < endOf 32 ts + n + 20) :
    setBuf 8192 p (readBytes tokenId 0 16) tokBuf n = some none := by
  rw [setBuf_chain h.magic h.chain h.stop, if_pos (by omega)]

section

variable {t : Token} (ht : IsName tokenId t.name) {buf : Mem Byte} (hbuf : readBytes buf 0 t.data.length = t.data)

omit hid

include ht hbuf

theorem setBuf_first (hc : c = 0 ∨ c = 0xff) (hblank : ∀ i, 0 ≤ i → i < 8192 → p i = c) :
    Leaves p tokenId (some buf) t.data.length [t] := by
  have hlt := t.lt
  refine ⟨_, c, setBuf_new (blank_not_magic hc hblank) _ _ _, ?_⟩
  exact Packed.append (show Stored p 32 [] from trivial) List.nodup_nil
    (fun i h1 h2 => hblank i (by rw [endOf_nil] at h1; omega) h2) hc t (by simp) (by rw [endOf_nil]; omega) ht hbuf

theorem setBuf_added (h : Packed p ts c) (hts : ∀ u ∈ ts, u.name ≠ t.name)
    (hroom : endOf 32 ts + t.data.length + 20 ≤ 8192) : Leaves p tokenId (some buf) t.data.length (ts ++ [t]) :=
  ⟨_, c, setBuf_absent ht h hts _ hroom, Packed.append h.stored h.nodup h.rest h.fill t hts hroom ht hbuf⟩

theorem setBuf_overwritten {pre post : List Token} {u : Token} (h : Packed p (pre ++ u :: post) c)
    (hname : u.name = t.name) (hroom : endOf 32 (pre ++ u :: post) + t.data.length + 20 ≤ 8192) :
    Leaves p tokenId (some buf) t.data.length
      (if u.data.length = t.data.length then pre ++ t :: post else pre ++ post ++ [t]) := by
  obtain ⟨-, hhead, -⟩ := (stored_append p 32 pre (u :: post)).mp h.stored
  have hset := setBuf_present ht h hname (some buf) hroom
  rw [rewriteToken, stored_len hhead, tokenSpan, stored_skip hhead, Int.toNat_natCast, hbuf] at hset
  by_cases hlen : u.data.length = t.data.length
  · rw [if_pos (congrArg Nat.cast hlen)] at hset
    rw [if_pos hlen]
    exact ⟨_, c, hset, h.replace t hname.symm hlen.symm⟩
  · rw [if_neg (by omega)] at hset
    rw [if_neg hlen]
    obtain ⟨hnodup, hother⟩ := nodup_split h.nodup
    obtain ⟨hs, hz, hend⟩ := shiftOut_stored h
    have hspan := span_bounds u
    rw [← hend] at hset
    exact ⟨_, 0, hset, Packed.append hs hnodup hz (.inl rfl) t (fun v hv he => hother v hv (he.trans hname.symm))
      (by omega) ht hbuf⟩

end

theorem setBuf_removed (h : Packed p (pre ++ t :: post) c) (hname : t.name = nm)
    (hroom : endOf 32 (pre ++ t :: post) + n + 20 ≤ 8192) : Leaves p tokenId none n (pre ++ post) := by
  obtain ⟨hnodup, -⟩ := nodup_split h.nodup
  obtain ⟨hs, hz, hend⟩ := shiftOut_stored h
  have hspan := span_bounds t
  have hfits := h.fits
  refine ⟨_, 0, setBuf_present hid h hname none hroom, ?_⟩
  exact Packed.head hs hnodup (by omega) hz (.inl rfl)

variable {last : TokenName → Option (List Byte)}

omit hid in
theorem Leaves.pad {tokBuf : Option (Mem Byte)} (h : Leaves p tokenId tokBuf n ts) (hmaps : Maps ts last) :
    ∃ p', setBuf 8192 p (readBytes tokenId 0 16) tokBuf n = some (some p') ∧ Pad p' last := by
  obtain ⟨p', c, hset, hpacked⟩ := h
  exact ⟨p', hset, .packed ts c hpacked hmaps⟩

theorem setBuf_store (h : Pad p last) (hpos : 1 ≤ n) (hn : n < 8140) (buf : Mem Byte) :
    setBuf 8192 p (readBytes tokenId 0 16) (some buf) n = some none ∨
    ∃ p', setBuf 8192 p (readBytes tokenId 0 16) (some buf) n = some (some p') ∧
      Pad p' (Function.update last nm (some (readBytes buf 0 n))) := by
  obtain ⟨t, rfl, rfl, hbuf⟩ : ∃ t : Token, t.name = nm ∧ t.data.length = n ∧ readBytes buf 0 t.data.length = t.data :=
    ⟨⟨nm, readBytes buf 0 n, by simpa using hpos, by simpa using hn⟩, rfl, by simp, by simp⟩
  rw [hbuf]
  cases h with
  | blank c hc hblank hlast =>
      exact .inr ((setBuf_first hid hbuf hc hblank).pad
        (maps_append (t := t) (show Maps [] _ from fun nm d => by simp [hlast]) (by simp)))
  | packed ts c h hmaps =>
      by_cases hroom : 8192 < endOf 32 ts + t.data.length + 20
      · exact .inl (setBuf_overflow h _ hroom)
      right
      by_cases hex : ∃ u ∈ ts, u.name = t.name
      · obtain ⟨u, hu, hname⟩ := hex
        obtain ⟨pre, post, rfl⟩ := List.append_of_mem hu
        obtain ⟨-, hother⟩ := nodup_split h.nodup
        refine (setBuf_overwritten hid hbuf h hname (by omega)).pad ?_
        have herased : Maps (pre ++ post) (Function.update last t.name none) := hname ▸ maps_erase hmaps hother
        have hnew := maps_append (t := t) herased fun v hv he => hother v hv (he.trans hname.symm)
        rw [Function.update_idem] at hnew
        split
        · exact hnew.perm ((List.perm_append_singleton t (pre ++ post)).trans List.perm_middle.symm)
        · exact hnew
      · have hts : ∀ u ∈ ts, u.name ≠ t.name := fun u hu he => hex ⟨u, hu, he⟩
        exact (setBuf_added hid hbuf h hts (by omega)).pad (maps_append hmaps hts)

theorem setBuf_delete (h : Pad p last) (hmagic : readBytes p 0 8 = magicNumber) :
    setBuf 8192 p (readBytes tokenId 0 16) none n = some none ∨
    ∃ p', setBuf 8192 p (readBytes tokenId 0 16) none n = some (some p') ∧
      Pad p' (Function.update last nm none) := by
  cases h with
  | blank c hc hblank hlast => exact absurd hmagic (blank_not_magic hc hblank)
  | packed ts c h hmaps =>
      by_cases hroom : 8192 < endOf 32 ts + n + 20
      · exact .inl (setBuf_overflow h _ hroom)
      right
      by_cases hex : ∃ u ∈ ts, u.name = nm
      · obtain ⟨u, hu, hname⟩ := hex
        obtain ⟨pre, post, rfl⟩ := List.append_of_mem hu
        obtain ⟨-, hother⟩ := nodup_split h.nodup
        exact (setBuf_removed hid h hname (by omega)).pad (hname ▸ maps_erase hmaps hother)
      · have hts : ∀ u ∈ ts, u.name ≠ nm := fun u hu he => hex ⟨u, hu, he⟩
        refine ⟨_, setBuf_absent hid h hts none (by omega), .packed ts c
          (Packed.head h.stored h.nodup h.fits h.rest h.fill) ?_⟩
        have hnone : last nm = none := by
          rw [Option.eq_none_iff_forall_ne_some]
          intro d hd
          obtain ⟨u, hu, he, -⟩ := (hmaps nm d).mp hd
          exact hts u hu he
        rwa [← hnone, Function.update_eq_self]

end

variable (g : Geometry) (info : FlashAddrInfo)

def padOf (m : Mem Byte) : Mem Byte := view m (info.scratchPad.first g)

def unused (p : Mem Byte) : Int :=
  if readBytes p 0 8 ≠ magicNumber then 8192 else 8192 - (usedLoop 8192 p 8192 32).getD 8192

/-- The states reached from a cleared or erased pad by stores and deletes, with
the data each name was last set to by a call that returned 0. -/
inductive Reach : Flash → (TokenName → Option (List Byte)) → Prop
  | start {f : Flash} (c : Byte) (hc : c = 0 ∨ c = 0xff) (hf : f.faults = [])
      (h : ∀ i, 0 ≤ i → i < 8192 → padOf g info f.mem i = c) : Reach f (fun _ => none)
  | store {f : Flash} {last : TokenName → Option (List Byte)} (h : Reach f last) (nm : TokenName)
      (tokenId : Mem Byte) (hid : IsName tokenId nm) (heap buf : Mem Byte) (n : Nat) (hpos : 1 ≤ n)
      (hn : n < 2147483648) :
      Reach (kerSysScratchPadSet g info f heap tokenId (some buf) n).2
        (if (kerSysScratchPadSet g info f heap tokenId (some buf) n).1 = some 0 then
          Function.update last nm (some (readBytes buf 0 n)) else last)
  | delete {f : Flash} {last : TokenName → Option (List Byte)} (h : Reach f last) (nm : TokenName)
      (tokenId : Mem Byte) (hid : IsName tokenId nm) (heap : Mem Byte) (bufLen : Int)
      (hmagic : readBytes (padOf g info f.mem) 0 8 = magicNumber) (hl : -2147483648 ≤ bufLen)
      (hu : bufLen < 2147483648) :
      Reach (kerSysScratchPadSet g info f heap tokenId none bufLen).2
        (if (kerSysScratchPadSet g info f heap tokenId none bufLen).1 = some 0 then
          Function.update last nm none else last)

variable {g info}

variable (g info) in
/-- The call returned 0 and left a pad for `last`, or it failed and left the device alone. -/
def Steps (f : Flash) (r : Option Int × Flash) (last : TokenName → Option (List Byte)) : Prop :=
  (r.1 = some 0 ∧ r.2.faults = [] ∧ Pad (padOf g info r.2.mem) last) ∨ r = (some (-1), f)

theorem Steps.pad {f : Flash} {r : Option Int × Flash} {last last' : TokenName → Option (List Byte)}
    (h : Steps g info f r last') (hf : f.faults = [] ∧ Pad (padOf g info f.mem) last) :
    r.2.faults = [] ∧ Pad (padOf g info r.2.mem) (if r.1 = some 0 then last' else last) := by
  rcases h with ⟨hret, h⟩ | rfl
  · rwa [if_pos hret]
  · exact hf

theorem exceedsPad_iff {bufLen : Int} (hl : -2147483648 ≤ bufLen) (hu : bufLen < 2147483648) :
    ¬ exceedsPad 8192 bufLen ↔ 0 ≤ bufLen ∧ bufLen < 8140 := by
  have hlimit : uint32 (8192 - spHeaderSize - spTokenSize) = 8140 := by decide
  have hcast := cast_uint32 bufLen
  rw [exceedsPad, hlimit]
  omega

section

variable (hfit : info.scratchPad.Fits g) (hlength : info.scratchPad.length = 8192)

include hfit hlength

theorem pBuf_eq (m heap : Mem Byte) {i : Int} (hl : 0 ≤ i) (hu : i < 8192) :
    view (getSharedBlks g m heap info.scratchPad.startBlk info.scratchPad.endBlk) info.scratchPad.blkOffset i =
      padOf g info m i := by
  have hwindow := hfit.window
  have hoffset := hfit.offset_nonneg
  rw [view, getSharedBlks_eq m heap hfit.start_nonneg hfit.mono hfit.inside, if_pos (by omega), padOf, view,
    Region.first, add_assoc]

theorem kerSysScratchPadSet_eq (f : Flash) (hf : f.faults = []) (heap tokenId : Mem Byte)
    (tokBuf : Option (Mem Byte)) {bufLen : Int} (hlen : ¬ exceedsPad 8192 bufLen) :
    let p := view (getSharedBlks g f.mem heap info.scratchPad.startBlk info.scratchPad.endBlk)
      info.scratchPad.blkOffset
    (setBuf 8192 p (readBytes tokenId 0 16) tokBuf bufLen = some none →
      kerSysScratchPadSet g info f heap tokenId tokBuf bufLen = (some (-1), f)) ∧
    ∀ p', setBuf 8192 p (readBytes tokenId 0 16) tokBuf bufLen = some (some p') →
      (kerSysScratchPadSet g info f heap tokenId tokBuf bufLen).1 = some 0 ∧
      (kerSysScratchPadSet g info f heap tokenId tokBuf bufLen).2.faults = [] ∧
      ∀ i, 0 ≤ i → i < 8192 →
        padOf g info (kerSysScratchPadSet g info f heap tokenId tokBuf bufLen).2.mem i = p' i := by
  intro p
  rw [kerSysScratchPadSet]
  dsimp only
  rw [hlength, if_neg (by decide), if_neg hlen]
  refine ⟨fun hset => by rw [hset], fun p' hset => ?_⟩
  rw [hset]
  have hwindow := hfit.window
  have hoffset := hfit.offset_nonneg
  obtain ⟨h1, h2, h3⟩ := setSharedBlks_ok f hf hfit.start_nonneg hfit.mono hfit.inside
    (view p' (-info.scratchPad.blkOffset))
  refine ⟨congrArg some h1, h2, fun i hl hu => ?_⟩
  rw [padOf, view, h3, Region.first, if_pos (by omega), view]
  congr 1
  omega

theorem set_step {f : Flash} (hf : f.faults = []) {last last' : TokenName → Option (List Byte)}
    (hpad : Pad (padOf g info f.mem) last) (heap tokenId : Mem Byte) (tokBuf : Option (Mem Byte)) {bufLen : Int}
    (hset : ∀ p, Pad p last → (∀ i, 0 ≤ i → i < 8192 → p i = padOf g info f.mem i) → ¬ exceedsPad 8192 bufLen →
      setBuf 8192 p (readBytes tokenId 0 16) tokBuf bufLen = some none ∨
      ∃ p', setBuf 8192 p (readBytes tokenId 0 16) tokBuf bufLen = some (some p') ∧ Pad p' last') :
    Steps g info f (kerSysScratchPadSet g info f heap tokenId tokBuf bufLen) last' := by
  by_cases hex : exceedsPad 8192 bufLen
  · right
    rw [kerSysScratchPadSet, hlength, if_neg (by decide), if_pos hex]
  · have hbuf := fun i h1 h2 => pBuf_eq hfit hlength f.mem heap (i := i) h1 h2
    obtain ⟨hfail, hdone⟩ := kerSysScratchPadSet_eq hfit hlength f hf heap tokenId tokBuf hex
    rcases hset _ (hpad.congr hbuf) hbuf hex with hset | ⟨p', hset, hpad'⟩
    · exact .inr (hfail hset)
    · obtain ⟨h1, h2, h3⟩ := hdone p' hset
      exact .inl ⟨h1, h2, hpad'.congr h3⟩

variable {f : Flash} (hf : f.faults = []) {last : TokenName → Option (List Byte)} (hpad : Pad (padOf g info f.mem) last)
  {nm : TokenName} {tokenId : Mem Byte} (hid : IsName tokenId nm) (heap : Mem Byte)

include hf hpad hid

theorem store_step (buf : Mem Byte) {n : Nat} (hpos : 1 ≤ n) (hn : n < 2147483648) :
    Steps g info f (kerSysScratchPadSet g info f heap tokenId (some buf) n)
      (Function.update last nm (some (readBytes buf 0 n))) := by
  apply set_step hfit hlength hf hpad
  intro p hp _ hex
  have hbound := (exceedsPad_iff (by omega) (by omega)).mp hex
  exact setBuf_store hid hp hpos (by omega) buf

theorem delete_step {bufLen : Int} (hmagic : readBytes (padOf g info f.mem) 0 8 = magicNumber)
    (hl : -2147483648 ≤ bufLen) (hu : bufLen < 2147483648) :
    Steps g info f (kerSysScratchPadSet g info f heap tokenId none bufLen) (Function.update last nm none) := by
  apply set_step hfit hlength hf hpad
  intro p hp hsame hex
  have hbound := (exceedsPad_iff hl hu).mp hex
  obtain ⟨n, rfl⟩ : ∃ n : Nat, bufLen = n := ⟨bufLen.toNat, by omega⟩
  apply setBuf_delete hid hp
  rw [← hmagic]
  exact readBytes_congr fun i hi => hsame _ (by omega) (by omega)

omit hf hpad hid

theorem leaves_step {f : Flash} (hf : f.faults = []) {ts : List Token} (heap tokenId : Mem Byte)
    (tokBuf : Option (Mem Byte)) {n : Nat} (hn : n < 8140)
    (hset : ∀ p, (∀ i, 0 ≤ i → i < 8192 → p i = padOf g info f.mem i) → Leaves p tokenId tokBuf n ts) :
    (kerSysScratchPadSet g info f heap tokenId tokBuf n).1 = some 0 ∧
      (kerSysScratchPadSet g info f heap tokenId tokBuf n).2.faults = [] ∧
      ∃ c, Packed (padOf g info (kerSysScratchPadSet g info f heap tokenId tokBuf n).2.mem) ts c := by
  have hex : ¬ exceedsPad 8192 n := (exceedsPad_iff (by omega) (by omega)).mpr ⟨by omega, by omega⟩
  obtain ⟨p', c, hp', hpacked⟩ := hset _ fun i h1 h2 => pBuf_eq hfit hlength f.mem heap (i := i) h1 h2
  obtain ⟨-, hdone⟩ := kerSysScratchPadSet_eq hfit hlength f hf heap tokenId tokBuf hex
  obtain ⟨h1, h2, h3⟩ := hdone p' hp'
  exact ⟨h1, h2, c, hpacked.congr h3⟩

theorem Reach.pad {f : Flash} {last : TokenName → Option (List Byte)} (h : Reach g info f last) :
    f.faults = [] ∧ Pad (padOf g info f.mem) last := by
  induction h with
  | start c hc hf h => exact ⟨hf, .blank c hc h (fun _ => rfl)⟩
  | store h nm tokenId hid heap buf n hpos hn ih =>
      exact (store_step hfit hlength ih.1 ih.2 hid heap buf hpos hn).pad ih
  | delete h nm tokenId hid heap bufLen hmagic hl hu ih =>
      exact (delete_step hfit hlength ih.1 ih.2 hid heap hmagic hl hu).pad ih

theorem get_eq {m : Mem Byte} {last : TokenName → Option (List Byte)} (hpad : Pad (padOf g info m) last)
    {nm : TokenName} {tokenId : Mem Byte} (hid : IsName tokenId nm) (heap : Mem Byte) {len : Int} (hl : 0 ≤ len)
    (hu : len < 8140) :
    (∀ data, last nm = some data → data.length ≤ len →
      kerSysScratchPadGet g info m heap tokenId len = some ((data.length : Int), data)) ∧
    (last nm = none → 20 ≤ unused (padOf g info m) →
      kerSysScratchPadGet g info m heap tokenId len = some (-1, [])) := by
  have hlen : ¬ exceedsPad 8192 len := (exceedsPad_iff (by omega) (by omega)).mpr ⟨hl, hu⟩
  have hbuf := fun i h1 h2 => pBuf_eq hfit hlength m heap (i := i) h1 h2
  rw [kerSysScratchPadGet]
  dsimp only
  rw [hlength, if_neg (by decide), if_neg hlen, toNat_pad]
  cases hpad with
  | blank c hc hblank hlast =>
      have hmagic := blank_not_magic hc fun i h1 h2 => (hbuf i h1 h2).trans (hblank i h1 h2)
      rw [if_pos hmagic]
      exact ⟨fun data hd => by simp [hlast] at hd, fun _ _ => rfl⟩
  | packed ts c h hmaps =>
      have hcopy := h.congr hbuf
      rw [if_neg (not_not.mpr hcopy.magic)]
      refine ⟨fun data hd hle => ?_, fun hnone hroom => ?_⟩
      · obtain ⟨t, ht, hname, rfl⟩ := (hmaps nm data).mp hd
        obtain ⟨pre, post, rfl⟩ := List.append_of_mem ht
        rw [(hcopy.finds hid hname).get, if_neg (by omega)]
      · have hts : ∀ u ∈ ts, u.name ≠ nm := by
          intro u hu he
          have := (hmaps nm u.data).mpr ⟨u, hu, he, rfl⟩
          rw [hnone] at this
          cases this
        rw [unused, if_neg (not_not.mpr h.magic), h.used, Option.getD_some] at hroom
        exact getLoop_absent hid hcopy hts (by omega) len

/-- The pad is a finite map from names to data: in every reachable state a
lookup gives what the name was last set to, a store or delete returns, and one
that fails leaves the device alone. -/
theorem scratchPad_is_map {f : Flash} {last : TokenName → Option (List Byte)} (h : Reach g info f last)
    (nm : TokenName) (tokenId : Mem Byte) (hid : IsName tokenId nm) (heap : Mem Byte) :
    (∀ len : Int, 0 ≤ len → len < 8140 →
      (∀ data, last nm = some data → data.length ≤ len →
        kerSysScratchPadGet g info f.mem heap tokenId len = some ((data.length : Int), data)) ∧
      (last nm = none → 20 ≤ unused (padOf g info f.mem) →
        kerSysScratchPadGet g info f.mem heap tokenId len = some (-1, []))) ∧
    (∀ (buf : Mem Byte) (n : Nat), 1 ≤ n → n < 2147483648 →
      (kerSysScratchPadSet g info f heap tokenId (some buf) n).1 = some 0 ∨
      kerSysScratchPadSet g info f heap tokenId (some buf) n = (some (-1), f)) ∧
    (readBytes (padOf g info f.mem) 0 8 = magicNumber →
      ∀ bufLen : Int, -2147483648 ≤ bufLen → bufLen < 2147483648 →
        (kerSysScratchPadSet g info f heap tokenId none bufLen).1 = some 0 ∨
        kerSysScratchPadSet g info f heap tokenId none bufLen = (some (-1), f)) := by
  obtain ⟨hf, hpad⟩ := h.pad hfit hlength
  refine ⟨fun len hl hu => get_eq hfit hlength hpad hid heap hl hu, fun buf n hpos hn => ?_,
    fun hmagic bufLen hl hu => ?_⟩
  · exact (store_step hfit hlength hf hpad hid heap buf hpos hn).imp_left And.left
  · exact (delete_step hfit hlength hf hpad hid heap hmagic hl hu).imp_left And.left

end

def demoName : TokenName := ⟨[65], by decide, by decide, by decide, by decide⟩

def demoInfo : FlashAddrInfo := kerSysFlashInit demoFlash 24 (some blankTag)

theorem demoInfo_fits : demoInfo.scratchPad.Fits demoFlash := by
  have hoff : spBlk 64 65536 24 ≠ flashGetBlk demoFlash (kernelEndAddr demoFlash blankTag) := by decide
  have hfits := spRegion_fits demoFlash_uniform (by decide) (by decide) (by decide) hoff
  rw [demoInfo, kerSysFlashInit_some]
  exact hfits

def otherName : TokenName := ⟨[66, 48], by decide, by decide, by decide, by decide⟩

def cString (bs : List Byte) : Mem Byte := patch (fun _ => 0) 0 bs

def demoSet (f : Flash) (name : List Byte) (data : Option (List Byte)) : Option Int × Flash :=
  kerSysScratchPadSet demoFlash demoInfo f (fun _ => 0xff) (cString name) (data.map cString) (data.getD []).length

/-- Five bytes are stored under the first name and one under the other, two are stored over the five, and the other name
is deleted. -/
def storedFirst : Option Int × Flash := demoSet (fresh fun _ => 0xff) [65] (some [1, 2, 3, 4, 5])
def storedOther : Option Int × Flash := demoSet storedFirst.2 [66, 48] (some [9])
def overwritten : Option Int × Flash := demoSet storedOther.2 [65] (some [6, 7])
def deletedOther : Option Int × Flash := demoSet overwritten.2 [66, 48] none

def firstToken : Token := ⟨demoName, [1, 2, 3, 4, 5], by decide, by decide⟩
def otherToken : Token := ⟨otherName, [9], by decide, by decide⟩
def newToken : Token := ⟨demoName, [6, 7], by decide, by decide⟩

/-- What is known after a call: it returned 0, and the pad holds `ts`. -/
structure Done (r : Option Int × Flash) (ts : List Token) (last : TokenName → Option (List Byte)) : Prop where
  ret : r.1 = some 0
  faults : r.2.faults = []
  packed : ∃ c, Packed (padOf demoFlash demoInfo r.2.mem) ts c
  reach : Reach demoFlash demoInfo r.2 last

theorem Done.intro {f : Flash} {ts : List Token} {last last' : TokenName → Option (List Byte)} {name : List Byte}
    {data : Option (List Byte)} (hf : f.faults = []) (hn : (data.getD []).length < 8140)
    (hset : ∀ p, (∀ i, 0 ≤ i → i < 8192 → p i = padOf demoFlash demoInfo f.mem i) →
      Leaves p (cString name) (data.map cString) (data.getD []).length ts)
    (hreach : Reach demoFlash demoInfo (demoSet f name data).2 (if (demoSet f name data).1 = some 0 then last' else last)) :
    Done (demoSet f name data) ts last' := by
  obtain ⟨h1, h2, h3⟩ := leaves_step demoInfo_fits (by decide) hf (fun _ => 0xff) (cString name) (data.map cString) hn hset
  exact ⟨h1, h2, h3, by rwa [if_pos (show (demoSet f name data).1 = some 0 from h1)] at hreach⟩

theorem storedFirst_done :
    Done storedFirst [firstToken] (Function.update (fun _ => none) demoName (some [1, 2, 3, 4, 5])) :=
  .intro rfl (by decide)
    (fun p hp => setBuf_first (t := firstToken) (by decide) (by decide) (c := 0xff) (.inr rfl) hp)
    (.store (.start 0xff (.inr rfl) rfl fun _ _ _ => rfl) demoName _ (by decide) _ _ _ (by decide) (by decide))

theorem storedOther_done : Done storedOther [firstToken, otherToken]
    (Function.update (Function.update (fun _ => none) demoName (some [1, 2, 3, 4, 5])) otherName (some [9])) := by
  obtain ⟨-, hf, ⟨c, hpacked⟩, hreach⟩ := storedFirst_done
  exact .intro hf (by decide)
    (fun p hp => setBuf_added (t := otherToken) (by decide) (by decide) (hpacked.congr hp) (by decide) (by decide))
    (.store hreach otherName _ (by decide) _ _ _ (by decide) (by decide))

theorem overwritten_done : Done overwritten [otherToken, newToken]
    (Function.update (Function.update (Function.update (fun _ => none) demoName (some [1, 2, 3, 4, 5])) otherName
      (some [9])) demoName (some [6, 7])) := by
  obtain ⟨-, hf, ⟨c, hpacked⟩, hreach⟩ := storedOther_done
  exact .intro hf (by decide)
    (fun p hp => setBuf_overwritten (t := newToken) (by decide) (by decide)
      (show Packed p ([] ++ firstToken :: [otherToken]) c from hpacked.congr hp) rfl (by decide))
    (.store hreach demoName _ (by decide) _ _ _ (by decide) (by decide))

theorem deletedOther_done : Done deletedOther [newToken]
    (Function.update (Function.update (Function.update (Function.update (fun _ => none) demoName (some [1, 2, 3, 4, 5]))
      otherName (some [9])) demoName (some [6, 7])) otherName none) := by
  obtain ⟨-, hf, ⟨c, hpacked⟩, hreach⟩ := overwritten_done
  exact .intro hf (by decide)
    (fun p hp => setBuf_removed (show IsName _ otherName by decide)
      (show Packed p ([] ++ otherToken :: [newToken]) c from hpacked.congr hp) rfl (by decide))
    (.delete hreach otherName _ (by decide) _ _ hpacked.magic (by decide) (by decide))

theorem scratchPad_is_map_run :
    storedFirst.1 = some 0 ∧ storedOther.1 = some 0 ∧ overwritten.1 = some 0 ∧ deletedOther.1 = some 0 ∧
    kerSysScratchPadGet demoFlash demoInfo overwritten.2.mem (fun _ => 0) (cString [66, 48]) 16 = some (1, [9]) ∧
    kerSysScratchPadGet demoFlash demoInfo deletedOther.2.mem (fun _ => 0) (cString [65]) 16 = some (2, [6, 7]) ∧
    kerSysScratchPadGet demoFlash demoInfo deletedOther.2.mem (fun _ => 0) (cString [66, 48]) 16 = some (-1, []) := by
  have hover := overwritten_done
  have hdel := deletedOther_done
  obtain ⟨c, hpacked⟩ := hdel.packed
  have hroom : 20 ≤ unused (padOf demoFlash demoInfo deletedOther.2.mem) := by
    rw [unused, if_neg (not_not.mpr hpacked.magic), hpacked.used]
    decide
  refine ⟨storedFirst_done.ret, storedOther_done.ret, hover.ret, hdel.ret, ?_, ?_, ?_⟩
  · exact ((scratchPad_is_map demoInfo_fits (by decide) hover.reach otherName (cString [66, 48]) (by decide)
      fun _ => 0).1 16 (by decide) (by decide)).1 [9] (by decide) (by decide)
  · exact ((scratchPad_is_map demoInfo_fits (by decide) hdel.reach demoName (cString [65]) (by decide)
      fun _ => 0).1 16 (by decide) (by decide)).1 [6, 7] (by decide) (by decide)
  · exact ((scratchPad_is_map demoInfo_fits (by decide) hdel.reach otherName (cString [66, 48]) (by decide)
      fun _ => 0).1 16 (by decide) (by decide)).2 (by decide) hroom

end AliceModem.ScratchPadMap
